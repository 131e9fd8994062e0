import Vsr.Protocol.Invariant

/-!
# Acting keeps the invariant

Whatever a peer does on hearing true messages, there is a later world, in which
nobody else has moved, that fits its new state.
-/

set_option autoImplicit false

namespace Vsr

open Consensus (World QuorumSystem)
open Std (ExtTreeMap)

variable {Op Query Chunk : Type}

/-! ## The log with its compacted part -/

section Whole
variable {decided : List (LogEntry Op)} {p : Peer Op}

theorem whole_append (entry : LogEntry Op) :
    (p.append entry).whole decided = p.whole decided ++ [entry] := by
  simp [Standing.whole, Peer.append]

theorem whole_restore (opNumber : Nat) :
    (p.restore opNumber).whole decided = decided.take opNumber := by
  simp [Standing.whole, Peer.restore, Standing.restoredAt]

theorem take_whole (within : p.logStart ≤ decided.length) {k : Nat} (held : p.logStart ≤ k) :
    (p.whole decided).take k = decided.take p.logStart ++ p.log.take (k - p.logStart) := by
  have length : (decided.take p.logStart).length = p.logStart := by simp [within]
  unfold Standing.whole
  rw [List.take_append, length, List.take_of_length_le (by omega)]

theorem drop_whole (within : p.logStart ≤ decided.length) {k : Nat} (held : p.logStart ≤ k) :
    (p.whole decided).drop k = p.log.drop (k - p.logStart) := by
  have length : (decided.take p.logStart).length = p.logStart := by simp [within]
  unfold Standing.whole
  rw [List.drop_append, length, List.drop_of_length_le (by omega), List.nil_append]

/-- A merge of the end of `L` keeps the log up to where it merges, and takes the
rest from `L`. -/
theorem whole_merge {start : Nat} {entries L : List (LogEntry Op)}
    (within : p.logStart ≤ decided.length) (mergeable : p.Mergeable start entries)
    (isEnd : entries = L.drop start) :
    (p.merge start entries).whole decided =
      (p.whole decided).take (p.keepUpTo start) ++ L.drop (p.keepUpTo start) := by
  have upTo : start ≤ p.keepUpTo start := le_max_left _ _
  rw [take_whole within mergeable.held, isEnd]
  simp only [Standing.whole, Peer.merge, Standing.merged, List.drop_drop, List.append_assoc]
  rw [Nat.add_sub_cancel' upTo]

/-- A merge from the commit number puts the decided prefix before the end of `L`. -/
theorem whole_merge_commit {w : LogWorld Op} {start : Nat} {entries L : List (LogEntry Op)}
    (ok : LogOk w p.toStanding) (mergeable : p.Mergeable start entries)
    (isEnd : entries = L.drop start) (reach : start ≤ p.commitNumber) :
    (p.merge start entries).whole w.decided =
      w.decided.take p.commitNumber ++ L.drop p.commitNumber := by
  have keeps : p.keepUpTo start = p.commitNumber := max_eq_right reach
  rw [whole_merge ok.start_le mergeable isEnd, keeps, ok.agrees]

end Whole

/-! ## Committing and merging keep the counters in order -/

section Logs
variable {config : Config} {w : LogWorld Op}

/-- A log of view `v` holds what is decided in views up to `v`, as far as it
goes. -/
theorem HeldIn.agrees (valid : w.Valid config.quorums) {v k : Nat} {L : List (LogEntry Op)}
    (held : HeldIn w v L) (known : w.KnownBy v k) (within : k ≤ L.length) :
    L.take k = w.decided.take k := by
  obtain ⟨b, isBase, _, isPrefix⟩ := held
  have decided := valid.knownBy_prefix_led known (by simp [isBase])
  have reached := valid.knownBy_length known
  rw [List.prefix_iff_eq_take.mp decided, List.prefix_iff_eq_take.mp isPrefix, List.take_take,
    min_eq_left within, List.length_take, min_eq_left reached]

/-- A log of view `v` stays one when what is decided takes the place of its
start. -/
theorem HeldIn.graft (valid : w.Valid config.quorums) {v k : Nat} {L : List (LogEntry Op)}
    (held : HeldIn w v L) (known : w.KnownBy v k) :
    HeldIn w v (w.decided.take k ++ L.drop k) ∧
      L.length ≤ (w.decided.take k ++ L.drop k).length ∧ L <+: w.decided.take k ++ L.drop k := by
  rcases Nat.le_total k L.length with within | beyond
  · rw [← held.agrees valid known within, List.take_append_drop]
    exact ⟨held, le_rfl, List.prefix_rfl⟩
  · obtain ⟨b, isBase, holds, isPrefix⟩ := held
    have decided := valid.knownBy_prefix_led known (by simp [isBase])
    have reached := valid.knownBy_length known
    rw [List.drop_of_length_le beyond, List.append_nil]
    have longer : L <+: w.decided.take k :=
      List.prefix_of_prefix_length_le isPrefix decided (by simp [reached, beyond])
    exact ⟨⟨b, isBase, holds.trans longer, decided⟩, longer.length_le, longer⟩

theorem HeldIn.complete (valid : w.Valid config.quorums) {v : Nat} {L : List (LogEntry Op)}
    (held : HeldIn w v L) : w.Complete config.quorums L v := by
  obtain ⟨b, isBase, holds, _⟩ := held
  exact (valid.complete v b isBase).longer holds

theorem LogOk.raise {p : Peer Op} (ok : LogOk w p.toStanding) {commitNumber applied : Nat}
    (known : p.status ≠ .recovering → w.KnownBy p.viewNumber commitNumber)
    (reached : commitNumber ≤ w.decided.length) (held : commitNumber ≤ p.opNumber)
    (agrees : (p.whole w.decided).take commitNumber = w.decided.take commitNumber)
    (executes : p.Executes commitNumber applied) :
    LogOk w (p.raise commitNumber applied).toStanding := by
  have start := ok.start
  have done := ok.applied
  refine ⟨?_, ?_, ?_, ?_, ?_, ?_⟩
  · show p.logStart ≤ applied
    rcases executes with same | ⟨_, _, more, _⟩ <;> omega
  · show applied ≤ max p.commitNumber commitNumber
    rcases executes with same | ⟨_, _, _, committed, _⟩ <;> omega
  · exact max_le ok.committed held
  · exact max_le ok.reached reached
  · show (p.whole w.decided).take (max p.commitNumber commitNumber) = _
    rcases le_total p.commitNumber commitNumber with more | less
    · rw [max_eq_right more]
      exact agrees.trans (by simp [Peer.raise, more])
    · rw [max_eq_left less]
      exact ok.agrees.trans (by simp [Peer.raise, less])
  · intro awake
    show w.KnownBy p.viewNumber (max p.commitNumber commitNumber)
    rcases le_total p.commitNumber commitNumber with more | less
    · rw [max_eq_right more]
      exact known awake
    · rw [max_eq_left less]
      exact ok.known awake

theorem opNumber_append (p : Peer Op) (entry : LogEntry Op) :
    (p.append entry).opNumber = p.opNumber + 1 := by
  simp [Standing.opNumber, Peer.append, Nat.add_assoc]

theorem LogOk.append {p : Peer Op} (ok : LogOk w p.toStanding) (entry : LogEntry Op) :
    LogOk w (p.append entry).toStanding where
  start := ok.start
  applied := ok.applied
  committed := by
    rw [opNumber_append]
    exact ok.committed.trans (Nat.le_succ _)
  reached := ok.reached
  agrees := by
    rw [whole_append]
    show List.take p.commitNumber _ = _
    rw [List.take_append_of_le_length (by rw [ok.length_whole]; exact ok.committed)]
    exact ok.agrees
  known := ok.known

theorem LogOk.merge {p : Peer Op} (ok : LogOk w p.toStanding) {start : Nat}
    {entries L : List (LogEntry Op)} (mergeable : p.Mergeable start entries)
    (isEnd : entries = L.drop start) : LogOk w (p.merge start entries).toStanding where
  start := ok.start
  applied := ok.applied
  committed := mergeable.committed
  reached := ok.reached
  agrees := by
    have keeps : p.commitNumber ≤ p.keepUpTo start := le_max_right _ _
    have length : ((p.whole w.decided).take (p.keepUpTo start)).length = p.keepUpTo start := by
      rw [List.length_take, ok.length_whole]
      exact min_eq_left mergeable.within
    rw [whole_merge ok.start_le mergeable isEnd]
    show List.take p.commitNumber _ = w.decided.take p.commitNumber
    rw [List.take_append_of_le_length (by rw [length]; exact keeps), List.take_take,
      min_eq_left keeps, ok.agrees]
  known := ok.known

theorem LogOk.restore {p : Peer Op} {opNumber : Nat} (reached : opNumber ≤ w.decided.length)
    (known : p.status ≠ .recovering → w.KnownBy p.viewNumber opNumber) :
    LogOk w (p.restore opNumber).toStanding where
  start := le_rfl
  applied := le_rfl
  committed := Nat.le_add_right _ _
  reached := reached
  agrees := by
    rw [whole_restore]
    simp [Peer.restore, Standing.restoredAt]
  known := known

/-- The commits a merge brings. -/
theorem LogOk.install (valid : w.Valid config.quorums) {q : Peer Op} (ok : LogOk w q.toStanding)
    {v start commitNumber applied : Nat} {entries L : List (LogEntry Op)}
    (mergeable : q.Mergeable start entries) (isEnd : entries = L.drop start)
    (held : HeldIn w v ((q.merge start entries).whole w.decided))
    (known : w.KnownBy v commitNumber)
    (within : commitNumber ≤ ((q.merge start entries).whole w.decided).length)
    (awake : q.status ≠ .recovering → w.KnownBy q.viewNumber commitNumber)
    (executes : (q.merge start entries).Executes commitNumber applied) :
    LogOk w ((q.merge start entries).raise commitNumber applied).toStanding := by
  have merged := ok.merge mergeable isEnd
  refine merged.raise awake (valid.knownBy_length known) ?_ (held.agrees valid known within)
    executes
  rw [← merged.length_whole]
  exact within

end Logs

/-! ## Acts that leave the log and the view alone -/

/-- What `R` can hear, and what its clients offer. -/
def hears (net : Set (Nat × Message Op Query Chunk)) (R : Nat) (offered : LogEntry Op → Prop)
    (holds : Nat → Nat → Prop) : Inputs Op Query Chunk where
  heard message := message.fromClient = false → (R, message) ∈ net
  offered := offered
  holds := holds

section Steady
variable {config : Config} {w : LogWorld Op} {began : Nat → Nat → LogWorld Op}
  {net : Set (Nat × Message Op Query Chunk)} {R : Nat} {p : Peer Op}
  {said : Set (Nat × Message Op Query Chunk)}
  (speaker : SpeakerOk config w began net R ⟨p, said⟩)
include speaker

/-- A peer that commits, executes or compacts what it holds. -/
theorem SpeakerOk.steady {s : Standing Op} {serving : Option Nat} (view : s.viewNumber = p.viewNumber)
    (lastNormal : s.lastNormalView = p.lastNormalView) (status : s.status = p.status)
    (whole : s.whole w.decided = p.whole w.decided) (ends : s.opNumber = p.opNumber)
    (commits : p.commitNumber ≤ s.commitNumber)
    (asleep : p.status = .recovering → s.commitNumber = p.commitNumber ∧ s.log = [])
    (log : LogOk w s)
    (serves : ∀ checkpoint, serving = some checkpoint → s.logStart ≤ checkpoint ∧ checkpoint ≤ s.applied) :
    SpeakerOk config w began net R ⟨{ p with toStanding := s, serving := serving }, said⟩ where
  config_eq := speaker.config_eq
  selfId_eq := speaker.selfId_eq
  log := log
  view := by
    obtain ⟨here, last, current, changing, safe, member, leads, follows, unstarted⟩ := speaker.view
    constructor <;> simp only [view, status, lastNormal, whole] <;> assumption
  acks :=
    { each := speaker.acks.each
      backed := by
        dsimp only
        rw [view, status, ends]
        exact speaker.acks.backed }
  change :=
    { collected := by
        intro S report found
        dsimp only
        rw [view, status]
        obtain ⟨isChange, primary, inside, reported, origin⟩ :=
          speaker.change.collected S report found
        exact ⟨isChange, primary, inside, reported, origin.imp (fun reach => reach.trans commits) id⟩
      asks := by
        dsimp only
        rw [view, status]
        exact speaker.change.asks }
  fetch :=
    { newState := by
        dsimp only
        rw [view, status, ends]
        exact speaker.fetch.newState
      recovery := by
        dsimp only
        rw [view, status]
        exact speaker.fetch.recovery }
  recovery :=
    { empty := fun isRecovering => (asleep (status ▸ isRecovering)).2
      began := by
        intro isRecovering
        have recovering : p.status = .recovering := status ▸ isRecovering
        dsimp only
        rw [view, (asleep recovering).1]
        exact speaker.recovery.began recovering
      responses := by
        dsimp only
        rw [status]
        exact speaker.recovery.responses }
  serving := serves
  said :=
    { truthful := speaker.said.truthful
      authored := speaker.said.authored
      stamped := by
        dsimp only
        rw [view]
        exact speaker.said.stamped
      spoken := by
        dsimp only
        rw [status]
        exact speaker.said.spoken
      reported := by
        dsimp only
        rw [view, status, whole]
        exact speaker.said.reported }

end Steady

/-! ## Changing views -/

section Views
variable {config : Config} {w w' : LogWorld Op} {began : Nat → Nat → LogWorld Op}
  {net : Set (Nat × Message Op Query Chunk)} {R : Nat}

/-- Putting what is decided before a log twice puts more of it there. -/
theorem graft_graft {decided L : List (LogEntry Op)} {j k : Nat} (first : j ≤ decided.length) :
    decided.take k ++ (decided.take j ++ L.drop j).drop k =
      decided.take (max j k) ++ L.drop (max j k) := by
  have length : (decided.take j).length = j := by simp [first]
  rcases Nat.le_total j k with short | long
  · rw [max_eq_right short, List.drop_append, length, List.drop_of_length_le (by omega),
      List.nil_append, List.drop_drop, Nat.add_sub_cancel' short]
  · have start : decided.take k = (decided.take j).take k := by
      rw [List.take_take, min_eq_left long]
    rw [max_eq_left long, List.drop_append_of_le_length (by omega), ← List.append_assoc, start,
      List.take_append_drop]

/-- What was said stays true when the peer moves on. -/
theorem SaidOk.onward {s s' : Standing Op} {said : Set (Nat × Message Op Query Chunk)}
    (ok : SaidOk config w began net R s said) (later : w.Le w')
    (views : s.viewNumber ≤ s'.viewNumber) (awake : s'.status ≠ .recovering)
    (settled : s'.status = .viewChange → s.viewNumber < s'.viewNumber ∨
      R = config.primaryId s'.viewNumber ∨
      (s'.viewNumber = s.viewNumber ∧ s.status = .viewChange ∧ ∃ k ≤ w.decided.length,
        s'.whole w'.decided = w.decided.take k ++ (s.whole w.decided).drop k)) :
    SaidOk config w' began net R s' said where
  truthful envelope mem := (ok.truthful envelope mem).mono later fun _ mem => mem
  authored := ok.authored
  stamped envelope mem v isStamp := (ok.stamped envelope mem v isStamp).trans views
  spoken recovering := absurd recovering awake
  reported receiver last segment commitNumber mem status backup := by
    rcases settled status with ahead | primary | ⟨view, before, k, short, same⟩
    · have := ok.stamped _ mem s'.viewNumber rfl
      omega
    · exact absurd primary backup
    · rw [view] at mem backup
      obtain ⟨j, within, grafted⟩ := ok.reported receiver last segment commitNumber mem before backup
      have reached := ((ok.truthful _ mem).2.2).reached
      refine ⟨max j k, (max_le within short).trans later.length_decided, ?_⟩
      rw [same, grafted, graft_graft within, later.take_decided (max_le within short),
        LogSegment.whole_later later reached]

/-- A peer that has the log of a view is normal in it. -/
theorem SpeakerOk.enter {p q : Peer Op} {said : Set (Nat × Message Op Query Chunk)}
    (speaker : SpeakerOk config w began net R ⟨p, said⟩) (later : w.Le w')
    (valid : w'.Valid config.quorums) (identity : q.config = config ∧ q.selfId = R)
    (acked : q.acked.length = config.replicas.length) (views : p.viewNumber ≤ q.viewNumber)
    (serving : q.ServingOk) (log : LogOk w' q.toStanding)
    (known : w'.KnownBy q.viewNumber q.commitNumber) (here : w'.view R = q.viewNumber)
    (held : HeldIn w' q.viewNumber (q.whole w'.decided))
    (votes : w'.votes R q.viewNumber = (q.whole w'.decided).length)
    (leads : R = config.primaryId q.viewNumber → q.whole w'.decided = w'.led q.viewNumber)
    (unstarted : ∀ v, R = config.primaryId v → q.viewNumber < v → w'.base v = none) :
    SpeakerOk config w' began net R ⟨q.enterNormal, said⟩ where
  config_eq := identity.1
  selfId_eq := identity.2
  log :=
    { start := log.start
      applied := log.applied
      committed := log.committed
      reached := log.reached
      agrees := log.agrees
      known := fun _ => known }
  view :=
    { here := fun _ => here
      lastNormal := le_rfl
      current := fun _ => rfl
      changing := fun status => by cases status
      safe := fun _ => by
        obtain ⟨b, isBase, holds, isPrefix⟩ := held
        refine World.Safe.of_led valid isBase holds isPrefix votes.le fun x after => ?_
        exact valid.ahead R x (here.trans_lt after)
      member := fun _ => ⟨held, votes⟩
      leads := fun _ => leads
      follows := fun status => by cases status
      unstarted := fun v primary ahead => by
        rcases ahead with ahead | ⟨_, status⟩
        · exact unstarted v primary (here ▸ ahead)
        · cases status }
  acks :=
    { each := by
        show (q.acked.map fun _ => 0).length = config.replicas.length
        rw [List.length_map, acked]
      backed := by
        intro _ _ S k isAcked pos
        replace isAcked : (q.acked.map fun _ => 0)[S]? = some k := isAcked
        simp only [List.getElem?_map, Option.map_eq_some_iff] at isAcked
        obtain ⟨_, _, zero⟩ := isAcked
        omega }
  change :=
    { collected := by
        intro S report found
        simp [Peer.enterNormal, Peer.clear] at found
      asks := by
        intro asked isAsked
        cases isAsked }
  fetch :=
    { newState := by
        intro f v segment commitNumber isFetch
        cases isFetch
      recovery := by
        intro f v state isFetch
        cases isFetch }
  recovery :=
    { empty := fun status => by cases status
      began := fun status => by cases status
      responses := fun status => by cases status }
  serving := serving
  said := speaker.said.onward later views (by simp [Peer.enterNormal])
    (by simp [Peer.enterNormal])

theorem SpeakerOk.unstarted {p : Peer Op} {said : Set (Nat × Message Op Query Chunk)}
    (speaker : SpeakerOk config w began net R ⟨p, said⟩) (awake : p.status ≠ .recovering) {v : Nat}
    (primary : R = config.primaryId v)
    (ahead : p.viewNumber < v ∨ (p.viewNumber = v ∧ p.status = .viewChange)) : w.base v = none := by
  refine speaker.view.unstarted v primary (ahead.imp (fun ahead => ?_) id)
  rw [speaker.view.here awake]
  exact ahead

/-- A peer that leaves its view for the view change to `v`, perhaps with more of
what is decided in the place of the start of its log. -/
theorem SpeakerOk.turn {p q : Peer Op} {said : Set (Nat × Message Op Query Chunk)}
    (speaker : SpeakerOk config w began net R ⟨p, said⟩) (valid : w.Valid config.quorums)
    {v : Nat} (awake : p.status ≠ .recovering)
    (later : p.viewNumber < v ∨ (p.viewNumber = v ∧ p.status = .viewChange))
    (identity : q.config = config ∧ q.selfId = R)
    (acked : q.acked.length = config.replicas.length)
    (lastNormal : q.lastNormalView = p.lastNormalView) (serving : q.ServingOk)
    (log : LogOk w q.toStanding) (known : w.KnownBy p.viewNumber q.commitNumber)
    (whole : ∃ k ≤ w.decided.length,
      q.whole w.decided = w.decided.take k ++ (p.whole w.decided).drop k)
    {catchingUp : Option Nat}
    (asks : ∀ asked, catchingUp = some asked → R ≠ config.primaryId v ∧
      AskOk config w net R v asked) :
    ∃ w', Alone config R w w' ∧ w'.Valid config.quorums ∧
      SpeakerOk config w' began net R ⟨{ q.turnTo v with catchingUp := catchingUp }, said⟩ := by
  have moved : w.view R ≤ v := by
    rw [speaker.view.here awake]
    show p.viewNumber ≤ v
    omega
  have views : p.viewNumber ≤ v := by omega
  have le := World.raise_le moved
  refine ⟨w.raise R v, .raise moved, valid.raise moved, ?_⟩
  exact
    { config_eq := identity.1
      selfId_eq := identity.2
      log :=
        { start := log.start
          applied := log.applied
          committed := log.committed
          reached := log.reached
          agrees := log.agrees
          known := fun _ => (known.mono le).of_le views le_rfl }
      view :=
        { here := fun _ => by simp [World.raise, Peer.turnTo]
          lastNormal := by
            show q.lastNormalView ≤ v
            rw [lastNormal]
            exact speaker.view.lastNormal.trans views
          current := fun status => by rcases status with status | status <;> cases status
          changing := fun _ => by
            have last := speaker.view.lastNormal
            dsimp only at last
            show q.lastNormalView < v
            rw [lastNormal]
            rcases later with later | ⟨same, status⟩
            · omega
            · rw [← same]
              exact speaker.view.changing status
          safe := fun _ => by
            obtain ⟨k, within, grafted⟩ := whole
            show (w.raise R v).Safe config.quorums R q.lastNormalView (q.whole w.decided)
            rw [lastNormal, grafted]
            exact ((speaker.view.safe awake).graft valid within).mono le rfl
          member := fun status => by rcases status with status | status <;> cases status
          leads := fun status => by cases status
          follows := fun status => by cases status
          unstarted := fun v' primary ahead => by
            have ahead : v ≤ v' := by
              rcases ahead with ahead | ⟨same, _⟩
              · simp only [World.raise, Function.update_self] at ahead
                exact ahead.le
              · exact (show v = v' from same).le
            refine speaker.unstarted awake primary ?_
            rcases later with later | ⟨same, status⟩
            · exact .inl (by omega)
            · rcases ahead.lt_or_eq with ahead | rfl
              · exact .inl (by omega)
              · exact .inr ⟨same, status⟩ }
      acks :=
        { each := acked
          backed := fun status => by cases status }
      change :=
        { collected := by
            intro S report found
            simp [Peer.turnTo, Peer.clear] at found
          asks := fun asked isAsked _ =>
            ⟨(asks asked isAsked).2.mono le fun _ mem => mem,
              fun primary => absurd primary (asks asked isAsked).1⟩ }
      fetch :=
        { newState := fun _ _ _ _ isFetch => by cases isFetch
          recovery := fun _ _ _ isFetch => by cases isFetch }
      recovery :=
        { empty := fun status => by cases status
          began := fun status => by cases status
          responses := fun status => by cases status }
      serving := serving
      said := by
        refine speaker.said.onward le views (by simp [Peer.turnTo]) fun _ => ?_
        rcases later with later | ⟨same, status⟩
        · exact .inl later
        · exact .inr (.inr ⟨same.symm, status, whole⟩) }

theorem SpeakerOk.not_fetching {p : Peer Op} {said : Set (Nat × Message Op Query Chunk)}
    (speaker : SpeakerOk config w began net R ⟨p, said⟩) (status : p.status = .normal) :
    p.fetch = none := by
  cases isFetch : p.fetch with
  | none => rfl
  | some f =>
      cases resume : f.resume with
      | newState v segment commitNumber =>
          obtain ⟨_, _, _, waits⟩ := speaker.fetch.newState f v segment commitNumber isFetch resume
          rcases waits with ⟨waits, _⟩ | ⟨waits, _⟩ <;> cases status.symm.trans waits
      | recoveryResponse v state =>
          obtain ⟨recovering, _⟩ := speaker.fetch.recovery f v state isFetch resume
          cases status.symm.trans recovering

/-- A peer whose log grows within its view. -/
theorem SpeakerOk.grow {p q : Peer Op} {said : Set (Nat × Message Op Query Chunk)}
    (speaker : SpeakerOk config w began net R ⟨p, said⟩) (later : w.Le w')
    (valid : w'.Valid config.quorums)
    (before : p.status = .normal ∨ (p.status = .stateTransfer ∧ R ≠ config.primaryId p.viewNumber))
    (identity : q.config = p.config ∧ q.selfId = p.selfId)
    (view : q.viewNumber = p.viewNumber ∧ q.lastNormalView = p.lastNormalView)
    (status : q.status = .normal) (acked : q.acked = p.acked)
    (collected : q.doViewChangeFrom = p.doViewChangeFrom) (fetch : q.fetch = none)
    (serving : q.ServingOk) (log : LogOk w' q.toStanding) (longer : p.opNumber ≤ q.opNumber)
    (here : w'.view R = w.view R) (held : HeldIn w' p.viewNumber (q.whole w'.decided))
    (votes : w'.votes R p.viewNumber = (q.whole w'.decided).length)
    (leads : R = config.primaryId p.viewNumber → q.whole w'.decided = w'.led p.viewNumber)
    (unstarted : ∀ v, w'.base v = w.base v) :
    SpeakerOk config w' began net R ⟨q, said⟩ := by
  have inView : p.status = .normal ∨ p.status = .stateTransfer := before.imp id And.left
  have awake : p.status ≠ .recovering := by
    rcases inView with status | status <;> simp [status]
  have moved : w'.view R = p.viewNumber := here.trans (speaker.view.here awake)
  have last : p.lastNormalView = p.viewNumber := speaker.view.current inView
  exact
    { config_eq := identity.1.trans speaker.config_eq
      selfId_eq := identity.2.trans speaker.selfId_eq
      log := log
      view :=
        { here := fun _ => moved.trans view.1.symm
          lastNormal := by
            show q.lastNormalView ≤ q.viewNumber
            omega
          current := fun _ => by
            show q.lastNormalView = q.viewNumber
            omega
          changing := fun change => by cases status.symm.trans change
          safe := fun _ => by
            show w'.Safe config.quorums R q.lastNormalView (q.whole w'.decided)
            rw [view.2, last]
            obtain ⟨b, isBase, holds, isPrefix⟩ := held
            refine World.Safe.of_led valid isBase holds isPrefix votes.le fun x after => ?_
            exact valid.ahead R x (moved.trans_lt after)
          member := fun _ => by
            dsimp only
            rw [view.1]
            exact ⟨held, votes⟩
          leads := fun _ => by
            dsimp only
            rw [view.1]
            exact leads
          follows := fun transfer => by cases status.symm.trans transfer
          unstarted := fun v primary ahead => by
            rw [unstarted v]
            refine speaker.view.unstarted v primary (.inl ?_)
            rcases ahead with ahead | ⟨_, change⟩
            · exact here ▸ ahead
            · cases status.symm.trans change }
      acks :=
        { each := by
            dsimp only
            rw [acked]
            exact speaker.acks.each
          backed := by
            intro _ primary S k
            dsimp only at primary ⊢
            rw [view.1] at primary
            rw [acked, view.1]
            intro isAcked pos
            have normal := before.resolve_right fun transfer => transfer.2 primary
            exact (speaker.acks.backed normal primary S k isAcked pos).imp
              (fun own => ⟨own.1, own.2.trans longer⟩) id }
      change :=
        { collected := by
            intro S report found
            dsimp only at found
            rw [collected] at found
            have change := (speaker.change.collected S report found).1
            rcases inView with status | status <;> cases status.symm.trans change
          asks := fun _ _ change => by cases status.symm.trans change }
      fetch :=
        { newState := fun f _ _ _ isFetch => by cases fetch.symm.trans isFetch
          recovery := fun f _ _ isFetch => by cases fetch.symm.trans isFetch }
      recovery :=
        { empty := fun recovering => by cases status.symm.trans recovering
          began := fun recovering => by cases status.symm.trans recovering
          responses := fun recovering => by cases status.symm.trans recovering }
      serving := serving
      said := by
        refine speaker.said.onward later view.1.ge ?_ fun change => ?_
        · intro recovering
          cases status.symm.trans recovering
        · cases status.symm.trans change }

end Views

/-! ## Each act -/

/-- After an act of `R` there is a world for its new state. -/
def Fits (config : Config) (w : LogWorld Op) (began : Nat → Nat → LogWorld Op)
    (net : Set (Nat × Message Op Query Chunk)) (R : Nat) (s : Speaker Op Query Chunk) : Prop :=
  ∃ w', Alone config R w w' ∧ w'.Valid config.quorums ∧ SpeakerOk config w' began net R s

section Acts
variable {config : Config} {w : LogWorld Op} {began : Nat → Nat → LogWorld Op}
  {net : Set (Nat × Message Op Query Chunk)} {R : Nat} {p : Peer Op}
  {said : Set (Nat × Message Op Query Chunk)} {offered : LogEntry Op → Prop} {holds : Nat → Nat → Prop}

theorem SpeakerOk.isPrimary_iff (speaker : SpeakerOk config w began net R ⟨p, said⟩) :
    p.isPrimary ↔ R = config.primaryId p.viewNumber := by
  unfold Peer.isPrimary Peer.primaryId
  rw [show p.selfId = R from speaker.selfId_eq, show p.config = config from speaker.config_eq]

theorem started_base (messages : ∀ envelope ∈ net, MessageOk config w net began envelope) {v : Nat}
    (started : (hears net R offered holds).Started v) : w.base v ≠ none := by
  rcases started with ⟨opNumber, entry, commitNumber, heard⟩ | ⟨commitNumber, heard⟩ |
    ⟨segment, commitNumber, heard⟩
  · exact (messages _ (heard rfl)).1
  · exact (messages _ (heard rfl)).1
  · obtain ⟨_, _, b, isBase, _⟩ := messages _ (heard rfl)
    simp [isBase]

theorem commits_known (messages : ∀ envelope ∈ net, MessageOk config w net began envelope)
    {v commitNumber : Nat} (told : (hears net R offered holds).Commits v commitNumber) :
    w.KnownBy v commitNumber := by
  rcases told with ⟨opNumber, entry, told, heard, le⟩ | ⟨told, heard, le⟩
  · exact (messages _ (heard rfl)).2.1.of_le le_rfl le
  · exact (messages _ (heard rfl)).2.of_le le_rfl le

variable (speaker : SpeakerOk config w began net R ⟨p, said⟩)
  (valid : w.Valid config.quorums)
  (messages : ∀ envelope ∈ net, MessageOk config w net began envelope)
include speaker valid messages

omit valid in
theorem sent_ok {segment : LogSegment Op} {commitNumber : Nat}
    (sent : (hears net R offered holds).Sent p p.viewNumber segment commitNumber) :
    NewStateOk config w net R p.viewNumber segment commitNumber := by
  rcases sent with ⟨replicaId, heard⟩ | ⟨f, isFetch, resume⟩
  · exact messages _ (heard rfl)
  · exact (speaker.fetch.newState f _ segment commitNumber isFetch resume).2.2.1

omit valid messages in
/-- The peer a fetched checkpoint leaves. -/
theorem fetched_ok {q : Peer Op} {segment : LogSegment Op} {commitNumber : Nat}
    (fetched : p.AtCheckpoint q (.newState p.viewNumber segment commitNumber)) :
    LogOk w q.toStanding ∧ q.ServingOk ∧
      (q = p ∨ (q = p.restore segment.start ∧
        p.Resumes (.newState p.viewNumber segment commitNumber) ∧ segment.start ≤ commitNumber)) := by
  rcases fetched with rfl | ⟨beyond, rfl, f, isFetch, resume⟩
  · exact ⟨speaker.log, speaker.serving, .inl rfl⟩
  · obtain ⟨_, ⟨k, base⟩, ⟨⟨L, carries, _⟩, _⟩, _⟩ :=
      speaker.fetch.newState f _ segment commitNumber isFetch resume
    have start : segment.start = k := by simp [LogSegment.start, base, LogBase.start]
    have reach := carries.checkpoint k base
    have known := carries.knows.known.of_le le_rfl (start ▸ reach)
    refine ⟨.restore ?_ fun _ => known, ?_, .inr ⟨rfl, ⟨f, isFetch, resume⟩, start ▸ reach⟩⟩
    · exact (start ▸ reach : segment.start ≤ commitNumber).trans carries.knows.reached
    · intro checkpoint isServing
      cases isServing

/-! ### Normal operation -/

omit messages in
theorem fits_prepare (entry : LogEntry Op) (status : p.status = .normal) (primary : p.isPrimary) :
    Fits config w began net R ⟨p.append entry, said⟩ := by
  rw [speaker.isPrimary_iff] at primary
  have leads : p.whole w.decided = w.led p.viewNumber := speaker.view.leads status primary
  obtain ⟨⟨b, isBase, holds, isPrefix⟩, votes⟩ := speaker.view.member (.inl status)
  dsimp only at isBase holds isPrefix votes
  have here : w.view R = p.viewNumber := speaker.view.here (by simp [status])
  have grown : w.led p.viewNumber <+: p.whole w.decided ++ [entry] := by
    rw [leads]
    exact List.prefix_append _ _
  let led := w.lead p.viewNumber (p.whole w.decided ++ [entry])
  have isLed : led.led p.viewNumber = p.whole w.decided ++ [entry] := by
    simp [led, World.lead]
  have more : led.votes R p.viewNumber ≤ (p.whole w.decided ++ [entry]).length := by
    show w.votes R p.viewNumber ≤ _
    rw [votes, List.length_append]
    omega
  have alone : Alone config R w (led.vote R p.viewNumber (p.whole w.decided ++ [entry]).length) :=
    (Alone.lead grown primary).trans (.vote more here)
  have validVote := (Consensus.World.Valid.lead grown valid (by simp [isBase])).vote more here
    (by rw [isLed])
  refine ⟨_, alone, validVote, ?_⟩
  have whole : (p.append entry).whole w.decided = p.whole w.decided ++ [entry] :=
    whole_append entry
  refine speaker.grow alone.later validVote (.inl status) ⟨rfl, rfl⟩ ⟨rfl, rfl⟩ status rfl rfl
    (speaker.not_fetching status) speaker.serving ((speaker.log.append entry).mono alone.later) ?_
    rfl ?_ ?_ ?_ fun _ => rfl
  · rw [opNumber_append]
    exact Nat.le_succ _
  · show HeldIn _ _ ((p.append entry).whole w.decided)
    rw [whole]
    exact ⟨b, isBase, holds.trans (List.prefix_append _ _), by
      show _ <+: led.led p.viewNumber
      rw [isLed]⟩
  · show _ = ((p.append entry).whole w.decided).length
    rw [whole]
    simp [World.vote]
  · intro _
    show (p.append entry).whole w.decided = led.led p.viewNumber
    rw [whole, isLed]

omit messages in
/-- A peer takes up more of the log of its view. -/
theorem fits_longer {q : Peer Op}
    (before : p.status = .normal ∨ (p.status = .stateTransfer ∧ R ≠ config.primaryId p.viewNumber))
    (backup : R ≠ config.primaryId p.viewNumber)
    (identity : q.config = p.config ∧ q.selfId = p.selfId)
    (view : q.viewNumber = p.viewNumber ∧ q.lastNormalView = p.lastNormalView)
    (status : q.status = .normal) (acked : q.acked = p.acked)
    (collected : q.doViewChangeFrom = p.doViewChangeFrom) (fetch : q.fetch = none)
    (serving : q.ServingOk) (log : LogOk w q.toStanding) (longer : p.opNumber ≤ q.opNumber)
    (held : HeldIn w p.viewNumber (q.whole w.decided)) :
    Fits config w began net R ⟨q, said⟩ := by
  have inView : p.status = .normal ∨ p.status = .stateTransfer := before.imp id And.left
  have here : w.view R = p.viewNumber := by
    refine speaker.view.here ?_
    rcases inView with status | status <;> simp [status]
  have votes : w.votes R p.viewNumber = (p.whole w.decided).length :=
    (speaker.view.member inView).2
  have more : w.votes R p.viewNumber ≤ (q.whole w.decided).length := by
    have length : (p.whole w.decided).length = p.opNumber := speaker.log.length_whole
    rw [votes, log.length_whole, length]
    exact longer
  have validVote := valid.vote more here (by
    obtain ⟨_, _, _, isPrefix⟩ := held
    exact isPrefix.length_le)
  have later := World.vote_le more here
  refine ⟨_, .vote more here, validVote, ?_⟩
  refine speaker.grow later validVote before identity view status acked collected fetch serving
    (log.mono later) longer rfl (held.mono later) ?_ (fun primary => absurd primary backup)
    fun _ => rfl
  show (w.vote R p.viewNumber (q.whole w.decided).length).votes R p.viewNumber = _
  simp [World.vote]

theorem fits_accept {entry : LogEntry Op} {commitNumber : Nat} (status : p.status = .normal)
    (backup : ¬p.isPrimary)
    (heard : (hears net R offered holds).heard
      (.prepare p.viewNumber (p.opNumber + 1) entry commitNumber)) :
    Fits config w began net R ⟨p.append entry, said⟩ := by
  rw [speaker.isPrimary_iff] at backup
  obtain ⟨_, _, _, found⟩ := messages _ (heard rfl)
  obtain ⟨b, isBase, holds, isPrefix⟩ := (speaker.view.member (.inl status)).1
  dsimp only at isBase holds isPrefix
  refine fits_longer speaker valid (.inl status) backup ⟨rfl, rfl⟩ ⟨rfl, rfl⟩ status rfl rfl
    (speaker.not_fetching status) speaker.serving (speaker.log.append entry) ?_ ?_
  · rw [opNumber_append]
    exact Nat.le_succ _
  · refine ⟨b, isBase, ?_, ?_⟩
    · rw [whole_append]
      exact holds.trans (List.prefix_append _ _)
    · have length : (p.whole w.decided).length = p.opNumber := speaker.log.length_whole
      obtain ⟨rest, grown⟩ := isPrefix
      rw [Nat.add_sub_cancel, ← grown, ← length, List.getElem?_append_right le_rfl, Nat.sub_self]
        at found
      rw [whole_append, ← grown]
      cases rest with
      | nil => cases found
      | cons first rest =>
          cases found
          exact ⟨rest, by simp⟩

omit messages in
theorem fits_fallBehind (status : p.status = .normal) (backup : ¬p.isPrimary) :
    Fits config w began net R ⟨{ p with status := .stateTransfer }, said⟩ := by
  rw [speaker.isPrimary_iff] at backup
  have awake : p.status ≠ .recovering := by simp [status]
  refine ⟨w, .refl config R w, valid, ?_⟩
  exact
    { config_eq := speaker.config_eq
      selfId_eq := speaker.selfId_eq
      log :=
        { start := speaker.log.start
          applied := speaker.log.applied
          committed := speaker.log.committed
          reached := speaker.log.reached
          agrees := speaker.log.agrees
          known := fun _ => speaker.log.known awake }
      view :=
        { here := fun _ => speaker.view.here awake
          lastNormal := speaker.view.lastNormal
          current := fun _ => speaker.view.current (.inl status)
          changing := fun change => by cases change
          safe := fun _ => speaker.view.safe awake
          member := fun _ => speaker.view.member (.inl status)
          leads := fun normal => by cases normal
          follows := fun _ => backup
          unstarted := fun v primary ahead => by
            refine speaker.view.unstarted v primary (.inl ?_)
            rcases ahead with ahead | ⟨_, change⟩
            · exact ahead
            · cases change }
      acks :=
        { each := speaker.acks.each
          backed := fun normal => by cases normal }
      change :=
        { collected := fun S report found => by
            cases status.symm.trans (speaker.change.collected S report found).1
          asks := fun _ _ change => by cases change }
      fetch :=
        { newState := fun f _ _ _ isFetch => by cases (speaker.not_fetching status).symm.trans isFetch
          recovery := fun f _ _ isFetch => by cases (speaker.not_fetching status).symm.trans isFetch }
      recovery :=
        { empty := fun recovering => by cases recovering
          began := fun recovering => by cases recovering
          responses := fun recovering => by cases recovering }
      serving := speaker.serving
      said := by
        refine speaker.said.onward (.refl w) le_rfl (by simp) fun change => by cases change }

omit messages in
/-- Commits and executes what the log of its view holds. -/
theorem SpeakerOk.commit {commitNumber applied : Nat} (status : p.status = .normal)
    (known : w.KnownBy p.viewNumber commitNumber) (held : commitNumber ≤ p.opNumber)
    (executes : p.Executes commitNumber applied) :
    SpeakerOk config w began net R ⟨p.raise commitNumber applied, said⟩ := by
  have awake : p.status ≠ .recovering := by simp [status]
  have length : (p.whole w.decided).length = p.opNumber := speaker.log.length_whole
  have log := LogOk.raise speaker.log (fun _ => known) (valid.knownBy_length known) held
    ((speaker.view.member (.inl status)).1.agrees valid known (by rw [length]; exact held)) executes
  refine speaker.steady rfl rfl rfl rfl rfl (le_max_left _ _)
    (fun recovering => absurd recovering awake) log ?_
  intro checkpoint isServing
  obtain ⟨start, done⟩ := speaker.serving checkpoint isServing
  refine ⟨start, done.trans ?_⟩
  rcases executes with same | ⟨_, _, more, _⟩
  · exact same.ge
  · exact more

theorem fits_commit {commitNumber applied : Nat} (status : p.status = .normal)
    (told : (hears net R offered holds).Commits p.viewNumber commitNumber)
    (held : commitNumber ≤ p.opNumber) (executes : p.Executes commitNumber applied) :
    Fits config w began net R ⟨p.raise commitNumber applied, said⟩ :=
  ⟨w, .refl config R w, valid,
    speaker.commit valid status (commits_known messages told) held executes⟩

omit messages in
theorem fits_count {replicaId opNumber : Nat} (held : opNumber ≤ p.opNumber)
    (heard : (replicaId = p.selfId ∧ holds p.viewNumber opNumber) ∨ ∃ acked,
      (hears net R offered holds).heard (.prepareOk p.viewNumber acked replicaId) ∧ opNumber ≤ acked) :
    Fits config w began net R ⟨{ p with acked := p.acked.set replicaId opNumber }, said⟩ := by
  refine ⟨w, .refl config R w, valid, { speaker with acks := ⟨?_, fun normal primary S k => ?_⟩ }⟩
  · dsimp only
    rw [List.length_set]
    exact speaker.acks.each
  · dsimp only
    rw [List.getElem?_set]
    split
    · next same =>
      split
      · intro isAcked pos
        cases isAcked
        subst same
        rcases heard with own | ⟨acked, heard, reach⟩
        · exact .inl ⟨own.1.trans speaker.selfId_eq, held⟩
        · exact .inr ⟨R, acked, reach, heard rfl⟩
      · intro isAcked
        cases isAcked
    · exact speaker.acks.backed normal primary S k

omit messages in
theorem fits_execute {applied : Nat} (executes : p.Executes p.commitNumber applied) :
    Fits config w began net R ⟨{ p with applied := applied }, said⟩ := by
  have start : p.logStart ≤ p.applied := speaker.log.start
  have done : p.applied ≤ p.commitNumber := speaker.log.applied
  have bounds : p.applied ≤ applied ∧ applied ≤ p.commitNumber := by
    rcases executes with same | ⟨_, _, more, committed, _⟩ <;> omega
  refine ⟨w, .refl config R w, valid, ?_⟩
  refine speaker.steady (s := { p.toStanding with applied := applied }) rfl rfl rfl rfl rfl le_rfl
    (fun recovering => ⟨rfl, speaker.recovery.empty recovering⟩) ?_ ?_
  · exact ⟨start.trans bounds.1, bounds.2, speaker.log.committed, speaker.log.reached,
      speaker.log.agrees, speaker.log.known⟩
  · intro checkpoint isServing
    obtain ⟨start, done⟩ := speaker.serving checkpoint isServing
    exact ⟨start, done.trans bounds.1⟩

omit messages in
theorem fits_compact {opNumber : Nat} (held : p.logStart < opNumber) (done : opNumber ≤ p.applied)
    (within : opNumber - p.logStart ≤ p.log.length)
    (kept : ∀ checkpoint, p.serving = some checkpoint → opNumber ≤ checkpoint) :
    Fits config w began net R
      ⟨{ p with log := p.log.drop (opNumber - p.logStart), logStart := opNumber }, said⟩ := by
  obtain ⟨start, applied, committed, reached, agrees, known⟩ := speaker.log
  dsimp only at start applied committed reached agrees known
  have short : p.logStart ≤ w.decided.length := by omega
  let s : Standing Op :=
    { p.toStanding with log := p.log.drop (opNumber - p.logStart), logStart := opNumber }
  have whole : s.whole w.decided = p.whole w.decided := by
    have start : w.decided.take opNumber = (p.whole w.decided).take opNumber := by
      have := congrArg (List.take opNumber) agrees
      rw [List.take_take, List.take_take, min_eq_left (by omega)] at this
      exact this.symm
    show w.decided.take opNumber ++ p.log.drop (opNumber - p.logStart) = _
    rw [start, ← drop_whole short held.le, List.take_append_drop]
  have ends : s.opNumber = p.opNumber := by
    show opNumber + (p.log.drop (opNumber - p.logStart)).length = p.logStart + p.log.length
    rw [List.length_drop]
    omega
  refine ⟨w, .refl config R w, valid, ?_⟩
  refine speaker.steady (s := s) rfl rfl rfl whole ends le_rfl (fun recovering => ?_) ?_ ?_
  · have empty : p.log = [] := speaker.recovery.empty recovering
    rw [empty] at within
    simp only [List.length_nil] at within
    omega
  · refine ⟨done, applied, ?_, reached, ?_, known⟩
    · rw [ends]
      exact committed
    · rw [whole]
      exact agrees
  · intro checkpoint isServing
    exact ⟨kept checkpoint isServing, (speaker.serving checkpoint isServing).2⟩

end Acts

end Vsr
