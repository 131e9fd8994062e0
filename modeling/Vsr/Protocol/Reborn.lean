import Vsr.Protocol.System
import Vsr.Protocol.Restart

/-!
# Coming back keeps the invariant

A peer that comes back from a crash stands where it stood in the state its disk
holds, with the state machine in the place of what it has applied; one that lost
its disk, or was still recovering, starts a recovery.
-/

set_option autoImplicit false

namespace Vsr

open Consensus (World QuorumSystem)
open Std (ExtTreeMap)

variable {Op Query Chunk : Type}

/-- What a disk holds is as much as a peer may come back with. -/
structure DiskOk (w : LogWorld Op) (state : PersistentState Op) (whole : List (LogEntry Op)) :
    Prop where
  start : state.logStart ≤ state.commitNumber
  knows : Knows w state.viewNumber whole state.commitNumber

section Restart
variable {config : Config} {w : LogWorld Op} {began : Nat → Nat → LogWorld Op}
  {net : Set (Nat × Message Op Query Chunk)} {R : Nat} {p : Peer Op}
  {said : Set (Nat × Message Op Query Chunk)}
  (speaker : SpeakerOk config w began net R ⟨p, said⟩) (valid : w.Valid config.quorums)
  {state : PersistentState Op}
  (same : { p.persistentState with commitNumber := state.commitNumber } = state)
  (kept : state.recovering = false) (disk : DiskOk w state (p.whole w.decided))
  {applied executed nonce : Nat} (reached : state.logStart ≤ applied)
  (known : w.KnownBy state.viewNumber applied)
  (bounds : executed = applied ∨ (applied ≤ executed ∧
    executed ≤ (Peer.reborn R config applied state nonce).commitNumber))
include speaker valid same kept disk reached known bounds

omit disk bounds in
/-- The log a peer comes back with is the one it had, but for what is decided. -/
theorem reborn_whole : ∃ k ≤ w.decided.length, w.KnownBy state.viewNumber k ∧
    (Peer.reborn R config applied state nonce).whole w.decided =
      w.decided.take k ++ (p.whole w.decided).drop k := by
  have start : state.logStart = p.logStart := (congrArg (·.logStart) same).symm
  have log : state.log = p.log := (congrArg (·.log) same).symm
  by_cases ahead : state.commitNumber < applied
  · refine ⟨applied, valid.knownBy_length known, known, ?_⟩
    rw [drop_whole speaker.log.start_le (start ▸ reached), ← log]
    show (Peer.reborn R config applied state nonce).toStanding.whole w.decided = _
    simp [Peer.reborn, Standing.whole, kept, ahead, start]
  · refine ⟨0, Nat.zero_le _, .inl rfl, ?_⟩
    simp [Peer.reborn, Standing.whole, kept, ahead, start, log]

theorem reborn_log : LogOk w
    ({ Peer.reborn R config applied state nonce with applied := executed } : Peer Op).toStanding := by
  have start : state.logStart = p.logStart := (congrArg (·.logStart) same).symm
  have view : state.viewNumber = p.viewNumber := (congrArg (·.viewNumber) same).symm
  have log : state.log = p.log := (congrArg (·.log) same).symm
  have length : (p.whole w.decided).length = p.opNumber := speaker.log.length_whole
  have within := disk.knows.within
  have agrees := disk.knows.agrees
  have below := disk.start
  rw [length] at within
  by_cases ahead : state.commitNumber < applied
  · have commit : (Peer.reborn R config applied state nonce).commitNumber = applied := by
      simp [Peer.reborn, ahead]
    have isStart : (Peer.reborn R config applied state nonce).logStart = applied := by
      simp [Peer.reborn, ahead]
    have isExecuted : executed = applied := by omega
    subst isExecuted
    refine ⟨isStart.le, commit.ge, ?_, ?_, ?_, fun _ => ?_⟩
    · show (Peer.reborn R config executed state nonce).commitNumber ≤
        (Peer.reborn R config executed state nonce).logStart + _
      omega
    · exact commit.le.trans (valid.knownBy_length known)
    · show ((Peer.reborn R config executed state nonce).whole w.decided).take
        (Peer.reborn R config executed state nonce).commitNumber =
        w.decided.take (Peer.reborn R config executed state nonce).commitNumber
      have reach := valid.knownBy_length known
      rw [commit]
      unfold Standing.whole
      rw [isStart, List.take_append_of_le_length (by simp [reach]), List.take_take, min_self]
    · show w.KnownBy state.viewNumber (Peer.reborn R config executed state nonce).commitNumber
      rw [commit]
      exact known
  · have commit : (Peer.reborn R config applied state nonce).commitNumber = state.commitNumber := by
      simp [Peer.reborn, kept, ahead]
    have isStart : (Peer.reborn R config applied state nonce).logStart = p.logStart := by
      simp [Peer.reborn, kept, ahead, start]
    have isLog : (Peer.reborn R config applied state nonce).log = p.log := by
      simp [Peer.reborn, kept, ahead, log]
    rw [commit] at bounds
    refine ⟨?_, ?_, ?_, ?_, ?_, fun _ => ?_⟩
    · show (Peer.reborn R config applied state nonce).logStart ≤ executed
      omega
    · show executed ≤ (Peer.reborn R config applied state nonce).commitNumber
      omega
    · show (Peer.reborn R config applied state nonce).commitNumber ≤
        (Peer.reborn R config applied state nonce).logStart +
          (Peer.reborn R config applied state nonce).log.length
      rw [isStart, isLog, commit]
      exact within
    · exact commit.le.trans disk.knows.reached
    · show ((Peer.reborn R config applied state nonce).whole w.decided).take
        (Peer.reborn R config applied state nonce).commitNumber =
        w.decided.take (Peer.reborn R config applied state nonce).commitNumber
      unfold Standing.whole
      rw [isStart, isLog, commit]
      exact agrees
    · show w.KnownBy state.viewNumber (Peer.reborn R config applied state nonce).commitNumber
      rw [commit]
      exact disk.knows.known

/-- A replica that comes back with its disk fits in. -/
theorem fits_restart {p' : Peer Op}
    (takesUp : Peer.TakesUp { Peer.reborn R config applied state nonce with applied := executed }
      state p') :
    Fits config w began net R ⟨p', said⟩ := by
  have view : state.viewNumber = p.viewNumber := (congrArg (·.viewNumber) same).symm
  have last : state.lastNormalView = p.lastNormalView := (congrArg (·.lastNormalView) same).symm
  have awake : p.status ≠ .recovering := by
    have : decide (p.status = .recovering) = false := (congrArg (·.recovering) same).trans kept
    simpa using this
  have lastNormal : (Peer.reborn R config applied state nonce).lastNormalView =
      p.lastNormalView := by
    simp [Peer.reborn, kept, last]
  have log : LogOk w
      ({ Peer.reborn R config applied state nonce with applied := executed } : Peer Op).toStanding :=
    reborn_log speaker valid same kept disk reached known bounds
  obtain ⟨k, within, knownStart, whole⟩ : ∃ k ≤ w.decided.length, w.KnownBy state.viewNumber k ∧
      (Peer.reborn R config applied state nonce).whole w.decided =
        w.decided.take k ++ (p.whole w.decided).drop k :=
    reborn_whole speaker valid same kept reached known
  set q : Peer Op := { Peer.reborn R config applied state nonce with applied := executed } with isQ
  replace whole : q.whole w.decided = w.decided.take k ++ (p.whole w.decided).drop k := whole
  have isView : q.viewNumber = p.viewNumber := view
  have knownCommit : w.KnownBy p.viewNumber q.commitNumber := by
    rw [← isView]
    refine log.known ?_
    show (if state.recovering = true then Status.recovering else .normal) ≠ .recovering
    simp [kept]
  have acked : q.acked.length = config.replicas.length := List.length_replicate
  have serving : q.ServingOk := fun _ isServing => by cases isServing
  have bound := speaker.view.lastNormal
  dsimp only at bound
  rcases takesUp with ⟨changing, rfl⟩ | ⟨settled, _, rfl⟩ | ⟨settled, backup, rfl⟩
  · have change : p.status = .viewChange := by
      cases status : p.status with
      | viewChange => rfl
      | recovering => exact absurd status awake
      | normal =>
          have : p.lastNormalView = p.viewNumber := speaker.view.current (.inl status)
          omega
      | stateTransfer =>
          have : p.lastNormalView = p.viewNumber := speaker.view.current (.inr status)
          omega
    exact speaker.turn valid awake (.inr ⟨view.symm, change⟩) ⟨rfl, rfl⟩ acked lastNormal serving log
      knownCommit ⟨k, within, whole⟩ fun asked (isAsked : none = some asked) => by cases isAsked
  · exact speaker.turn valid awake (.inl (by omega)) ⟨rfl, rfl⟩ acked lastNormal serving log
      knownCommit ⟨k, within, whole⟩ fun asked (isAsked : none = some asked) => by cases isAsked
  · have inView : p.status = .normal ∨ p.status = .stateTransfer := by
      cases status : p.status with
      | viewChange =>
          have : p.lastNormalView < p.viewNumber := speaker.view.changing status
          omega
      | recovering => exact absurd status awake
      | normal => exact .inl rfl
      | stateTransfer => exact .inr rfl
    have here : w.view R = p.viewNumber := speaker.view.here awake
    obtain ⟨held, votes⟩ := speaker.view.member inView
    dsimp only at held votes
    obtain ⟨isHeld, longer, _⟩ := held.graft valid (view ▸ knownStart)
    rw [← whole] at isHeld longer
    have more : w.votes R p.viewNumber ≤ (q.whole w.decided).length := votes.le.trans longer
    have validVote := valid.vote more here (by
      obtain ⟨_, _, _, isPrefix⟩ := isHeld
      exact isPrefix.length_le)
    have later := World.vote_le more here
    have isEntered : q.enterNormal = q := by
      have current : q.lastNormalView = q.viewNumber := by
        rw [isView]
        exact lastNormal.trans (by omega)
      have zeros : (q.acked.map fun _ => 0) = q.acked := by
        show (List.replicate _ 0).map (fun _ => 0) = List.replicate _ 0
        rw [List.map_replicate]
      have normal : q.status = .normal := by
        show (if state.recovering = true then Status.recovering else .normal) = .normal
        simp [kept]
      unfold Peer.enterNormal
      rw [zeros, ← current, ← normal]
      rfl
    rw [← isEntered]
    refine ⟨_, .vote more here, validVote, ?_⟩
    refine speaker.enter later validVote ⟨rfl, rfl⟩ acked isView.ge serving (log.mono later) ?_ ?_ ?_
      ?_ ?_ fun v primary ahead => ?_
    · rw [isView]
      exact knownCommit.mono later
    · exact here.trans isView.symm
    · rw [isView]
      exact isHeld.mono later
    · rw [isView]
      show (w.vote R p.viewNumber (q.whole w.decided).length).votes R p.viewNumber = _
      simp only [World.vote, Function.update_self]
    · intro primary
      exact absurd primary backup
    · exact speaker.unstarted awake primary (.inl (isView ▸ ahead))

end Restart

/-! ## Starting a recovery -/

/-- A peer that has forgotten everything but what its state machine holds. -/
structure Blank (config : Config) (R nonce : Nat) (p : Peer Op) : Prop where
  config_eq : p.config = config
  selfId_eq : p.selfId = R
  status : p.status = .recovering
  lastNormal : p.lastNormalView ≤ p.viewNumber
  empty : p.log = []
  counters : p.logStart = p.applied ∧ p.applied = p.commitNumber
  acked : p.acked.length = config.replicas.length
  reports : p.doViewChangeFrom = ∅
  fetch : p.fetch = none
  serving : p.serving = none
  isNonce : p.recoveryNonce = nonce
  responses : p.recoveryResponses = ∅

section Recover
variable {config : Config} {w : LogWorld Op} {began : Nat → Nat → LogWorld Op}
  {net : Set (Nat × Message Op Query Chunk)} {system : Nat → Speaker Op Query Chunk}

/-- The worlds the recoveries began in, with one more. -/
def beginning (began : Nat → Nat → LogWorld Op) (R nonce : Nat) (w : LogWorld Op) :
    Nat → Nat → LogWorld Op :=
  Function.update began R (Function.update (began R) nonce w)

theorem beginning_other {R S nonce nonce' : Nat} (other : S ≠ R ∨ nonce' ≠ nonce) :
    beginning began R nonce w S nonce' = began S nonce' := by
  unfold beginning
  rcases eq_or_ne S R with rfl | notSame
  · rw [Function.update_self, Function.update_of_ne (other.resolve_left (by simp))]
  · rw [Function.update_of_ne notSame]

/-- What was told before a recovery began does not mention it. -/
theorem MessageOk.before {R nonce : Nat} {envelope : Nat × Message Op Query Chunk}
    (ok : MessageOk config w net began envelope)
    (fresh : ∀ receiver asked, (receiver, .recovery R nonce asked) ∉ net)
    (unsaid : ∀ receiver asked, envelope ≠ (receiver, .recovery R nonce asked)) :
    MessageOk config w net (beginning began R nonce w) envelope := by
  obtain ⟨receiver, message⟩ := envelope
  cases message with
  | recovery S nonce' v =>
      have other : S ≠ R ∨ nonce' ≠ nonce := by
        by_contra same
        push Not at same
        obtain ⟨rfl, rfl⟩ := same
        exact unsaid receiver v rfl
      refine ⟨ok.1, ?_⟩
      rw [beginning_other other]
      exact ok.2
  | recoveryResponse v nonce' responder state =>
      obtain ⟨inside, notSelf, ⟨asker, asked, sent⟩, seen, told⟩ := ok
      have other : receiver ≠ R ∨ nonce' ≠ nonce := by
        by_contra same
        push Not at same
        obtain ⟨rfl, rfl⟩ := same
        exact fresh asker asked sent
      refine ⟨inside, notSelf, ⟨asker, asked, sent⟩, ?_⟩
      rw [beginning_other other]
      exact ⟨seen, told⟩
  | _ => exact ok

/-- A replica starts a recovery, having said no more than `said`. -/
theorem SystemOk.recover (ok : SystemOk config w began net system) {R nonce : Nat}
    (inside : R < config.replicas.length) {p : Peer Op}
    {said : Set (Nat × Message Op Query Chunk)} (blank : Blank config R nonce p)
    (less : said ⊆ (system R).said)
    (sent : ∀ envelope ∈ net, envelope.2.stamp ≠ none → envelope ∈ said ∨
      ∃ S < config.replicas.length, S ≠ R ∧ envelope ∈ (system S).said)
    (fresh : ∀ receiver asked, (receiver, .recovery R nonce asked) ∉ net)
    (unsaid : ∀ receiver asked, (receiver, .recovery R nonce asked) ∉ said)
    (view : w.view R ≤ p.viewNumber)
    (stamped : ∀ envelope ∈ said, ∀ v, envelope.2.stamp = some v → v ≤ p.viewNumber)
    (spoken : w.view R = 0 ∨ ∃ envelope ∈ said, ∃ v, envelope.2.stamp = some v ∧ w.view R ≤ v)
    (known : ∃ v, w.KnownBy v p.commitNumber) :
    SystemOk config w (beginning began R nonce w) net (Function.update system R ⟨p, said⟩) where
  several := ok.several
  valid := ok.valid
  said envelope isSent isStamped := by
    rcases sent envelope isSent isStamped with mem | ⟨S, insideS, other, mem⟩
    · exact ⟨R, inside, by rw [Function.update_self]; exact mem⟩
    · exact ⟨S, insideS, by rw [Function.update_of_ne other]; exact mem⟩
  speakers S insideS := by
    rcases eq_or_ne S R with rfl | other
    · rw [Function.update_self]
      have speaker := ok.speakers S inside
      have reached : p.commitNumber ≤ w.decided.length := by
        obtain ⟨v, known⟩ := known
        exact ok.valid.knownBy_length known
      have awake : ¬p.status ≠ .recovering := fun awake => awake blank.status
      have asleep : ∀ {status : Status}, status ≠ .recovering → p.status ≠ status :=
        fun other same => other (same.symm.trans blank.status)
      exact
        { config_eq := blank.config_eq
          selfId_eq := blank.selfId_eq
          log :=
            { start := blank.counters.1.le
              applied := blank.counters.2.le
              committed := by
                obtain ⟨start, applied⟩ := blank.counters
                show p.commitNumber ≤ p.logStart + p.log.length
                omega
              reached := reached
              agrees := by
                obtain ⟨start, applied⟩ := blank.counters
                show (w.decided.take p.logStart ++ p.log).take p.commitNumber = _
                rw [blank.empty, List.append_nil, start, applied, List.take_take, min_self]
              known := fun isAwake => absurd isAwake awake }
          view :=
            { here := fun isAwake => absurd isAwake awake
              lastNormal := blank.lastNormal
              current := fun status => by
                rcases status with status | status <;> exact absurd status (asleep (by simp))
              changing := fun status => absurd status (asleep (by simp))
              safe := fun isAwake => absurd isAwake awake
              member := fun status => by
                rcases status with status | status <;> exact absurd status (asleep (by simp))
              leads := fun status => absurd status (asleep (by simp))
              follows := fun status => absurd status (asleep (by simp))
              unstarted := fun v primary ahead =>
                speaker.view.unstarted v primary
                  (.inl (ahead.resolve_right fun change => asleep (by simp) change.2)) }
          acks :=
            { each := blank.acked
              backed := fun status => absurd status (asleep (by simp)) }
          change :=
            { collected := fun T report found => by
                rw [show Peer.doViewChangeFrom _ = ∅ from blank.reports] at found
                simp at found
              asks := fun _ _ status => absurd status (asleep (by simp)) }
          fetch :=
            { newState := fun f _ _ _ isFetch => by cases blank.fetch.symm.trans isFetch
              recovery := fun f _ _ isFetch => by cases blank.fetch.symm.trans isFetch }
          recovery :=
            { empty := fun _ => blank.empty
              began := fun _ => by
                have isNonce : p.recoveryNonce = nonce := blank.isNonce
                dsimp only
                rw [isNonce]
                unfold beginning
                rw [Function.update_self, Function.update_self]
                exact ⟨.refl w, ok.valid, rfl, view, known⟩
              responses := fun _ T response found => by
                rw [show Peer.recoveryResponses _ = ∅ from blank.responses] at found
                simp at found }
          serving := fun _ isServing => by cases blank.serving.symm.trans isServing
          said :=
            { truthful := fun envelope mem =>
                (speaker.said.truthful envelope (less mem)).before fresh
                  fun receiver asked same => unsaid receiver asked (same ▸ mem)
              authored := fun envelope mem => speaker.said.authored envelope (less mem)
              stamped := stamped
              spoken := fun _ => spoken
              reported := fun _ _ _ _ _ status => absurd status (asleep (by simp)) } }
    · rw [Function.update_of_ne other]
      have speaker := ok.speakers S insideS
      have same : ∀ nonce', beginning began R nonce w S nonce' = began S nonce' :=
        fun nonce' => beginning_other (.inl other)
      exact
        { speaker with
          fetch := ⟨speaker.fetch.newState, by
            rw [same]
            exact speaker.fetch.recovery⟩
          recovery := ⟨speaker.recovery.empty, by
            rw [same]
            exact speaker.recovery.began, speaker.recovery.responses⟩
          said := ⟨fun envelope mem => (speaker.said.truthful envelope mem).before fresh
              fun receiver asked isSame => other (by
                refine (speaker.said.authored envelope mem R ?_).symm
                rw [isSame]
                rfl), speaker.said.authored, speaker.said.stamped, speaker.said.spoken,
            speaker.said.reported⟩ }

end Recover

end Vsr
