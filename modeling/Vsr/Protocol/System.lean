import Vsr.Protocol.Changing

/-!
# The cluster keeps the invariant

What a peer says is true; an act or a message of one peer keeps `SystemOk`; and
what a primary commits is decided in every world the peers' states allow.
-/

set_option autoImplicit false

namespace Vsr

open Consensus (World QuorumSystem)
open Std (ExtTreeMap)

variable {Op Query Chunk : Type}

/-! ## What a peer says is true -/

theorem whole_getElem? {decided : List (LogEntry Op)} {s : Standing Op}
    (within : s.logStart ≤ decided.length) {opNumber : Nat} {entry : LogEntry Op}
    (found : s.entry opNumber = some entry) :
    0 < opNumber ∧ (s.whole decided)[opNumber - 1]? = some entry := by
  obtain ⟨index, sub, found⟩ := Option.bind_eq_some_iff.mp found
  obtain ⟨le, rfl⟩ := checkedSub_eq_some.mp sub
  have length : (decided.take s.logStart).length = s.logStart := by simp [within]
  refine ⟨by omega, ?_⟩
  unfold Standing.whole
  rw [List.getElem?_append_right (by omega), length, ← found]
  congr 1
  omega

section Say
variable {config : Config} {w : LogWorld Op} {began : Nat → Nat → LogWorld Op}
  {net : Set (Nat × Message Op Query Chunk)} {R : Nat} {p : Peer Op}
  {said : Set (Nat × Message Op Query Chunk)} {offered : LogEntry Op → Prop} {holds : Nat → Nat → Prop}
  (speaker : SpeakerOk config w began net R ⟨p, said⟩)
include speaker

/-- A peer knows what it has committed. -/
theorem SpeakerOk.knows (awake : p.status ≠ .recovering) :
    Knows w p.viewNumber (p.whole w.decided) p.commitNumber where
  known := speaker.log.known awake
  within := by
    rw [show (p.whole w.decided).length = p.opNumber from speaker.log.length_whole]
    exact speaker.log.committed
  agrees := speaker.log.agrees

/-- The end of a peer's log carries it. -/
theorem SpeakerOk.carries (awake : p.status ≠ .recovering) {segment : LogSegment Op}
    (isSegment : p.IsSegment segment) :
    Carries w p.viewNumber segment p.commitNumber (p.whole w.decided) := by
  obtain ⟨entries, held, ends⟩ := isSegment
  have within : p.logStart ≤ w.decided.length := speaker.log.start_le
  have done : p.applied ≤ p.commitNumber := speaker.log.applied
  have committed : p.commitNumber ≤ p.opNumber := speaker.log.committed
  have length : (p.whole w.decided).length = p.opNumber := speaker.log.length_whole
  refine ⟨?_, ?_, speaker.knows awake, fun k base => ?_⟩
  · rw [length]
    cases base : segment.base with
    | op opNumber =>
        simp only [base] at ends
        simpa [LogSegment.start, base, LogBase.start] using ends
    | checkpoint opNumber =>
        simp only [base] at ends
        simp only [LogSegment.start, base, LogBase.start]
        omega
  · have index : segment.start + 1 - (p.logStart + 1) = segment.start - p.logStart := by omega
    rw [entries, drop_whole within held]
    unfold Standing.logFrom
    rw [index]
    rcases Nat.le_total (segment.start - p.logStart) p.log.length with short | long
    · rw [min_eq_left short]
    · rw [min_eq_right long, List.drop_length, List.drop_of_length_le long]
  · rw [base] at ends
    exact ends.trans done

/-- Its own log from its start on. -/
theorem SpeakerOk.carries_own (awake : p.status ≠ .recovering) :
    Carries w p.viewNumber ⟨.op p.logStart, p.log⟩ p.commitNumber (p.whole w.decided) := by
  have within : p.logStart ≤ w.decided.length := speaker.log.start_le
  refine ⟨?_, ?_, speaker.knows awake, fun k base => by cases base⟩
  · show p.logStart ≤ _
    rw [show (p.whole w.decided).length = p.opNumber from speaker.log.length_whole]
    exact Nat.le_add_right _ _
  · show p.log = _
    rw [show (LogSegment.start ⟨.op p.logStart, p.log⟩) = p.logStart from rfl,
      drop_whole within le_rfl, Nat.sub_self, List.drop_zero]

theorem SpeakerOk.entry_ok {opNumber : Nat} {entry : LogEntry Op} (status : p.status = .normal)
    (primary : R = config.primaryId p.viewNumber) (found : p.entry opNumber = some entry) :
    0 < opNumber ∧ (w.led p.viewNumber)[opNumber - 1]? = some entry := by
  rw [← speaker.view.leads status primary]
  exact whole_getElem? speaker.log.start_le found

theorem SpeakerOk.started (status : p.status = .normal ∨ p.status = .stateTransfer) :
    w.base p.viewNumber ≠ none := by
  obtain ⟨b, isBase, _⟩ := (speaker.view.member status).1
  rw [show w.base p.viewNumber = some b from isBase]
  exact Option.some_ne_none b

end Say

section Truth
variable {config : Config} {w : LogWorld Op} {began : Nat → Nat → LogWorld Op}
  {net : Set (Nat × Message Op Query Chunk)} {system : Nat → Speaker Op Query Chunk}
  {R : Nat} {p : Peer Op} {said : Set (Nat × Message Op Query Chunk)}
  {offered : LogEntry Op → Prop} {holds : Nat → Nat → Prop}
  (ok : SystemOk config w began net system) (inside : R < config.replicas.length)
  (here : system R = ⟨p, said⟩)
include ok inside here

theorem SystemOk.speaker : SpeakerOk config w began net R ⟨p, said⟩ := here ▸ ok.speakers R inside

/-- The log a peer sends one that asked for it: of its view, or, before the view
starts, one the view may start from. -/
theorem SystemOk.newState_ok {asker opNumber : Nat}
    (settled : p.status = .normal ∨
      (p.status = .viewChange ∧ p.doViewChangeSent = true ∧ p.catchingUp = none))
    (heard : (hears net R offered holds).heard (.getState asker p.viewNumber opNumber))
    {segment : LogSegment Op} (isSegment : p.IsSegment segment) :
    NewStateOk config w net asker p.viewNumber segment p.commitNumber := by
  have speaker := ok.speaker inside here
  have awake : p.status ≠ .recovering := by
    rcases settled with status | ⟨status, _⟩ <;> simp [status]
  have carries := speaker.carries awake isSegment
  have asks : AskOk config w net asker p.viewNumber R := ok.message (heard rfl)
  suffices w.Complete config.quorums (p.whole w.decided) p.viewNumber ∧
      (asker = config.primaryId p.viewNumber ∨ HeldIn w p.viewNumber (p.whole w.decided)) from
    ⟨⟨_, carries, this.1, this.2⟩, R, opNumber, heard rfl⟩
  rcases settled with status | ⟨status, _⟩
  · have held := (speaker.view.member (.inl status)).1
    exact ⟨held.complete ok.valid, .inr held⟩
  · rcases asks with ⟨_, isPrimary, started⟩ | ⟨primary, receiver, last, reported, commit, sent,
      within, complete⟩
    · exact absurd (speaker.view.unstarted _ isPrimary (.inr ⟨rfl, status⟩)) started
    · -- The log is the one it reported, but for what has been decided since.
      obtain ⟨_, mem⟩ := ok.said_by sent rfl
      rw [here] at mem
      obtain ⟨j, short, grafted⟩ := speaker.said.reported receiver last reported commit mem status
        (ok.message sent).2.1
      refine ⟨?_, .inl primary⟩
      show w.Complete config.quorums (p.whole w.decided) p.viewNumber
      rw [show p.whole w.decided = _ from grafted]
      exact ok.valid.complete_graft complete short

theorem SystemOk.says_ok {envelope : Nat × Message Op Query Chunk}
    (truthful : Says (hears net R offered holds) p envelope) :
    MessageOk config w net began envelope ∧ (∀ S, envelope.2.author = some S → S = R) ∧
      ∀ v, envelope.2.stamp = some v → v = p.viewNumber := by
  have speaker := ok.speaker inside here
  have self : p.selfId = R := speaker.selfId_eq
  have isConfig : p.config = config := speaker.config_eq
  have isPrimary := speaker.isPrimary_iff
  have primaryId : p.primaryId = config.primaryId p.viewNumber := by
    unfold Peer.primaryId
    rw [isConfig]
  obtain ⟨receiver, message⟩ := envelope
  cases message with
  | register clientId => exact truthful.elim
  | request clientId session requestNumber answered op => exact truthful.elim
  | query clientId queryNumber query => exact truthful.elim
  | confirmView v round =>
      obtain ⟨_, _, rfl⟩ := truthful
      exact ⟨trivial, (fun S author => by cases author), fun v stamp => by cases stamp; rfl⟩
  | confirmViewOk v round replicaId =>
      obtain ⟨rfl, rfl, _⟩ := truthful
      exact ⟨trivial, (fun S author => by cases author; exact self),
        fun v stamp => by cases stamp; rfl⟩
  | prepare v opNumber entry commitNumber =>
      obtain ⟨status, primary, rfl, found, rfl⟩ := truthful
      have entryOk := speaker.entry_ok status (isPrimary.mp primary) found
      refine ⟨⟨speaker.started (.inl status), speaker.log.known (by simp [status]), entryOk⟩,
        (fun S author => by cases author), fun v stamp => by cases stamp; rfl⟩
  | prepareOk v opNumber replicaId =>
      obtain ⟨status, rfl, rfl, rfl⟩ := truthful
      refine ⟨⟨self ▸ inside, ?_⟩, (fun S author => by cases author; exact self),
        fun v stamp => by cases stamp; rfl⟩
      have votes : w.votes R p.viewNumber = _ := (speaker.view.member (.inl status)).2
      have length : (p.whole w.decided).length = p.opNumber := speaker.log.length_whole
      rw [self, votes, length]
  | commit v commitNumber =>
      obtain ⟨status, primary, rfl, rfl⟩ := truthful
      exact ⟨⟨speaker.started (.inl status), speaker.log.known (by simp [status])⟩,
        (fun S author => by cases author), fun v stamp => by cases stamp; rfl⟩
  | getState replicaId v opNumber =>
      obtain ⟨rfl, rfl, asks⟩ := truthful
      refine ⟨?_, (fun S author => by cases author; exact self),
        fun v stamp => by cases stamp; rfl⟩
      show AskOk config w net p.selfId p.viewNumber receiver
      rw [self]
      rcases asks with ⟨status, rfl⟩ | ⟨status, asked⟩
      · exact .inl ⟨speaker.view.follows status, primaryId, speaker.started (.inr status)⟩
      · rcases status with change | ⟨transfer, primary⟩
        · exact (speaker.change.asks receiver asked change).1
        · exact absurd (isPrimary.mp primary) (speaker.view.follows transfer)
  | newState replicaId v segment commitNumber =>
      obtain ⟨rfl, rfl, ⟨opNumber, heard⟩, settled, isSegment, rfl⟩ := truthful
      exact ⟨ok.newState_ok inside here settled heard (isSegment speaker.serving),
        (fun S author => by cases author; exact self), fun v stamp => by cases stamp; rfl⟩
  | getChunk replicaId opNumber index =>
      exact ⟨trivial, (fun S author => by cases author), fun v stamp => by cases stamp⟩
  | newChunk replicaId opNumber index chunk last =>
      exact ⟨trivial, (fun S author => by cases author), fun v stamp => by cases stamp⟩
  | startViewChange v replicaId =>
      obtain ⟨rfl, rfl⟩ := truthful
      exact ⟨trivial, (fun S author => by cases author; exact self),
        fun v stamp => by cases stamp; rfl⟩
  | doViewChange v replicaId lastNormalView segment commitNumber =>
      obtain ⟨rfl, rfl, change, _, backup, isReport⟩ := truthful
      refine ⟨⟨self ▸ inside, ?_, ?_⟩, (fun S author => by cases author; exact self),
        fun v stamp => by cases stamp; rfl⟩
      · rw [self]
        exact fun primary => backup (isPrimary.mpr primary)
      · rw [isReport, self]
        exact speaker.report_ok change
  | startView v segment commitNumber =>
      obtain ⟨status, primary, rfl, rfl, rfl⟩ := truthful
      exact ⟨⟨_, speaker.carries_own (by simp [status]), (speaker.view.member (.inl status)).1⟩,
        (fun S author => by cases author), fun v stamp => by cases stamp; rfl⟩
  | recovery replicaId nonce v =>
      obtain ⟨status, rfl, rfl, rfl, other⟩ := truthful
      refine ⟨⟨other, ?_⟩, (fun S author => by cases author; exact self),
        fun v stamp => by cases stamp; rfl⟩
      rw [self]
      exact (speaker.recovery.began status).1
  | recoveryResponse v nonce replicaId state =>
      obtain ⟨status, rfl, rfl, ⟨asked, _, heard⟩, told⟩ := truthful
      obtain ⟨other, before⟩ := ok.message (heard rfl)
      refine ⟨⟨self ▸ inside, self ▸ other, ⟨R, asked, heard rfl⟩, ?_, ?_⟩,
        (fun S author => by cases author; exact self), fun v stamp => by cases stamp; rfl⟩
      · rw [self, ← show w.view R = p.viewNumber from speaker.view.here (by simp [status])]
        exact before.view R
      · rintro state rfl
        obtain ⟨primary, isSegment, commit⟩ := told
        have carries := speaker.carries (by simp [status]) (isSegment speaker.serving)
        rw [← commit] at carries
        refine ⟨_, carries, (speaker.view.member (.inl status)).1, ?_⟩
        rw [show p.whole w.decided = _ from speaker.view.leads status (isPrimary.mp primary)]
        exact before.led _

/-- A peer says something true. -/
theorem SystemOk.say {envelope : Nat × Message Op Query Chunk}
    (truthful : Says (hears net R offered holds) p envelope) :
    SystemOk config w began net (Function.update system R ⟨p, insert envelope said⟩) := by
  have speaker := ok.speaker inside here
  obtain ⟨message, author, stamp⟩ := ok.says_ok inside here truthful
  refine ok.update (.refl config R w) ok.valid ?_ { speaker with said := ?_ }
  · rw [here]
    exact Set.subset_insert _ _
  · refine ⟨?_, ?_, ?_, ?_, ?_⟩
    · rintro other (rfl | mem)
      · exact message
      · exact speaker.said.truthful other mem
    · rintro other (rfl | mem)
      · exact author
      · exact speaker.said.authored other mem
    · rintro other (rfl | mem) v isStamp
      · exact (stamp v isStamp).le
      · exact speaker.said.stamped other mem v isStamp
    · intro recovering
      refine (speaker.said.spoken recovering).imp id ?_
      rintro ⟨other, mem, rest⟩
      exact ⟨other, Set.mem_insert_of_mem _ mem, rest⟩
    · rintro receiver last segment commitNumber (new | mem) change backup
      · rw [← new] at truthful
        obtain ⟨_, _, _, _, _, isReport⟩ := truthful
        obtain ⟨_, isSegment, _⟩ := DoViewChange.mk.inj isReport
        exact ⟨0, Nat.zero_le _, by rw [isSegment]; rfl⟩
      · exact speaker.said.reported receiver last segment commitNumber mem change backup

/-- A peer acts, without deciding anything. -/
theorem SystemOk.act {p' : Peer Op} (act : Act (hears net R offered holds) p p')
    (quiet : ∀ k, ¬Decides p p' k) :
    ∃ w', Alone config R w w' ∧
      SystemOk config w' began net (Function.update system R ⟨p', said⟩) := by
  obtain ⟨w', alone, valid, speaker⟩ := fits_act (ok.speaker inside here) ok.valid
    (fun _ sent => ok.message sent) inside act quiet
  refine ⟨w', alone, ok.update alone valid ?_ speaker⟩
  rw [here]

end Truth

/-! ## Deciding -/

/-- Those that have acknowledged `k`. -/
def acknowledgers (acked : List Nat) (k : Nat) : Finset Nat :=
  (Finset.range acked.length).filter fun S => k ≤ acked.getD S 0

theorem card_acknowledgers (acked : List Nat) (k : Nat) :
    (acknowledgers acked k).card = (acked.filter fun mark => decide (k ≤ mark)).length := by
  have marks : acked = (List.range acked.length).map fun S => acked.getD S 0 := by
    refine List.ext_getElem? fun S => ?_
    rw [List.getElem?_map]
    by_cases within : S < acked.length
    · simp [within]
    · simp [within]
  have isFilter : acknowledgers acked k =
      ((List.range acked.length).filter fun S => decide (k ≤ acked.getD S 0)).toFinset := by
    ext S
    simp [acknowledgers]
  rw [isFilter, List.toFinset_card_of_nodup (List.nodup_range.filter _)]
  conv_rhs => rw [marks, List.filter_map, List.length_map]
  rfl

section Decide
variable {config : Config} {w : LogWorld Op} {began : Nat → Nat → LogWorld Op}
  {net : Set (Nat × Message Op Query Chunk)} {system : Nat → Speaker Op Query Chunk}
  (ok : SystemOk config w began net system)
include ok

/-- What a quorum has acknowledged in view `y` is chosen, even when the view's
primary is taken back to an earlier state, whose log `L` goes on from. -/
theorem SystemOk.chosen {R y k : Nat} (inside : R < config.replicas.length)
    (primary : R = config.primaryId y) {acked : List Nat}
    (each : acked.length = config.replicas.length)
    (backed : ∀ S m, acked[S]? = some m → 0 < m → S = R ∨
      ∃ receiver opNumber, m ≤ opNumber ∧ (receiver, .prepareOk y opNumber S) ∈ net)
    (quorum : config.quorum ≤ (acked.filter fun mark => decide (k ≤ mark)).length)
    {L : List (LogEntry Op)}
    (older : (system R).peer.viewNumber < y ∨ ((system R).peer.viewNumber = y ∧
      ((system R).peer.status = .viewChange ∨
        (((system R).peer.status = .normal ∨ (system R).peer.status = .stateTransfer) ∧
          (system R).peer.whole w.decided <+: L)))) :
    w.Chosen config.quorums y (L.take k) ∧ k ≤ L.length := by
  have isQuorum : config.quorums.IsQuorum (acknowledgers acked k) := by
    refine ⟨fun S mem => ?_, ?_⟩
    · have := (Finset.mem_filter.mp mem).1
      rw [← each]
      exact Finset.mem_range.mp this
    · rw [card_acknowledgers]
      exact quorum
  rcases Nat.eq_zero_or_pos k with rfl | pos
  · exact ⟨⟨by simp, _, isQuorum, fun _ _ => by simp⟩, Nat.zero_le _⟩
  · have votes : ∀ S ∈ acknowledgers acked k, S ≠ R → k ≤ w.votes S y := by
      intro S mem other
      obtain ⟨_, reach⟩ := Finset.mem_filter.mp mem
      have found : acked[S]? = some (acked.getD S 0) := by
        have within : S < acked.length := Finset.mem_range.mp (Finset.mem_filter.mp mem).1
        simp [within]
      obtain ⟨receiver, opNumber, more, sent⟩ :=
        (backed S _ found (by omega)).resolve_left other
      exact reach.trans (more.trans (ok.message sent).2)
    -- Somebody else has acknowledged, so the view has started.
    obtain ⟨S, mem, other⟩ : ∃ S ∈ acknowledgers acked k, S ≠ R := by
      refine Finset.exists_mem_ne ?_ R
      have several := ok.several
      have large := isQuorum.2
      unfold Config.quorum at large
      omega
    have long : k ≤ (w.led y).length := (votes S mem other).trans (ok.valid.votes_le S y)
    obtain ⟨b, isBase⟩ := ok.valid.started_of_led (x := y) (by
      intro empty
      simp only [empty, List.length_nil] at long
      omega)
    have speaker := ok.speakers R inside
    have notAhead := fun ahead => (speaker.view.unstarted y primary ahead).symm.trans isBase
    rcases older with before | ⟨same, change | ⟨inView, isPrefix⟩⟩
    · refine absurd (notAhead (.inl ?_)) (by simp)
      by_cases recovering : (system R).peer.status = .recovering
      · exact (speaker.recovery.began recovering).2.2.2.1.trans_lt before
      · rw [speaker.view.here recovering]
        exact before
    · cases notAhead (.inr ⟨same, change⟩)
    · have normal : (system R).peer.status = .normal :=
        inView.resolve_right fun transfer => speaker.view.follows transfer (same ▸ primary)
      have leads := speaker.view.leads normal (same ▸ primary)
      have voted := (speaker.view.member inView).2
      rw [same] at leads voted
      rw [leads] at isPrefix voted
      have isTake : L.take k = (w.led y).take k := by
        obtain ⟨rest, grown⟩ := isPrefix
        rw [← grown, List.take_append_of_le_length long]
      refine ⟨⟨?_, _, isQuorum, fun T memT => ?_⟩, long.trans isPrefix.length_le⟩
      · rw [isTake]
        exact List.take_prefix _ _
      · refine (List.length_take_le k L).trans ?_
        rcases eq_or_ne T R with rfl | notR
        · rw [voted]
          exact long
        · exact votes T memT notR

/-- What is chosen is decided, and everyone is still as they should be. -/
theorem SystemOk.mark {y : Nat} {L : List (LogEntry Op)} (chosen : w.Chosen config.quorums y L) :
    SystemOk config (w.decide y L) began net system where
  several := ok.several
  valid := Consensus.World.Valid.decide (chosen.comparable ok.valid) ok.valid chosen
  speakers R inside :=
    (ok.speakers R inside).mono (World.decide_le (chosen.comparable ok.valid)) (fun _ mem => mem)
      rfl rfl fun _ _ => ⟨rfl, rfl⟩
  said := ok.said

end Decide

/-- The primary commits what a quorum has acknowledged. -/
theorem SystemOk.decide {config : Config} {w : LogWorld Op} {began : Nat → Nat → LogWorld Op}
    {net : Set (Nat × Message Op Query Chunk)} {system : Nat → Speaker Op Query Chunk}
    (ok : SystemOk config w began net system) {R : Nat} (inside : R < config.replicas.length)
    {p p' : Peer Op} {said : Set (Nat × Message Op Query Chunk)} (here : system R = ⟨p, said⟩)
    {k : Nat} (decides : Decides p p' k) :
    SystemOk config (w.decide p.viewNumber ((p.whole w.decided).take k)) began net
      (Function.update system R ⟨p', said⟩) := by
  obtain ⟨status, isPrimary, quorum, applied, executes, rfl⟩ := decides
  have speaker := ok.speaker inside here
  have primary := speaker.isPrimary_iff.mp isPrimary
  rw [show p.config = config from speaker.config_eq] at quorum
  have isPeer : (system R).peer = p := by rw [here]
  obtain ⟨chosen, within⟩ := ok.chosen inside primary speaker.acks.each
    (fun S m found pos => (speaker.acks.backed status primary S m found pos).imp And.left id)
    quorum (L := p.whole w.decided) (by
      rw [isPeer]
      exact .inr ⟨rfl, .inr ⟨.inl status, List.prefix_rfl⟩⟩)
  have marked := ok.mark chosen
  have length : (p.whole w.decided).length = p.opNumber := speaker.log.length_whole
  refine marked.update (.refl config R _) marked.valid (by rw [here]) ?_
  refine (marked.speaker inside here).commit marked.valid status ?_ (length ▸ within) executes
  refine .inr ⟨p.viewNumber, k, ?_, le_rfl, le_rfl⟩
  have isLength : ((p.whole w.decided).take k).length = k := by simp [within]
  simp [World.decide, isLength]

/-! ## Sending -/

/-- Messages said are sent. -/
theorem SystemOk.send {config : Config} {w : LogWorld Op} {began : Nat → Nat → LogWorld Op}
    {net net' : Set (Nat × Message Op Query Chunk)} {system : Nat → Speaker Op Query Chunk}
    (ok : SystemOk config w began net system) (more : net ⊆ net')
    (said : ∀ envelope ∈ net', envelope.2.stamp ≠ none →
      ∃ R < config.replicas.length, envelope ∈ (system R).said) :
    SystemOk config w began net' system where
  several := ok.several
  valid := ok.valid
  speakers R inside :=
    (ok.speakers R inside).mono (.refl w) more rfl rfl fun _ _ => ⟨rfl, rfl⟩
  said := said

end Vsr
