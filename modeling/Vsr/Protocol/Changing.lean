import Vsr.Protocol.Acting

/-!
# View changes, state transfer and recovery keep the invariant

The acts by which a peer leaves a view, chooses or takes the log of another, and
comes back from a recovery.
-/

set_option autoImplicit false

namespace Vsr

open Consensus (World QuorumSystem)
open Std (ExtTreeMap)

variable {Op Query Chunk : Type}

/-! ## Choosing a log -/

section Choose
variable {config : Config} {w : LogWorld Op} {began : Nat → Nat → LogWorld Op}
  {net : Set (Nat × Message Op Query Chunk)} {R : Nat} {s : Standing Op}
  {reports : ExtTreeMap Nat (DoViewChange Op)} {catchingUp : Option Nat}

/-- The keys of a map, a quorum if there are enough of them. -/
theorem isQuorum_keys {α : Type} {config : Config} (map : ExtTreeMap Nat α)
    (inside : ∀ S a, map[S]? = some a → S < config.replicas.length)
    (enough : config.quorum ≤ map.size) : config.quorums.IsQuorum map.keys.toFinset := by
  refine ⟨fun S mem => ?_, ?_⟩
  · rw [List.mem_toFinset, ExtTreeMap.mem_keys, ExtTreeMap.mem_iff_isSome_getElem?,
      Option.isSome_iff_exists] at mem
    obtain ⟨a, found⟩ := mem
    exact inside S a found
  · rw [List.toFinset_card_of_nodup ExtTreeMap.nodup_keys, ExtTreeMap.length_keys]
    exact enough

theorem mem_keys_iff {α : Type} {map : ExtTreeMap Nat α} {S : Nat} :
    S ∈ map.keys.toFinset ↔ ∃ a, map[S]? = some a := by
  rw [List.mem_toFinset, ExtTreeMap.mem_keys, ExtTreeMap.mem_iff_isSome_getElem?,
    Option.isSome_iff_exists]

/-- Those that report for a view have reached it. -/
theorem ChangeOk.reached (ok : ChangeOk config w net R s reports catchingUp)
    (enough : config.quorum ≤ reports.size) :
    ∃ Q, config.quorums.IsQuorum Q ∧ ∀ S ∈ Q, s.viewNumber ≤ w.view S := by
  refine ⟨_, isQuorum_keys reports (fun S report found => (ok.collected S report found).2.2.1)
    enough, fun S mem => ?_⟩
  obtain ⟨report, found⟩ := mem_keys_iff.mp mem
  exact (ok.collected S report found).2.2.2.1.reported.moved

/-- A view may start from the report that ranks highest of a quorum. -/
theorem ChangeOk.best_complete (ok : ChangeOk config w net R s reports catchingUp)
    (valid : w.Valid config.quorums) (enough : config.quorum ≤ reports.size) {bestId : Nat}
    {best : DoViewChange Op} (isBest : IsBest reports bestId best) :
    w.Complete config.quorums (best.segment.whole w.decided) s.viewNumber := by
  let reportOf (S : Nat) : DoViewChange Op := (reports[S]?).getD best
  have found : ∀ S ∈ reports.keys.toFinset, reports[S]? = some (reportOf S) := by
    intro S mem
    obtain ⟨report, found⟩ := mem_keys_iff.mp mem
    simp [reportOf, found]
  have isReport : reportOf bestId = best := by simp [reportOf, isBest.mem]
  have lengths : ∀ S ∈ reports.keys.toFinset,
      ((reportOf S).segment.whole w.decided).length = (reportOf S).segment.endOp := by
    intro S mem
    exact LogSegment.length_whole (ok.collected S _ (found S mem)).2.2.2.1.reached
  have mem : bestId ∈ reports.keys.toFinset := mem_keys_iff.mpr ⟨best, isBest.mem⟩
  have complete := World.complete_of_reports (v := s.viewNumber) valid
    (isQuorum_keys reports (fun S report at_ => (ok.collected S report at_).2.2.1) enough)
    (show ∀ S ∈ reports.keys.toFinset, w.Reported _ S s.viewNumber (reportOf S).lastNormalView
      ((reportOf S).segment.whole w.decided) from
      fun S mem => (ok.collected S _ (found S mem)).2.2.2.1.reported) mem fun S memS => by
      have rank := isBest.highest S _ (found S memS)
      unfold World.RankLe
      rw [lengths S memS, lengths bestId mem, isReport]
      exact rank
  rw [isReport] at complete
  exact complete

end Choose

section Acts
variable {config : Config} {w : LogWorld Op} {began : Nat → Nat → LogWorld Op}
  {net : Set (Nat × Message Op Query Chunk)} {R : Nat} {p : Peer Op}
  {said : Set (Nat × Message Op Query Chunk)} {offered : LogEntry Op → Prop} {holds : Nat → Nat → Prop}
  (speaker : SpeakerOk config w began net R ⟨p, said⟩)
  (valid : w.Valid config.quorums)
  (messages : ∀ envelope ∈ net, MessageOk config w net began envelope)
include speaker valid messages

/-! ## Leaving a view -/

omit messages in
theorem SpeakerOk.turn_own {v : Nat} (awake : p.status ≠ .recovering)
    (later : p.viewNumber < v ∨ (p.viewNumber = v ∧ p.status = .viewChange))
    {catchingUp : Option Nat}
    (asks : ∀ asked, catchingUp = some asked → R ≠ config.primaryId v ∧
      AskOk config w net R v asked) :
    Fits config w began net R ⟨{ p.turnTo v with catchingUp := catchingUp }, said⟩ :=
  speaker.turn valid awake later ⟨speaker.config_eq, speaker.selfId_eq⟩ speaker.acks.each rfl
    speaker.serving speaker.log (speaker.log.known awake) ⟨0, Nat.zero_le _, by simp⟩ asks

omit messages in
theorem fits_leave {v : Nat} (status : p.status ≠ .recovering) (later : p.viewNumber < v) :
    Fits config w began net R ⟨p.turnTo v, said⟩ :=
  speaker.turn_own valid status (.inl later) fun asked (isAsked : none = some asked) => by
    cases isAsked

theorem fits_catchUp {v : Nat} (status : p.status ≠ .recovering)
    (later : p.viewNumber < v ∨ (p.viewNumber = v ∧ p.status = .viewChange))
    (started : (hears net R offered holds).Started v) :
    Fits config w began net R
      ⟨{ p.turnTo v with catchingUp := some (p.config.primaryId v) }, said⟩ := by
  refine speaker.turn_own valid status later fun asked isAsked => ?_
  cases isAsked
  have isStarted := started_base messages started
  have backup : R ≠ config.primaryId v := fun primary =>
    isStarted (speaker.unstarted status primary later)
  rw [show p.config = config from speaker.config_eq]
  exact ⟨backup, .inl ⟨backup, rfl, isStarted⟩⟩

omit valid messages in
theorem SpeakerOk.changes_of_primary (status : p.status ≠ .normal ∧ p.status ≠ .recovering)
    (primary : R = config.primaryId p.viewNumber) : p.status = .viewChange := by
  cases isStatus : p.status with
  | normal => exact absurd isStatus status.1
  | recovering => exact absurd isStatus status.2
  | stateTransfer => exact absurd primary (speaker.view.follows isStatus)
  | viewChange => rfl

omit valid messages in
/-- What the primary of the view it wants reports itself. -/
theorem SpeakerOk.report_ok (status : p.status = .viewChange) :
    ReportOk config w p.viewNumber R p.report := by
  have awake : p.status ≠ .recovering := by simp [status]
  have length : (p.whole w.decided).length = p.opNumber := speaker.log.length_whole
  exact
    { start := speaker.log.start.trans speaker.log.applied
      knows := ⟨speaker.log.known awake, by
        show p.commitNumber ≤ (p.whole w.decided).length
        rw [length]
        exact speaker.log.committed, speaker.log.agrees⟩
      reported := (speaker.view.safe awake).report (speaker.view.changing status)
        (speaker.view.here awake).ge }

theorem fits_record (inside : R < config.replicas.length) {replicaId : Nat}
    {report : DoViewChange Op}
    (status : p.status ≠ .normal ∧ p.status ≠ .recovering) (primary : p.isPrimary)
    (heard : (hears net R offered holds).heard (.doViewChange p.viewNumber replicaId
        report.lastNormalView report.segment report.commitNumber) ∨
      (p.status = .viewChange ∧ replicaId = p.selfId ∧ report = p.report)) :
    Fits config w began net R
      ⟨{ p with doViewChangeFrom := p.doViewChangeFrom.insert replicaId report }, said⟩ := by
  rw [speaker.isPrimary_iff] at primary
  have change := speaker.changes_of_primary status primary
  refine ⟨w, .refl config R w, valid, { speaker with change := ⟨?_, ?_⟩ }⟩
  · intro S other found
    dsimp only at found
    rw [ExtTreeMap.getElem?_insert] at found
    split at found
    · next same =>
      cases found
      have same : replicaId = S := by simpa using same
      subst same
      rcases heard with heard | ⟨_, own, rfl⟩
      · obtain ⟨within, _, reported⟩ := messages _ (heard rfl)
        exact ⟨change, primary, within, reported, .inr ⟨R, heard rfl⟩⟩
      · rw [show p.selfId = R from speaker.selfId_eq] at own
        subst own
        refine ⟨change, primary, inside, speaker.report_ok change, .inl ?_⟩
        exact (speaker.report_ok change).start
    · exact speaker.change.collected S other found
  · intro asked isAsked isChange
    obtain ⟨asks, enough⟩ := speaker.change.asks asked isAsked isChange
    exact ⟨asks, fun primary => (enough primary).trans ExtTreeMap.size_le_size_insert⟩

omit messages in
theorem fits_ask {bestId : Nat} {best : DoViewChange Op}
    (status : p.status ≠ .normal ∧ p.status ≠ .recovering) (primary : p.isPrimary)
    (quorum : p.config.quorum ≤ p.doViewChangeFrom.size)
    (isBest : IsBest p.doViewChangeFrom bestId best)
    (beyond : p.commitNumber < best.segment.start) :
    Fits config w began net R ⟨{ p with catchingUp := some bestId }, said⟩ := by
  rw [speaker.isPrimary_iff] at primary
  rw [show p.config = config from speaker.config_eq] at quorum
  have change := speaker.changes_of_primary status primary
  have complete := speaker.change.best_complete valid quorum isBest
  obtain ⟨_, _, _, reported, origin⟩ := speaker.change.collected bestId best isBest.mem
  obtain ⟨receiver, sent⟩ := origin.resolve_left fun reach => absurd beyond (Nat.not_lt.mpr reach)
  have asks : AskOk config w net R p.viewNumber bestId :=
    .inr ⟨primary, receiver, _, _, _, sent, reported.reached, complete⟩
  refine ⟨w, .refl config R w, valid,
    { speaker with
      change := ⟨speaker.change.collected, fun asked isAsked _ => ?_⟩
      fetch := ⟨fun f v segment commitNumber isFetch resume => ?_, speaker.fetch.recovery⟩ }⟩
  · cases isAsked
    exact ⟨asks, fun _ => quorum⟩
  · obtain ⟨view, base, told, waits⟩ :=
      speaker.fetch.newState f v segment commitNumber isFetch resume
    exact ⟨view, base, told, waits.imp id fun waits => ⟨waits.1, rfl⟩⟩

/-! ## Starting a view -/

omit valid messages in
theorem SpeakerOk.silent (status : p.status = .viewChange) : w.votes R p.viewNumber = 0 :=
  (speaker.view.safe (by simp [status])).silent _ (speaker.view.changing status)

omit speaker valid messages in
theorem servingOk_install {q : Peer Op} (serving : q.ServingOk) {start commitNumber applied : Nat}
    {entries : List (LogEntry Op)}
    (executes : (q.merge start entries).Executes commitNumber applied) :
    ((q.merge start entries).raise commitNumber applied).ServingOk := by
  intro checkpoint isServing
  obtain ⟨start, done⟩ := serving checkpoint isServing
  refine ⟨start, done.trans ?_⟩
  rcases executes with same | ⟨_, _, more, _⟩
  · exact same.ge
  · exact more

omit speaker valid messages in
theorem LogSegment.isEnd_whole {decided : List (LogEntry Op)} {segment : LogSegment Op}
    (within : segment.start ≤ decided.length) :
    segment.entries = (segment.whole decided).drop segment.start := by
  have length : (decided.take segment.start).length = segment.start := by simp [within]
  unfold LogSegment.whole
  rw [List.drop_append, length, Nat.sub_self, List.drop_zero, List.drop_of_length_le length.le,
    List.nil_append]

omit messages in
/-- The log the primary starts its view from is safe, and holds every commit that
was reported. -/
theorem SpeakerOk.chosen {bestId : Nat} {best : DoViewChange Op}
    (status : p.status ≠ .normal ∧ p.status ≠ .recovering) (primary : p.isPrimary)
    (quorum : p.config.quorum ≤ p.doViewChangeFrom.size)
    (isBest : IsBest p.doViewChangeFrom bestId best)
    (reach : best.segment.start ≤ p.commitNumber)
    (mergeable : p.Mergeable best.segment.start best.segment.entries) :
    w.Complete config.quorums ((p.merge best.segment.start best.segment.entries).whole w.decided)
        p.viewNumber ∧
      ∀ (S : Nat) (report : DoViewChange Op), p.doViewChangeFrom[S]? = some report →
        w.KnownBy p.viewNumber report.commitNumber ∧ w.decided.take report.commitNumber <+:
          (p.merge best.segment.start best.segment.entries).whole w.decided := by
  rw [speaker.isPrimary_iff] at primary
  rw [show p.config = config from speaker.config_eq] at quorum
  have change := speaker.changes_of_primary status primary
  have unstarted := speaker.view.unstarted p.viewNumber primary (.inr ⟨rfl, change⟩)
  obtain ⟨_, _, _, reported, _⟩ := speaker.change.collected bestId best isBest.mem
  have complete := valid.complete_graft (speaker.change.best_complete valid quorum isBest)
    speaker.log.reached
  have whole := whole_merge_commit speaker.log mergeable (LogSegment.isEnd_whole reported.reached)
    reach
  rw [whole]
  refine ⟨complete, fun S report found => ?_⟩
  have known := (speaker.change.collected S report found).2.2.2.1.knows.known
  exact ⟨known, valid.knownBy_prefix_complete known unstarted complete⟩

omit messages in
theorem fits_begin {bestId : Nat} {best : DoViewChange Op} {commitNumber applied : Nat}
    (status : p.status ≠ .normal ∧ p.status ≠ .recovering) (primary : p.isPrimary)
    (quorum : p.config.quorum ≤ p.doViewChangeFrom.size)
    (isBest : IsBest p.doViewChangeFrom bestId best)
    (reach : best.segment.start ≤ p.commitNumber)
    (mergeable : p.Mergeable best.segment.start best.segment.entries)
    (reported : ∃ (replicaId : Nat) (report : DoViewChange Op),
      p.doViewChangeFrom[replicaId]? = some report ∧ report.commitNumber = commitNumber)
    (executes : (p.merge best.segment.start best.segment.entries).Executes commitNumber applied) :
    Fits config w began net R
      ⟨((p.merge best.segment.start best.segment.entries).raise commitNumber applied).enterNormal,
        said⟩ := by
  obtain ⟨complete, held⟩ :=
    speaker.chosen valid status primary quorum isBest reach mergeable
  obtain ⟨S, report, found, rfl⟩ := reported
  obtain ⟨known, isPrefix⟩ := held S report found
  obtain ⟨_, _, _, bestOk, _⟩ := speaker.change.collected bestId best isBest.mem
  rw [speaker.isPrimary_iff] at primary
  have change := speaker.changes_of_primary status primary
  have unstarted := speaker.view.unstarted p.viewNumber primary (.inr ⟨rfl, change⟩)
  have merged := speaker.log.merge mergeable (LogSegment.isEnd_whole bestOk.reached)
  set q := p.merge best.segment.start best.segment.entries with isMerged
  have reached := valid.knownBy_length known
  have within : report.commitNumber ≤ (q.whole w.decided).length := by
    have := isPrefix.length_le
    rw [List.length_take, min_eq_left reached] at this
    exact this
  have agrees : (q.whole w.decided).take report.commitNumber =
      w.decided.take report.commitNumber := by
    conv_rhs => rw [List.prefix_iff_eq_take.mp isPrefix, List.length_take, min_eq_left reached]
  have log : LogOk w (q.raise report.commitNumber applied).toStanding :=
    merged.raise (fun _ => known) reached (by rw [← merged.length_whole]; exact within) agrees
      executes
  have here : w.view R = p.viewNumber := speaker.view.here (by simp [change])
  have silent : (w.start p.viewNumber (q.whole w.decided)).votes R p.viewNumber ≤
      (q.whole w.decided).length := by
    rw [show (w.start p.viewNumber (q.whole w.decided)).votes R p.viewNumber = 0 from
      speaker.silent change]
    exact Nat.zero_le _
  have alone : Alone config R w ((w.start p.viewNumber (q.whole w.decided)).vote R p.viewNumber
      (q.whole w.decided).length) :=
    (Alone.start valid unstarted primary).trans (.vote silent here)
  rw [show p.config = config from speaker.config_eq] at quorum
  have validVote := (Consensus.World.Valid.start valid unstarted complete
    (speaker.change.reached quorum)).vote silent here
    (by simp [World.start])
  refine ⟨_, alone, validVote, ?_⟩
  refine speaker.enter (q := q.raise report.commitNumber applied) alone.later validVote
    ⟨speaker.config_eq, speaker.selfId_eq⟩ speaker.acks.each le_rfl (servingOk_install speaker.serving executes) (log.mono alone.later)
    ((log.known (fun recovering => by cases change.symm.trans recovering)).mono alone.later) here
    ?_ ?_ ?_ ?_
  · refine ⟨q.whole w.decided, ?_, List.prefix_rfl, ?_⟩
    · show (w.start p.viewNumber (q.whole w.decided)).base p.viewNumber = _
      simp [World.start]
    · show q.whole w.decided <+: (w.start p.viewNumber (q.whole w.decided)).led p.viewNumber
      simp [World.start]
  · show ((w.start p.viewNumber (q.whole w.decided)).vote R p.viewNumber
      (q.whole w.decided).length).votes R p.viewNumber = (q.whole w.decided).length
    simp [World.vote]
  · intro _
    show q.whole w.decided = (w.start p.viewNumber (q.whole w.decided)).led p.viewNumber
    simp [World.start]
  · intro v isPrimary ahead
    have elsewhere : v ≠ p.viewNumber := Nat.ne_of_gt ahead
    show (w.start p.viewNumber (q.whole w.decided)).base v = none
    simp only [World.start, Function.update_of_ne elsewhere]
    exact speaker.unstarted (by simp [change]) isPrimary (.inl ahead)

/-! ## Taking the log of a view -/

omit messages in
/-- A peer takes the log of a view that has started; `q` is the peer it goes
into. -/
theorem fits_install {q : Peer Op} {segment : LogSegment Op} {commitNumber applied : Nat}
    {L : List (LogEntry Op)} (identity : q.config = p.config ∧ q.selfId = p.selfId)
    (acked : q.acked = p.acked) (views : p.viewNumber ≤ q.viewNumber) (serving : q.ServingOk)
    (log : LogOk w q.toStanding) (known : w.KnownBy q.viewNumber q.commitNumber)
    (carries : Carries w q.viewNumber segment commitNumber L) (held : HeldIn w q.viewNumber L)
    (backup : R ≠ config.primaryId q.viewNumber) (here : w.view R ≤ q.viewNumber)
    (voted : w.votes R q.viewNumber ≤ L.length) (reach : segment.start ≤ q.commitNumber)
    (mergeable : q.Mergeable segment.start segment.entries)
    (executes : (q.merge segment.start segment.entries).Executes commitNumber applied) :
    Fits config w began net R
      ⟨((q.merge segment.start segment.entries).raise commitNumber applied).enterNormal, said⟩ := by
  have whole := whole_merge_commit log mergeable carries.entries reach
  obtain ⟨isHeld, longer, _⟩ := held.graft valid known
  rw [← whole] at isHeld longer
  have within := carries.knows.within.trans longer
  have raised : LogOk w ((q.merge segment.start segment.entries).raise commitNumber
      applied).toStanding :=
    log.install valid mergeable carries.entries isHeld carries.knows.known within
      (fun _ => carries.knows.known) executes
  have more : (w.raise R q.viewNumber).votes R q.viewNumber ≤
      ((q.merge segment.start segment.entries).whole w.decided).length := voted.trans longer
  have moved : (w.raise R q.viewNumber).view R = q.viewNumber := by simp [World.raise]
  have alone : Alone config R w ((w.raise R q.viewNumber).vote R q.viewNumber
      ((q.merge segment.start segment.entries).whole w.decided).length) :=
    (Alone.raise here).trans (.vote more moved)
  have validVote := (Consensus.World.Valid.raise here valid).vote more moved (by
    obtain ⟨_, _, _, isPrefix⟩ := isHeld
    exact isPrefix.length_le)
  refine ⟨_, alone, validVote, ?_⟩
  refine speaker.enter (q := (q.merge segment.start segment.entries).raise commitNumber applied)
    alone.later validVote
    ⟨identity.1.trans speaker.config_eq, identity.2.trans speaker.selfId_eq⟩
    ((congrArg List.length acked).trans speaker.acks.each) views (servingOk_install serving executes)
    (raised.mono alone.later) ?_ moved (isHeld.mono alone.later) ?_
    (fun primary => absurd primary backup) fun v primary ahead =>
      speaker.view.unstarted v primary (.inl (here.trans_lt ahead))
  · refine World.KnownBy.mono alone.later ?_
    show w.KnownBy q.viewNumber (max q.commitNumber commitNumber)
    rcases le_total q.commitNumber commitNumber with more | less
    · rw [max_eq_right more]
      exact carries.knows.known
    · rw [max_eq_left less]
      exact known
  · show ((w.raise R q.viewNumber).vote R q.viewNumber
      ((q.merge segment.start segment.entries).whole w.decided).length).votes R q.viewNumber = _
    simp only [World.vote, Function.update_self]
    rfl

theorem fits_follow {v : Nat} {segment : LogSegment Op} {told commitNumber applied : Nat}
    (status : p.status ≠ .recovering)
    (later : p.viewNumber < v ∨ (p.viewNumber = v ∧ p.status = .viewChange))
    (heard : (hears net R offered holds).heard (.startView v segment told))
    (reach : segment.start ≤ p.commitNumber)
    (mergeable : p.Mergeable segment.start segment.entries) (isTold : commitNumber = told)
    (executes : (p.merge segment.start segment.entries).Executes commitNumber applied) :
    Fits config w began net R
      ⟨{ (p.merge segment.start segment.entries).raise commitNumber applied with
          viewNumber := v }.enterNormal, said⟩ := by
  subst isTold
  obtain ⟨L, carries, held⟩ := messages _ (heard rfl)
  have views : p.viewNumber ≤ v := by omega
  have known := (speaker.log.known status).of_le views le_rfl
  have backup : R ≠ config.primaryId v := by
    intro primary
    obtain ⟨b, isBase, _⟩ := held
    rw [speaker.unstarted status primary later] at isBase
    cases isBase
  have here : w.view R = p.viewNumber := speaker.view.here status
  have silent : w.votes R v = 0 := by
    rcases later with later | ⟨rfl, change⟩
    · exact valid.ahead R v (here.trans_lt later)
    · exact speaker.silent change
  refine fits_install speaker valid (q := { p with viewNumber := v }) ⟨rfl, rfl⟩ rfl views
    speaker.serving ?_ known carries held backup (here.trans_le views)
    (silent.le.trans (Nat.zero_le _)) reach
    ⟨mergeable.within, mergeable.held, mergeable.committed⟩ executes
  exact ⟨speaker.log.start, speaker.log.applied, speaker.log.committed, speaker.log.reached,
    speaker.log.agrees, fun _ => known⟩

theorem fits_join {q : Peer Op} {segment : LogSegment Op} {commitNumber applied : Nat}
    (status : p.status = .viewChange)
    (asked : p.catchingUp.isSome ∨ p.Resumes (.newState p.viewNumber segment commitNumber))
    (follower : ¬(p.isPrimary ∧ p.config.quorum ≤ p.doViewChangeFrom.size))
    (sent : (hears net R offered holds).Sent p p.viewNumber segment commitNumber)
    (fetched : p.AtCheckpoint q (.newState p.viewNumber segment commitNumber))
    (reach : segment.start ≤ q.commitNumber)
    (mergeable : q.Mergeable segment.start segment.entries)
    (executes : (q.merge segment.start segment.entries).Executes commitNumber applied) :
    Fits config w began net R
      ⟨((q.merge segment.start segment.entries).raise commitNumber applied).enterNormal, said⟩ := by
  have awake : p.status ≠ .recovering := by simp [status]
  have catching : p.catchingUp.isSome := by
    rcases asked with catching | ⟨f, isFetch, resume⟩
    · exact catching
    · obtain ⟨_, _, _, waits⟩ := speaker.fetch.newState f _ _ _ isFetch resume
      rcases waits with ⟨transfer, _⟩ | ⟨_, catching⟩
      · cases status.symm.trans transfer
      · exact catching
  obtain ⟨asked, isAsked⟩ := Option.isSome_iff_exists.mp catching
  have backup : R ≠ config.primaryId p.viewNumber := by
    intro primary
    refine follower ⟨speaker.isPrimary_iff.mpr primary, ?_⟩
    rw [show p.config = config from speaker.config_eq]
    exact (speaker.change.asks asked isAsked status).2 primary
  obtain ⟨⟨L, carries, _, leads⟩, _⟩ := sent_ok speaker messages sent
  have held := leads.resolve_left backup
  obtain ⟨log, serving, cases_⟩ := fetched_ok speaker fetched
  have same : q.config = p.config ∧ q.selfId = p.selfId ∧ q.acked = p.acked ∧
      q.viewNumber = p.viewNumber ∧ q.status = p.status := by
    rcases cases_ with rfl | ⟨rfl, _⟩ <;> exact ⟨rfl, rfl, rfl, rfl, rfl⟩
  obtain ⟨sameConfig, sameSelf, sameAcked, sameView, sameStatus⟩ := same
  rw [← sameView] at carries held backup
  refine fits_install speaker valid ⟨sameConfig, sameSelf⟩ sameAcked sameView.ge serving log
    (log.known (by rw [sameStatus]; exact awake)) carries held backup ?_ ?_ reach mergeable executes
  · rw [sameView]
    exact (speaker.view.here awake).le
  · rw [sameView, speaker.silent status]
    exact Nat.zero_le _

theorem fits_adopt {q : Peer Op} {segment : LogSegment Op} {commitNumber : Nat}
    (status : p.status = .viewChange) (primary : p.isPrimary)
    (sent : (hears net R offered holds).Sent p p.viewNumber segment commitNumber)
    (fetched : p.AtCheckpoint q (.newState p.viewNumber segment commitNumber))
    (reach : segment.start ≤ q.commitNumber)
    (mergeable : q.Mergeable segment.start segment.entries) :
    Fits config w began net R
      ⟨{ q.merge segment.start segment.entries with catchingUp := none, fetch := none }, said⟩ := by
  rw [speaker.isPrimary_iff] at primary
  have awake : p.status ≠ .recovering := by simp [status]
  obtain ⟨⟨L, carries, complete, _⟩, _⟩ := sent_ok speaker messages sent
  obtain ⟨log, serving, cases_⟩ := fetched_ok speaker fetched
  have merged := log.merge mergeable carries.entries
  have whole := whole_merge_commit log mergeable carries.entries reach
  have grafted := valid.complete_graft complete log.reached
  rw [← whole] at grafted
  have safe := (speaker.view.safe awake).of_complete grafted (speaker.view.changing status)
  have further : p.commitNumber ≤ q.commitNumber := by
    rcases fetched with rfl | ⟨beyond, rfl, _⟩
    · exact le_rfl
    · exact beyond.le
  -- Whether or not a checkpoint was restored, only the log and the counters differ.
  have same : q.config = p.config ∧ q.selfId = p.selfId ∧ q.acked = p.acked ∧
      q.viewNumber = p.viewNumber ∧ q.status = p.status ∧ q.lastNormalView = p.lastNormalView ∧
      q.doViewChangeFrom = p.doViewChangeFrom ∧ q.recoveryNonce = p.recoveryNonce ∧
      q.recoveryResponses = p.recoveryResponses := by
    rcases cases_ with rfl | ⟨rfl, _⟩ <;> exact ⟨rfl, rfl, rfl, rfl, rfl, rfl, rfl, rfl, rfl⟩
  obtain ⟨sameConfig, sameSelf, sameAcked, sameView, sameStatus, sameLast, sameReports, _, _⟩ := same
  have isChange : q.status = .viewChange := sameStatus.trans status
  refine ⟨w, .refl config R w, valid, ?_⟩
  exact
    { config_eq := sameConfig.trans speaker.config_eq
      selfId_eq := sameSelf.trans speaker.selfId_eq
      log := merged
      view :=
        { here := fun _ => (speaker.view.here awake).trans sameView.symm
          lastNormal := by
            show q.lastNormalView ≤ q.viewNumber
            rw [sameLast, sameView]
            exact speaker.view.lastNormal
          current := fun inView => by
            rcases inView with inView | inView <;> cases isChange.symm.trans inView
          changing := fun _ => by
            show q.lastNormalView < q.viewNumber
            rw [sameLast, sameView]
            exact speaker.view.changing status
          safe := fun _ => by
            show w.Safe config.quorums R q.lastNormalView _
            rw [sameLast]
            exact safe
          member := fun inView => by
            rcases inView with inView | inView <;> cases isChange.symm.trans inView
          leads := fun normal => by cases isChange.symm.trans normal
          follows := fun transfer => by cases isChange.symm.trans transfer
          unstarted := fun v isPrimary ahead => by
            refine speaker.view.unstarted v isPrimary (ahead.imp id fun same => ?_)
            exact ⟨sameView ▸ same.1, status⟩ }
      acks :=
        { each := by
            show q.acked.length = _
            rw [sameAcked]
            exact speaker.acks.each
          backed := fun normal => by cases isChange.symm.trans normal }
      change :=
        { collected := by
            intro S report found
            replace found : p.doViewChangeFrom[S]? = some report := sameReports ▸ found
            obtain ⟨_, isPrimary, inside, reported, origin⟩ :=
              speaker.change.collected S report found
            dsimp only at isPrimary reported origin
            rw [← sameView] at isPrimary reported origin
            exact ⟨isChange, isPrimary, inside, reported,
              origin.imp (fun reach => reach.trans further) id⟩
          asks := fun _ isAsked => by cases isAsked }
      fetch :=
        { newState := fun _ _ _ _ isFetch => by cases isFetch
          recovery := fun _ _ _ isFetch => by cases isFetch }
      recovery :=
        { empty := fun recovering => by cases isChange.symm.trans recovering
          began := fun recovering => by cases isChange.symm.trans recovering
          responses := fun recovering => by cases isChange.symm.trans recovering }
      serving := serving
      said := by
        refine speaker.said.onward (.refl w) sameView.ge ?_ fun _ => .inr (.inl ?_)
        · intro recovering
          cases isChange.symm.trans recovering
        · show R = config.primaryId q.viewNumber
          rw [sameView]
          exact primary }

theorem fits_extend {q : Peer Op} {segment : LogSegment Op} {commitNumber applied : Nat}
    (status : p.status = .stateTransfer)
    (sent : (hears net R offered holds).Sent p p.viewNumber segment commitNumber)
    (fetched : p.AtCheckpoint q (.newState p.viewNumber segment commitNumber))
    (reach : segment.start ≤ q.opNumber)
    (further : p.opNumber < segment.endOp ∨
      p.Resumes (.newState p.viewNumber segment commitNumber))
    (mergeable : q.Mergeable segment.start segment.entries)
    (executes : (q.merge segment.start segment.entries).Executes commitNumber applied) :
    Fits config w began net R
      ⟨{ (q.merge segment.start segment.entries).raise commitNumber applied with
          status := .normal, fetch := none }, said⟩ := by
  have backup : R ≠ config.primaryId p.viewNumber := speaker.view.follows status
  obtain ⟨⟨L, carries, _, leads⟩, _⟩ := sent_ok speaker messages sent
  have held := leads.resolve_left backup
  obtain ⟨log, serving, cases_⟩ := fetched_ok speaker fetched
  have isHeld : HeldIn w p.viewNumber (p.whole w.decided) := (speaker.view.member (.inr status)).1
  have length : (p.whole w.decided).length = p.opNumber := speaker.log.length_whole
  have isEnd : segment.endOp = L.length := by
    have := carries.start
    unfold LogSegment.endOp
    rw [carries.entries, List.length_drop]
    omega
  have longer : p.opNumber < L.length := by
    rw [← isEnd]
    rcases further with further | ⟨f, isFetch, resume⟩
    · exact further
    · obtain ⟨_, _, _, waits⟩ := speaker.fetch.newState f _ _ _ isFetch resume
      rcases waits with ⟨_, further⟩ | ⟨change, _⟩
      · exact further
      · cases status.symm.trans change
  have keeps : q.keepUpTo segment.start ≤ L.length := by
    have start := carries.start
    have committed : p.commitNumber ≤ p.opNumber := speaker.log.committed
    show max segment.start q.commitNumber ≤ L.length
    rcases cases_ with rfl | ⟨rfl, _⟩
    · omega
    · show max segment.start segment.start ≤ _
      omega
  -- What is kept agrees with the log of the view.
  have whole : (q.merge segment.start segment.entries).whole w.decided = L := by
    rw [whole_merge log.start_le mergeable carries.entries]
    conv_rhs => rw [← List.take_append_drop (q.keepUpTo segment.start) L]
    congr 1
    rcases cases_ with rfl | ⟨rfl, _, within⟩
    · obtain ⟨_, _, _, first⟩ := isHeld
      obtain ⟨_, _, _, second⟩ := held
      have keptWithin : q.keepUpTo segment.start ≤ (q.whole w.decided).length := by
        rw [length]
        exact mergeable.within
      rw [List.prefix_iff_eq_take.mp first, List.prefix_iff_eq_take.mp second, List.take_take,
        List.take_take, min_eq_left keptWithin, min_eq_left keeps]
    · have kept : (p.restore segment.start).keepUpTo segment.start = segment.start := max_self _
      rw [kept, whole_restore, List.take_take, min_self]
      exact (held.agrees valid (carries.knows.known.of_le le_rfl within) carries.start).symm
  have merged := log.merge mergeable carries.entries
  have raised : LogOk w ((q.merge segment.start segment.entries).raise commitNumber
      applied).toStanding := by
    refine log.install valid (v := p.viewNumber) mergeable carries.entries ?_ carries.knows.known ?_
      (fun _ => ?_) executes
    · rw [whole]
      exact held
    · rw [whole]
      exact carries.knows.within
    · rcases cases_ with rfl | ⟨rfl, _⟩ <;> exact carries.knows.known
  have same : q.config = p.config ∧ q.selfId = p.selfId ∧ q.acked = p.acked ∧
      q.viewNumber = p.viewNumber ∧ q.status = p.status ∧ q.lastNormalView = p.lastNormalView ∧
      q.doViewChangeFrom = p.doViewChangeFrom := by
    rcases cases_ with rfl | ⟨rfl, _⟩ <;> exact ⟨rfl, rfl, rfl, rfl, rfl, rfl, rfl⟩
  obtain ⟨sameConfig, sameSelf, sameAcked, sameView, sameStatus, sameLast, sameReports⟩ := same
  refine fits_longer speaker valid (.inr ⟨status, backup⟩) backup ⟨sameConfig, sameSelf⟩
    ⟨sameView, sameLast⟩ rfl sameAcked sameReports rfl (servingOk_install serving executes) ?_ ?_ ?_
  · refine ⟨raised.start, raised.applied, raised.committed, raised.reached, raised.agrees,
      fun _ => raised.known ?_⟩
    show q.status ≠ .recovering
    rw [sameStatus, status]
    simp
  · show p.opNumber ≤ (q.merge segment.start segment.entries).opNumber
    rw [← merged.length_whole, whole]
    exact longer.le
  · show HeldIn w p.viewNumber ((q.merge segment.start segment.entries).whole w.decided)
    rw [whole]
    exact held

/-! ## Fetching a checkpoint -/

theorem fits_fetchState {fetch : Fetch Op} {checkpoint : Nat} {entries : List (LogEntry Op)}
    {commitNumber : Nat}
    (status : p.status = .stateTransfer ∨ (p.status = .viewChange ∧ p.catchingUp.isSome))
    (resume : fetch.resume = .newState p.viewNumber ⟨.checkpoint checkpoint, entries⟩ commitNumber)
    (heard : ∃ replicaId, (hears net R offered holds).heard
      (.newState replicaId p.viewNumber ⟨.checkpoint checkpoint, entries⟩ commitNumber))
    (further : p.status = .stateTransfer → p.opNumber < checkpoint + entries.length) :
    Fits config w began net R ⟨{ p with fetch := some fetch }, said⟩ := by
  obtain ⟨replicaId, heard⟩ := heard
  have told : NewStateOk config w net R p.viewNumber ⟨.checkpoint checkpoint, entries⟩
    commitNumber := messages _ (heard rfl)
  refine ⟨w, .refl config R w, valid,
    { speaker with fetch := ⟨fun f v segment c isFetch isResume => ?_,
        fun f v state isFetch isResume => ?_⟩ }⟩
  · cases isFetch
    cases resume.symm.trans isResume
    refine ⟨rfl, ⟨checkpoint, rfl⟩, told, ?_⟩
    exact status.imp (fun transfer => ⟨transfer, further transfer⟩) id
  · cases isFetch
    cases resume.symm.trans isResume

omit messages in
theorem fits_refetch {fetch : Option (Fetch Op)}
    (same : ∀ next, fetch = some next → ∃ before, p.fetch = some before ∧
      next.resume = before.resume) :
    Fits config w began net R ⟨{ p with fetch := fetch }, said⟩ := by
  refine ⟨w, .refl config R w, valid,
    { speaker with fetch := ⟨fun f v segment c isFetch isResume => ?_,
        fun f v state isFetch isResume => ?_⟩ }⟩
  · obtain ⟨before, isBefore, isSame⟩ := same f isFetch
    exact speaker.fetch.newState before v segment c isBefore (isSame ▸ isResume)
  · obtain ⟨before, isBefore, isSame⟩ := same f isFetch
    exact speaker.fetch.recovery before v state isBefore (isSame ▸ isResume)

omit valid messages in
/-- A fetch never outlives the view it is for. -/
theorem SpeakerOk.not_stranded {v : Nat} {segment : LogSegment Op} {commitNumber : Nat}
    (resumes : p.Resumes (.newState v segment commitNumber)) : v = p.viewNumber := by
  obtain ⟨f, isFetch, resume⟩ := resumes
  exact (speaker.fetch.newState f v segment commitNumber isFetch resume).1

/-! ## Recovery -/

omit messages in
theorem fits_collect {replicaId v : Nat} {state : Option (RecoveryState Op)}
    (heard : (hears net R offered holds).heard (.recoveryResponse v p.recoveryNonce replicaId state)) :
    Fits config w began net R
      ⟨{ p with recoveryResponses := p.recoveryResponses.insert replicaId ⟨v, state⟩ }, said⟩ := by
  refine ⟨w, .refl config R w, valid,
    { speaker with recovery := ⟨speaker.recovery.empty, speaker.recovery.began,
        fun recovering S response found => ?_⟩ }⟩
  dsimp only at found
  rw [ExtTreeMap.getElem?_insert] at found
  split at found
  · next same =>
    cases found
    have same : replicaId = S := by simpa using same
    subst same
    exact heard rfl
  · exact speaker.recovery.responses recovering S response found

omit valid in
/-- What the answers to a recovery amount to. -/
theorem SpeakerOk.answered_ok {v : Nat} {state : RecoveryState Op}
    (status : p.status = .recovering) (answered : p.Answered v state) :
    p.viewNumber ≤ v ∧ R ≠ config.primaryId v ∧ StateOk w (began R p.recoveryNonce) v state ∧
      ∀ y k, (y, k) ∈ (began R p.recoveryNonce).marks → 0 < k → y ≤ v := by
  rcases answered with ⟨response, found, rfl, view, quorum, latest⟩ | ⟨f, isFetch, resume⟩
  · rw [show p.config = config from speaker.config_eq] at found quorum
    have responses := speaker.recovery.responses status
    obtain ⟨_, other, _, _, told⟩ := messages _ (responses _ _ found)
    refine ⟨view, fun same => other same.symm, told state rfl, fun y k mark pos => ?_⟩
    -- A voter for what was decided answered, and has told how far it is.
    obtain ⟨_, before, _⟩ := speaker.recovery.began status
    obtain ⟨within, chosen⟩ := before.marked y k mark
    obtain ⟨_, Q, isQuorum, voted⟩ := chosen
    have answers : config.quorums.IsQuorum p.recoveryResponses.keys.toFinset := by
      refine isQuorum_keys _ (fun S answer isAnswer => ?_) quorum
      exact (messages _ (responses S answer isAnswer)).1
    obtain ⟨S, memQ, memAnswers⟩ := config.quorums.meets isQuorum answers
    obtain ⟨answer, isAnswer⟩ := mem_keys_iff.mp memAnswers
    have seen := (messages _ (responses S answer isAnswer)).2.2.2.1
    have told := latest S answer isAnswer
    have votes := voted S memQ
    rw [List.length_take, min_eq_left within] at votes
    by_contra ahead
    have := before.ahead S y (by omega)
    omega
  · obtain ⟨_, view, other, _, told, seen⟩ := speaker.fetch.recovery f v state isFetch resume
    exact ⟨view, other, told, seen⟩

theorem fits_fetchRecovery {fetch : Fetch Op} {v checkpoint : Nat} {entries : List (LogEntry Op)}
    {commitNumber : Nat} (status : p.status = .recovering)
    (resume : fetch.resume = .recoveryResponse v ⟨⟨.checkpoint checkpoint, entries⟩, commitNumber⟩)
    (answered : p.Answered v ⟨⟨.checkpoint checkpoint, entries⟩, commitNumber⟩) :
    Fits config w began net R ⟨{ p with fetch := some fetch, recoveryResponses := ∅ }, said⟩ := by
  obtain ⟨view, other, told, seen⟩ := speaker.answered_ok messages status answered
  refine ⟨w, .refl config R w, valid,
    { speaker with
      fetch := ⟨fun f v segment c isFetch isResume => ?_, fun f v state isFetch isResume => ?_⟩
      recovery := ⟨speaker.recovery.empty, speaker.recovery.began,
        fun _ S response found => by simp at found⟩ }⟩
  · cases isFetch
    cases resume.symm.trans isResume
  · cases isFetch
    cases resume.symm.trans isResume
    exact ⟨status, view, other, ⟨checkpoint, rfl⟩, told, seen⟩

theorem fits_comeBack {q : Peer Op} {v : Nat} {segment : LogSegment Op}
    {commitNumber applied : Nat}
    (status : p.status = .recovering ∨ p.Resumes (.recoveryResponse v ⟨segment, commitNumber⟩))
    (answered : p.Answered v ⟨segment, commitNumber⟩)
    (fetched : p.AtCheckpoint q (.recoveryResponse v ⟨segment, commitNumber⟩))
    (reach : segment.start ≤ q.commitNumber)
    (mergeable : q.Mergeable segment.start segment.entries)
    (executes : (q.merge segment.start segment.entries).Executes commitNumber applied)
    (responses : ExtTreeMap Nat (RecoveryResponse Op)) :
    Fits config w began net R
      ⟨{ (q.merge segment.start segment.entries).raise commitNumber applied with
          viewNumber := v, recoveryResponses := responses }.enterNormal, said⟩ := by
  have recovering : p.status = .recovering := by
    rcases status with recovering | ⟨f, isFetch, resume⟩
    · exact recovering
    · exact (speaker.fetch.recovery f v _ isFetch resume).1
  obtain ⟨view, backup, told, seen⟩ := speaker.answered_ok messages recovering answered
  obtain ⟨L, carries, held, grown⟩ := told
  obtain ⟨before, beforeValid, votes, left, _, knownBefore⟩ := speaker.recovery.began recovering
  have known : w.KnownBy v p.commitNumber := by
    rcases knownBefore with zero | ⟨y, m, mark, _, within⟩
    · exact .inl zero
    · rcases Nat.eq_zero_or_pos m with rfl | pos
      · exact .inl (Nat.le_zero.mp within)
      · exact .inr ⟨y, m, before.marks mark, seen y m mark pos, within⟩
  have voted : w.votes R v ≤ L.length := by
    rw [show w.votes R v = (began R p.recoveryNonce).votes R v from congrFun votes v]
    exact (beforeValid.votes_le R v).trans grown.length_le
  rcases fetched with rfl | ⟨beyond, rfl, f, isFetch, resume⟩
  · refine fits_install speaker valid
      (q := { q with viewNumber := v, recoveryResponses := responses }) ⟨rfl, rfl⟩ rfl view
      speaker.serving ?_ known carries held backup (left.trans view) voted reach
      ⟨mergeable.within, mergeable.held, mergeable.committed⟩ executes
    exact ⟨speaker.log.start, speaker.log.applied, speaker.log.committed, speaker.log.reached,
      speaker.log.agrees, fun _ => known⟩
  · obtain ⟨_, _, _, ⟨k, base⟩, _⟩ := speaker.fetch.recovery f v _ isFetch resume
    have start : segment.start = k := by
      replace base : segment.base = .checkpoint k := base
      simp [LogSegment.start, base, LogBase.start]
    have within : segment.start ≤ commitNumber := start ▸ carries.checkpoint k base
    have knownStart : w.KnownBy v segment.start := carries.knows.known.of_le le_rfl within
    refine fits_install speaker valid
      (q := { p.restore segment.start with viewNumber := v, recoveryResponses := responses })
      ⟨rfl, rfl⟩ rfl view (fun _ isServing => by cases isServing) ?_ knownStart carries held backup
      (left.trans view) voted le_rfl ⟨mergeable.within, mergeable.held, mergeable.committed⟩ executes
    exact LogOk.restore (p := { p with viewNumber := v }) (within.trans carries.knows.reached)
      fun _ => knownStart

end Acts

/-! ## Every act -/

/-- The primary `p` commits what a quorum has acknowledged, up to `k`. -/
def Decides (p p' : Peer Op) (k : Nat) : Prop :=
  p.status = .normal ∧ p.isPrimary ∧
    p.config.quorum ≤ (p.acked.filter fun acked => decide (k ≤ acked)).length ∧
    ∃ applied, p.Executes k applied ∧ p' = p.raise k applied

/-- Unless a peer decides something, there is a world for what it has done in
which nothing more is decided. -/
theorem fits_act {config : Config} {w : LogWorld Op} {began : Nat → Nat → LogWorld Op}
    {net : Set (Nat × Message Op Query Chunk)} {R : Nat} {p p' : Peer Op}
    {said : Set (Nat × Message Op Query Chunk)} {offered : LogEntry Op → Prop} {holds : Nat → Nat → Prop}
    (speaker : SpeakerOk config w began net R ⟨p, said⟩) (valid : w.Valid config.quorums)
    (messages : ∀ envelope ∈ net, MessageOk config w net began envelope)
    (inside : R < config.replicas.length) (act : Act (hears net R offered holds) p p')
    (quiet : ∀ k, ¬Decides p p' k) : Fits config w began net R ⟨p', said⟩ := by
  cases act with
  | leave v status later => exact fits_leave speaker valid status later
  | catchUp v status later started =>
      exact fits_catchUp speaker valid messages status later started
  | fallBehind status backup => exact fits_fallBehind speaker valid status backup
  | prepare entry status primary => exact fits_prepare speaker valid entry status primary
  | accept entry commitNumber status backup heard =>
      exact fits_accept speaker valid messages status backup heard
  | commit commitNumber applied status backup told held executes =>
      exact fits_commit speaker valid messages status told held executes
  | count replicaId opNumber status primary held more heard =>
      exact fits_count speaker valid held heard
  | decide commitNumber applied status primary quorum executes =>
      exact absurd ⟨status, primary, quorum, applied, executes, rfl⟩ (quiet commitNumber)
  | execute applied executes => exact fits_execute speaker valid executes
  | compact opNumber held done within kept => exact fits_compact speaker valid held done within kept
  | record replicaId report status primary heard =>
      exact fits_record speaker valid messages inside status primary heard
  | markSent => exact ⟨w, .refl config R w, valid, { speaker with }⟩
  | ask bestId best status primary quorum isBest beyond =>
      exact fits_ask speaker valid status primary quorum isBest beyond
  | begin bestId best commitNumber applied status primary quorum isBest reach mergeable reported
      executes =>
      exact fits_begin speaker valid status primary quorum isBest reach mergeable reported executes
  | follow v segment told commitNumber applied status later heard reach mergeable isTold executes =>
      exact fits_follow speaker valid messages status later heard reach mergeable isTold executes
  | join segment commitNumber applied status asked follower sent fetched reach mergeable executes =>
      exact fits_join speaker valid messages status asked follower sent fetched reach mergeable
        executes
  | adopt segment commitNumber status asked primary sent fetched reach mergeable =>
      exact fits_adopt speaker valid messages status primary sent fetched reach mergeable
  | extend segment commitNumber applied status sent fetched reach further mergeable executes =>
      exact fits_extend speaker valid messages status sent fetched reach further mergeable executes
  | fetchState fetch checkpoint entries commitNumber status resume heard further =>
      exact fits_fetchState speaker valid messages status resume heard further
  | refetch fetch same => exact fits_refetch speaker valid same
  | strand v segment commitNumber resumes left =>
      exact absurd (speaker.not_stranded resumes) left
  | keep checkpoint held done =>
      refine ⟨w, .refl config R w, valid, { speaker with serving := fun kept isKept => ?_ }⟩
      cases isKept
      exact ⟨held, done⟩
  | release =>
      exact ⟨w, .refl config R w, valid, { speaker with serving := fun _ isKept => by cases isKept }⟩
  | collect replicaId v state status heard => exact fits_collect speaker valid heard
  | fetchRecovery fetch v checkpoint entries commitNumber status resume answered =>
      exact fits_fetchRecovery speaker valid messages status resume answered
  | forget =>
      exact ⟨w, .refl config R w, valid,
        { speaker with
          recovery := ⟨speaker.recovery.empty, speaker.recovery.began,
            fun _ S response found => by simp at found⟩ }⟩
  | comeBack v segment commitNumber applied status answered fetched reach mergeable executes
      responses =>
      exact fits_comeBack speaker valid messages status answered fetched reach mergeable executes
        responses

end Vsr
