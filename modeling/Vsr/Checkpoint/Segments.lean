import Vsr.Checkpoint.Served
import Vsr.Commit.Counting

/-!
# Segments reach to the end of the log

What a replica tells of its log is everything after an op it names, which the
receiver holds or comes to hold with the checkpoint served.
-/

set_option autoImplicit false

namespace Vsr

open Relation (ReflTransGen)

/-- The segment a message carries. -/
def Message.segment? {Op Query Chunk : Type} : Message Op Query Chunk → Option (LogSegment Op)
  | .newState _ _ segment _ => some segment
  | .doViewChange _ _ _ segment _ => some segment
  | .startView _ segment _ => some segment
  | .recoveryResponse _ _ _ state => state.map (·.segment)
  | _ => none

variable {SM : Type} [StateMachine SM]

namespace Replica

/-- The segments of the messages queued. -/
def segments (r : Replica SM) : List (LogSegment (Input SM)) :=
  r.queued.filterMap fun envelope => envelope.2.segment?

/-- A segment that is the log after an op it still follows, to its end, and that names
no checkpoint but the one served. -/
structure Describes (r : Replica SM) (segment : LogSegment (Input SM)) : Prop where
  follows : r.logStart ≤ segment.start
  entries : segment.entries = r.log.drop (segment.start - r.logStart)
  ends : segment.endOp = r.opNumber
  serving : ∀ k, segment.base = .checkpoint k → r.serving.map Prod.fst = some k

/-- The segments queued since `r` all describe the replica as it is. -/
def Adds (r r' : Replica SM) : Prop :=
  ∃ added, r'.segments.Subperm (r.segments ++ added) ∧ ∀ segment ∈ added, r'.Describes segment

section
variable {heard : MessageFor SM → Prop} {r r' : Replica SM}

theorem segments_eq (r : Replica SM) :
    r.segments = (r.outboxEarly.filterMap fun envelope => envelope.2.segment?) ++
      (r.outbox.filterMap fun envelope => envelope.2.segment?) ++
      (r.outboxWaiting.filterMap fun envelope => envelope.2.segment?) ++
      r.outboxReady.filterMap fun envelope => envelope.2.segment? := by
  simp only [segments, queued, List.filterMap_append]

theorem segments_of_outboxes (early : r'.outboxEarly = r.outboxEarly)
    (outbox : r'.outbox = r.outbox) (waiting : r'.outboxWaiting = r.outboxWaiting)
    (ready : r'.outboxReady = r.outboxReady) : r'.segments = r.segments := by
  rw [segments_eq, segments_eq, early, outbox, waiting, ready]

theorem segments_send (r : Replica SM) (replicaId : Nat) (message : MessageFor SM) :
    (r.send replicaId message).segments.Perm (r.segments ++ message.segment?.toList) := by
  have one : [(replicaId, message)].filterMap (fun envelope : Envelope SM => envelope.2.segment?) =
      message.segment?.toList := by
    cases isSegment : message.segment? with
    | none => simp [isSegment]
    | some segment => simp [isSegment]
  have last : ∀ a b : List (LogSegment (Input SM)), (a ++ b).Perm (b ++ a) := fun a b =>
    List.perm_append_comm
  simp only [segments_eq]
  unfold send
  split
  · simp only [List.filterMap_append, one, List.append_assoc]
    apply List.Perm.append_left
    apply (last _ _).trans
    simp only [List.append_assoc, List.Perm.refl]
  · simp only [List.filterMap_append, one, List.append_assoc]
    apply List.Perm.append_left
    apply List.Perm.append_left
    apply (last _ _).trans
    simp only [List.append_assoc, List.Perm.refl]

theorem Honest.segment {message : MessageFor SM} (truthful : r.Honest message) :
    message.segment? = none := by
  cases message with
  | newState | doViewChange | startView | recoveryResponse => exact truthful.elim
  | _ => rfl

theorem segments_supersede (r : Replica SM) : r.supersedeAcks.segments = r.segments := by
  have same : (r.supersedeAcks.outbox.filterMap fun envelope => envelope.2.segment?) =
      r.outbox.filterMap fun envelope => envelope.2.segment? := by
    show ((r.outbox.filter _).filterMap _) = _
    rw [List.filterMap_filter]
    apply List.filterMap_congr
    intro envelope _
    split
    · rfl
    · next isAck =>
      obtain ⟨_, message⟩ := envelope
      cases message with
      | prepareOk => rfl
      | _ => exact absurd rfl isAck
  rw [segments_eq, segments_eq, same]
  rfl

theorem segments_startRound (run : r.startRound = some r') : r'.segments = r.segments := by
  obtain ⟨_, _, _, _, _, early, outbox, waiting, ready, _⟩ := startRound_effect run
  have none : (r.others.map fun replicaId => ((replicaId,
      Message.confirmView r.viewNumber (r.round + 1)) : Envelope SM)).filterMap
        (fun envelope => envelope.2.segment?) = [] := by
    apply List.filterMap_eq_nil_iff.mpr
    intro envelope mem
    obtain ⟨_, _, rfl⟩ := List.mem_map.mp mem
    rfl
  rw [segments_eq, segments_eq, early, outbox, waiting, ready, List.filterMap_append, none,
    List.append_nil]

theorem segments_onQuery {clientId queryNumber : Nat} {query : Query SM}
    (run : r.onQuery clientId queryNumber query = some r') : r'.segments = r.segments := by
  rcases onQuery_cases run with rfl | ⟨_, _, _, asked, round, ask, rfl⟩
  · rfl
  · rcases roundForQuery_cases ask with ⟨_, rfl, _⟩ | ⟨_, _, _, start, _⟩ | ⟨_, _, rfl, _⟩
    · rfl
    · have opens := segments_startRound start
      exact opens
    · rfl

theorem segments_onConfirmViewOk {viewNumber round replicaId : Nat}
    (run : r.onConfirmViewOk viewNumber round replicaId = some r') : r'.segments = r.segments := by
  rcases onConfirmViewOk_cases run with
    ⟨rfl, _⟩ | ⟨_, _, _, _, _, _, ⟨_, rfl⟩ | ⟨_, opened, start, rfl⟩⟩
  · rfl
  · rfl
  · obtain ⟨early, outbox, waiting, ready⟩ := executeQueries_outboxes opened
    rw [segments_of_outboxes early outbox waiting ready]
    unfold startRoundIfAwaited at start
    split at start
    · have opens := segments_startRound start
      exact opens
    · cases start
      rfl

theorem Executed.segments (executed : Executed r r') : r'.segments = r.segments :=
  segments_of_outboxes executed.early executed.outbox executed.waiting executed.ready

theorem Quiet.segments (same : Quiet r r') : r'.segments = r.segments :=
  segments_of_outboxes same.early same.outbox same.waiting same.ready

/-- No move queues a segment. -/
theorem Move.segments (move : Move heard r r') : r'.segments.Perm r.segments := by
  have still : r'.toOutboxes = r.toOutboxes → r'.segments.Perm r.segments := by
    intro same
    rw [segments_eq, segments_eq, same]
  cases move with
  | quiet same => rw [same.segments]
  | send replicaId message truthful =>
      apply (segments_send r replicaId message).trans
      rw [truthful.segment, Option.toList_none, List.append_nil]
  | supersede => rw [segments_supersede]
  | merge run => exact still (mergeLog_logged run).outboxes
  | commit run => rw [(commitUpTo_executed run).segments]
  | count run =>
      obtain ⟨_, _, ⟨_, rfl⟩ | ⟨_, run⟩⟩ := registerAck_cases run
      · exact .refl _
      · rw [(commitUpTo_executed run).segments]
        exact .refl _
  | apply _ run => rw [(applyCommitted_executed run).1.segments]
  | @enter m _ _ _ _ _ run =>
      show m.segments.Perm _
      rw [(commitUpTo_executed run).segments]
      exact .refl _
  | rebuild run => exact still (rebuildPending_same run).outboxes
  | restore _ _ run =>
      obtain ⟨_, _, _, _, _, outboxes⟩ := restoreCheckpoint_effect run
      exact still outboxes
  | keep run =>
      rcases keepCheckpoint_effect run with ⟨rfl, _⟩ | ⟨_, _, _, _, rfl⟩ <;> exact still rfl
  | query run => rw [segments_onQuery run]
  | confirm _ run => rw [segments_onConfirmViewOk run]
  | append | leave | turn | transfer | rejoin | refetch | stage | release => exact still rfl

/-- A segment of the log as it is describes it, its checkpoint being one of its ops. -/
theorem Segment.describes {segment : LogSegment (Input SM)} (isSegment : r.Segment segment)
    (windowed : r.toStanding.Windowed) (serving : ∀ k, r.serving.map Prod.fst = some k →
      r.logStart ≤ k ∧ k ≤ r.applied) : r.Describes segment := by
  obtain ⟨entries, base⟩ := isSegment
  have inside : r.logStart ≤ segment.start ∧ segment.start ≤ r.opNumber := by
    obtain ⟨base', _⟩ := segment
    cases base' with
    | op opNumber => exact base
    | checkpoint k =>
        obtain ⟨first, done⟩ := serving k base
        exact ⟨first, done.trans windowed.held⟩
  have isDrop : segment.entries = r.log.drop (segment.start - r.logStart) := by
    have short : segment.start - r.logStart ≤ r.log.length := by
      have := inside.2
      unfold Standing.opNumber at this
      omega
    rw [entries, Standing.logFrom, Nat.add_sub_add_right, min_eq_left short]
  refine ⟨inside.1, isDrop, ?_, fun k isBase => ?_⟩
  · have := inside.2
    unfold LogSegment.endOp Standing.opNumber at *
    rw [isDrop, List.length_drop]
    omega
  · rwa [isBase] at base

theorem Describes.same {segment : LogSegment (Input SM)} (describes : r.Describes segment)
    (standing : r'.toStanding = r.toStanding)
    (serving : r'.serving.map Prod.fst = r.serving.map Prod.fst) : r'.Describes segment := by
  obtain ⟨follows, entries, ends, isServing⟩ := describes
  constructor
  · rwa [standing]
  · rwa [standing]
  · rwa [standing]
  · rwa [serving]

/-- A receiver that restores the checkpoint a segment follows, and merges the segment,
holds the log it describes. -/
theorem Describes.installs {segment : LogSegment (Input SM)} (describes : r.Describes segment)
    {k : Nat} (base : segment.base = .checkpoint k) {q restored merged : Replica SM}
    (restore : q.restoreCheckpoint k = some restored)
    (merge : restored.mergeLog k segment.entries = some merged) :
    merged.opNumber = r.opNumber ∧ ∀ n, k < n → merged.entry n = r.entry n := by
  obtain ⟨_, core, _⟩ := restoreCheckpoint_effect restore
  have standing : restored.toStanding = q.toStanding.restoredAt k := congrArg (·.toStanding) core
  have isMerged := congrArg (·.toStanding) (mergeLog_logged merge).core
  replace isMerged : merged.toStanding = restored.toStanding.merged k segment.entries := isMerged
  have log : merged.log = segment.entries ∧ merged.logStart = k := by
    rw [isMerged, standing]
    simp [Standing.merged, Standing.restoredAt, Standing.keepUpTo]
  have start : segment.start = k := by
    unfold LogSegment.start
    rw [base]
    rfl
  obtain ⟨follows, entries, ends, _⟩ := describes
  rw [start] at follows entries
  constructor
  · rw [← ends, LogSegment.endOp, start, Standing.opNumber, log.1, log.2]
  · intro n later
    simp only [Standing.entry, log.1, log.2]
    rw [checkedSub_of_le (by omega), checkedSub_of_le (by omega), entries]
    show (r.log.drop (k - r.logStart))[n - (k + 1)]? = r.log[n - (r.logStart + 1)]?
    rw [List.getElem?_drop]
    congr 1
    omega

theorem Adds.of_perm (perm : r'.segments.Perm r.segments) : Adds r r' :=
  ⟨[], by rw [List.append_nil]; exact perm.subperm, nofun⟩

theorem Moves.segments (moves : Moves heard r r') : r'.segments.Perm r.segments := by
  induction moves with
  | refl => exact .refl _
  | tail _ move ih => exact move.segments.trans ih

theorem Holds.segment {message : MessageFor SM} (holds : r.Holds message) :
    ∀ segment ∈ message.segment?.toList, r.Segment segment := by
  intro segment mem
  rw [Option.mem_toList] at mem
  cases message with
  | newState =>
      cases mem
      exact holds
  | doViewChange =>
      cases mem
      exact holds.2
  | startView =>
      cases mem
      exact holds.2.2
  | recoveryResponse _ _ _ state =>
      obtain ⟨told, isTold, rfl⟩ := Option.map_eq_some_iff.mp mem
      exact holds.2.2 told isTold
  | _ => cases mem

/-- What is told describes the replica that tells it. -/
theorem Adds.tell {m : Replica SM} (adds : Adds r m) (tell : Tell m r')
    (windowed : m.toStanding.Windowed) (serving : ∀ k, m.serving.map Prod.fst = some k →
      m.logStart ≤ k ∧ k ≤ m.applied) : Adds r r' := by
  obtain ⟨added, within, describes⟩ := adds
  cases tell with
  | quiet same =>
      refine ⟨added, ?_, fun segment mem => ?_⟩
      · rwa [same.segments]
      · exact (describes segment mem).same same.standing same.serving
  | send replicaId message holds =>
      have core := send_toCore m replicaId message
      have still : ∀ segment, m.Describes segment →
          (m.send replicaId message).Describes segment := by
        intro segment isDescribed
        apply isDescribed.same
        · rw [core]
        · rw [core]
      refine ⟨added ++ message.segment?.toList, ?_, fun segment mem => ?_⟩
      · apply (segments_send m replicaId message).subperm.trans
        rw [← List.append_assoc]
        exact (List.subperm_append_right _).mpr within
      · apply still
        rcases List.mem_append.mp mem with old | new
        · exact describes segment old
        · exact (holds.segment segment new).describes windowed serving

end

/-! ## Whole runs -/

section
variable {heard : MessageFor (Recorded SM) → Prop} {r r' : Replica (Recorded SM)}

/-- A replica as its constructors make it over the machine `start`, which has executed
the ops up to the one given. -/
inductive MadeOver (start : SM) : Nat → Replica (Recorded SM) → Prop
  | new {selfId : Nat} {config : Config} {r : Replica (Recorded SM)}
      (run : Replica.new selfId config (⟨start, []⟩ : Recorded SM) = some r) : MadeOver start 0 r
  | recover {selfId : Nat} {config : Config} {viewNumber nonce : Nat} {r : Replica (Recorded SM)}
      (run : Replica.recover selfId config (⟨start, []⟩ : Recorded SM) viewNumber nonce = some r) :
      MadeOver start 0 r
  | restart {selfId : Nat} {config : Config} {applied nonce : Nat}
      {state : PersistentState (Input SM)} {r : Replica (Recorded SM)}
      (run : Replica.restart selfId config (⟨start, []⟩ : Recorded SM) applied state nonce =
        some r) : MadeOver start applied r

variable {State : Type} {content : SM → State} {kept : SM → Option State} {start : SM}
  {applied : Nat} {past : Nat → State}

theorem MadeOver.made (made : MadeOver start applied r) : r.Made := by
  cases made with
  | new run => exact .new run
  | recover run => exact .recover run
  | restart run => exact .restart run

/-- A handler keeps what is served, and tells of nothing else. -/
theorem Keeping.adds (contract : CheckpointContract content kept start applied past)
    (keeping : Keeping content kept start applied past r) (handles : Handles heard r r') :
    Keeping content kept start applied past r' ∧ Adds r r' := by
  obtain ⟨moved, moves, tells⟩ := handles
  have before : Keeping content kept start applied past moved :=
    keeping.handles contract (.moves moves)
  have none : Adds r moved := .of_perm (Moves.segments moves)
  clear moves
  induction tells with
  | refl => exact ⟨before, none⟩
  | tail _ tell ih =>
      obtain ⟨keeping', adds⟩ := ih
      refine ⟨keeping'.serves contract tell.serves (tell.windowed keeping'.windowed),
        adds.tell tell keeping'.windowed fun k serves => ?_⟩
      obtain ⟨first, done, _⟩ := keeping'.serving k serves
      exact ⟨first, done⟩

/-- A replica that has called its machine for nothing yet. -/
theorem Keeping.unused (machine : r.stateMachine = ⟨start, []⟩) (isApplied : r.applied = applied)
    (free : r.serving = none) (windowed : r.toStanding.Windowed) :
    Keeping content kept start applied past r := by
  refine ⟨windowed, ?_, ?_, fun k serves => ?_⟩
  · rw [machine]
    exact .refl _
  · rw [machine, isApplied]
    exact .nil
  · rw [free] at serves
    cases serves

theorem recovery_segments {s : Replica SM} (quiet : s.queued = []) : s.sendRecovery.segments = [] := by
  apply List.filterMap_eq_nil_iff.mpr
  intro envelope mem
  rcases mem_queued_sendEach mem with old | ⟨_, _, rfl⟩
  · rw [quiet] at old
    cases old
  · rfl

theorem segments_of_quiet {s : Replica SM} (quiet : s.queued = []) : s.segments = [] := by
  unfold segments
  rw [quiet]
  rfl

theorem MadeOver.keeping (contract : CheckpointContract content kept start applied past)
    (made : MadeOver start applied r) : Keeping content kept start applied past r ∧
      ∀ segment ∈ r.segments, r.Describes segment := by
  cases made with
  | new run =>
      obtain ⟨_, rfl⟩ := new_eq run
      exact ⟨.unused rfl rfl rfl ⟨le_rfl, le_rfl, le_rfl⟩, nofun⟩
  | @recover selfId config viewNumber nonce _ run =>
      obtain ⟨_, rfl⟩ := recover_eq run
      have same := sendRecovery_same
        (forgetful selfId config (⟨start, []⟩ : Recorded SM) viewNumber nonce)
      have core := same.core
      refine ⟨.unused (congrArg (·.stateMachine) same.clientTable) ?_ ?_ ?_, ?_⟩
      · rw [core]
        rfl
      · rw [core]
        rfl
      · rw [core]
        exact ⟨le_rfl, le_rfl, le_rfl⟩
      · rw [recovery_segments rfl]
        exact nofun
  | @restart selfId config applied nonce state _ run =>
      obtain ⟨made, woken, make, wakes⟩ := restart_wakes run
      obtain ⟨_, peer, quiet, recovers⟩ := restored_peer make
      obtain ⟨_, begins, committed⟩ := restored_counts make
      have held : made.commitNumber ≤ made.opNumber := by
        unfold Replica.restart at run
        obtain ⟨made', make', run⟩ := Option.bind_eq_some_iff.mp run
        cases make.symm.trans make'
        exact (require_eq_some.mp run).1
      have free : made.serving = none := Option.map_eq_none_iff.mp (congrArg (·.serving) peer)
      have machine : made.stateMachine = ⟨start, []⟩ := Execution.restored_machine make
      have risen : Keeping content kept start applied past (made.risen applied state) :=
        .unused machine rfl free
          ⟨begins, committed, committed.trans held⟩
      have none : (made.risen applied state).segments = [] := by
        show made.segments = []
        cases isRecovering : state.recovering with
        | true =>
            rw [recovers isRecovering]
            exact recovery_segments (s := forgetful selfId config _ state.viewNumber nonce) rfl
        | false => exact segments_of_quiet (quiet isRecovering)
      have handles : Handles (fun _ => False) (made.risen applied state) r := wakes.handles
      obtain ⟨keeping, added, within, describes⟩ := risen.adds contract handles
      refine ⟨keeping, fun segment mem => describes segment ?_⟩
      rw [none, List.nil_append] at within
      exact within.subset mem

/-- A step that calls the machine for nothing. -/
theorem Keeping.still (keeping : Keeping content kept start applied past r)
    (machine : r'.stateMachine = r.stateMachine) (isApplied : r'.applied = r.applied)
    (windowed : r'.toStanding.Windowed) (serving : ∀ k, r'.serving.map Prod.fst = some k →
      r.serving.map Prod.fst = some k ∧ r'.logStart ≤ k) :
    Keeping content kept start applied past r' := by
  refine ⟨windowed, ?_, ?_, fun k serves => ?_⟩
  · rw [machine]
    exact keeping.plays
  · rw [machine, isApplied]
    exact keeping.advances
  · obtain ⟨before, first⟩ := serving k serves
    obtain ⟨_, done, isKept⟩ := keeping.serving k before
    rw [machine, isApplied]
    exact ⟨first, done, isKept⟩

/-- A step that changes the outboxes and the writes only. -/
theorem Keeping.unmoved (keeping : Keeping content kept start applied past r)
    (machine : r'.stateMachine = r.stateMachine) (standing : r'.toStanding = r.toStanding)
    (serving : r'.serving = r.serving) : Keeping content kept start applied past r' := by
  refine keeping.still machine (by rw [standing]) (by rw [standing]; exact keeping.windowed)
    fun k serves => ?_
  rw [serving] at serves
  rw [standing]
  exact ⟨serves, (keeping.serving k serves).1⟩

theorem Adds.of_subperm (within : r'.segments.Subperm r.segments) : Adds r r' :=
  ⟨[], by rwa [List.append_nil], nofun⟩

theorem segments_takeWrite {write : LogWrite (Input SM)} (run : r.takeWrite = some (r', write)) :
    r'.segments.Perm r.segments := by
  obtain ⟨_, run⟩ := require_eq_some.mp run
  obtain ⟨durable, _, run⟩ := Option.bind_eq_some_iff.mp run
  cases run
  simp only [segments_eq, List.append_assoc]
  apply List.Perm.append_left
  exact List.perm_append_comm_assoc _ _ _

theorem segments_releaseWaiting (r : Replica (Recorded SM)) :
    r.releaseWaiting.segments.Perm r.segments := by
  simp only [segments_eq, releaseWaiting, List.filterMap_append, List.filterMap_nil,
    List.append_assoc, List.nil_append]
  apply List.Perm.append_left
  apply List.Perm.append_left
  exact List.perm_append_comm

/-- What leaves was queued. -/
theorem segments_drained {early ready : List (Envelope (Recorded SM))}
    (fewer : early.Sublist r.outboxEarly) (fewer' : ready.Sublist r.outboxReady) :
    ({ r with roundUnsent := false, outboxEarly := early, outboxReady := ready } :
      Replica (Recorded SM)).segments.Subperm r.segments := by
  apply List.Sublist.subperm
  apply List.Sublist.filterMap
  exact ((fewer.append_right _).append_right _).append fewer'

end

end Replica

namespace Staging

variable {s s' : Staging SM} {State : Type} {content : SM → State} {kept : SM → Option State}
  {start : SM} {applied : Nat} {past : Nat → State}

theorem keeping_step (contract : CheckpointContract content kept start applied past) (inv : Inv s)
    (keeping : Replica.Keeping content kept start applied past s.replica) (step : Step s s') :
    Replica.Keeping content kept start applied past s'.replica ∧
      Replica.Adds s.replica s'.replica := by
  cases step with
  | @message r message run =>
      have handles : Replica.Handles (· = message) s.replica r :=
        Replica.onMessage_handles run (Owner.quorum_two inv.several) rfl inv.fetches
      exact keeping.adds contract handles
  | @idle r run =>
      have handles : Replica.Handles (fun _ => False) s.replica r := Replica.onIdle_handles run
      exact keeping.adds contract handles
  | @compact r opNumber run =>
      rcases Replica.compact_effect run with rfl | ⟨bound, beyond, done, within, inside, rfl⟩
      · exact ⟨keeping, .of_perm (.refl _)⟩
      · refine ⟨keeping.still rfl rfl ⟨done, keeping.windowed.applied, ?_⟩ fun k serves =>
          ⟨serves, within k serves⟩, .of_perm (.refl _)⟩
        have held := keeping.windowed.held
        show s.replica.applied ≤ bound + (s.replica.log.drop (bound - s.replica.logStart)).length
        unfold Standing.opNumber at held
        rw [List.length_drop]
        omega
  | take run =>
      refine ⟨?_, .of_perm (Replica.segments_takeWrite run)⟩
      obtain ⟨_, run⟩ := require_eq_some.mp run
      obtain ⟨durable, _, run⟩ := Option.bind_eq_some_iff.mp run
      cases run
      exact keeping.unmoved rfl rfl rfl
  | @handBack r write run =>
      obtain ⟨outstanding, executed, _, _, moves, rfl⟩ := Replica.persisted_moves run
      have handles : Replica.Handles (fun _ => False) (s.replica.handedBack outstanding) executed :=
        .moves moves
      have back : Replica.Keeping content kept start applied past
          (s.replica.handedBack outstanding) := keeping.unmoved rfl rfl rfl
      have moves' : Replica.Moves (fun _ => False) (s.replica.handedBack outstanding) executed :=
        moves
      refine ⟨(back.handles contract handles).unmoved rfl rfl rfl, .of_perm ?_⟩
      exact (Replica.segments_releaseWaiting executed).trans moves'.segments
  | drainBeforePersist =>
      exact ⟨keeping.unmoved rfl rfl rfl,
        .of_subperm (Replica.segments_drained (List.nil_sublist _) (List.Sublist.refl _))⟩
  | drain =>
      exact ⟨keeping.unmoved rfl rfl rfl,
        .of_subperm (Replica.segments_drained (List.nil_sublist _) (List.nil_sublist _))⟩
  | drainReplies => exact ⟨keeping.unmoved rfl rfl rfl, .of_perm (.refl _)⟩

theorem keeping_run (contract : CheckpointContract content kept start applied past)
    {r : Replica (Recorded SM)} (made : Replica.MadeOver start applied r)
    (run : ReflTransGen Step ⟨r, []⟩ s) :
    Inv s ∧ Replica.Keeping content kept start applied past s.replica := by
  induction run with
  | refl => exact ⟨inv_start made.made, (made.keeping contract).1⟩
  | tail _ step ih =>
      obtain ⟨inv, keeping⟩ := ih
      exact ⟨(inv_step inv step).1, (keeping_step contract inv keeping step).1⟩

/-- While a replica serves a checkpoint, the log starts no later and it is the state
after exactly its ops; every segment a step tells of is the log after an op it names, or
after the checkpoint served, to its end. -/
theorem served_gapless (contract : CheckpointContract content kept start applied past)
    {r : Replica (Recorded SM)} (made : Replica.MadeOver start applied r)
    (run : ReflTransGen Step ⟨r, []⟩ s) :
    (∀ k, s.replica.serving.map Prod.fst = some k →
      s.replica.logStart ≤ k ∧ k ≤ s.replica.applied ∧ kept s.replica.stateMachine.machine =
        some (stateAfter content start applied past s.replica.stateMachine.calls k)) ∧
    (∀ segment ∈ r.segments, r.Describes segment) ∧
    (∀ s', Step s s' → Replica.Adds s.replica s'.replica) ∧
    ∀ segment k, s.replica.Describes segment → segment.base = .checkpoint k →
      ∀ q restored merged : Replica (Recorded SM), q.restoreCheckpoint k = some restored →
        restored.mergeLog k segment.entries = some merged →
        merged.opNumber = s.replica.opNumber ∧
          ∀ n, k < n → merged.entry n = s.replica.entry n := by
  obtain ⟨inv, keeping⟩ := keeping_run contract made run
  refine ⟨keeping.serving, (made.keeping contract).2, fun s' step => ?_, ?_⟩
  · exact (keeping_step contract inv keeping step).2
  · intro segment k describes base q restored merged restore merge
    exact describes.installs base restore merge

end Staging

/-! ## The accumulator keeps its checkpoints -/

namespace Accumulator

/-- The state of an accumulator. -/
def content (machine : Accumulator) : Int × OrderedMap (ClientRecord Int) :=
  (machine.value, machine.clients)

/-- The checkpoint it keeps. -/
def keptCheckpoint (machine : Accumulator) : Option (Int × OrderedMap (ClientRecord Int)) :=
  machine.kept.map fun kept => (kept.value, kept.clients)

theorem run_lastOp (machine : Accumulator) (call : MachineCall Accumulator) :
    (call.run machine).lastOp = call.opNumber?.getD machine.lastOp := by
  cases call with
  | recordClient opNumber clientId record => cases record <;> rfl
  | _ => rfl

theorem runs_lastOp {opNumber : Nat} {calls : List (MachineCall Accumulator)}
    {entry : EntryFor Accumulator} (runs : Runs opNumber calls entry) (machine : Accumulator) :
    (after machine calls).lastOp = opNumber := by
  cases runs with
  | registered | skipped | evicting | ran =>
      simp only [after, List.foldl_cons, List.foldl_nil, run_lastOp]
      rfl

/-- The last call that changed the state was of the op the accumulator names. -/
theorem advances_lastOp {calls : List (MachineCall Accumulator)} {b : Nat}
    (advances : Advances 0 calls b) : (after Accumulator.new calls).lastOp ≤ b ∧
      ∀ call ∈ calls, ∀ opNumber, call.opNumber? = some opNumber →
        opNumber ≤ (after Accumulator.new calls).lastOp := by
  induction advances with
  | nil => exact ⟨le_rfl, nofun⟩
  | @entry calls new b entry _ runs ih =>
      rw [after_append, runs_lastOp runs]
      refine ⟨le_rfl, fun call mem opNumber isNumber => ?_⟩
      rcases List.mem_append.mp mem with old | recent
      · exact (ih.2 call old opNumber isNumber).trans (ih.1.trans (Nat.le_succ b))
      · cases (runs.opNumber call recent).symm.trans isNumber
        exact le_rfl
  | @keep calls b call _ keeps ih =>
      have none : call.opNumber? = none := by
        cases call with
        | checkpoint | releaseCheckpoint | stageChunk => rfl
        | apply | recordClient | restore => cases keeps
      have same : (after Accumulator.new (calls ++ [call])).lastOp =
          (after Accumulator.new calls).lastOp := by
        rw [after_append]
        show (MachineCall.run _ call).lastOp = _
        rw [run_lastOp, none, Option.getD_none]
      rw [same]
      refine ⟨ih.1, fun other mem opNumber isNumber => ?_⟩
      rcases List.mem_append.mp mem with old | recent
      · exact ih.2 other old opNumber isNumber
      · rw [List.mem_singleton.mp recent, none] at isNumber
        cases isNumber
  | @restore calls b opNumber _ beyond ih =>
      have same : (after Accumulator.new (calls ++ [.restore opNumber])).lastOp = opNumber := by
        rw [after_append]
        rfl
      rw [same]
      refine ⟨le_rfl, fun other mem named isNumber => ?_⟩
      rcases List.mem_append.mp mem with old | recent
      · exact (ih.2 other old named isNumber).trans (ih.1.trans beyond.le)
      · rw [List.mem_singleton.mp recent] at isNumber
        cases isNumber
        exact le_rfl

/-- The accumulator meets the contract. -/
theorem checkpointContract (past : Nat → Int × OrderedMap (ClientRecord Int)) :
    CheckpointContract content keptCheckpoint Accumulator.new 0 past where
  keeps machine call keeps := by
    cases call with
    | checkpoint | releaseCheckpoint | stageChunk => rfl
    | apply | recordClient | restore => cases keeps
  lasts machine call lasts := by
    cases call with
    | recordClient opNumber clientId record => cases record <;> rfl
    | apply | stageChunk => rfl
    | checkpoint | releaseCheckpoint | restore => cases lasts
  copies calls b advances _ := by
    have all : upTo (after Accumulator.new calls).lastOp calls = calls := by
      apply List.takeWhile_eq_self_iff.mpr
      intro call mem
      cases isNumber : call.opNumber? with
      | none => rfl
      | some opNumber =>
          rw [Option.all_some, decide_eq_true_iff]
          exact (advances_lastOp advances).2 call mem opNumber isNumber
    show some (content (after Accumulator.new calls)) =
      some (content (after Accumulator.new (upTo (after Accumulator.new calls).lastOp calls)))
    rw [all]

end Accumulator

namespace Staging

/-- A primary that has executed a registration and compacted it away, with another one
in its log. -/
def compacted : Option (Replica (Recorded Accumulator)) := do
  let made ← Replica.new 0 Accumulator.config ⟨.new, []⟩
  let registered ← made.onMessage (.register 5)
  let (out, write) ← registered.takeWrite
  let back ← out.persisted write
  let committed ← back.onMessage (.prepareOk 0 1 1)
  let shortened ← committed.compact 1
  shortened.onMessage (.register 6)

theorem compacted_run {r : Replica (Recorded Accumulator)} (run : compacted = some r) :
    ∃ made trace, Replica.MadeOver Accumulator.new 0 made ∧
      ReflTransGen Step ⟨made, []⟩ ⟨r, trace⟩ := by
  unfold compacted at run
  obtain ⟨made, isMade, run⟩ := Option.bind_eq_some_iff.mp run
  obtain ⟨registered, isRegistered, run⟩ := Option.bind_eq_some_iff.mp run
  obtain ⟨⟨out, write⟩, isOut, run⟩ := Option.bind_eq_some_iff.mp run
  obtain ⟨back, isBack, run⟩ := Option.bind_eq_some_iff.mp run
  obtain ⟨committed, isCommitted, run⟩ := Option.bind_eq_some_iff.mp run
  obtain ⟨shortened, isShortened, run⟩ := Option.bind_eq_some_iff.mp run
  have first : ReflTransGen Step (⟨made, []⟩ : Staging Accumulator) _ :=
    .single (.message (.register 5) isRegistered)
  have second := (first.tail (.take isOut)).tail (.handBack write isBack)
  have third := (second.tail (.message (.prepareOk 0 1 1) isCommitted)).tail (.compact 1 isShortened)
  exact ⟨made, _, .new isMade, third.tail (.message (.register 6) run)⟩

theorem served_gapless_asked : ∃ (s : Staging Accumulator) (r : Replica (Recorded Accumulator)),
    s.replica.onMessage (.getState 2 0 0) = some r ∧
      r.segments = [⟨.checkpoint 1, [.register 6]⟩] ∧ r.serving.map Prod.fst = some 1 ∧
      Accumulator.keptCheckpoint r.stateMachine.machine =
        some (stateAfter Accumulator.content Accumulator.new 0 (fun _ => (0, .empty))
          r.stateMachine.calls 1) ∧
      Replica.Adds s.replica r := by
  obtain ⟨before, r, isCompacted, run, segments, serving⟩ :
      ∃ before r : Replica (Recorded Accumulator), compacted = some before ∧
        before.onMessage (.getState 2 0 0) = some r ∧
        r.segments = [⟨.checkpoint 1, [.register 6]⟩] ∧ r.serving.map Prod.fst = some 1 :=
    ⟨_, _, rfl, rfl, rfl, rfl⟩
  obtain ⟨made, trace, isMade, runs⟩ := compacted_run isCompacted
  have step : Step (⟨before, trace⟩ : Staging Accumulator) _ := .message (.getState 2 0 0) run
  have contract := Accumulator.checkpointContract fun _ => (0, .empty)
  refine ⟨⟨before, trace⟩, r, run, segments, serving, ?_, ?_⟩
  · exact ((served_gapless contract isMade (runs.tail step)).1 1 serving).2.2
  · exact (served_gapless contract isMade runs).2.2.1 _ step

end Staging

end Vsr
