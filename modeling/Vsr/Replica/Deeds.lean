import Vsr.Replica.Driven
import Vsr.Replica.Effects
import Vsr.Simulator.Follows

/-!
# What handlers do to the state machine and for the clients

Every handler comes to a sequence of deeds: it executes what is committed, keeps,
serves, drops or stages a checkpoint, replies to a client, answers queries, or leaves
all of that still.  Before them it may restore a checkpoint.  Only a checkpoint kept
makes a replica send chunks, and no replica sends what a client asks.
-/

set_option autoImplicit false

namespace Vsr

open Relation (ReflTransGen)

/-- Whether a message is neither a chunk of a checkpoint nor what a client asks. -/
def Message.plain {Op Query Chunk : Type} : Message Op Query Chunk → Bool
  | .newChunk .. => false
  | message => !message.fromClient

namespace Replica

variable {SM : Type} [StateMachine SM] {heard : MessageFor SM → Prop} {r r' r'' : Replica SM}

/-- The messages queued that are not plain. -/
def peculiar (r : Replica SM) : List (Envelope SM) :=
  r.queued.filter fun envelope => !envelope.2.plain

/-- What a reply tells of the client table as it is: the session a client has, the
result kept of one of its requests, or that its session is gone. -/
def Knows (r : Replica SM) : Reply (Output SM) → Prop
  | .registered _ clientId session =>
      ∃ record, r.record clientId = some record ∧ record.session = session
  | .executed _ clientId session requestNumber result =>
      ∃ record, r.record clientId = some record ∧ record.session = session ∧
        requestNumber ≤ record.requestNumber ∧ ∃ index,
          index + (record.requestNumber - requestNumber + 1) = record.replies.length ∧
            record.replies[index]? = some result
  | .evicted _ clientId session =>
      (r.record clientId).filter (·.session = session) = none ∧ session ≤ r.applied
  | .queried .. => False

/-- `r'` is `r` but for what is committed, the log after that, and what concerns the
protocol alone. -/
structure Still (heard : MessageFor SM → Prop) (r r' : Replica SM) : Prop where
  table : SameTable r r'
  applied : r'.applied = r.applied
  committed : r.commitNumber ≤ r'.commitNumber
  entries : ∀ k ≤ r.commitNumber, ∀ entry, r.entry k = some entry → r'.entry k = some entry
  serving : r'.serving.map Prod.fst = r.serving.map Prod.fst
  fetch : ∀ next, r'.fetch = some next → next.index = 0 ∨ ∃ fetch, r.fetch = some fetch ∧
    next.resume.checkpoint = fetch.resume.checkpoint ∧ next.index = fetch.index
  queries : ∀ query ∈ r'.queries, query ∈ r.queries ∨
    heard (.query query.clientId query.queryNumber query.query)
  peculiar : r'.peculiar ⊆ r.peculiar
  replies : r'.replies ⊆ r.replies

/-- The replica with a chunk of the checkpoint it fetches staged. -/
def staging (r : Replica SM) (fetch : Fetch (Input SM)) (chunk : Chunk SM)
    (next : Option (Fetch (Input SM))) (timers : Timers) : Replica SM :=
  { r with
    fetch := next
    stateMachine :=
      StateMachine.stageChunk r.stateMachine fetch.resume.checkpoint fetch.index chunk
    toTimers := timers }

/-- One thing a replica that has heard `heard` does. -/
inductive Deed (heard : MessageFor SM → Prop) : Replica SM → Replica SM → Prop
  | still {r r' : Replica SM} (same : Still heard r r') : Deed heard r r'
  /-- Executes what is committed, up to `opNumber`. -/
  | apply {r r' : Replica SM} {opNumber : Nat} (run : r.applyCommitted opNumber = some r') :
      Deed heard r r'
  | answer {r : Replica SM} : Deed heard r r.executeQueries
  | reply {r : Replica SM} (reply : Reply (Output SM)) (knows : r.Knows reply) :
      Deed heard r { r with replies := r.replies ++ [reply] }
  | keep {r r' : Replica SM} {opNumber : Nat} (run : r.keepCheckpoint = some (r', opNumber)) :
      Deed heard r r'
  | release {r : Replica SM} : Deed heard r { r with
      serving := none, stateMachine := StateMachine.releaseCheckpoint r.stateMachine }
  /-- Sends a chunk of the checkpoint it keeps. -/
  | serve {r : Replica SM} {kept idlePeriods : Nat} (replicaId index : Nat)
      (serving : r.serving = some (kept, idlePeriods)) :
      Deed heard r ({ r with serving := some (kept, 0) }.send replicaId
        (.newChunk r.selfId kept index (StateMachine.checkpointChunk r.stateMachine index).1
          (StateMachine.checkpointChunk r.stateMachine index).2))
  /-- Stages the chunk its fetch waits for. -/
  | stage {r : Replica SM} {fetch : Fetch (Input SM)} {chunk : Chunk SM} (timers : Timers)
      (isFetch : r.fetch = some fetch)
      (isHeard : heard (.newChunk fetch.source fetch.resume.checkpoint fetch.index chunk false)) :
      Deed heard r (r.staging fetch chunk
        (some { fetch with idlePeriods := 0, stalled := false, index := fetch.index + 1 }) timers)
  /-- Stages the last chunk of a checkpoint that has nothing new. -/
  | drop {r : Replica SM} {fetch : Fetch (Input SM)} {chunk : Chunk SM} (timers : Timers)
      (isFetch : r.fetch = some fetch)
      (isHeard : heard (.newChunk fetch.source fetch.resume.checkpoint fetch.index chunk true)) :
      Deed heard r (r.staging fetch chunk none timers)

abbrev Deeds (heard : MessageFor SM → Prop) : Replica SM → Replica SM → Prop :=
  ReflTransGen (Deed heard)

/-- Stages the last chunk of the checkpoint it fetches, which takes the place of the
state. -/
inductive Replaces (heard : MessageFor SM → Prop) (r r' : Replica SM) : Prop
  | last {fetch : Fetch (Input SM)} {chunk : Chunk SM} (timers : Timers)
      (isFetch : r.fetch = some fetch)
      (isHeard : heard (.newChunk fetch.source fetch.resume.checkpoint fetch.index chunk true))
      (run : (r.staging fetch chunk none timers).restoreCheckpoint fetch.resume.checkpoint =
        some r')

/-- What handling a message comes to: a checkpoint is only restored first. -/
def Does (heard : MessageFor SM → Prop) (r r' : Replica SM) : Prop :=
  Deeds heard r r' ∨ ∃ restored, Replaces heard r restored ∧ Deeds heard restored r'

theorem Does.of_deeds (deeds : Deeds heard r r') : Does heard r r' := .inl deeds

/-! ## Standing still -/

theorem peculiar_of_outboxes (outboxes : r'.toOutboxes = r.toOutboxes) :
    r'.peculiar ⊆ r.peculiar := by
  unfold peculiar queued
  rw [outboxes]
  exact List.Subset.refl _

theorem SameTable.of_clientTable (config : r'.config = r.config)
    (table : r'.toClientTable = r.toClientTable) : SameTable r r' where
  config := config
  machine := congrArg (·.stateMachine) table
  records clientId := by
    unfold record
    rw [table]
  sessions := congrArg (·.sessions) table
  candidates := congrArg (·.evictionCandidates) table

namespace Still

theorem refl (r : Replica SM) : Still heard r r where
  table := .of_clientTable rfl rfl
  applied := rfl
  committed := le_rfl
  entries _ _ _ isEntry := isEntry
  serving := rfl
  fetch next isNext := .inr ⟨next, isNext, rfl, rfl⟩
  queries _ mem := .inl mem
  peculiar := List.Subset.refl _
  replies := List.Subset.refl _

theorem trans (first : Still heard r r') (second : Still heard r' r'') : Still heard r r'' where
  table :=
    { config := second.table.config.trans first.table.config
      machine := second.table.machine.trans first.table.machine
      records := fun clientId => (second.table.records clientId).trans (first.table.records clientId)
      sessions := second.table.sessions.trans first.table.sessions
      candidates := second.table.candidates.trans first.table.candidates }
  applied := second.applied.trans first.applied
  committed := first.committed.trans second.committed
  entries k within entry isEntry :=
    second.entries k (within.trans first.committed) entry (first.entries k within entry isEntry)
  serving := second.serving.trans first.serving
  fetch next isNext := by
    rcases second.fetch next isNext with zero | ⟨before, isBefore, checkpoint, index⟩
    · exact .inl zero
    · rcases first.fetch before isBefore with zero | ⟨first, isFirst, checkpoint', index'⟩
      · exact .inl (index.trans zero)
      · exact .inr ⟨first, isFirst, checkpoint.trans checkpoint', index.trans index'⟩
  queries query mem := by
    rcases second.queries query mem with before | isHeard
    · exact first.queries query before
    · exact .inr isHeard
  peculiar := List.Subset.trans second.peculiar first.peculiar
  replies := List.Subset.trans second.replies first.replies

/-- Nothing but the protocol's own state differs. -/
theorem of (config : r'.config = r.config) (applied : r'.applied = r.applied)
    (committed : r.commitNumber ≤ r'.commitNumber) (logStart : r'.logStart = r.logStart)
    (log : r'.log = r.log) (table : r'.toClientTable = r.toClientTable)
    (serving : r'.serving.map Prod.fst = r.serving.map Prod.fst)
    (fetch : r'.fetch = none ∨ r'.fetch = r.fetch) (queries : r'.queries ⊆ r.queries)
    (outboxes : r'.toOutboxes = r.toOutboxes) : Still heard r r' where
  table := .of_clientTable config table
  applied := applied
  committed := committed
  entries k _ entry isEntry := by
    unfold Standing.entry at isEntry ⊢
    rwa [logStart, log]
  serving := serving
  fetch next isNext := by
    rcases fetch with none | same
    · cases none.symm.trans isNext
    · exact .inr ⟨next, same ▸ isNext, rfl, rfl⟩
  queries query mem := .inl (queries mem)
  peculiar := peculiar_of_outboxes outboxes
  replies := (List.Perm.of_eq (congrArg (·.replies) outboxes)).subset

/-- Messages are moved or drained, and replies drained. -/
theorem moved (core : r'.toCore = { r.toCore with toWriteState := r'.toWriteState })
    (table : SameTable r r') (queries : r'.queries = r.queries)
    (queued : ∀ envelope ∈ r'.queued, envelope ∈ r.queued) (replies : r'.replies ⊆ r.replies) :
    Still heard r r' where
  table := table
  applied := by rw [core]
  committed := by rw [core]
  entries _ _ _ isEntry := by rwa [core]
  serving := by rw [core]
  fetch next isNext := by
    rw [core] at isNext
    exact .inr ⟨next, isNext, rfl, rfl⟩
  queries query mem := by
    rw [queries] at mem
    exact .inl mem
  peculiar := List.filter_subset _ queued
  replies := replies

theorem deeds (still : Still heard r r') : Deeds heard r r' := .single (.still still)

end Still

/-! ## Queueing messages -/

theorem SameButQueued.still (same : SameButQueued r r') (peculiar : r'.peculiar = r.peculiar) :
    Still heard r r' where
  table := .of_clientTable (by rw [same.core]) same.clientTable
  applied := by rw [same.core]
  committed := by rw [same.core]
  entries _ _ _ isEntry := by rwa [same.core]
  serving := by rw [same.core]
  fetch next isNext := by
    rw [same.core] at isNext
    exact .inr ⟨next, isNext, rfl, rfl⟩
  queries query mem := by
    rw [same.queryState] at mem
    exact .inl mem
  peculiar := (List.Perm.of_eq peculiar).subset
  replies := (List.Perm.of_eq same.replies).subset

theorem peculiar_send {replicaId : Nat} {message : MessageFor SM} (plain : message.plain = true) :
    (r.send replicaId message).peculiar = r.peculiar := by
  unfold send
  split <;> simp [peculiar, queued, List.filter_append, plain]

theorem send_still {replicaId : Nat} {message : MessageFor SM} (plain : message.plain = true) :
    Still heard r (r.send replicaId message) :=
  (send_same r replicaId message).still (peculiar_send plain)

theorem sendEach_still {ids : List Nat} {message : MessageFor SM} (plain : message.plain = true) :
    Still heard r (r.sendEach ids message) := by
  unfold sendEach
  induction ids generalizing r with
  | nil => exact .refl r
  | cons replicaId rest ih => exact (send_still plain).trans ih

theorem sendToOthers_still {message : MessageFor SM} (plain : message.plain = true) :
    Still heard r (r.sendToOthers message) := sendEach_still plain

theorem sendToPrimary_still {message : MessageFor SM} (plain : message.plain = true) :
    Still heard r (r.sendToPrimary message) := send_still plain

theorem sendGetStateTo_still {replicaId opNumber : Nat} :
    Still heard r (r.sendGetStateTo replicaId opNumber) := send_still rfl

theorem supersedeAcks_still : Still heard r r.supersedeAcks := by
  have same : SameButQueued r r.supersedeAcks := ⟨rfl, rfl, rfl, rfl, rfl⟩
  refine same.still ?_
  -- Only acknowledgements are dropped, and those are plain.
  have kept : ∀ envelope : Envelope SM,
      (!envelope.2.plain && !acknowledges r.primaryId r.viewNumber envelope) =
        !envelope.2.plain := by
    intro envelope
    obtain ⟨_, message⟩ := envelope
    cases message <;> simp [acknowledges, Message.plain, Message.fromClient]
  simp [peculiar, queued, supersedeAcks, List.filter_append, List.filter_filter, kept]

theorem sendPrepareOk_still : Still heard r r.sendPrepareOk :=
  supersedeAcks_still.trans (sendToPrimary_still rfl)

theorem sendStartView_still {replicaId : Nat} : Still heard r (r.sendStartView replicaId) :=
  send_still rfl

theorem sendStartViews_still {ids : List Nat} :
    Still heard r (ids.foldl (fun r replicaId => r.sendStartView replicaId) r) := by
  induction ids generalizing r with
  | nil => exact .refl r
  | cons replicaId rest ih => exact sendStartView_still.trans ih

theorem sendGetChunk_still : Still heard r r.sendGetChunk := by
  unfold sendGetChunk
  split
  · exact .refl r
  · exact send_still rfl

/-! ## The log -/

theorem recordIn_setPending (clients : Std.ExtTreeMap Nat (ClientState (Output SM)))
    (opNumber : Nat) (entry : EntryFor SM) (clientId : Nat) :
    recordIn (setPending clients opNumber entry) clientId = recordIn clients clientId := by
  unfold setPending
  rw [recordIn_insert]
  split
  · next same =>
    rw [← same]
    unfold recordIn
    cases clients[(pendingKey opNumber entry).1]? <;> rfl
  · rfl

theorem recordIn_setPendings (clients : Std.ExtTreeMap Nat (ClientState (Output SM)))
    (opNumber : Nat) (entries : List (EntryFor SM)) (clientId : Nat) :
    recordIn (setPendings clients opNumber entries) clientId = recordIn clients clientId := by
  induction entries generalizing clients opNumber with
  | nil => rfl
  | cons entry rest ih =>
      unfold setPendings
      rw [ih, recordIn_setPending]

theorem recordIn_recordsOnly (clients : Std.ExtTreeMap Nat (ClientState (Output SM)))
    (clientId : Nat) : recordIn (recordsOnly clients) clientId = recordIn clients clientId := by
  unfold recordIn recordsOnly
  rw [Std.ExtTreeMap.getElem?_filterMap', Option.bind_assoc]
  cases clients[clientId]? with
  | none => rfl
  | some state =>
      cases isRecord : state.record <;> simp [isRecord]

/-- Only the log and the pending keys differ. -/
theorem Still.logged (core : r'.toCore = { r.toCore with
      toStanding := r'.toStanding, toWriteState := r'.toWriteState })
    (applied : r'.applied = r.applied) (committed : r.commitNumber ≤ r'.commitNumber)
    (entries : ∀ k ≤ r.commitNumber, ∀ entry, r.entry k = some entry → r'.entry k = some entry)
    (machine : r'.stateMachine = r.stateMachine)
    (records : ∀ clientId, r'.record clientId = r.record clientId)
    (sessions : r'.sessions = r.sessions)
    (candidates : r'.evictionCandidates = r.evictionCandidates)
    (queries : r'.queries = r.queries) (outboxes : r'.toOutboxes = r.toOutboxes) :
    Still heard r r' where
  table := ⟨congrArg (·.config) core, machine, records, sessions, candidates⟩
  applied := applied
  committed := committed
  entries := entries
  serving := by rw [core]
  fetch next isNext := by
    rw [core] at isNext
    exact .inr ⟨next, isNext, rfl, rfl⟩
  queries query mem := .inl (queries ▸ mem)
  peculiar := peculiar_of_outboxes outboxes
  replies := (List.Perm.of_eq (congrArg (·.replies) outboxes)).subset

theorem appendToLog_still (entry : EntryFor SM) : Still heard r (r.appendToLog entry) := by
  refine .logged rfl rfl le_rfl (fun k _ entry' isEntry => ?_) rfl
    (recordIn_setPending r.clients (r.opNumber + 1) entry) rfl rfl rfl rfl
  obtain ⟨index, isIndex, found⟩ := Option.bind_eq_some_iff.mp isEntry
  refine Option.bind_eq_some_iff.mpr ⟨index, isIndex, ?_⟩
  show (r.log ++ [entry])[index]? = some entry'
  rw [List.getElem?_append_left (List.getElem?_eq_some_iff.mp found).1, found]

theorem rebuildPending_still (run : r.rebuildPending = some r') : Still heard r r' := by
  obtain ⟨skip, _, run⟩ := Option.bind_eq_some_iff.mp run
  obtain ⟨_, run⟩ := require_eq_some.mp run
  cases run
  refine .logged rfl rfl le_rfl (fun _ _ _ isEntry => isEntry) rfl (fun clientId => ?_) rfl rfl
    rfl rfl
  exact (recordIn_setPendings _ _ _ clientId).trans (recordIn_recordsOnly _ clientId)

/-- A merge keeps what is committed. -/
theorem merged_entry {s : Standing (Input SM)} {start : Nat} {entries : List (EntryFor SM)} {k : Nat}
    (committed : k ≤ s.commitNumber) {entry : EntryFor SM} (isEntry : s.entry k = some entry) :
    (s.merged start entries).entry k = some entry := by
  obtain ⟨index, isIndex, found⟩ := Option.bind_eq_some_iff.mp isEntry
  refine Option.bind_eq_some_iff.mpr ⟨index, isIndex, ?_⟩
  obtain ⟨later, rfl⟩ := checkedSub_eq_some.mp isIndex
  have kept : k ≤ s.keepUpTo start := committed.trans (le_max_right _ _)
  have inside := (List.getElem?_eq_some_iff.mp found).1
  have before : k - (s.logStart + 1) < s.keepUpTo start - s.logStart := by omega
  show (s.log.take (s.keepUpTo start - s.logStart) ++ _)[k - (s.logStart + 1)]? = some entry
  rw [List.getElem?_append_left, List.getElem?_take_of_lt before, found]
  rw [List.length_take]
  omega

theorem mergeLog_still {start : Nat} {entries : List (EntryFor SM)}
    (run : r.mergeLog start entries = some r') : Still heard r r' := by
  obtain ⟨_, run⟩ := require_eq_some.mp run
  obtain ⟨_, run⟩ := require_eq_some.mp run
  obtain ⟨_, run⟩ := require_eq_some.mp run
  have merged : Still heard r { r with
      toStanding := r.toStanding.merged start entries
      toWriteState := r.toWriteState.markLogChanged (r.keepUpTo start + 1) } :=
    .logged rfl rfl le_rfl (fun _ committed _ isEntry => merged_entry committed isEntry) rfl
      (fun _ => rfl) rfl rfl rfl rfl
  exact merged.trans (rebuildPending_still run)

/-! ## Committing and executing -/

theorem commitUpTo_deeds {commitNumber : Nat} {reply : Bool}
    (run : r.commitUpTo commitNumber reply = some r') : Deeds heard r r' := by
  unfold commitUpTo at run
  split at run
  · cases run
    exact .refl
  · next new =>
    obtain ⟨durable, _, run⟩ := Option.bind_eq_some_iff.mp run
    refine .head (.still ?_) (.single (.apply run))
    exact .of rfl rfl (not_le.mp new).le rfl rfl rfl rfl (.inr rfl) (List.Subset.refl _) rfl

theorem registerAck_deeds {replicaId opNumber : Nat}
    (run : r.registerAck replicaId opNumber = some r') : Deeds heard r r' := by
  obtain ⟨_, _, ⟨_, rfl⟩ | ⟨_, run⟩⟩ := registerAck_cases run
  · exact .refl
  · refine .head (.still ?_) (commitUpTo_deeds run)
    exact .of rfl rfl le_rfl rfl rfl rfl rfl (.inr rfl) (List.Subset.refl _) rfl

/-! ## Entering and leaving views -/

theorem enterNormal_still : Still heard r r.enterNormal :=
  .of rfl rfl le_rfl rfl rfl rfl rfl (.inl rfl) (List.nil_subset _) rfl

theorem leaveFor_still {viewNumber : Nat} : Still heard r (r.leaveFor viewNumber) :=
  .of rfl rfl le_rfl rfl rfl rfl rfl (.inl rfl) (List.nil_subset _) rfl

theorem catchUpWithView_still {viewNumber : Nat} : Still heard r (r.catchUpWithView viewNumber) := by
  unfold catchUpWithView
  dsimp only
  split
  · exact .refl r
  · refine Still.trans ?_ sendGetStateTo_still
    exact .of rfl rfl le_rfl rfl rfl rfl rfl (.inl rfl) (List.nil_subset _) rfl

theorem stateTransfer_still : Still heard r r.stateTransfer := by
  refine Still.trans ?_ sendGetStateTo_still
  exact .of rfl rfl le_rfl rfl rfl rfl rfl (.inr rfl) (List.Subset.refl _) rfl

theorem tryStartView_deeds (run : r.tryStartView = some r') : Deeds heard r r' := by
  obtain ⟨⟨bestId, best⟩, _, run⟩ := Option.bind_eq_some_iff.mp run
  obtain ⟨installed, install, run⟩ := Option.bind_eq_some_iff.mp run
  have ask : Still heard r
      ({ r with catchingUp := some bestId }.sendGetStateTo bestId r.commitNumber) := by
    refine Still.trans ?_ sendGetStateTo_still
    exact .of rfl rfl le_rfl rfl rfl rfl rfl (.inr rfl) (List.Subset.refl _) rfl
  cases installed with
  | log merged =>
      obtain ⟨committed, commit, run⟩ := Option.bind_eq_some_iff.mp run
      cases run
      refine .head (.still (mergeLog_still (installed_log install))) ?_
      apply (commitUpTo_deeds commit).trans
      exact (enterNormal_still.trans sendStartViews_still).deeds
  | nothing =>
      cases run
      exact ask.deeds
  | checkpoint segment =>
      cases run
      exact ask.deeds

theorem recordDoViewChange_deeds {replicaId : Nat} {dvc : DoViewChange (Input SM)}
    (run : r.recordDoViewChange replicaId dvc = some r') : Deeds heard r r' := by
  have record : Still heard r
      { r with doViewChangeFrom := r.doViewChangeFrom.insert replicaId dvc } :=
    .of rfl rfl le_rfl rfl rfl rfl rfl (.inr rfl) (List.Subset.refl _) rfl
  unfold recordDoViewChange at run
  dsimp only at run
  split at run
  · cases run
    exact record.deeds
  · exact record.deeds.trans (tryStartView_deeds run)

theorem sendDoViewChange_deeds (run : r.sendDoViewChange = some r') : Deeds heard r r' := by
  unfold sendDoViewChange at run
  dsimp only at run
  split at run
  · exact recordDoViewChange_deeds run
  · cases run
    exact (send_still rfl).deeds

theorem maybeSendDoViewChange_deeds (run : r.maybeSendDoViewChange = some r') :
    Deeds heard r r' := by
  unfold maybeSendDoViewChange at run
  split at run
  · cases run
    exact .refl
  · split at run
    · cases run
      exact .refl
    · refine .head (.still ?_) (sendDoViewChange_deeds run)
      exact .of rfl rfl le_rfl rfl rfl rfl rfl (.inr rfl) (List.Subset.refl _) rfl

theorem startViewChange_deeds {viewNumber : Nat} (run : r.startViewChange viewNumber = some r') :
    Deeds heard r r' :=
  (leaveFor_still.trans (sendToOthers_still rfl)).deeds.trans (maybeSendDoViewChange_deeds run)

/-! ## Normal operation -/

theorem prepare_still (entry : EntryFor SM) : Still heard r (r.prepare entry) :=
  (appendToLog_still entry).trans (sendToOthers_still rfl)

theorem onRegister_deeds (clientId : Nat) : Deeds heard r (r.onRegister clientId) := by
  unfold onRegister
  split
  · exact .refl
  · split
    · next record isRecord => exact .single (.reply _ ⟨record, isRecord, rfl⟩)
    · split
      · exact .refl
      · exact (prepare_still _).deeds

/-- The result kept of a request is the one its record tells. -/
theorem resendReply_deeds {record : ClientRecord (Output SM)} {clientId session requestNumber : Nat}
    (isRecord : r.record clientId = some record) (isSession : record.session = session)
    (earlier : requestNumber ≤ record.requestNumber) :
    Deeds heard r (r.resendReply record clientId session requestNumber) := by
  unfold resendReply
  dsimp only
  split
  · next result isResult =>
    obtain ⟨index, isIndex, found⟩ := Option.bind_eq_some_iff.mp isResult
    obtain ⟨within, rfl⟩ := checkedSub_eq_some.mp isIndex
    refine .single (.reply _ ⟨record, isRecord, isSession, earlier, _, ?_, found⟩)
    omega
  · exact .refl

theorem onRequest_deeds (clientId session requestNumber answered : Nat) (op : Input SM) :
    Deeds heard r (r.onRequest clientId session requestNumber answered op) := by
  have append : ∀ (refuse : Prop) [Decidable refuse], Deeds heard r
      (if refuse then r else r.prepare (.request clientId session requestNumber answered op)) := by
    intro refuse _
    split
    · exact .refl
    · exact (prepare_still _).deeds
  unfold onRequest
  split
  · exact .refl
  · split
    · next gone =>
      split
      · next executed => exact .single (.reply _ ⟨gone, executed⟩)
      · exact .refl
    · next record isRecord =>
      obtain ⟨found, isSession⟩ := Option.filter_eq_some_iff.mp isRecord
      split
      · next earlier => exact resendReply_deeds found (by simpa using isSession) earlier
      · dsimp only
        split
        · split
          · exact append _
          · split
            · exact .refl
            · exact append _
        · exact append _

theorem acceptFromPrimary_still {viewNumber : Nat} {accepted : Bool}
    (run : r.acceptFromPrimary viewNumber = (r', accepted)) : Still heard r r' := by
  have hear : Still heard r { r with heardFromPrimary := true } :=
    .of rfl rfl le_rfl rfl rfl rfl rfl (.inr rfl) (List.Subset.refl _) rfl
  unfold acceptFromPrimary at run
  split at run
  · cases run
    exact .refl r
  · split at run
    · cases run
      exact catchUpWithView_still
    · dsimp only at run
      split at run
      · cases run
        exact hear
      · cases run
        exact hear
      · cases run
        exact hear
      · cases run
        exact hear.trans catchUpWithView_still

theorem onPrepare_deeds {viewNumber opNumber commitNumber : Nat} {entry : EntryFor SM}
    (run : r.onPrepare viewNumber opNumber entry commitNumber = some r') : Deeds heard r r' := by
  unfold onPrepare at run
  split at run
  · next accept =>
    cases run
    exact (acceptFromPrimary_still accept).deeds
  · next accepted accept =>
    apply (acceptFromPrimary_still accept).deeds.trans
    split at run
    · cases run
      exact stateTransfer_still.deeds
    · obtain ⟨committed, commit, run⟩ := Option.bind_eq_some_iff.mp run
      cases run
      refine .trans ?_ sendPrepareOk_still.deeds
      split at commit
      · exact .head (.still (appendToLog_still entry)) (commitUpTo_deeds commit)
      · exact commitUpTo_deeds commit

theorem onPrepareOk_deeds {viewNumber opNumber replicaId : Nat}
    (run : r.onPrepareOk viewNumber opNumber replicaId = some r') : Deeds heard r r' := by
  unfold onPrepareOk at run
  split at run
  · cases run
    exact .refl
  · exact registerAck_deeds run

theorem onCommit_deeds {viewNumber commitNumber : Nat}
    (run : r.onCommit viewNumber commitNumber = some r') : Deeds heard r r' := by
  unfold onCommit at run
  split at run
  · next accept =>
    cases run
    exact (acceptFromPrimary_still accept).deeds
  · next accept =>
    apply (acceptFromPrimary_still accept).deeds.trans
    split at run
    · cases run
      exact stateTransfer_still.deeds
    · exact commitUpTo_deeds run

/-! ## Queries -/

theorem startRound_still (run : r.startRound = some r') : Still heard r r' := by
  obtain ⟨_, run⟩ := require_eq_some.mp run
  cases run
  refine Still.trans ?_ (sendToOthers_still rfl)
  exact .of rfl rfl le_rfl rfl rfl rfl rfl (.inr rfl) (List.Subset.refl _) rfl

theorem roundForQuery_still {round : Nat} (run : r.roundForQuery = some (r', round)) :
    Still heard r r' := by
  rcases roundForQuery_cases run with ⟨_, rfl, _⟩ | ⟨_, _, _, start, _⟩ | ⟨_, _, rfl, _⟩
  · exact .refl _
  · exact startRound_still start
  · exact .refl _

/-- A query heard joins those that wait. -/
theorem onQuery_still {clientId queryNumber : Nat} {query : Query SM}
    (isHeard : heard (.query clientId queryNumber query))
    (run : r.onQuery clientId queryNumber query = some r') : Still heard r r' := by
  rcases onQuery_cases run with rfl | ⟨_, _, _, asked, round, ask, rfl⟩
  · exact .refl _
  · have waits : Still heard r { r with waiting := insert (clientId, queryNumber) r.waiting } :=
      .of rfl rfl le_rfl rfl rfl rfl rfl (.inr rfl) (List.Subset.refl _) rfl
    refine (waits.trans (roundForQuery_still ask)).trans ?_
    exact
      { table := .of_clientTable rfl rfl
        applied := rfl
        committed := le_rfl
        entries := fun _ _ _ isEntry => isEntry
        serving := rfl
        fetch := fun next isNext => .inr ⟨next, isNext, rfl, rfl⟩
        queries := fun waiting mem => by
          rcases List.mem_append.mp mem with before | new
          · exact .inl before
          · rw [List.mem_singleton.mp new]
            exact .inr isHeard
        peculiar := List.Subset.refl _
        replies := List.Subset.refl _ }

theorem onConfirmView_still {viewNumber round : Nat} :
    Still heard r (r.onConfirmView viewNumber round) := by
  unfold onConfirmView
  split
  · exact .refl r
  · exact sendToPrimary_still rfl

theorem onConfirmViewOk_deeds {viewNumber round replicaId : Nat}
    (run : r.onConfirmViewOk viewNumber round replicaId = some r') : Deeds heard r r' := by
  rcases onConfirmViewOk_cases run with
    ⟨rfl, _⟩ | ⟨_, _, _, _, _, _, ⟨_, rfl⟩ | ⟨_, opened, start, rfl⟩⟩
  · exact .refl
  · exact Still.deeds (.of rfl rfl le_rfl rfl rfl rfl rfl (.inr rfl) (List.Subset.refl _) rfl)
  · have counts : Still heard r { r with
        confirmed := r.confirmed.set replicaId round
        roundConfirmed := quorumMark r.config.quorum (r.confirmed.set replicaId round) } :=
      .of rfl rfl le_rfl rfl rfl rfl rfl (.inr rfl) (List.Subset.refl _) rfl
    refine .head (.still counts) (.trans ?_ (.single .answer))
    unfold startRoundIfAwaited at start
    split at start
    · exact (startRound_still start).deeds
    · cases start
      exact .refl

/-! ## State transfer -/

theorem segmentFrom_deeds {opNumber : Nat} {segment : LogSegment (Input SM)}
    (run : r.segmentFrom opNumber = some (r', segment)) : Deeds heard r r' := by
  unfold segmentFrom at run
  split at run
  · cases run
    exact .refl
  · obtain ⟨⟨kept, checkpoint⟩, keep, run⟩ := Option.bind_eq_some_iff.mp run
    cases run
    exact .single (.keep keep)

theorem onGetState_deeds {replicaId viewNumber opNumber : Nat}
    (run : r.onGetState replicaId viewNumber opNumber = some r') : Deeds heard r r' := by
  unfold onGetState at run
  split at run
  · cases run
    exact .refl
  · split at run
    · cases run
      exact .refl
    · obtain ⟨⟨kept, segment⟩, segmentFrom, run⟩ := Option.bind_eq_some_iff.mp run
      cases run
      exact (segmentFrom_deeds segmentFrom).trans (send_still rfl).deeds

theorem onGetChunk_deeds {replicaId opNumber index : Nat} :
    Deeds heard r (r.onGetChunk replicaId opNumber index) := by
  unfold onGetChunk
  split
  · exact .refl
  · next kept idlePeriods serving =>
    split
    · exact .refl
    · next same =>
      rw [not_not] at same
      subst same
      exact .single (.serve replicaId index serving)

theorem newStateInstalled_deeds {commitNumber : Nat}
    (run : r.newStateInstalled commitNumber = some r') : Deeds heard r r' := by
  have drop : Still heard r { r with fetch := none } :=
    .of rfl rfl le_rfl rfl rfl rfl rfl (.inl rfl) (List.Subset.refl _) rfl
  unfold newStateInstalled at run
  dsimp only at run
  split at run
  · obtain ⟨committed, commit, run⟩ := Option.bind_eq_some_iff.mp run
    cases run
    refine .head (.still drop) ((commitUpTo_deeds commit).trans ?_)
    have rejoin : Still heard committed { committed with status := .normal } :=
      .of rfl rfl le_rfl rfl rfl rfl rfl (.inr rfl) (List.Subset.refl _) rfl
    exact (rejoin.trans sendPrepareOk_still).deeds
  · have settle : Still heard r { r with fetch := none, catchingUp := none } :=
      .of rfl rfl le_rfl rfl rfl rfl rfl (.inl rfl) (List.Subset.refl _) rfl
    refine .head (.still settle) ?_
    split at run
    · exact tryStartView_deeds run
    · obtain ⟨committed, commit, run⟩ := Option.bind_eq_some_iff.mp run
      cases run
      exact (commitUpTo_deeds commit).trans (enterNormal_still.trans sendPrepareOk_still).deeds
  · cases run
  · cases run

/-- A fetch begins with the first chunk, or goes on with the chunk it waits for. -/
theorem refetch_still {fetch : Fetch (Input SM)}
    (begins : fetch.index = 0 ∨ ∃ before, r.fetch = some before ∧
      fetch.resume.checkpoint = before.resume.checkpoint ∧ fetch.index = before.index) :
    Still heard r { r with fetch := some fetch } where
  table := .of_clientTable rfl rfl
  applied := rfl
  committed := le_rfl
  entries _ _ _ isEntry := isEntry
  serving := rfl
  fetch next isNext := by
    cases isNext
    exact begins
  queries _ mem := .inl mem
  peculiar := List.Subset.refl _
  replies := List.Subset.refl _

theorem startFetch_still {source : Nat} {resume : Resume (Input SM)} :
    Still heard r (r.startFetch source resume) := by
  have anew : ∀ first : Fetch (Input SM), first.index = 0 →
      Still heard r { r with fetch := some first }.sendGetChunk := fun first begins =>
    (refetch_still (.inl begins)).trans sendGetChunk_still
  unfold startFetch
  dsimp only
  split
  · exact anew _ rfl
  · next fetch isFetch =>
    split
    · next same =>
      split
      · refine Still.trans (refetch_still ?_) sendGetChunk_still
        exact .inr ⟨fetch, isFetch, same.2.symm, rfl⟩
      · exact refetch_still (.inr ⟨fetch, isFetch, same.2.symm, rfl⟩)
    · split
      · exact .refl r
      · exact anew _ rfl

theorem onNewState_deeds {replicaId viewNumber commitNumber : Nat}
    {segment : LogSegment (Input SM)}
    (run : r.onNewState replicaId viewNumber segment commitNumber = some r') :
    Deeds heard r r' := by
  have hear : Still heard r { r with heardFromPrimary := true } :=
    .of rfl rfl le_rfl rfl rfl rfl rfl (.inr rfl) (List.Subset.refl _) rfl
  unfold onNewState at run
  split at run
  · cases run
    exact .refl
  · refine .head (.still hear) ?_
    dsimp only at run
    split at run
    · obtain ⟨installed, install, run⟩ := Option.bind_eq_some_iff.mp run
      cases installed with
      | log merged =>
          exact .head (.still (mergeLog_still (installedInView_log install)))
            (newStateInstalled_deeds run)
      | nothing =>
          cases run
          exact .refl
      | checkpoint named =>
          cases run
          exact startFetch_still.deeds
    · split at run
      · obtain ⟨installed, install, run⟩ := Option.bind_eq_some_iff.mp run
        cases installed with
        | log merged =>
            exact .head (.still (mergeLog_still (installed_log install)))
              (newStateInstalled_deeds run)
        | nothing =>
            cases run
            exact .refl
        | checkpoint named =>
            cases run
            exact startFetch_still.deeds
      · cases run
        exact .refl
    · cases run
      exact .refl
    · cases run
      exact .refl

/-! ## Recovery -/

theorem onRecovery_deeds {replicaId nonce viewNumber : Nat}
    (run : r.onRecovery replicaId nonce viewNumber = some r') : Deeds heard r r' := by
  unfold onRecovery at run
  split at run
  · exact startViewChange_deeds run
  · split at run
    · cases run
      exact .refl
    · split at run
      · obtain ⟨⟨kept, segment⟩, segmentFrom, run⟩ := Option.bind_eq_some_iff.mp run
        cases run
        exact (segmentFrom_deeds segmentFrom).trans (send_still rfl).deeds
      · cases run
        exact (send_still rfl).deeds

theorem recoverInto_deeds {viewNumber : Nat} {state : RecoveryState (Input SM)}
    (run : r.recoverInto viewNumber state = some r') : Deeds heard r r' := by
  unfold recoverInto at run
  obtain ⟨installed, install, run⟩ := Option.bind_eq_some_iff.mp run
  cases installed with
  | log merged =>
      obtain ⟨committed, commit, run⟩ := Option.bind_eq_some_iff.mp run
      cases run
      have turn : Still heard merged { merged with viewNumber := viewNumber } :=
        .of rfl rfl le_rfl rfl rfl rfl rfl (.inr rfl) (List.Subset.refl _) rfl
      refine .head (.still ((mergeLog_still (installed_log install)).trans turn)) ?_
      exact (commitUpTo_deeds commit).trans enterNormal_still.deeds
  | checkpoint segment =>
      cases run
      exact startFetch_still.deeds
  | nothing => cases run

theorem onRecoveryResponse_deeds {viewNumber nonce replicaId : Nat}
    {state : Option (RecoveryState (Input SM))}
    (run : r.onRecoveryResponse viewNumber nonce replicaId state = some r') :
    Deeds heard r r' := by
  unfold onRecoveryResponse at run
  split at run
  · cases run
    exact .refl
  · have collect : Still heard r { r with
        recoveryResponses := r.recoveryResponses.insert replicaId ⟨viewNumber, state⟩ } :=
      .of rfl rfl le_rfl rfl rfl rfl rfl (.inr rfl) (List.Subset.refl _) rfl
    dsimp only at run
    split at run
    · cases run
      exact collect.deeds
    · split at run
      · cases run
        exact collect.deeds
      · split at run
        · split at run
          · cases run
            exact collect.deeds
          · have forget : Still heard r { r with recoveryResponses := ∅ } :=
              .of rfl rfl le_rfl rfl rfl rfl rfl (.inr rfl) (List.Subset.refl _) rfl
            exact forget.deeds.trans (recoverInto_deeds run)
        · cases run
          exact collect.deeds

/-- The chunk the fetch waits for is staged, and with the last one the checkpoint is
restored. -/
theorem onNewChunk_does {replicaId opNumber index : Nat} {chunk : Chunk SM} {last : Bool}
    (isHeard : heard (.newChunk replicaId opNumber index chunk last))
    (run : r.onNewChunk replicaId opNumber index chunk last = some r') : Does heard r r' := by
  unfold onNewChunk at run
  split at run
  · cases run
    exact .of_deeds .refl
  · next fetch isFetch =>
    split at run
    · cases run
      exact .of_deeds .refl
    · next awaited =>
      simp only [not_or, not_not] at awaited
      obtain ⟨rfl, rfl, rfl⟩ := awaited
      dsimp only at run
      split at run
      · next isMore =>
        rw [Bool.not_eq_true'] at isMore
        subst isMore
        cases run
        exact .of_deeds (.head (.stage _ isFetch isHeard) sendGetChunk_still.deeds)
      · next isLast =>
        rw [Bool.not_eq_true, Bool.not_eq_false'] at isLast
        subst isLast
        split at run
        · cases run
          exact .of_deeds (.single (.drop _ isFetch isHeard))
        · obtain ⟨restored, restore, run⟩ := Option.bind_eq_some_iff.mp run
          refine .inr ⟨restored, .last _ isFetch isHeard restore, ?_⟩
          cases isResume : fetch.resume with
          | newState viewNumber segment commitNumber =>
              simp only [isResume] at run
              split at run
              · obtain ⟨merged, merge, run⟩ := Option.bind_eq_some_iff.mp run
                exact .head (.still (mergeLog_still merge)) (newStateInstalled_deeds run)
              · cases run
                exact .refl
          | recoveryResponse viewNumber state =>
              simp only [isResume] at run
              exact recoverInto_deeds run

/-! ## View changes -/

theorem onStartViewChange_deeds {viewNumber replicaId : Nat}
    (run : r.onStartViewChange viewNumber replicaId = some r') : Deeds heard r r' := by
  have joins : ∀ m : Replica SM,
      { m with startViewChangeFrom := insert replicaId m.startViewChangeFrom
        }.maybeSendDoViewChange = some r' → Deeds heard m r' := by
    intro m run
    have join : Still heard m
        { m with startViewChangeFrom := insert replicaId m.startViewChangeFrom } :=
      .of rfl rfl le_rfl rfl rfl rfl rfl (.inr rfl) (List.Subset.refl _) rfl
    exact join.deeds.trans (maybeSendDoViewChange_deeds run)
  unfold onStartViewChange at run
  dsimp only at run
  split at run
  · cases run
    exact .refl
  · split at run
    · obtain ⟨left, leave, run⟩ := Option.bind_eq_some_iff.mp run
      exact (startViewChange_deeds leave).trans (joins left run)
    · split at run
      · split at run
        · cases run
          exact sendStartView_still.deeds
        · cases run
          exact .refl
      · exact joins r run

theorem onDoViewChange_deeds {viewNumber replicaId : Nat} {dvc : DoViewChange (Input SM)}
    (run : r.onDoViewChange viewNumber replicaId dvc = some r') : Deeds heard r r' := by
  unfold onDoViewChange at run
  split at run
  · cases run
    exact .refl
  · split at run
    · obtain ⟨left, leave, run⟩ := Option.bind_eq_some_iff.mp run
      exact (startViewChange_deeds leave).trans (recordDoViewChange_deeds run)
    · split at run
      · cases run
        exact sendStartView_still.deeds
      · exact recordDoViewChange_deeds run

theorem onStartView_deeds {viewNumber commitNumber : Nat} {segment : LogSegment (Input SM)}
    (run : r.onStartView viewNumber segment commitNumber = some r') : Deeds heard r r' := by
  unfold onStartView at run
  split at run
  · cases run
    exact .refl
  · obtain ⟨installed, install, run⟩ := Option.bind_eq_some_iff.mp run
    cases installed with
    | log merged =>
        obtain ⟨committed, commit, run⟩ := Option.bind_eq_some_iff.mp run
        cases run
        have turn : Still heard merged { merged with viewNumber := viewNumber } :=
          .of rfl rfl le_rfl rfl rfl rfl rfl (.inr rfl) (List.Subset.refl _) rfl
        refine .head (.still ((mergeLog_still (installed_log install)).trans turn)) ?_
        exact (commitUpTo_deeds commit).trans (enterNormal_still.trans sendPrepareOk_still).deeds
    | nothing =>
        cases run
        exact catchUpWithView_still.deeds
    | checkpoint segment =>
        cases run
        exact catchUpWithView_still.deeds

/-! ## Dispatch -/

theorem onMessage_does {message : MessageFor SM} (isHeard : heard message)
    (run : r.onMessage message = some r') : Does heard r r' := by
  unfold onMessage at run
  split at run
  · cases run
    exact .of_deeds .refl
  · cases message with
    | register clientId =>
        cases run
        exact .of_deeds (onRegister_deeds clientId)
    | request clientId session requestNumber answered op =>
        cases run
        exact .of_deeds (onRequest_deeds clientId session requestNumber answered op)
    | query clientId queryNumber query => exact .of_deeds (onQuery_still isHeard run).deeds
    | confirmView viewNumber round =>
        cases run
        exact .of_deeds onConfirmView_still.deeds
    | confirmViewOk viewNumber round replicaId => exact .of_deeds (onConfirmViewOk_deeds run)
    | prepare viewNumber opNumber entry commitNumber => exact .of_deeds (onPrepare_deeds run)
    | prepareOk viewNumber opNumber replicaId => exact .of_deeds (onPrepareOk_deeds run)
    | commit viewNumber commitNumber => exact .of_deeds (onCommit_deeds run)
    | getState replicaId viewNumber opNumber => exact .of_deeds (onGetState_deeds run)
    | newState replicaId viewNumber segment commitNumber => exact .of_deeds (onNewState_deeds run)
    | getChunk replicaId opNumber index =>
        cases run
        exact .of_deeds onGetChunk_deeds
    | newChunk replicaId opNumber index chunk last => exact onNewChunk_does isHeard run
    | startViewChange viewNumber replicaId => exact .of_deeds (onStartViewChange_deeds run)
    | doViewChange viewNumber replicaId lastNormalView segment commitNumber =>
        exact .of_deeds (onDoViewChange_deeds run)
    | startView viewNumber segment commitNumber => exact .of_deeds (onStartView_deeds run)
    | recovery replicaId nonce viewNumber => exact .of_deeds (onRecovery_deeds run)
    | recoveryResponse viewNumber nonce replicaId state =>
        exact .of_deeds (onRecoveryResponse_deeds run)

/-! ## Idle periods -/

theorem serveOnIdle_deeds : Deeds heard r r.serveOnIdle := by
  unfold serveOnIdle
  split
  · exact .refl
  · next serving =>
    split
    · exact .single .release
    · exact Still.deeds (.of rfl rfl le_rfl rfl rfl rfl (by rw [serving]; rfl) (.inr rfl)
        (List.Subset.refl _) rfl)

theorem fetchOnIdle_still : Still heard r r.fetchOnIdle.1 := by
  unfold fetchOnIdle
  split
  · exact .refl r
  · next fetch isFetch =>
    split
    · exact .refl r
    · have waits : ∀ waited : Fetch (Input SM), waited.resume = fetch.resume →
          waited.index = fetch.index → Still heard r { r with fetch := some waited } := by
        intro waited resume index
        exact refetch_still (.inr ⟨fetch, isFetch, congrArg (·.checkpoint) resume, index⟩)
      dsimp only
      split
      · exact waits _ rfl rfl
      · split
        · have counted := waits { fetch with idlePeriods := fetch.idlePeriods + 1 } rfl rfl
          exact counted.trans sendGetChunk_still
        · exact waits _ rfl rfl

theorem waitTimedOut_still : Still heard r r.waitTimedOut.1 :=
  .of rfl rfl le_rfl rfl rfl rfl rfl (.inr rfl) (List.Subset.refl _) rfl

theorem resendPrepare_still {due : Nat} (run : r.resendPrepare due = some r') :
    Still heard r r' := by
  unfold resendPrepare at run
  split at run
  · obtain ⟨entry, _, run⟩ := Option.map_eq_some_iff.mp run
    cases run
    exact sendEach_still rfl
  · cases run
    exact .refl r

theorem resendRound_still : Still heard r r.resendRound := by
  unfold resendRound
  split
  · exact sendEach_still rfl
  · exact .refl r

theorem primaryOnIdle_still (run : r.primaryOnIdle = some r') : Still heard r r' := by
  obtain ⟨resent, resend, run⟩ := Option.map_eq_some_iff.mp run
  cases run
  have stable : Still heard r r.noteStable :=
    .of rfl rfl le_rfl rfl rfl rfl rfl (.inr rfl) (List.Subset.refl _) rfl
  have beats : Still heard r (r.noteStable.sendToOthers (.commit r.viewNumber r.commitNumber)) :=
    stable.trans (sendToOthers_still rfl)
  refine beats.trans (Still.trans ?_ ((resendPrepare_still resend).trans resendRound_still))
  exact .of rfl rfl le_rfl rfl rfl rfl rfl (.inr rfl) (List.Subset.refl _) rfl

theorem transferOnIdle_still : Still heard r r.transferOnIdle := by
  unfold transferOnIdle
  split
  · have waits : Still heard r r.fetchOnIdle.1 := fetchOnIdle_still
    split
    · next waited isWaiting => rwa [isWaiting] at waits
    · next waited isWaiting =>
      rw [isWaiting] at waits
      exact waits.trans stateTransfer_still
  · exact .refl r

theorem startIfTimedOut_deeds {next : Replica SM → Option (Replica SM)}
    (run : r.startIfTimedOut next = some r')
    (goesOn : ∀ waited : Replica SM, next waited = some r' → Deeds heard waited r') :
    Deeds heard r r' := by
  have waits : Still heard r r.waitTimedOut.1 := waitTimedOut_still
  unfold startIfTimedOut at run
  split at run
  · next timedOut isOut =>
    rw [isOut] at waits
    exact waits.deeds.trans (startViewChange_deeds run)
  · next waiting isWaiting =>
    rw [isWaiting] at waits
    exact waits.deeds.trans (goesOn waiting run)

theorem backupOnIdle_deeds (run : r.backupOnIdle = some r') : Deeds heard r r' := by
  apply transferOnIdle_still.deeds.trans
  unfold backupOnIdle hearOnIdle at run
  split at run
  · cases run
    exact Still.deeds (.of rfl rfl le_rfl rfl rfl rfl rfl (.inr rfl) (List.Subset.refl _) rfl)
  · refine .head (.still ?_) (startIfTimedOut_deeds run fun waited same => ?_)
    · exact .of rfl rfl le_rfl rfl rfl rfl rfl (.inr rfl) (List.Subset.refl _) rfl
    · cases same
      exact .refl

theorem catchUpOnIdle_still : Still heard r r.catchUpOnIdle := by
  unfold catchUpOnIdle
  split
  · exact .refl r
  · have waits : Still heard r r.fetchOnIdle.1 := fetchOnIdle_still
    split
    · next waited isWaiting => rwa [isWaiting] at waits
    · next waited isWaiting =>
      rw [isWaiting] at waits
      exact waits.trans sendGetStateTo_still

theorem askAgain_still : Still heard r r.askAgain := by
  unfold askAgain
  split
  · exact sendToOthers_still rfl
  · exact .refl r

theorem viewChangeOnIdle_deeds (run : r.viewChangeOnIdle = some r') : Deeds heard r r' := by
  refine startIfTimedOut_deeds run fun waited resend => ?_
  apply (catchUpOnIdle_still.trans askAgain_still).deeds.trans
  unfold resendViewChange at resend
  split at resend
  · exact sendDoViewChange_deeds resend
  · cases resend
    exact .refl

theorem onIdle_deeds (run : r.onIdle = some r') : Deeds heard r r' := by
  apply serveOnIdle_deeds.trans
  unfold onIdle at run
  dsimp only at run
  split at run
  · split at run
    · exact (primaryOnIdle_still run).deeds
    · exact backupOnIdle_deeds run
  · exact backupOnIdle_deeds run
  · have waits : Still heard r.serveOnIdle r.serveOnIdle.fetchOnIdle.1 := fetchOnIdle_still
    split at run
    · next waited isWaiting =>
      cases run
      rw [isWaiting] at waits
      exact waits.deeds
    · next waited isWaiting =>
      cases run
      rw [isWaiting] at waits
      exact (waits.trans (sendEach_still rfl)).deeds
  · exact viewChangeOnIdle_deeds run

/-! ## Writes -/

theorem takeWrite_still {write : LogWrite (Input SM)} (run : r.takeWrite = some (r', write)) :
    Still heard r r' := by
  obtain ⟨_, run⟩ := require_eq_some.mp run
  obtain ⟨durable, _, run⟩ := Option.bind_eq_some_iff.mp run
  cases run
  exact .moved rfl (.of_clientTable rfl rfl) rfl (by simp [queued]; tauto) (List.Subset.refl _)

theorem persisted_deeds {write : LogWrite (Input SM)} (run : r.persisted write = some r') :
    Deeds heard r r' := by
  unfold persisted at run
  obtain ⟨outstanding, _, run⟩ := Option.bind_eq_some_iff.mp run
  obtain ⟨_, run⟩ := require_eq_some.mp run
  obtain ⟨durable, _, run⟩ := Option.bind_eq_some_iff.mp run
  obtain ⟨acked, ack, run⟩ := Option.bind_eq_some_iff.mp run
  obtain ⟨applied, apply, run⟩ := Option.bind_eq_some_iff.mp run
  cases run
  have back : Still heard r
      { r with outstanding := none, durable := outstanding.opNumber } :=
    .of rfl rfl le_rfl rfl rfl rfl rfl (.inr rfl) (List.Subset.refl _) rfl
  refine .head (.still back) (.trans (b := acked) ?_ (.head (.apply apply) ?_))
  · unfold ackOwn at ack
    split at ack
    · exact registerAck_deeds ack
    · cases ack
      exact .refl
  · refine Still.deeds (.moved rfl (.of_clientTable rfl rfl) rfl ?_ (List.Subset.refl _))
    intro envelope mem
    simp only [queued, releaseWaiting, List.mem_append, List.not_mem_nil, or_false] at mem ⊢
    tauto

theorem drainMessagesBeforePersist_still : Still heard r r.drainMessagesBeforePersist.1 := by
  refine .moved rfl (.of_clientTable rfl rfl) rfl ?_ (List.Subset.refl _)
  intro envelope mem
  simp only [queued, drainMessagesBeforePersist, List.mem_append, List.not_mem_nil] at mem ⊢
  tauto

theorem drainMessages_still : Still heard r r.drainMessages.1 := by
  refine .moved rfl (.of_clientTable rfl rfl) rfl ?_ (List.Subset.refl _)
  intro envelope mem
  simp only [queued, drainMessages, List.mem_append, List.not_mem_nil] at mem ⊢
  tauto

theorem drainReplies_still : Still heard r r.drainReplies.1 :=
  .moved rfl (.of_clientTable rfl rfl) rfl (fun _ mem => mem) (List.nil_subset _)

/-! ## What deeds keep -/

/-- What is committed stays so, and stays in the log. -/
theorem Deed.keeps (deed : Deed heard r r') : r.commitNumber ≤ r'.commitNumber ∧
    ∀ k ≤ r.commitNumber, ∀ entry, r.entry k = some entry → r'.entry k = some entry := by
  have unchanged : r'.commitNumber = r.commitNumber → r'.logStart = r.logStart → r'.log = r.log →
      r.commitNumber ≤ r'.commitNumber ∧
        ∀ k ≤ r.commitNumber, ∀ entry, r.entry k = some entry → r'.entry k = some entry := by
    intro committed logStart log
    refine ⟨committed.ge, fun k _ entry isEntry => ?_⟩
    unfold Standing.entry at isEntry ⊢
    rwa [logStart, log]
  cases deed with
  | still same => exact ⟨same.committed, same.entries⟩
  | apply run =>
      obtain ⟨executed, committed, _⟩ := applyCommitted_executed run
      exact unchanged committed (by rw [executed.core]) (by rw [executed.core])
  | answer =>
      have core := (executeQueries_same r).core
      exact unchanged (by rw [core]) (by rw [core]) (by rw [core])
  | keep run =>
      rcases keepCheckpoint_effect run with ⟨rfl, _⟩ | ⟨_, _, _, _, rfl⟩
      · exact unchanged rfl rfl rfl
      · exact unchanged rfl rfl rfl
  | serve replicaId index serving =>
      exact unchanged (by rw [send_toCore]) (by rw [send_toCore]) (by rw [send_toCore])
  | reply => exact unchanged rfl rfl rfl
  | release => exact unchanged rfl rfl rfl
  | stage => exact unchanged rfl rfl rfl
  | drop => exact unchanged rfl rfl rfl

theorem Deeds.keeps (deeds : Deeds heard r r') : r.commitNumber ≤ r'.commitNumber ∧
    ∀ k ≤ r.commitNumber, ∀ entry, r.entry k = some entry → r'.entry k = some entry := by
  induction deeds with
  | refl => exact ⟨le_rfl, fun _ _ _ isEntry => isEntry⟩
  | tail _ deed ih =>
      obtain ⟨committed, entries⟩ := ih
      obtain ⟨more, entries'⟩ := deed.keeps
      exact ⟨committed.trans more, fun k within entry isEntry =>
        entries' k (within.trans committed) entry (entries k within entry isEntry)⟩

/-! ## Coming back -/

/-- The replica has the state machine it was given and an empty client table, and
nothing to send, to serve or to answer. -/
structure Untouched (config : Config) (machine : SM) (r : Replica SM) : Prop where
  isConfig : r.config = config
  isTable : r.toClientTable = (fresh r.selfId config machine).toClientTable
  serving : r.serving = none
  fetch : r.fetch = none
  peculiar : r.peculiar = []
  replies : r.replies = []
  queries : r.queries = []

theorem fresh_untouched (selfId : Nat) (config : Config) (machine : SM) :
    Untouched config machine (fresh selfId config machine) := ⟨rfl, rfl, rfl, rfl, rfl, rfl, rfl⟩

theorem Untouched.isMachine {config : Config} {machine : SM} (untouched : Untouched config machine r) :
    r.stateMachine = machine := congrArg (·.stateMachine) untouched.isTable

theorem recover_untouched {selfId : Nat} {config : Config} {machine : SM} {viewNumber nonce : Nat}
    (run : recover selfId config machine viewNumber nonce = some r) :
    Untouched config machine r := by
  obtain ⟨_, rfl⟩ := recover_eq run
  set r := forgetful selfId config machine viewNumber nonce with isForgetful
  have same := sendRecovery_same r
  have asked : Still (fun _ => True) r r.sendRecovery := sendEach_still rfl
  have peculiar : r.peculiar = [] := rfl
  refine ⟨?_, ?_, ?_, ?_, ?_, same.replies, ?_⟩
  · rw [same.core]
    rfl
  · rw [same.clientTable]
    rfl
  · rw [same.core]
    rfl
  · rw [same.core]
    rfl
  · exact List.subset_nil.mp (peculiar ▸ asked.peculiar)
  · rw [same.queryState]
    rfl

theorem restored_untouched {selfId : Nat} {config : Config} {machine : SM} {applied nonce : Nat}
    {state : PersistentState (Input SM)}
    (run : restored selfId config machine applied state nonce = some r) :
    Untouched config machine r := by
  unfold restored at run
  split at run
  · obtain ⟨made, make, run⟩ := Option.bind_eq_some_iff.mp run
    cases run
    obtain ⟨isConfig, isTable, serving, fetch, peculiar, replies, queries⟩ :=
      recover_untouched make
    exact ⟨isConfig, isTable, serving, fetch, peculiar, replies, queries⟩
  · obtain ⟨made, make, run⟩ := Option.bind_eq_some_iff.mp run
    obtain ⟨_, rfl⟩ := new_eq make
    dsimp only at run
    split at run
    · obtain ⟨_, _, run⟩ := Option.bind_eq_some_iff.mp run
      cases run
      exact ⟨rfl, rfl, rfl, rfl, rfl, rfl, rfl⟩
    · obtain ⟨_, run⟩ := require_eq_some.mp run
      cases run
      exact ⟨rfl, rfl, rfl, rfl, rfl, rfl, rfl⟩

theorem Wakes.deeds {made woken : Replica SM} {applied : Nat} {state : PersistentState (Input SM)}
    (wakes : Wakes made woken r' applied state) : Deeds heard (made.risen applied state) r' := by
  obtain ⟨executed, execute, rebuild⟩ := wakes.executes
  refine .head (.apply execute) (.head (.still (rebuildPending_still rebuild)) ?_)
  rcases wakes.goesOn with ⟨rfl, _⟩ | ⟨viewNumber, _, run⟩
  · exact .refl
  · exact startViewChange_deeds run

end Replica

end Vsr
