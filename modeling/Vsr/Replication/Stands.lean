import Vsr.Replica.Deeds
import Vsr.Replication.Contract

/-!
# A replica as the log makes it

Where the entries a replica holds as committed are those of a log, its state machine
has the content that the plain model has come to, its client table is the model's, the
checkpoint it keeps and the chunks it has staged are of contents the log comes to, and
its replies are those of the log.  Every deed keeps it so.
-/

set_option autoImplicit false

namespace Vsr

variable {SM State : Type} [StateMachine SM]

namespace Contract
variable (contract : Contract SM State) (config : Config) (start : SM)

/-- The contents the log comes to, op by op. -/
def history (log : List (EntryFor SM)) (k : Nat) : State :=
  match Model.feedAll config 1 (log.take k) (.new start) with
  | some m => contract.content m.machine
  | none => contract.content start

/-- The chunks of the checkpoint after `k` entries. -/
def chunksAt (log : List (EntryFor SM)) (k : Nat) : List (Chunk SM) :=
  contract.chunks (contract.history config start log k)

/-- What a replica sends that the log says: the chunks of a checkpoint the log comes
to.  No replica sends what a client asks. -/
def Genuine (log : List (EntryFor SM)) : MessageFor SM → Prop
  | .newChunk _ opNumber index chunk last =>
      (∃ m, Model.Fed config start log opNumber m) ∧
        (index < (contract.chunksAt config start log opNumber).length →
          (contract.chunksAt config start log opNumber)[index]? = some chunk ∧
            (last = true ↔ index + 1 = (contract.chunksAt config start log opNumber).length))
  | message => message.fromClient = false

/-- What a replica may be handed. -/
def Hears (asks : MessageFor SM → Prop) (log : List (EntryFor SM)) (message : MessageFor SM) : Prop :=
  contract.Genuine config start log message ∨ (message.fromClient = true ∧ asks message)

/-- The chunks before `index` of the checkpoint at `opNumber` are staged, and more are
to come. -/
structure Fetched (log : List (EntryFor SM)) (machine : SM) (opNumber index : Nat) : Prop where
  fed : ∃ m, Model.Fed config start log opNumber m
  more : index < (contract.chunksAt config start log opNumber).length
  staged : contract.Staged machine opNumber
    ((contract.chunksAt config start log opNumber).take index)

variable {contract config start} {log log' : List (EntryFor SM)} {k : Nat} {m : Model SM}

theorem history_fed (fed : Model.Fed config start log k m) :
    contract.history config start log k = contract.content m.machine := by
  unfold history
  rw [fed.fed]

/-- What a longer log comes to where the shorter one ends, and before. -/
theorem history_longer (isPrefix : log <+: log') (within : k ≤ log.length) :
    contract.history config start log' k = contract.history config start log k := by
  obtain ⟨more, rfl⟩ := isPrefix
  unfold history
  rw [List.take_append_of_le_length within]

theorem Genuine.longer (isPrefix : log <+: log') {message : MessageFor SM}
    (genuine : contract.Genuine config start log message) :
    contract.Genuine config start log' message := by
  cases message with
  | newChunk source opNumber index chunk last =>
      obtain ⟨⟨m, fed⟩, isChunk⟩ := genuine
      have same : contract.chunksAt config start log' opNumber =
          contract.chunksAt config start log opNumber :=
        congrArg contract.chunks (history_longer isPrefix fed.within)
      refine ⟨⟨m, fed.longer isPrefix⟩, ?_⟩
      rwa [same]
  | _ => exact genuine

end Contract

namespace Replica

/-- What the replica holds as committed is in the log. -/
def Agrees (log : List (EntryFor SM)) (r : Replica SM) : Prop :=
  ∀ k ≤ r.commitNumber, ∀ entry, r.entry k = some entry → 0 < k ∧ log[k - 1]? = some entry

/-- The replica is as the log makes it. -/
structure Stands (contract : Contract SM State) (asks : MessageFor SM → Prop) (config : Config)
    (start : SM) (log : List (EntryFor SM)) (r : Replica SM) : Prop where
  table : ∃ m, Model.Fed config start log r.applied m ∧
    Follows config { r with stateMachine := m.machine } m r.applied
  past : contract.Past r.stateMachine (contract.history config start log) r.applied
  serving : ∀ kept, r.serving.map Prod.fst = some kept → kept ≤ r.applied ∧
    contract.Keeps r.stateMachine kept (contract.history config start log kept)
  fetch : ∀ fetch, r.fetch = some fetch → fetch.index = 0 ∨
    contract.Fetched config start log r.stateMachine fetch.resume.checkpoint fetch.index
  peculiar : ∀ envelope ∈ r.peculiar, contract.Genuine config start log envelope.2
  replies : ∀ reply ∈ r.replies, reply.TrueTo asks config start log
  queries : ∀ query ∈ r.queries, asks (.query query.clientId query.queryNumber query.query)

namespace Stands

variable {contract : Contract SM State} {asks : MessageFor SM → Prop} {config : Config} {start : SM}
  {log log' : List (EntryFor SM)} {r r' : Replica SM}

/-- Every number of ops up to those it has executed is one the log comes to. -/
theorem fed (stands : Stands contract asks config start log r) {k : Nat} (within : k ≤ r.applied) :
    ∃ m, Model.Fed config start log k m := by
  obtain ⟨m, fed, _⟩ := stands.table
  exact fed.before within

/-- More is committed. -/
theorem longer (stands : Stands contract asks config start log r) (isPrefix : log <+: log') :
    Stands contract asks config start log' r := by
  obtain ⟨m, fed, follows⟩ := stands.table
  have same : ∀ k ≤ r.applied,
      contract.history config start log' k = contract.history config start log k := by
    intro k within
    exact Contract.history_longer isPrefix (within.trans fed.within)
  exact
    { table := ⟨m, fed.longer isPrefix, follows⟩
      past := contract.past_same stands.past same
      serving := fun kept isKept => by
        obtain ⟨within, keeps⟩ := stands.serving kept isKept
        exact ⟨within, (same kept within) ▸ keeps⟩
      fetch := fun fetch isFetch => by
        rcases stands.fetch fetch isFetch with first | ⟨⟨reached, fedThen⟩, more, staged⟩
        · exact .inl first
        · have chunks : contract.chunksAt config start log' fetch.resume.checkpoint =
              contract.chunksAt config start log fetch.resume.checkpoint :=
            congrArg contract.chunks (Contract.history_longer isPrefix fedThen.within)
          refine .inr ⟨⟨reached, fedThen.longer isPrefix⟩, ?_, ?_⟩
          · rwa [chunks]
          · rwa [chunks]
      peculiar := fun envelope mem => (stands.peculiar envelope mem).longer isPrefix
      replies := fun reply mem => (stands.replies reply mem).longer isPrefix
      queries := stands.queries }

theorem still (stands : Stands contract asks config start log r)
    (same : Still (contract.Hears config start asks log) r r') :
    Stands contract asks config start log r' := by
  obtain ⟨m, fed, follows⟩ := stands.table
  have machine := same.table.machine
  refine ⟨⟨m, same.applied ▸ fed, ?_⟩, ?_, fun kept isKept => ?_, fun fetch isFetch => ?_,
    fun envelope mem => stands.peculiar envelope (same.peculiar mem),
    fun reply mem => stands.replies reply (same.replies mem), fun query mem => ?_⟩
  · rw [same.applied]
    exact follows.same
      ⟨same.table.config, rfl, same.table.records, same.table.sessions, same.table.candidates⟩
  · rw [machine, same.applied]
    exact stands.past
  · rw [machine, same.applied]
    exact stands.serving kept (same.serving.symm.trans isKept)
  · rcases same.fetch fetch isFetch with first | ⟨before, isBefore, checkpoint, index⟩
    · exact .inl first
    · rw [machine, checkpoint, index]
      exact stands.fetch before isBefore
  · rcases same.queries query mem with before | genuine | ⟨_, asked⟩
    · exact stands.queries query before
    · cases genuine
    · exact asked

/-! ## Executing -/

section Execute
variable (isSound : contract.Sound start) (empty : StateMachine.clientTable start = [])
include isSound empty

/-- Executing the next entry does what the log does. -/
theorem applyNext (stands : Stands contract asks config start log r) (agrees : r.Agrees log)
    (committed : r.applied + 1 ≤ r.commitNumber) (run : r.applyNext = some r') :
    Stands contract asks config start log r' := by
  obtain ⟨m, fed, follows⟩ := stands.table
  obtain ⟨executed, reply, entry, execution, isEntry, rfl⟩ := applyNext_eq run
  have same := execute_same execution
  have content : contract.content r.stateMachine = contract.content m.machine :=
    (contract.past_content stands.past).trans (Contract.history_fed fed)
  obtain ⟨s, executes, content', took⟩ := execute_swap contract content execution
  obtain ⟨_, isNext⟩ := agrees _ committed entry isEntry
  -- The replica with the model's state machine executes what the model is fed.
  have isEntry' : { r with stateMachine := m.machine }.entry (r.applied + 1) = some entry := isEntry
  obtain ⟨_, m', reply', isRun, feeds, follows', _⟩ :=
    follows.execute (fed.ok contract.keepsTable isSound empty) contract.keepsTable isEntry'
      fun clientId session requestNumber answered op isRequest record found isSession =>
        execute_next execution (isRequest ▸ isEntry) ((follows.records clientId).trans found)
          isSession
  obtain ⟨rfl, isReply⟩ := Prod.mk.inj (Option.some.inj (executes.symm.trans isRun))
  have fed' := fed.succ isNext feeds
  have isMachine : s = m'.machine := follows'.machine
  refine
    { table := ⟨m', fed', isMachine ▸ follows'.same (.of_clientTable rfl rfl)⟩
      past := contract.past_took stands.past took ?_
      serving := fun kept isKept => ?_
      fetch := fun fetch isFetch => ?_
      peculiar := fun envelope mem => stands.peculiar envelope ?_
      replies := fun known mem => ?_
      queries := fun query mem => stands.queries query ?_ }
  · rw [content', isMachine, Contract.history_fed fed']
  · rw [same.core] at isKept
    obtain ⟨within, keeps⟩ := stands.serving kept isKept
    exact ⟨within.trans (Nat.le_succ _), contract.keeps_took keeps took⟩
  · rw [same.core] at isFetch
    rcases stands.fetch fetch isFetch with first | ⟨reached, more, staged⟩
    · exact .inl first
    · exact .inr ⟨reached, more, contract.staged_took staged took⟩
  · unfold Replica.peculiar queued at mem ⊢
    rwa [same.outboxes] at mem
  · have earlier : ∀ known ∈ executed.replies, known.TrueTo asks config start log := by
      rw [same.outboxes]
      exact stands.replies
    dsimp only at mem
    split at mem
    · rcases List.mem_append.mp mem with before | new
      · exact earlier known before
      · rw [List.mem_singleton.mp new, isReply]
        exact .given ⟨m, m', entry, fed, isNext, feeds⟩
    · exact earlier known mem
  · rwa [same.queryState] at mem

theorem applyMany {count : Nat} (stands : Stands contract asks config start log r)
    (agrees : r.Agrees log) (committed : r.applied + count ≤ r.commitNumber)
    (run : applyMany count r = some r') : Stands contract asks config start log r' := by
  induction count generalizing r with
  | zero =>
      cases run
      exact stands
  | succ count ih =>
      obtain ⟨next, first, rest⟩ := Option.bind_eq_some_iff.mp run
      obtain ⟨core, _⟩ := applyNext_same first
      have goesOn := stands.applyNext isSound empty agrees (by omega) first
      refine ih goesOn (fun k within entry isEntry => agrees k ?_ entry ?_) ?_ rest
      · rwa [core] at within
      · rwa [core] at isEntry
      · rw [core]
        dsimp only
        omega

end Execute

/-! ## Replies and queries -/

/-- Only the messages, the replies and the queries differ. -/
theorem keeping (stands : Stands contract asks config start log r) (core : r'.toCore = r.toCore)
    (table : r'.toClientTable = r.toClientTable)
    (peculiar : ∀ envelope ∈ r'.peculiar, contract.Genuine config start log envelope.2)
    (replies : ∀ reply ∈ r'.replies, reply.TrueTo asks config start log)
    (queries : ∀ query ∈ r'.queries, asks (.query query.clientId query.queryNumber query.query)) :
    Stands contract asks config start log r' := by
  obtain ⟨m, fed, follows⟩ := stands.table
  have machine : r'.stateMachine = r.stateMachine := by rw [table]
  have same : SameTable r r' := .of_clientTable (by rw [core]) table
  refine ⟨⟨m, by rwa [core], ?_⟩, ?_, ?_, ?_, peculiar, replies, queries⟩
  · rw [core]
    exact follows.same ⟨rfl, rfl, same.records, same.sessions, same.candidates⟩
  · rw [machine, core]
    exact stands.past
  · rw [machine, core]
    exact stands.serving
  · rw [machine, core]
    exact stands.fetch

/-- The answers are those of the state machine as it is. -/
theorem answerQueries_tells (r : Replica SM) (queries : List (WaitingQuery (Query SM))) :
    (∀ reply ∈ (r.answerQueries queries).replies, reply ∈ r.replies ∨ ∃ query ∈ queries,
      reply = .queried r.viewNumber query.clientId query.queryNumber
        (StateMachine.query r.stateMachine query.query)) ∧
      (r.answerQueries queries).queries ⊆ queries := by
  induction queries generalizing r with
  | nil => exact ⟨fun _ mem => .inl mem, List.Subset.refl _⟩
  | cons query rest ih =>
      unfold Replica.answerQueries
      split
      · exact ⟨fun _ mem => .inl mem, List.Subset.refl _⟩
      · obtain ⟨replies, queries⟩ := ih { r with
          waiting := r.waiting.erase (query.clientId, query.queryNumber)
          replies := r.replies ++ [.queried r.viewNumber query.clientId query.queryNumber
            (StateMachine.query r.stateMachine query.query)] }
        refine ⟨fun reply mem => ?_, List.Subset.trans queries (List.subset_cons_self _ _)⟩
        rcases replies reply mem with before | ⟨other, isOther, isReply⟩
        · rcases List.mem_append.mp before with before | new
          · exact .inl before
          · exact .inr ⟨query, List.mem_cons_self, List.mem_singleton.mp new⟩
        · exact .inr ⟨other, List.mem_cons_of_mem _ isOther, isReply⟩

theorem executeQueries (stands : Stands contract asks config start log r) :
    Stands contract asks config start log r.executeQueries := by
  have same := executeQueries_same r
  obtain ⟨m, fed, _⟩ := stands.table
  have content : contract.content r.stateMachine = contract.content m.machine :=
    (contract.past_content stands.past).trans (Contract.history_fed fed)
  have tells : (∀ reply ∈ r.executeQueries.replies, reply ∈ r.replies ∨ ∃ query ∈ r.queries,
      reply = .queried r.viewNumber query.clientId query.queryNumber
        (StateMachine.query r.stateMachine query.query)) ∧ r.executeQueries.queries ⊆ r.queries := by
    unfold Replica.executeQueries
    split
    · exact answerQueries_tells r r.queries
    · exact ⟨fun _ mem => .inl mem, List.Subset.refl _⟩
  refine stands.keeping same.core same.clientTable (fun envelope mem => ?_) (fun reply mem => ?_)
    fun query mem => stands.queries query (tells.2 mem)
  · unfold Replica.peculiar at mem
    rw [same.queued] at mem
    exact stands.peculiar envelope mem
  · rcases tells.1 reply mem with before | ⟨query, isQuery, rfl⟩
    · exact stands.replies reply before
    · rw [contract.query_content query.query content]
      exact .queried fed (stands.queries query isQuery)

theorem applyCommitted (isSound : contract.Sound start)
    (empty : StateMachine.clientTable start = []) {opNumber : Nat}
    (stands : Stands contract asks config start log r) (agrees : r.Agrees log)
    (run : r.applyCommitted opNumber = some r') : Stands contract asks config start log r' := by
  obtain ⟨many, execution, rfl⟩ := applyCommitted_eq run
  by_cases more : r.applied ≤ min r.commitNumber opNumber
  · have executed := stands.applyMany isSound empty agrees (by omega) execution
    exact executeQueries (executed.still (.of rfl rfl le_rfl rfl rfl rfl rfl (.inr rfl)
      (List.Subset.refl _) rfl))
  · rw [Nat.sub_eq_zero_of_le (not_le.mp more).le] at execution
    cases execution
    exact executeQueries (stands.still (.of rfl rfl le_rfl rfl rfl rfl rfl (.inr rfl)
      (List.Subset.refl _) rfl))

/-- What a replica knows of its table is what the log tells. -/
theorem reply (stands : Stands contract asks config start log r) {reply : Reply (Output SM)}
    (knows : r.Knows reply) : reply.TrueTo asks config start log := by
  obtain ⟨m, fed, follows⟩ := stands.table
  have records : ∀ clientId, r.record clientId = m.table.get? clientId := follows.records
  cases reply with
  | registered v clientId session =>
      obtain ⟨record, found, rfl⟩ := knows
      rw [records] at found
      obtain ⟨j, _, _, gives⟩ := fed.opened found
      exact .given (v := v) gives
  | executed v clientId session requestNumber result =>
      obtain ⟨record, found, rfl, earlier, index, isIndex, isResult⟩ := knows
      rw [records] at found
      obtain ⟨j, _, gives⟩ := fed.kept found earlier isIndex isResult
      exact .given (v := v) gives
  | evicted v clientId session =>
      obtain ⟨gone, within⟩ := knows
      rw [records] at gone
      exact .gone fed within gone
  | queried => cases knows

/-! ## Checkpoints -/

/-- The state machine takes a step that leaves its content. -/
theorem machine (stands : Stands contract asks config start log r) {machine : SM}
    {serving : Option (Nat × Nat)} {fetch : Option (Fetch (Input SM))} {timers : Timers}
    (past : contract.Past machine (contract.history config start log) r.applied)
    (kept : ∀ kept, serving.map Prod.fst = some kept → kept ≤ r.applied ∧
      contract.Keeps machine kept (contract.history config start log kept))
    (fetched : ∀ next, fetch = some next → next.index = 0 ∨
      contract.Fetched config start log machine next.resume.checkpoint next.index) :
    Stands contract asks config start log { r with
      serving := serving, fetch := fetch, stateMachine := machine, toTimers := timers } := by
  obtain ⟨m, fed, follows⟩ := stands.table
  exact
    { table := ⟨m, fed, follows.same ⟨rfl, rfl, fun _ => rfl, rfl, rfl⟩⟩
      past := past
      serving := kept
      fetch := fetched
      peculiar := stands.peculiar
      replies := stands.replies
      queries := stands.queries }

theorem keep (stands : Stands contract asks config start log r) {opNumber : Nat}
    (run : r.keepCheckpoint = some (r', opNumber)) : Stands contract asks config start log r' := by
  rcases keepCheckpoint_effect run with ⟨rfl, _⟩ | ⟨_, rfl, _, within, rfl⟩
  · exact stands
  · refine stands.machine (contract.past_checkpoint stands.past) (fun kept isKept => ?_)
      fun fetch isFetch => ?_
    · cases isKept
      exact ⟨within, contract.keeps_checkpoint stands.past within⟩
    · rcases stands.fetch fetch isFetch with first | ⟨reached, more, staged⟩
      · exact .inl first
      · exact .inr ⟨reached, more, contract.staged_checkpoint staged⟩

theorem release (stands : Stands contract asks config start log r) :
    Stands contract asks config start log { r with
      serving := none, stateMachine := StateMachine.releaseCheckpoint r.stateMachine } := by
  refine stands.machine (contract.past_release stands.past) (fun kept isKept => by cases isKept)
    fun fetch isFetch => ?_
  rcases stands.fetch fetch isFetch with first | ⟨reached, more, staged⟩
  · exact .inl first
  · exact .inr ⟨reached, more, contract.staged_release staged⟩

/-- A chunk sent is one of the checkpoint kept. -/
theorem serve (stands : Stands contract asks config start log r) {kept idlePeriods : Nat}
    (replicaId index : Nat) (serving : r.serving = some (kept, idlePeriods)) :
    Stands contract asks config start log ({ r with serving := some (kept, 0) }.send replicaId
      (.newChunk r.selfId kept index (StateMachine.checkpointChunk r.stateMachine index).1
        (StateMachine.checkpointChunk r.stateMachine index).2)) := by
  have isServing : r.serving.map Prod.fst = some kept := by rw [serving, Option.map_some]
  obtain ⟨within, keeps⟩ := stands.serving kept isServing
  have counted : Stands contract asks config start log { r with serving := some (kept, 0) } :=
    stands.still (.of rfl rfl le_rfl rfl rfl rfl (by rw [isServing]; rfl) (.inr rfl)
      (List.Subset.refl _) rfl)
  have same := send_same { r with serving := some (kept, 0) } replicaId
    (.newChunk r.selfId kept index (StateMachine.checkpointChunk r.stateMachine index).1
      (StateMachine.checkpointChunk r.stateMachine index).2)
  refine counted.keeping same.core same.clientTable (fun envelope mem => ?_) ?_ ?_
  · obtain ⟨isQueued, isPeculiar⟩ := List.mem_filter.mp mem
    rcases mem_queued_send isQueued with rfl | before
    · exact ⟨stands.fed within, fun more => contract.keeps_chunk keeps more⟩
    · exact counted.peculiar envelope (List.mem_filter.mpr ⟨before, isPeculiar⟩)
  · rw [same.replies]
    exact counted.replies
  · rw [same.queryState]
    exact counted.queries

/-- The chunk a fetch waits for is the next of the checkpoint. -/
theorem staged (stands : Stands contract asks config start log r) {fetch : Fetch (Input SM)}
    {chunk : Chunk SM} {last : Bool} (isFetch : r.fetch = some fetch)
    (isHeard : contract.Hears config start asks log
      (.newChunk fetch.source fetch.resume.checkpoint fetch.index chunk last)) :
    (∃ m, Model.Fed config start log fetch.resume.checkpoint m) ∧
      fetch.index < (contract.chunksAt config start log fetch.resume.checkpoint).length ∧
      (last = true ↔
        fetch.index + 1 = (contract.chunksAt config start log fetch.resume.checkpoint).length) ∧
      contract.Staged
        (StateMachine.stageChunk r.stateMachine fetch.resume.checkpoint fetch.index chunk)
        fetch.resume.checkpoint
        ((contract.chunksAt config start log fetch.resume.checkpoint).take (fetch.index + 1)) := by
  rcases isHeard with ⟨reached, isChunk⟩ | ⟨fromClient, _⟩
  · rcases stands.fetch fetch isFetch with first | ⟨_, more, staged⟩
    · have more := contract.chunks_some
        (contract.history config start log fetch.resume.checkpoint)
      rw [first] at isChunk ⊢
      obtain ⟨isFirst, isLast⟩ := isChunk more
      refine ⟨reached, more, isLast, ?_⟩
      have one : (contract.chunksAt config start log fetch.resume.checkpoint).take (0 + 1) =
          [chunk] := by
        rw [List.take_add_one, List.take_zero, isFirst]
        rfl
      rw [one]
      exact contract.staged_first _ _ _
    · obtain ⟨isNext, isLast⟩ := isChunk more
      refine ⟨reached, more, isLast, ?_⟩
      by_cases first : fetch.index = 0
      · rw [first] at isNext ⊢
        rw [List.take_add_one, List.take_zero, isNext]
        exact contract.staged_first _ _ _
      · have length : ((contract.chunksAt config start log fetch.resume.checkpoint).take
            fetch.index).length = fetch.index := by
          rw [List.length_take]
          omega
        have some : (contract.chunksAt config start log fetch.resume.checkpoint).take
            fetch.index ≠ [] := by
          intro none
          rw [none] at length
          exact first length.symm
        have goesOn := contract.staged_next chunk staged some
        rw [length] at goesOn
        rw [List.take_add_one, isNext]
        exact goesOn
  · cases fromClient

theorem stage (stands : Stands contract asks config start log r) {fetch : Fetch (Input SM)}
    {chunk : Chunk SM} (timers : Timers) (isFetch : r.fetch = some fetch)
    (isHeard : contract.Hears config start asks log
      (.newChunk fetch.source fetch.resume.checkpoint fetch.index chunk false)) :
    Stands contract asks config start log (r.staging fetch chunk
      (some { fetch with idlePeriods := 0, stalled := false, index := fetch.index + 1 })
        timers) := by
  obtain ⟨reached, more, isLast, staged⟩ := stands.staged isFetch isHeard
  refine stands.machine (contract.past_stage _ _ _ stands.past) (fun kept isKept => ?_)
    fun next isNext => ?_
  · obtain ⟨within, keeps⟩ := stands.serving kept isKept
    exact ⟨within, contract.keeps_stage _ _ _ keeps⟩
  · cases isNext
    refine .inr ⟨reached, ?_, staged⟩
    have notLast : ¬fetch.index + 1 =
        (contract.chunksAt config start log fetch.resume.checkpoint).length := by
      intro same
      cases isLast.mpr same
    dsimp only
    omega

theorem drop (stands : Stands contract asks config start log r) {fetch : Fetch (Input SM)}
    {chunk : Chunk SM} (timers : Timers) :
    Stands contract asks config start log (r.staging fetch chunk none timers) := by
  refine stands.machine (contract.past_stage _ _ _ stands.past) (fun kept isKept => ?_)
    fun next isNext => by cases isNext
  obtain ⟨within, keeps⟩ := stands.serving kept isKept
  exact ⟨within, contract.keeps_stage _ _ _ keeps⟩

/-- A replica that takes the client table from a state machine the log made. -/
theorem loads (isSound : contract.Sound start) (empty : StateMachine.clientTable start = [])
    {opNumber : Nat} {m : Model SM} (fed : Model.Fed config start log opNumber m)
    (isConfig : r.config = config) (applied : r.applied = opNumber)
    (past : contract.Past r.stateMachine (contract.history config start log) opNumber)
    (serving : r.serving = none) (fetch : r.fetch = none)
    (peculiar : ∀ envelope ∈ r.peculiar, contract.Genuine config start log envelope.2)
    (replies : ∀ reply ∈ r.replies, reply.TrueTo asks config start log)
    (queries : ∀ query ∈ r.queries, asks (.query query.clientId query.queryNumber query.query)) :
    Stands contract asks config start log r.loadClientTable := by
  have ok := fed.ok contract.keepsTable isSound empty
  have content : contract.content r.stateMachine = contract.content m.machine :=
    (contract.past_content past).trans (Contract.history_fed fed)
  have follows : Follows config { r.loadClientTable with stateMachine := m.machine } m opNumber :=
    follows_load_perm isConfig (contract.table_content content) ok
  subst applied
  exact
    { table := ⟨m, fed, follows⟩
      past := past
      serving := fun kept isKept => by cases (congrArg (Option.map Prod.fst) serving).symm.trans isKept
      fetch := fun next isNext => by cases fetch.symm.trans isNext
      peculiar := peculiar
      replies := replies
      queries := queries }

/-- A checkpoint whose chunks are all staged becomes the state. -/
theorem replaces (isSound : contract.Sound start) (empty : StateMachine.clientTable start = [])
    (stands : Stands contract asks config start log r) (executed : r.applied ≤ r.commitNumber)
    (replaces : Replaces (contract.Hears config start asks log) r r') :
    Stands contract asks config start log r' := by
  obtain @⟨fetch, chunk, timers, isFetch, isHeard, run⟩ := replaces
  obtain ⟨⟨m, fed⟩, _, isLast, staged⟩ := stands.staged isFetch isHeard
  obtain ⟨beyond, run⟩ := require_eq_some.mp run
  have reached : r.applied ≤ fetch.resume.checkpoint := executed.trans (le_of_lt beyond)
  rw [isLast.mp rfl, List.take_length] at staged
  have content : contract.content m.machine =
      contract.history config start log fetch.resume.checkpoint := (Contract.history_fed fed).symm
  have isSound' := (fed.ok contract.keepsTable isSound empty).kept.1
  -- Whether or not a checkpoint was kept, the one staged is whole.
  have past : contract.Past (StateMachine.restore (r.staging fetch chunk none timers).stopServing.stateMachine
      fetch.resume.checkpoint) (contract.history config start log) fetch.resume.checkpoint := by
    have stagedPast := contract.past_stage fetch.resume.checkpoint fetch.index chunk stands.past
    unfold stopServing
    split
    · exact contract.past_restore (contract.past_release stagedPast) reached isSound' content
        (contract.staged_release staged)
    · exact contract.past_restore stagedPast reached isSound' content staged
  obtain ⟨core, queries, _, outboxes⟩ := stopServing_same (r.staging fetch chunk none timers)
  obtain ⟨_, _, follows⟩ := stands.table
  refine (loads isSound empty fed ?_ rfl past ?_ ?_ ?_ ?_ ?_).still (rebuildPending_still run)
  · show (r.staging fetch chunk none timers).stopServing.config = config
    rw [core]
    exact follows.isConfig
  · show (r.staging fetch chunk none timers).stopServing.serving = none
    rw [core]
  · show (r.staging fetch chunk none timers).stopServing.fetch = none
    rw [core]
    rfl
  · intro envelope mem
    apply stands.peculiar envelope
    unfold Replica.peculiar queued at mem ⊢
    dsimp only at mem
    rwa [outboxes] at mem
  · intro reply mem
    dsimp only at mem
    rw [outboxes] at mem
    exact stands.replies reply mem
  · intro query mem
    dsimp only at mem
    rw [queries] at mem
    exact stands.queries query mem

/-! ## Whole calls -/

section Calls
variable (isSound : contract.Sound start) (empty : StateMachine.clientTable start = [])
include isSound empty

theorem deed (stands : Stands contract asks config start log r) (agrees : r.Agrees log)
    (deed : Deed (contract.Hears config start asks log) r r') :
    Stands contract asks config start log r' := by
  cases deed with
  | still same => exact stands.still same
  | apply run => exact stands.applyCommitted isSound empty agrees run
  | answer => exact stands.executeQueries
  | reply reply knows =>
      refine stands.keeping rfl rfl stands.peculiar (fun known mem => ?_) stands.queries
      rcases List.mem_append.mp mem with before | new
      · exact stands.replies known before
      · rw [List.mem_singleton.mp new]
        exact stands.reply knows
  | keep run => exact stands.keep run
  | release => exact stands.release
  | serve replicaId index serving => exact stands.serve replicaId index serving
  | stage timers isFetch isHeard => exact stands.stage timers isFetch isHeard
  | drop timers _ _ => exact stands.drop timers

theorem deeds (stands : Stands contract asks config start log r) (agrees : r'.Agrees log)
    (deeds : Deeds (contract.Hears config start asks log) r r') :
    Stands contract asks config start log r' := by
  induction deeds using Relation.ReflTransGen.head_induction_on with
  | refl => exact stands
  | @head r m deed rest ih =>
      -- What this replica holds as committed it still holds at the end.
      obtain ⟨committed, entries⟩ := Deeds.keeps (.head deed rest)
      exact ih (stands.deed isSound empty (fun k within entry isEntry =>
        agrees k (within.trans committed) entry (entries k within entry isEntry)) deed)

theorem does (stands : Stands contract asks config start log r)
    (executed : r.applied ≤ r.commitNumber) (agrees : r'.Agrees log)
    (does : Does (contract.Hears config start asks log) r r') :
    Stands contract asks config start log r' := by
  rcases does with deeds | ⟨restored, replaces, deeds⟩
  · exact stands.deeds isSound empty agrees deeds
  · exact (stands.replaces isSound empty executed replaces).deeds isSound empty agrees deeds

/-- A replica that is made anew, and takes the client table from its state machine. -/
theorem loaded (writes : WriteState) {machine : SM} {m : Model SM}
    (untouched : Untouched config machine r) {applied : Nat} (fed : Model.Fed config start log applied m)
    (past : contract.Past machine (contract.history config start log) applied) :
    Stands contract asks config start log
      { r with applied := applied, toWriteState := writes }.loadClientTable := by
  have isMachine := untouched.isMachine
  obtain ⟨isConfig, _, serving, fetch, peculiar, replies, queries⟩ := untouched
  refine loads isSound empty fed isConfig rfl (isMachine ▸ past) serving fetch ?_ ?_ ?_
  · have none : { r with applied := applied, toWriteState := writes }.peculiar = [] := peculiar
    rw [none]
    simp
  · have none : { r with applied := applied, toWriteState := writes }.replies = [] := replies
    rw [none]
    simp
  · have none : { r with applied := applied, toWriteState := writes }.queries = [] := queries
    rw [none]
    simp

/-- A replica that is made anew, with a state machine in which nothing has executed. -/
theorem begins {machine : SM} (untouched : Untouched config machine r) (isFirst : r.applied = 0)
    (past : contract.Past machine (contract.history config start log) 0) :
    Stands contract asks config start log r := by
  have stands : Stands contract asks config start log r.loadClientTable := by
    have zero : Stands contract asks config start log _ :=
      loaded isSound empty r.toWriteState untouched Model.Fed.zero past
    rwa [← isFirst] at zero
  have none : StateMachine.clientTable machine = [] := by
    have content : contract.content machine = contract.content start :=
      (contract.past_content past).trans (Contract.history_fed Model.Fed.zero)
    exact List.perm_nil.mp (empty ▸ contract.table_content content)
  have table : r.toClientTable = r.loadClientTable.toClientTable := by
    unfold loadClientTable
    dsimp only
    rw [untouched.isTable]
    dsimp only [fresh]
    rw [none]
    rfl
  exact stands.keeping rfl table stands.peculiar stands.replies stands.queries

theorem restart {selfId applied nonce : Nat} {machine : SM} {state : PersistentState (Input SM)}
    (run : Replica.restart selfId config machine applied state nonce = some r) {m : Model SM}
    (fed : Model.Fed config start log applied m)
    (past : contract.Past machine (contract.history config start log) applied)
    (agrees : r.Agrees log) : Stands contract asks config start log r := by
  obtain ⟨made, woken, make, wakes⟩ := restart_wakes run
  have risen : Stands contract asks config start log (made.risen applied state) := by
    have loaded : Stands contract asks config start log _ :=
      loaded isSound empty
        { made.toWriteState with
          written := some
            { viewNumber := state.viewNumber
              lastNormalView := state.lastNormalView
              recovering := state.recovering
              logStart := state.logStart } }
        (restored_untouched make) fed past
    exact loaded.still
      (.of rfl rfl le_rfl rfl rfl rfl rfl (.inr rfl) (List.Subset.refl _) rfl)
  exact risen.deeds isSound empty agrees wakes.deeds

end Calls

/-- Compaction leaves the state machine. -/
theorem compact (stands : Stands contract asks config start log r) {opNumber : Nat}
    (run : r.compact opNumber = some r') : Stands contract asks config start log r' := by
  rcases compact_effect run with rfl | ⟨bound, _, _, _, _, rfl⟩
  · exact stands
  · obtain ⟨m, fed, follows⟩ := stands.table
    exact
      { table := ⟨m, fed, follows.same ⟨rfl, rfl, fun _ => rfl, rfl, rfl⟩⟩
        past := stands.past
        serving := stands.serving
        fetch := stands.fetch
        peculiar := stands.peculiar
        replies := stands.replies
        queries := stands.queries }

end Stands

end Replica

end Vsr
