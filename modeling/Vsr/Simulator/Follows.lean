import Vsr.Accumulator
import Vsr.Replica.Recorded
import Vsr.Simulator.Candidates

/-!
# The client table is a function of the log

Whatever its caches and wherever it loads its table again, a replica that executes
the entries of a log does what the plain model does with them: the same calls of
the state machine, the same replies but for the view, and the same records.
-/

set_option autoImplicit false

namespace Vsr

open Std (ExtTreeMap)

/-- The reply as a replica in view `v` gives it. -/
def Reply.atView {Output : Type} (v : Nat) : Reply Output → Reply Output
  | .registered _ clientId session => .registered v clientId session
  | .executed _ clientId session requestNumber result =>
      .executed v clientId session requestNumber result
  | .evicted _ clientId session => .evicted v clientId session
  | .queried _ clientId queryNumber result => .queried v clientId queryNumber result

/-- What the library asks of the client table that a state machine in a `sound` state
keeps: it holds the records handed to `record_client`, which executing an op leaves
as they are. -/
structure KeepsTable {SM : Type} [StateMachine SM] (sound : SM → Prop) : Prop where
  apply : ∀ machine opNumber op, sound machine →
    sound (StateMachine.apply machine opNumber op).1 ∧
      (StateMachine.clientTable (StateMachine.apply machine opNumber op).1).Perm
        (StateMachine.clientTable machine)
  record : ∀ machine opNumber (record : ClientRecord (Output SM)), sound machine →
    sound (StateMachine.recordClient machine opNumber record.clientId (some record)) ∧
      (StateMachine.clientTable
          (StateMachine.recordClient machine opNumber record.clientId (some record))).Perm
        (record :: (StateMachine.clientTable machine).filter
          fun other => other.clientId ≠ record.clientId)
  remove : ∀ machine opNumber clientId, sound machine →
    sound (StateMachine.recordClient machine opNumber clientId none) ∧
      (StateMachine.clientTable (StateMachine.recordClient machine opNumber clientId none)).Perm
        ((StateMachine.clientTable machine).filter fun other => other.clientId ≠ clientId)

theorem KeepsTable.recorded {SM : Type} [StateMachine SM] {sound : SM → Prop}
    (keeps : KeepsTable sound) : KeepsTable fun recorded : Recorded SM => sound recorded.machine where
  apply machine opNumber op := keeps.apply machine.machine opNumber op
  record machine opNumber record := keeps.record machine.machine opNumber record
  remove machine opNumber clientId := keeps.remove machine.machine opNumber clientId

variable {SM : Type} [StateMachine SM] {sound : SM → Prop}

namespace Model

/-! ## The model's table -/

/-- The state machine keeps the records of the table. -/
def Kept (sound : SM → Prop) (machine : SM) (table : OrderedMap (ClientRecord (Output SM))) : Prop :=
  sound machine ∧ (StateMachine.clientTable machine).Perm table.values

/-- What holds of the model's table after `opNumber` entries. -/
structure Ok (sound : SM → Prop) (config : Config) (m : Model SM) (opNumber : Nat) : Prop where
  few : m.table.pairs.length ≤ config.clientsMax
  kept : Kept sound m.machine m.table
  table : TableOk m.table opNumber

variable {config : Config} {m : Model SM} {opNumber : Nat}

theorem values_erase {Outcome : Type} {table : OrderedMap (ClientRecord Outcome)}
    (ids : ∀ x ∈ table.pairs, x.2.clientId = x.1) (clientId : Nat) :
    (table.erase clientId).values = table.values.filter fun record => record.clientId ≠ clientId := by
  unfold OrderedMap.values OrderedMap.erase
  rw [List.filter_map]
  congr 1
  refine List.filter_congr fun x mem => ?_
  simp only [Function.comp_apply, ids x mem]

theorem Ok.kept_record (ok : Ok sound config m opNumber) (keeps : KeepsTable sound) (op : Nat)
    (record : ClientRecord (Output SM)) :
    Kept sound (StateMachine.recordClient m.machine op record.clientId (some record))
      (m.table.insert record.clientId record) := by
  obtain ⟨isSound, perm⟩ := keeps.record m.machine op record ok.kept.1
  refine ⟨isSound, perm.trans (((ok.kept.2.filter _).cons record).trans ?_)⟩
  rw [← values_erase ok.table.ids]
  exact ((m.table.insert_perm record.clientId record).map Prod.snd).symm

theorem Ok.kept_remove (ok : Ok sound config m opNumber) (keeps : KeepsTable sound)
    (op clientId : Nat) :
    Kept sound (StateMachine.recordClient m.machine op clientId none) (m.table.erase clientId) := by
  obtain ⟨isSound, perm⟩ := keeps.remove m.machine op clientId ok.kept.1
  refine ⟨isSound, perm.trans ?_⟩
  rw [values_erase ok.table.ids]
  exact ok.kept.2.filter _

/-- Telling the state machine of a record it has changes nothing. -/
theorem Ok.kept_same (ok : Ok sound config m opNumber) (keeps : KeepsTable sound)
    (op clientId : Nat) :
    Kept sound (StateMachine.recordClient m.machine op clientId (m.table.get? clientId)) m.table := by
  cases found : m.table.get? clientId with
  | none =>
      obtain ⟨isSound, perm⟩ := ok.kept_remove keeps op clientId
      refine ⟨isSound, perm.trans ?_⟩
      unfold OrderedMap.values
      rw [OrderedMap.erase_of_none found]
  | some record =>
      have isId : record.clientId = clientId := ok.table.ids _ (OrderedMap.get?_eq_some.mp found)
      subst isId
      obtain ⟨isSound, perm⟩ := ok.kept_record keeps op record
      refine ⟨isSound, perm.trans ?_⟩
      refine ((m.table.insert_perm record.clientId record).map Prod.snd).trans ?_
      exact ((OrderedMap.erase_perm found).map Prod.snd).symm

theorem keep_eq_drop {Output : Type} (kept : Nat) (replies : List Output) :
    keep kept replies = replies.drop (replies.length - kept) := by
  induction replies with
  | nil => simp [keep]
  | cons result rest ih =>
      unfold keep
      by_cases more : kept < (result :: rest).length
      · rw [if_pos more, ih]
        have step : (result :: rest).length - kept = rest.length - kept + 1 := by
          simp only [List.length_cons] at more ⊢
          omega
        rw [step, List.drop_succ_cons]
      · rw [if_neg more, Nat.sub_eq_zero_of_le (not_lt.mp more), List.drop_zero]

end Model

/-! ## A replica that follows the model -/

namespace Replica

/-- The replica has executed what the model was fed. -/
structure Follows (config : Config) (r : Replica SM) (m : Model SM) (opNumber : Nat) : Prop where
  isConfig : r.config = config
  machine : r.stateMachine = m.machine
  records : ∀ clientId, r.record clientId = m.table.get? clientId
  sessions : r.sessions = m.table.pairs.length
  scanned : Scanned m.table r.evictionCandidates
  past : ∀ candidate ∈ r.evictionCandidates, candidate.1 ≤ opNumber

variable {config : Config} {r r' : Replica SM} {m : Model SM} {opNumber : Nat}

theorem clientState_record (r : Replica SM) (clientId : Nat) :
    (r.clientState clientId).record = r.record clientId := by
  unfold clientState record
  cases r.clients[clientId]? <;> rfl

theorem settle_record {Outcome : Type} (state : ClientState Outcome) (key : Nat × Nat) :
    (settle state key).record = state.record := by
  unfold settle
  split <;> rfl

/-- The records of a table loaded from the state machine. -/
theorem record_foldl {Outcome : Type} (table : List (ClientRecord Outcome))
    (clients : ExtTreeMap Nat (ClientState Outcome)) (nodup : (table.map (·.clientId)).Nodup)
    (clientId : Nat) (found : ClientRecord Outcome) :
    recordIn (table.foldl (fun clients record =>
        clients.insert record.clientId { record := some record }) clients) clientId = some found ↔
      (found ∈ table ∧ found.clientId = clientId) ∨
        (recordIn clients clientId = some found ∧ clientId ∉ table.map (·.clientId)) := by
  induction table generalizing clients with
  | nil => simp
  | cons record rest ih =>
      obtain ⟨fresh, nodup⟩ := List.nodup_cons.mp nodup
      rw [List.foldl_cons, ih _ nodup, recordIn_insert]
      simp only [List.mem_cons, List.map_cons, not_or]
      by_cases same : record.clientId = clientId
      · subst same
        simp only [if_true, Option.some.injEq]
        constructor
        · rintro (⟨mem, isId⟩ | ⟨rfl, _⟩)
          · exact .inl ⟨.inr mem, isId⟩
          · exact .inl ⟨.inl rfl, rfl⟩
        · rintro (⟨rfl | mem, isId⟩ | ⟨_, other, _⟩)
          · exact .inr ⟨rfl, fresh⟩
          · exact .inl ⟨mem, isId⟩
          · exact absurd trivial other
      · rw [if_neg same]
        constructor
        · rintro (⟨mem, isId⟩ | ⟨before, notRest⟩)
          · exact .inl ⟨.inr mem, isId⟩
          · exact .inr ⟨before, Ne.symm same, notRest⟩
        · rintro (⟨rfl | mem, isId⟩ | ⟨before, _, notRest⟩)
          · exact absurd isId same
          · exact .inl ⟨mem, isId⟩
          · exact .inr ⟨before, notRest⟩

/-- A replica that loads the table of a state machine fed as the model follows it. -/
theorem follows_load (isConfig : r.config = config) (machine : r.stateMachine = m.machine)
    (ok : m.Ok sound config opNumber) : Follows config r.loadClientTable m opNumber where
  isConfig := isConfig
  machine := machine
  records clientId := by
    have perm := ok.kept.2
    rw [← machine] at perm
    have nodup : ((StateMachine.clientTable r.stateMachine).map (·.clientId)).Nodup := by
      refine ((perm.map (·.clientId)).nodup_iff).mpr ?_
      have keys : m.table.values.map (·.clientId) = m.table.pairs.map Prod.fst := by
        unfold OrderedMap.values
        rw [List.map_map]
        exact List.map_congr_left fun x mem => ok.table.ids x mem
      rw [keys]
      exact (List.pairwise_map.mpr m.table.sorted).imp ne_of_lt
    refine Option.ext fun found => ?_
    refine (record_foldl _ ∅ nodup clientId found).trans ?_
    have empty : recordIn (∅ : ExtTreeMap Nat (ClientState (Output SM))) clientId = none := by
      simp [recordIn]
    rw [empty, perm.mem_iff, OrderedMap.get?_eq_some]
    unfold OrderedMap.values
    simp only [List.mem_map, reduceCtorEq, false_and, or_false]
    constructor
    · rintro ⟨⟨x, mem, rfl⟩, rfl⟩
      rw [ok.table.ids x mem]
      exact mem
    · intro mem
      exact ⟨⟨_, mem, rfl⟩, ok.table.ids _ mem⟩
  sessions := by
    show (StateMachine.clientTable r.stateMachine).length = _
    rw [machine, ok.kept.2.length_eq]
    unfold OrderedMap.values
    rw [List.length_map]
  scanned := .nil _
  past candidate mem := by cases mem

/-- Only the state machine, the records, their number and the candidates matter. -/
structure SameTable (r r' : Replica SM) : Prop where
  config : r'.config = r.config
  machine : r'.stateMachine = r.stateMachine
  records : ∀ clientId, r'.record clientId = r.record clientId
  sessions : r'.sessions = r.sessions
  candidates : r'.evictionCandidates = r.evictionCandidates

theorem Follows.same (follows : Follows config r m opNumber) (same : SameTable r r') :
    Follows config r' m opNumber where
  isConfig := same.config.trans follows.isConfig
  machine := same.machine.trans follows.machine
  records clientId := (same.records clientId).trans (follows.records clientId)
  sessions := same.sessions.trans follows.sessions
  scanned := same.candidates ▸ follows.scanned
  past := same.candidates ▸ follows.past

/-- A client map with the record of one client in it as it was. -/
theorem insert_same (r : Replica SM) {clientId : Nat} {state : ClientState (Output SM)}
    (same : state.record = r.record clientId) (other : Nat) :
    recordIn (r.clients.insert clientId state) other = r.record other := by
  rw [recordIn_insert]
  split
  · next isOther =>
    subst isOther
    exact same
  · rfl

/-- Making room evicts whom the model evicts. -/
theorem Follows.makeRoom (follows : Follows config r m opNumber) (ok : m.Ok sound config opNumber)
    (keeps : KeepsTable sound) (op : Nat) :
    ∃ r' m', r.makeRoom op = some r' ∧ m.makeRoom config op = some m' ∧
      Follows config r' m' opNumber ∧ m'.Ok sound config opNumber ∧
      m'.table.pairs.length < config.clientsMax ∧ m'.executed = m.executed ∧
      (∀ clientId, m.table.get? clientId = none → m'.table.get? clientId = none) ∧
      r'.viewNumber = r.viewNumber := by
  unfold Replica.makeRoom Model.makeRoom
  rw [follows.isConfig, follows.sessions]
  by_cases full : config.clientsMax ≤ m.table.pairs.length
  · rw [if_pos full, if_pos full]
    have pos := config.clientsMax_pos
    have some : m.table.pairs ≠ [] := by
      intro none
      rw [none, List.length_nil] at full
      omega
    obtain ⟨clientId, record, rest, isEvicted, least, scanned, past⟩ :=
      evictedClient_least ok.table some follows.records follows.scanned follows.past
    have found : m.table.get? clientId = .some record :=
      OrderedMap.get?_eq_some.mpr (minByOpNumber_spec.2 _ least).1
    have fewer : m.table.pairs.length = (m.table.erase clientId).pairs.length + 1 :=
      (OrderedMap.erase_perm found).length_eq
    unfold evict
    rw [isEvicted, least]
    simp only [Option.bind_eq_bind, Option.bind_some, Option.map_some, follows.sessions, fewer]
    have sub : checkedSub ((m.table.erase clientId).pairs.length + 1) 1 =
        .some (m.table.erase clientId).pairs.length := checkedSub_eq_some.mpr (by omega)
    rw [sub]
    refine ⟨_, _, rfl, rfl, ⟨follows.isConfig, ?_, fun other => ?_, rfl, scanned, past⟩,
      ⟨?_, ok.kept_remove keeps op clientId, ok.table.erase clientId⟩, ?_, rfl, fun other none => ?_,
      rfl⟩
    · show StateMachine.recordClient r.stateMachine op clientId none = _
      rw [follows.machine]
    · rw [OrderedMap.get?_erase]
      refine Eq.trans (b := recordIn _ other) rfl ?_
      dsimp only
      split
      · next none =>
        have noRecord : r.record clientId = .none := by
          unfold Replica.record
          rw [none]
          rfl
        rw [follows.records, found] at noRecord
        cases noRecord
      · split
        · rw [recordIn_erase]
          split
          · rfl
          · exact follows.records other
        · rw [recordIn_insert]
          split
          · rfl
          · exact follows.records other
    · have := ok.few
      dsimp only
      omega
    · have := ok.few
      dsimp only
      omega
    · rw [OrderedMap.get?_erase, none]
      split <;> rfl
  · rw [if_neg full, if_neg full]
    exact ⟨r, m, rfl, rfl, follows, ok, not_le.mp full, rfl, fun _ none => none, rfl⟩

/-- What executing the entry at `opNumber + 1` comes to. -/
def Matches (sound : SM → Prop) (config : Config) (opNumber : Nat) (r : Replica SM)
    (run : Option (Replica SM × Reply (Output SM))) (fed : Option (Model SM × Reply (Output SM))) :
    Prop :=
  ∃ r' m' reply, run = some (r', reply.atView r.viewNumber) ∧ fed = some (m', reply) ∧
    Follows config r' m' (opNumber + 1) ∧ m'.Ok sound config (opNumber + 1)

theorem Follows.past_succ (follows : Follows config r m opNumber) :
    ∀ candidate ∈ r.evictionCandidates, candidate.1 ≤ opNumber + 1 :=
  fun candidate mem => (follows.past candidate mem).trans (Nat.le_succ _)

theorem Follows.register (follows : Follows config r m opNumber) (ok : m.Ok sound config opNumber)
    (keeps : KeepsTable sound) (clientId : Nat) :
    Matches sound config opNumber r (r.register (opNumber + 1) clientId)
      (m.feed config (opNumber + 1) (.register clientId)) := by
  unfold Replica.register Model.feed Model.register
  dsimp only
  rw [clientState_record, follows.records]
  have settled : ∀ other, recordIn (r.clients.insert clientId
      (settle (r.clientState clientId) (opNumber + 1, 0))) other = r.record other :=
    insert_same r ((settle_record _ _).trans (clientState_record r clientId))
  cases found : m.table.get? clientId with
  | some record =>
      refine ⟨_, _, .registered 0 clientId record.session, rfl, rfl,
        ⟨follows.isConfig, ?_, fun other => (settled other).trans (follows.records other),
          follows.sessions, follows.scanned, follows.past_succ⟩,
        ⟨ok.few, ?_, ok.table.later (Nat.le_succ _)⟩⟩
      · show StateMachine.recordClient r.stateMachine _ _ _ = _
        rw [follows.machine]
      · have kept := ok.kept_same keeps (opNumber + 1) clientId
        rw [found] at kept
        exact kept
  | none =>
      set settledReplica : Replica SM := { r with
        clients := r.clients.insert clientId
          (settle (r.clientState clientId) (opNumber + 1, 0)) } with isSettled
      have same : Follows config settledReplica m opNumber :=
        follows.same ⟨rfl, rfl, settled, rfl, rfl⟩
      obtain ⟨room, m', isRoom, isModel, follows', ok', less, executed, stillNone, view⟩ :=
        same.makeRoom ok keeps (opNumber + 1)
      have isView : room.viewNumber = r.viewNumber := view
      have noRecord := stillNone clientId found
      dsimp only
      rw [isRoom, isModel]
      refine ⟨_, _, .registered 0 clientId (opNumber + 1), rfl, rfl,
        ⟨follows'.isConfig, ?_, fun other => ?_, ?_, follows'.scanned.insert fun candidate mem => ?_,
          follows'.past_succ⟩, ⟨?_, ?_, ok'.table.insert (openedRecord clientId (opNumber + 1)) rfl⟩⟩
      · show StateMachine.recordClient room.stateMachine _ _ _ = _
        rw [follows'.machine]
        rfl
      · refine (recordIn_insert _ _ _ _).trans ?_
        rw [OrderedMap.get?_insert]
        split
        · rfl
        · exact follows'.records other
      · show room.sessions + 1 = _
        rw [follows'.sessions, (OrderedMap.insert_perm _ _ _).length_eq, List.length_cons,
          OrderedMap.erase_of_none noRecord]
      · exact Nat.lt_succ_of_le (follows'.past candidate mem)
      · rw [(OrderedMap.insert_perm _ _ _).length_eq, List.length_cons,
          OrderedMap.erase_of_none noRecord]
        exact less
      · exact ok'.kept_record keeps (opNumber + 1) (openedRecord clientId (opNumber + 1))

theorem Follows.request (follows : Follows config r m opNumber) (ok : m.Ok sound config opNumber)
    (keeps : KeepsTable sound) {clientId session requestNumber answered : Nat} {op : Input SM}
    (next : ∀ record, m.table.get? clientId = some record → record.session = session →
      requestNumber = record.requestNumber + 1) :
    Matches sound config opNumber r
      (r.executeRequest (opNumber + 1) clientId session requestNumber answered op)
      (m.feed config (opNumber + 1) (.request clientId session requestNumber answered op)) := by
  unfold Replica.executeRequest Model.feed
  dsimp only
  rw [clientState_record, follows.records]
  set state := settle (r.clientState clientId) (session, requestNumber) with isState
  have stateRecord : state.record = r.record clientId :=
    (settle_record _ _).trans (clientState_record r clientId)
  cases found : (m.table.get? clientId).filter (·.session = session) with
  | none =>
      refine ⟨_, _, .evicted 0 clientId session, rfl, rfl,
        ⟨follows.isConfig, ?_, fun other => ?_, follows.sessions, follows.scanned,
          follows.past_succ⟩, ⟨ok.few, ok.kept_same keeps _ _, ok.table.later (Nat.le_succ _)⟩⟩
      · show StateMachine.recordClient r.stateMachine _ _ state.record = _
        rw [stateRecord, follows.records, follows.machine]
      · rw [← follows.records]
        show recordIn (if _ then _ else _) other = _
        split
        · next gone =>
          rw [Bool.and_eq_true, Option.isNone_iff_eq_none] at gone
          rw [recordIn_erase]
          split
          · next isOther =>
            subst isOther
            rw [← stateRecord, gone.1]
          · rfl
        · exact insert_same r stateRecord other
  | some record =>
      obtain ⟨isRecord, inSession⟩ := Option.filter_eq_some_iff.mp found
      have isNext := next record isRecord (of_decide_eq_true inSession)
      have isId : record.clientId = clientId := ok.table.ids _ (OrderedMap.get?_eq_some.mp isRecord)
      subst isId
      -- The record both keep.
      have isAdvanced : advance record (opNumber + 1) requestNumber answered config.inFlightMax
          (StateMachine.apply m.machine (opNumber + 1) op).2 =
          { record with
            requestNumber := requestNumber
            replies := Model.keep (min (max (requestNumber - answered) 1) config.inFlightMax)
              (record.replies ++ [(StateMachine.apply m.machine (opNumber + 1) op).2])
            opNumber := opNumber + 1 } := by
        unfold advance keepReplies
        rw [← Model.keep_eq_drop]
      dsimp only
      rw [require_of isNext.symm, require_of isNext, ← isAdvanced]
      set after := advance record (opNumber + 1) requestNumber answered config.inFlightMax
        (StateMachine.apply m.machine (opNumber + 1) op).2 with isAfter
      have sameAfter : advance record (opNumber + 1) requestNumber answered r.config.inFlightMax
          (StateMachine.apply r.stateMachine (opNumber + 1) op).2 = after := by
        rw [follows.machine, follows.isConfig]
      have length : (m.table.insert record.clientId after).pairs.length = m.table.pairs.length := by
        rw [(OrderedMap.insert_perm _ _ _).length_eq, (OrderedMap.erase_perm isRecord).length_eq,
          List.length_cons, List.length_cons]
      have machine : (r.runRequest (opNumber + 1) record.clientId state record requestNumber answered
          op).stateMachine = StateMachine.recordClient
            (StateMachine.apply m.machine (opNumber + 1) op).1 (opNumber + 1) record.clientId
            (some after) := by
        rw [← sameAfter, ← follows.machine]
        rfl
      have records : ∀ other, (r.runRequest (opNumber + 1) record.clientId state record requestNumber
          answered op).record other = (m.table.insert record.clientId after).get? other := by
        intro other
        rw [OrderedMap.get?_insert, ← follows.records, ← sameAfter]
        exact recordIn_insert _ _ _ _
      rw [follows.machine]
      refine ⟨_, ⟨StateMachine.recordClient (StateMachine.apply m.machine (opNumber + 1) op).1
          (opNumber + 1) record.clientId (some after), m.table.insert record.clientId after,
          m.executed ++ [(opNumber + 1, op)]⟩,
        .executed 0 record.clientId session requestNumber
          (StateMachine.apply m.machine (opNumber + 1) op).2, rfl, rfl,
        ⟨follows.isConfig, machine, records, ?_, follows.scanned.insert fun candidate mem => ?_,
          follows.past_succ⟩, ⟨?_, ?_, ok.table.insert after rfl⟩⟩
      · show r.sessions = _
        rw [length, follows.sessions]
      · exact Nat.lt_succ_of_le (follows.past candidate mem)
      · dsimp only
        rw [length]
        exact ok.few
      · -- Executing an op leaves the records the state machine keeps.
        have applied : Model.Ok sound config
            { m with machine := (StateMachine.apply m.machine (opNumber + 1) op).1 } opNumber := by
          obtain ⟨isSound, perm⟩ := keeps.apply m.machine (opNumber + 1) op ok.kept.1
          exact ⟨ok.few, ⟨isSound, perm.trans ok.kept.2⟩, ok.table⟩
        exact applied.kept_record keeps (opNumber + 1) after

/-- Executing an entry comes to what the model makes of it. -/
theorem Follows.execute (follows : Follows config r m opNumber) (ok : m.Ok sound config opNumber)
    (keeps : KeepsTable sound) {entry : EntryFor SM} (isEntry : r.entry (opNumber + 1) = some entry)
    (next : ∀ clientId session requestNumber answered op,
      entry = .request clientId session requestNumber answered op →
      ∀ record, m.table.get? clientId = some record → record.session = session →
        requestNumber = record.requestNumber + 1) :
    Matches sound config opNumber r (r.execute (opNumber + 1)) (m.feed config (opNumber + 1) entry) := by
  unfold Replica.execute
  rw [isEntry]
  cases entry with
  | register clientId => exact follows.register ok keeps clientId
  | request clientId session requestNumber answered op =>
      exact follows.request ok keeps (next _ _ _ _ _ rfl)

end Replica

/-! ## Whole runs -/

/-- The states of replicas that execute `entries` in order from `machine`, with the
number of entries executed.  A replica loads its client table again where it
restarts or restores a checkpoint, with the state machine another one reached
there; between entries it does whatever leaves the client records as they are. -/
inductive Executes (config : Config) (entries : List (EntryFor SM)) (machine : SM) :
    Nat → Replica SM → Prop
  | start {r : Replica SM} (isConfig : r.config = config) (isMachine : r.stateMachine = machine) :
      Executes config entries machine 0 r.loadClientTable
  | load {k : Nat} {r reached : Replica SM} (before : Executes config entries machine k reached)
      (isConfig : r.config = config) (isMachine : r.stateMachine = reached.stateMachine) :
      Executes config entries machine k r.loadClientTable
  | meanwhile {k : Nat} {r r' : Replica SM} (before : Executes config entries machine k r)
      (same : Replica.SameTable r r') : Executes config entries machine k r'
  | execute {k : Nat} {r r' : Replica SM} {entry : EntryFor SM} {reply : Reply (Output SM)}
      (before : Executes config entries machine k r) (isNext : entries[k]? = some entry)
      (isEntry : r.entry (k + 1) = some entry) (run : r.execute (k + 1) = some (r', reply)) :
      Executes config entries machine (k + 1) r'

/-- Every request that finds its session open is that session's next one. -/
def NextOnly (config : Config) (entries : List (EntryFor SM)) (machine : SM) : Prop :=
  ∀ k m clientId session requestNumber answered op,
    Model.feedAll config 1 (entries.take k) (.new machine) = some m →
    entries[k]? = some (.request clientId session requestNumber answered op) →
    ∀ record, m.table.get? clientId = some record → record.session = session →
      requestNumber = record.requestNumber + 1

namespace Executes

variable {config : Config} {entries : List (EntryFor SM)} {machine : SM}

theorem feedAll_append (config : Config) (opNumber : Nat) (entries more : List (EntryFor SM))
    (m : Model SM) : Model.feedAll config opNumber (entries ++ more) m =
      (Model.feedAll config opNumber entries m).bind
        (Model.feedAll config (opNumber + entries.length) more) := by
  induction entries generalizing opNumber m with
  | nil => rfl
  | cons entry rest ih =>
      rw [List.cons_append, Model.feedAll, Model.feedAll, Option.bind_assoc]
      congr 1
      funext fed
      rw [ih, List.length_cons, Nat.add_right_comm, Nat.add_assoc opNumber]

theorem feedAll_succ {k : Nat} {entry : EntryFor SM} (isNext : entries[k]? = some entry)
    {m m' : Model SM} {reply : Reply (Output SM)}
    (before : Model.feedAll config 1 (entries.take k) (.new machine) = some m)
    (fed : m.feed config (k + 1) entry = some (m', reply)) :
    Model.feedAll config 1 (entries.take (k + 1)) (.new machine) = some m' := by
  have inside := (List.getElem?_eq_some_iff.mp isNext).1
  rw [List.take_add_one, isNext, feedAll_append, before, List.length_take,
    Nat.min_eq_left inside.le]
  show Model.feedAll config (1 + k) [entry] m = _
  rw [Nat.add_comm 1 k, Model.feedAll, fed]
  rfl

/-- A replica that executes a log follows the model. -/
theorem follows (keeps : KeepsTable sound) (isSound : sound machine)
    (empty : StateMachine.clientTable machine = [])
    (nextOnly : NextOnly config entries machine) {k : Nat} {r : Replica SM}
    (run : Executes config entries machine k r) :
    ∃ m, Model.feedAll config 1 (entries.take k) (.new machine) = some m ∧
      Replica.Follows config r m k ∧ m.Ok sound config k := by
  induction run with
  | start isConfig isMachine =>
      have ok : (Model.new machine : Model SM).Ok sound config 0 := by
        refine ⟨Nat.zero_le _, ⟨isSound, ?_⟩, ⟨?_, ?_, ?_⟩⟩
        · show (StateMachine.clientTable machine).Perm []
          rw [empty]
        all_goals
          intro x mem
          cases mem
      exact ⟨_, rfl, Replica.follows_load isConfig isMachine ok, ok⟩
  | load _ isConfig isMachine ih =>
      obtain ⟨m, fed, follows, ok⟩ := ih
      exact ⟨m, fed, Replica.follows_load isConfig (isMachine.trans follows.machine) ok, ok⟩
  | meanwhile _ same ih =>
      obtain ⟨m, fed, follows, ok⟩ := ih
      exact ⟨m, fed, follows.same same, ok⟩
  | @execute k r r' entry reply _ isNext isEntry run ih =>
      obtain ⟨m, fed, follows, ok⟩ := ih
      obtain ⟨next, m', reply', isRun, isFed, follows', ok'⟩ := follows.execute ok keeps isEntry
        fun clientId session requestNumber answered op isRequest =>
          nextOnly k m _ _ _ _ _ fed (isNext.trans (congrArg some isRequest))
      cases run.symm.trans isRun
      exact ⟨m', feedAll_succ isNext fed isFed, follows', ok'⟩

/-- The model counts the ops it applies. -/
theorem feed_applies {m m' : Model (Recorded SM)} {opNumber : Nat} {entry : EntryFor (Recorded SM)}
    {reply : Reply (Output (Recorded SM))} (counted : Recorded.applies m.machine.calls = m.executed)
    (fed : m.feed config opNumber entry = some (m', reply)) :
    Recorded.applies m'.machine.calls = m'.executed := by
  have told : ∀ (machine : Recorded SM) op clientId record,
      Recorded.applies (StateMachine.recordClient machine op clientId record).calls =
        Recorded.applies machine.calls := by
    intro machine op clientId record
    show Recorded.applies (machine.calls ++ [.recordClient op clientId record]) = _
    simp [Recorded.applies]
  cases entry with
  | register clientId =>
      unfold Model.feed Model.register at fed
      obtain ⟨⟨fedModel, session⟩, isModel, isFed⟩ := Option.map_eq_some_iff.mp fed
      cases isFed
      split at isModel
      · cases isModel
        exact (told _ _ _ _).trans counted
      · obtain ⟨room, isRoom, isOpened⟩ := Option.map_eq_some_iff.mp isModel
        cases isOpened
        refine (told _ _ _ _).trans ?_
        unfold Model.makeRoom at isRoom
        split at isRoom
        · obtain ⟨evicted, _, isEvicted⟩ := Option.map_eq_some_iff.mp isRoom
          cases isEvicted
          exact (told _ _ _ _).trans counted
        · cases isRoom
          exact counted
  | request clientId session requestNumber answered op =>
      unfold Model.feed at fed
      dsimp only at fed
      split at fed
      · cases fed
        exact (told _ _ _ _).trans counted
      · obtain ⟨_, fed⟩ := require_eq_some.mp fed
        cases fed
        refine (told _ _ _ _).trans ?_
        show Recorded.applies (m.machine.calls ++ [.apply opNumber op]) = _
        rw [← counted]
        simp [Recorded.applies]

theorem feedAll_applies {opNumber : Nat} {log : List (EntryFor (Recorded SM))}
    {m m' : Model (Recorded SM)} (counted : Recorded.applies m.machine.calls = m.executed)
    (fed : Model.feedAll config opNumber log m = some m') :
    Recorded.applies m'.machine.calls = m'.executed := by
  induction log generalizing opNumber m with
  | nil =>
      cases fed
      exact counted
  | cons entry rest ih =>
      obtain ⟨⟨next, reply⟩, isNext, fed⟩ := Option.bind_eq_some_iff.mp fed
      exact ih (feed_applies counted isNext) fed

end Executes

/-! ## The accumulator -/

namespace Accumulator

/-- Every record is kept under its client. -/
def Sound (machine : Accumulator) : Prop := ∀ x ∈ machine.clients.pairs, x.2.clientId = x.1

theorem keepsTable : KeepsTable Sound where
  apply machine opNumber op isSound := ⟨isSound, .refl _⟩
  record machine opNumber record isSound := by
    refine ⟨fun x mem => ?_, ?_⟩
    · rcases OrderedMap.mem_insert.mp mem with rfl | ⟨isOld, _⟩
      · rfl
      · exact isSound x isOld
    · show (machine.clients.insert record.clientId record).values.Perm _
      refine ((machine.clients.insert_perm record.clientId record).map Prod.snd).trans ?_
      exact (List.Perm.of_eq (Model.values_erase isSound record.clientId)).cons record
  remove machine opNumber clientId isSound :=
    ⟨fun x mem => isSound x (OrderedMap.mem_erase.mp mem).1,
      List.Perm.of_eq (Model.values_erase isSound clientId)⟩

/-- A client registers and adds. -/
def added : List (EntryFor (Recorded Accumulator)) := [.register 7, .request 7 1 1 0 (.add 5)]

/-- The number of the request is the next one of the session the first entry opens. -/
theorem added_next : NextOnly config added (⟨new, []⟩ : Recorded Accumulator) := by
  intro k m clientId session requestNumber answered op fed isRequest record found _
  match k with
  | 0 => cases isRequest
  | 1 =>
      cases isRequest
      cases fed
      cases found
      rfl
  | k + 2 => cases isRequest

/-- A replica that restarts with the entries in its log. -/
def holder : Replica (Recorded Accumulator) :=
  { Replica.fresh 0 config (⟨new, []⟩ : Recorded Accumulator) with log := added }.loadClientTable

/-- And executes the first of them. -/
def registered : Replica (Recorded Accumulator) := ((holder.execute 1).get (by decide)).1

theorem registered_executes : Executes config added ⟨new, []⟩ 1 registered := by
  have start : Executes config added ⟨new, []⟩ 0 holder := .start rfl rfl
  exact start.execute rfl rfl (Option.some_get (by decide)).symm

end Accumulator

/-! ## Any run -/

/-- Executing the entries of a log in order does what the plain model does, whatever
the state machine and wherever the client table is loaded again. -/
theorem execute_model {sound : SM → Prop} (keeps : KeepsTable sound) {config : Config}
    {entries : List (EntryFor (Recorded SM))} {machine : SM} (isSound : sound machine)
    (empty : StateMachine.clientTable machine = [])
    (nextOnly : NextOnly config entries (⟨machine, []⟩ : Recorded SM)) {k : Nat}
    {r : Replica (Recorded SM)} (run : Executes config entries ⟨machine, []⟩ k r) :
    ∃ m, Model.feedAll config 1 (entries.take k) (.new ⟨machine, []⟩) = some m ∧
      Recorded.applies r.stateMachine.calls = m.executed ∧
      (∀ clientId, r.record clientId = m.table.get? clientId) ∧
      r.sessions = m.table.pairs.length ∧ r.sessions ≤ config.clientsMax ∧
      (StateMachine.clientTable r.stateMachine).Perm m.table.values ∧
      ∀ entry, entries[k]? = some entry → r.entry (k + 1) = some entry →
        ∃ r' m' reply, r.execute (k + 1) = some (r', reply.atView r.viewNumber) ∧
          m.feed config (k + 1) entry = some (m', reply) := by
  obtain ⟨m, fed, follows, ok⟩ :=
    Executes.follows keeps.recorded isSound empty nextOnly run
  refine ⟨m, fed, ?_, follows.records, follows.sessions, ?_, ?_, fun entry isNext isEntry => ?_⟩
  · rw [follows.machine]
    exact Executes.feedAll_applies rfl fed
  · rw [follows.sessions]
    exact ok.few
  · rw [follows.machine]
    exact ok.kept.2
  · obtain ⟨r', m', reply, isRun, isFed, _⟩ := follows.execute ok keeps.recorded isEntry
      fun clientId session requestNumber answered op isRequest =>
        nextOnly k m _ _ _ _ _ fed (isNext.trans (congrArg some isRequest))
    exact ⟨r', m', reply, isRun, isFed⟩

/-- The replica that executed the registration executes the request as the model does. -/
theorem execute_model_added : ∃ m m' r' reply,
    Model.feedAll Accumulator.config 1 (Accumulator.added.take 1) (.new ⟨.new, []⟩) = some m ∧
      m.feed Accumulator.config 2 (.request 7 1 1 0 (.add 5)) = some (m', reply) ∧
      Accumulator.registered.execute 2 = some (r', reply.atView 0) := by
  obtain ⟨m, fed, _, _, _, _, _, next⟩ := execute_model Accumulator.keepsTable
    (fun _ mem => by cases mem) rfl Accumulator.added_next Accumulator.registered_executes
  obtain ⟨r', m', reply, run, isFed⟩ := next (.request 7 1 1 0 (.add 5)) rfl rfl
  exact ⟨m, m', r', reply, fed, isFed, run⟩

end Vsr
