import Mathlib.Data.List.Sort
import Vsr.Replica.Execute
import Vsr.Simulator.Model

/-!
# The session evicted is the one active earliest

A replica evicts from candidates an old scan found.  Whatever became of the
sessions since, the first candidate that still holds its op number is the session
that a full scan would find.
-/

set_option autoImplicit false

namespace Vsr

open Std (ExtTreeMap)

variable {SM : Type} [StateMachine SM] {Outcome : Type}

/-! ## The client records -/

section Records
variable {r : Replica SM}

/-- The record a client map holds of `clientId`. -/
def recordIn (clients : ExtTreeMap Nat (ClientState Outcome)) (clientId : Nat) :
    Option (ClientRecord Outcome) :=
  (clients[clientId]?).bind (·.record)

theorem recordIn_insert (clients : ExtTreeMap Nat (ClientState Outcome)) (clientId : Nat)
    (state : ClientState Outcome) (other : Nat) :
    recordIn (clients.insert clientId state) other =
      if clientId = other then state.record else recordIn clients other := by
  unfold recordIn
  rw [ExtTreeMap.getElem?_insert]
  by_cases same : clientId = other
  · simp [same]
  · simp [same]

theorem recordIn_erase (clients : ExtTreeMap Nat (ClientState Outcome)) (clientId other : Nat) :
    recordIn (clients.erase clientId) other =
      if clientId = other then none else recordIn clients other := by
  unfold recordIn
  rw [ExtTreeMap.getElem?_erase]
  by_cases same : clientId = other
  · simp [same]
  · simp [same]

end Records

/-! ## Candidates -/

instance : IsTrans (Nat × Nat) Replica.candidateLe :=
  ⟨fun a b c => by unfold Replica.candidateLe; omega⟩

instance : Std.Total Replica.candidateLe :=
  ⟨fun a b => by unfold Replica.candidateLe; omega⟩

/-- What an old scan of the table leaves: the candidates come in order, and every
session is one of them or was active after all of them. -/
structure Scanned (table : OrderedMap (ClientRecord Outcome)) (candidates : List (Nat × Nat)) :
    Prop where
  sorted : candidates.Pairwise Replica.candidateLe
  found : ∀ x ∈ table.pairs, (x.2.opNumber, x.1) ∈ candidates ∨
    ∀ candidate ∈ candidates, candidate.1 < x.2.opNumber

theorem Scanned.nil (table : OrderedMap (ClientRecord Outcome)) : Scanned table [] :=
  ⟨.nil, fun _ _ => .inr fun _ mem => by cases mem⟩

/-- A session active at `opNumber`, after every candidate, is no candidate. -/
theorem Scanned.insert {table : OrderedMap (ClientRecord Outcome)} {candidates : List (Nat × Nat)}
    (scanned : Scanned table candidates) {clientId : Nat} {record : ClientRecord Outcome}
    (later : ∀ candidate ∈ candidates, candidate.1 < record.opNumber) :
    Scanned (table.insert clientId record) candidates where
  sorted := scanned.sorted
  found x mem := by
    rcases OrderedMap.mem_insert.mp mem with rfl | ⟨isOld, _⟩
    · exact .inr later
    · exact scanned.found x isOld

/-- The records of a table: each under its client, active at ops that no two share. -/
structure TableOk (table : OrderedMap (ClientRecord Outcome)) (opNumber : Nat) : Prop where
  ids : ∀ x ∈ table.pairs, x.2.clientId = x.1
  ops : ∀ x ∈ table.pairs, x.2.opNumber ≤ opNumber
  distinct : ∀ x ∈ table.pairs, ∀ y ∈ table.pairs, x.2.opNumber = y.2.opNumber → x = y

theorem TableOk.insert {table : OrderedMap (ClientRecord Outcome)} {opNumber : Nat}
    (ok : TableOk table opNumber) (record : ClientRecord Outcome)
    (isOp : record.opNumber = opNumber + 1) :
    TableOk (table.insert record.clientId record) (opNumber + 1) where
  ids x mem := by
    rcases OrderedMap.mem_insert.mp mem with rfl | ⟨isOld, _⟩
    · rfl
    · exact ok.ids x isOld
  ops x mem := by
    rcases OrderedMap.mem_insert.mp mem with rfl | ⟨isOld, _⟩
    · exact isOp.le
    · exact (ok.ops x isOld).trans (Nat.le_succ _)
  distinct x isX y isY same := by
    rcases OrderedMap.mem_insert.mp isX with rfl | ⟨oldX, _⟩ <;>
      rcases OrderedMap.mem_insert.mp isY with rfl | ⟨oldY, _⟩
    · rfl
    · have := ok.ops y oldY
      dsimp only at same
      omega
    · have := ok.ops x oldX
      dsimp only at same
      omega
    · exact ok.distinct x oldX y oldY same

theorem TableOk.erase {table : OrderedMap (ClientRecord Outcome)} {opNumber : Nat}
    (ok : TableOk table opNumber) (clientId : Nat) : TableOk (table.erase clientId) opNumber where
  ids x mem := ok.ids x (OrderedMap.mem_erase.mp mem).1
  ops x mem := ok.ops x (OrderedMap.mem_erase.mp mem).1
  distinct x isX y isY :=
    ok.distinct x (OrderedMap.mem_erase.mp isX).1 y (OrderedMap.mem_erase.mp isY).1

theorem TableOk.later {table : OrderedMap (ClientRecord Outcome)} {opNumber opNumber' : Nat}
    (ok : TableOk table opNumber) (later : opNumber ≤ opNumber') : TableOk table opNumber' :=
  ⟨ok.ids, fun x mem => (ok.ops x mem).trans later, ok.distinct⟩

/-- The least pair a scan finds. -/
theorem minByOpNumber_spec {pairs : List (Nat × ClientRecord Outcome)} :
    (pairs = [] ↔ Model.minByOpNumber pairs = none) ∧
      ∀ least, Model.minByOpNumber pairs = some least →
        least ∈ pairs ∧ ∀ y ∈ pairs, least.2.opNumber ≤ y.2.opNumber := by
  induction pairs with
  | nil => exact ⟨by simp [Model.minByOpNumber], fun _ isLeast => by cases isLeast⟩
  | cons pair rest ih =>
      unfold Model.minByOpNumber
      cases isRest : Model.minByOpNumber rest with
      | none =>
          have empty := ih.1.mpr isRest
          refine ⟨by simp, fun least isLeast => ?_⟩
          cases isLeast
          rw [empty]
          exact ⟨List.mem_cons_self, fun y mem => by rw [List.mem_singleton.mp mem]⟩
      | some other =>
          obtain ⟨isOther, below⟩ := ih.2 other isRest
          dsimp only
          split
          · next less =>
            refine ⟨by simp, fun least isLeast => ?_⟩
            cases isLeast
            refine ⟨List.mem_cons_of_mem _ isOther, fun y mem => ?_⟩
            rcases List.mem_cons.mp mem with rfl | inRest
            · exact less.le
            · exact below y inRest
          · next least =>
            refine ⟨by simp, fun first isFirst => ?_⟩
            cases isFirst
            refine ⟨List.mem_cons_self, fun y mem => ?_⟩
            rcases List.mem_cons.mp mem with rfl | inRest
            · exact le_rfl
            · exact (not_lt.mp least).trans (below y inRest)

/-- The first candidate that holds its op number, after those that do not. -/
theorem nextCandidate_cases (r : Replica SM) (candidates : List (Nat × Nat)) :
    (Replica.nextCandidate r candidates = none ∧ ∀ candidate ∈ candidates,
      ¬∃ record, r.record candidate.2 = some record ∧ record.opNumber = candidate.1) ∨
    ∃ stale latest clientId rest, candidates = stale ++ (latest, clientId) :: rest ∧
      Replica.nextCandidate r candidates = some (clientId, rest) ∧
      (∃ record, r.record clientId = some record ∧ record.opNumber = latest) ∧
      ∀ candidate ∈ stale,
        ¬∃ record, r.record candidate.2 = some record ∧ record.opNumber = candidate.1 := by
  induction candidates with
  | nil => exact .inl ⟨rfl, fun _ mem => by cases mem⟩
  | cons candidate rest ih =>
      obtain ⟨latest, clientId⟩ := candidate
      by_cases good : ∃ record, r.record clientId = some record ∧ record.opNumber = latest
      · right
        obtain ⟨record, isRecord, isLatest⟩ := good
        refine ⟨[], latest, clientId, rest, rfl, ?_, ⟨record, isRecord, isLatest⟩,
          fun _ mem => by cases mem⟩
        simp [Replica.nextCandidate, isRecord, isLatest]
      · have stale : (r.record clientId).any (fun record => record.opNumber = latest) = false := by
          cases isRecord : r.record clientId with
          | none => rfl
          | some record => simpa using fun isLatest => good ⟨record, isRecord, isLatest⟩
        have skips : Replica.nextCandidate r ((latest, clientId) :: rest) =
            Replica.nextCandidate r rest := by
          rw [Replica.nextCandidate, if_neg (by simp [stale])]
        rw [skips]
        rcases ih with ⟨none, allStale⟩ | ⟨more, latest', clientId', rest', isRest, isNext, isGood, rec⟩
        · left
          refine ⟨none, fun other mem => ?_⟩
          rcases List.mem_cons.mp mem with rfl | inRest
          · exact good
          · exact allStale other inRest
        · right
          refine ⟨(latest, clientId) :: more, latest', clientId', rest', by rw [isRest]; rfl, isNext,
            isGood, fun other mem => ?_⟩
          rcases List.mem_cons.mp mem with rfl | inMore
          · exact good
          · exact rec other inMore

/-- A candidate that still holds its op number is the session active earliest. -/
theorem Scanned.evicts {table : OrderedMap (ClientRecord Outcome)} {opNumber latest clientId : Nat}
    {stale rest : List (Nat × Nat)} {record : ClientRecord Outcome}
    (scanned : Scanned table (stale ++ (latest, clientId) :: rest)) (ok : TableOk table opNumber)
    (isRecord : table.get? clientId = some record) (isLatest : record.opNumber = latest)
    (allStale : ∀ candidate ∈ stale,
      ¬∃ record, table.get? candidate.2 = some record ∧ record.opNumber = candidate.1) :
    Model.minByOpNumber table.pairs = some (clientId, record) ∧
      Scanned (table.erase clientId) rest := by
  have mem := OrderedMap.get?_eq_some.mp isRecord
  obtain ⟨_, sortedRest, _⟩ := List.pairwise_append.mp scanned.sorted
  obtain ⟨first, sorted⟩ := List.pairwise_cons.mp sortedRest
  have left : ∀ x ∈ table.pairs, (x.2.opNumber, x.1) ∈ (latest, clientId) :: rest ∨
      ∀ candidate ∈ stale ++ (latest, clientId) :: rest, candidate.1 < x.2.opNumber := by
    intro x isX
    rcases scanned.found x isX with isCandidate | after
    · rcases List.mem_append.mp isCandidate with isStale | inRest
      · exact absurd ⟨x.2, OrderedMap.get?_eq_some.mpr isX, rfl⟩ (allStale _ isStale)
      · exact .inl inRest
    · exact .inr after
  have least : ∀ x ∈ table.pairs, latest ≤ x.2.opNumber := by
    intro x isX
    rcases left x isX with inRest | after
    · rcases List.mem_cons.mp inRest with isFirst | later
      · exact (congrArg Prod.fst isFirst).ge
      · have := first _ later
        unfold Replica.candidateLe at this
        dsimp only at this
        omega
    · exact (after _ (List.mem_append_right _ List.mem_cons_self)).le
  constructor
  · cases isLeast : Model.minByOpNumber table.pairs with
    | none =>
        rw [minByOpNumber_spec.1.mpr isLeast] at mem
        cases mem
    | some other =>
        obtain ⟨isOther, below⟩ := minByOpNumber_spec.2 other isLeast
        have same : other.2.opNumber = record.opNumber :=
          le_antisymm (below _ mem) (isLatest.le.trans (least other isOther))
        rw [ok.distinct other isOther _ mem same]
  · refine ⟨sorted, fun x isX => ?_⟩
    obtain ⟨isOld, other⟩ := OrderedMap.mem_erase.mp isX
    rcases left x isOld with inRest | after
    · rcases List.mem_cons.mp inRest with isFirst | later
      · exact absurd (congrArg Prod.snd isFirst) other
      · exact .inl later
    · exact .inr fun candidate mem => after candidate
        (List.mem_append_right _ (List.mem_cons_of_mem _ mem))

/-- A scan finds candidates. -/
theorem findEvictionCandidates_scanned {r : Replica SM} {table : OrderedMap (ClientRecord (Output SM))}
    {opNumber : Nat} (ok : TableOk table opNumber) (some : table.pairs ≠ [])
    (records : ∀ clientId, r.record clientId = table.get? clientId) :
    ∃ candidates, r.findEvictionCandidates = .some { r with evictionCandidates := candidates } ∧
      Scanned table candidates ∧ candidates ≠ [] ∧
      ∀ candidate ∈ candidates, ∃ record, table.get? candidate.2 = .some record ∧
        record.opNumber = candidate.1 := by
  have sessions : ∀ candidate, candidate ∈ (r.clients.toList.filterMap fun client =>
      client.2.record.map fun record => (record.opNumber, record.clientId)) ↔
      ∃ record, table.get? candidate.2 = .some record ∧ record.opNumber = candidate.1 := by
    intro candidate
    simp only [List.mem_filterMap, Option.map_eq_some_iff]
    constructor
    · rintro ⟨⟨clientId, state⟩, isClient, record, isRecord, rfl⟩
      have isState := ExtTreeMap.mem_toList_iff_getElem?_eq_some.mp isClient
      have found : table.get? clientId = .some record := by
        rw [← records]
        exact Option.bind_eq_some_iff.mpr ⟨state, isState, isRecord⟩
      have isId : record.clientId = clientId := ok.ids _ (OrderedMap.get?_eq_some.mp found)
      exact ⟨record, by rw [isId]; exact found, rfl⟩
    · rintro ⟨record, found, isLatest⟩
      have isId : record.clientId = candidate.2 := ok.ids _ (OrderedMap.get?_eq_some.mp found)
      rw [← records] at found
      obtain ⟨state, isState, isRecord⟩ := Option.bind_eq_some_iff.mp found
      exact ⟨(candidate.2, state), ExtTreeMap.mem_toList_iff_getElem?_eq_some.mpr isState, record,
        isRecord, by rw [isId, isLatest]⟩
  generalize isSessions : (r.clients.toList.filterMap fun client =>
    client.2.record.map fun record => (record.opNumber, record.clientId)) = scanned at sessions
  have notEmpty : scanned ≠ [] := by
    obtain ⟨x, isX⟩ := List.exists_mem_of_ne_nil _ some
    exact List.ne_nil_of_mem ((sessions (x.2.opNumber, x.1)).mpr
      ⟨x.2, OrderedMap.get?_eq_some.mpr isX, rfl⟩)
  have sorted := List.pairwise_insertionSort Replica.candidateLe scanned
  set kept := max (scanned.length / 16) 1 with isKept
  refine ⟨(scanned.insertionSort Replica.candidateLe).take kept, ?_, ⟨sorted.take, fun x isX => ?_⟩,
    ?_, fun candidate mem => ?_⟩
  · unfold Replica.findEvictionCandidates
    dsimp only
    rw [isSessions, require_of notEmpty]
  · by_cases isCandidate :
        (x.2.opNumber, x.1) ∈ (scanned.insertionSort Replica.candidateLe).take kept
    · exact .inl isCandidate
    · right
      intro candidate mem
      have inScan : (x.2.opNumber, x.1) ∈ scanned.insertionSort Replica.candidateLe :=
        (List.mem_insertionSort _).mpr ((sessions _).mpr ⟨x.2, OrderedMap.get?_eq_some.mpr isX, rfl⟩)
      rw [← List.take_append_drop kept (scanned.insertionSort Replica.candidateLe)] at inScan sorted
      have later := (List.mem_append.mp inScan).resolve_left isCandidate
      have le := (List.pairwise_append.mp sorted).2.2 candidate mem _ later
      obtain ⟨record, found, isLatest⟩ :=
        (sessions candidate).mp ((List.mem_insertionSort _).mp (List.mem_of_mem_take mem))
      rcases Nat.lt_or_ge candidate.1 x.2.opNumber with lt | ge
      · exact lt
      · have same : candidate.1 = x.2.opNumber := by
          unfold Replica.candidateLe at le
          dsimp only at le
          omega
        have isSame := ok.distinct _ (OrderedMap.get?_eq_some.mp found) x isX (isLatest.trans same)
        have : candidate = (x.2.opNumber, x.1) := by
          rw [← isSame]
          exact Prod.ext isLatest.symm rfl
        exact absurd (this ▸ mem) isCandidate
  · intro empty
    have length := congrArg List.length empty
    rw [List.length_take, List.length_insertionSort] at length
    have := List.length_pos_iff.mpr notEmpty
    simp only [List.length_nil] at length
    omega
  · exact (sessions candidate).mp ((List.mem_insertionSort _).mp (List.mem_of_mem_take mem))

/-- The first candidate that is good is the session active earliest. -/
theorem nextCandidate_least {r : Replica SM} {table : OrderedMap (ClientRecord (Output SM))}
    {opNumber clientId : Nat} {candidates rest : List (Nat × Nat)} (ok : TableOk table opNumber)
    (records : ∀ clientId, r.record clientId = table.get? clientId)
    (scanned : Scanned table candidates)
    (next : r.nextCandidate candidates = some (clientId, rest)) :
    ∃ record, Model.minByOpNumber table.pairs = some (clientId, record) ∧
      Scanned (table.erase clientId) rest ∧ ∀ candidate ∈ rest, candidate ∈ candidates := by
  rcases nextCandidate_cases r candidates with
    ⟨none, _⟩ | ⟨stale, latest, found, rest', isCandidates, isNext, ⟨record, isRecord, isLatest⟩, rec⟩
  · cases none.symm.trans next
  · cases isNext.symm.trans next
    subst isCandidates
    rw [records] at isRecord
    simp only [records] at rec
    obtain ⟨least, scanned⟩ := scanned.evicts ok isRecord isLatest rec
    exact ⟨record, least, scanned, fun candidate mem =>
      List.mem_append_right _ (List.mem_cons_of_mem _ mem)⟩

/-- The loop of `evict` ends with the session active earliest. -/
theorem evictedClient_least {r : Replica SM} {table : OrderedMap (ClientRecord (Output SM))}
    {opNumber : Nat} (ok : TableOk table opNumber) (some : table.pairs ≠ [])
    (records : ∀ clientId, r.record clientId = table.get? clientId)
    (scanned : Scanned table r.evictionCandidates)
    (past : ∀ candidate ∈ r.evictionCandidates, candidate.1 ≤ opNumber) :
    ∃ clientId record rest, r.evictedClient = .some (clientId, { r with evictionCandidates := rest }) ∧
      Model.minByOpNumber table.pairs = .some (clientId, record) ∧
      Scanned (table.erase clientId) rest ∧ ∀ candidate ∈ rest, candidate.1 ≤ opNumber := by
  unfold Replica.evictedClient
  cases next : r.nextCandidate r.evictionCandidates with
  | some found =>
      obtain ⟨clientId, rest⟩ := found
      obtain ⟨record, least, scanned, old⟩ := nextCandidate_least ok records scanned next
      exact ⟨clientId, record, rest, rfl, least, scanned, fun candidate mem =>
        past candidate (old candidate mem)⟩
  | none =>
      obtain ⟨candidates, scan, scanned, notEmpty, good⟩ :=
        findEvictionCandidates_scanned ok some records
      have records' : ∀ clientId,
          Replica.record { r with evictionCandidates := candidates } clientId = table.get? clientId :=
        records
      cases next' : Replica.nextCandidate { r with evictionCandidates := candidates } candidates with
      | none =>
          rcases nextCandidate_cases { r with evictionCandidates := candidates }
            candidates with ⟨_, allStale⟩ | ⟨_, _, _, _, _, isNext, _⟩
          · obtain ⟨candidate, mem⟩ := List.exists_mem_of_ne_nil _ notEmpty
            obtain ⟨record, found, isLatest⟩ := good candidate mem
            exact absurd ⟨record, (records' _).trans found, isLatest⟩ (allStale candidate mem)
          · cases next'.symm.trans isNext
      | some found =>
          obtain ⟨clientId, rest⟩ := found
          obtain ⟨record, least, scanned, old⟩ := nextCandidate_least ok records' scanned next'
          refine ⟨clientId, record, rest, ?_, least, scanned, fun candidate mem => ?_⟩
          · rw [scan]
            simp only [Option.bind_eq_bind, Option.bind_some, next']
          · obtain ⟨record, found, isLatest⟩ := good candidate (old candidate mem)
            rw [← isLatest]
            exact ok.ops _ (OrderedMap.get?_eq_some.mp found)

end Vsr
