import Vsr.Kvstore.Frame

/-!
# Where decoding panics

Decoding a line fails with a message on whatever it does not take, but for a result
whose first character takes more than one byte.
-/

set_option autoImplicit false

namespace Vsr.Kvstore

open Journal (Text words wordsFrom)
open Cursor (Panics Calm Takes panics_bind panics_map read_bind_ok read_bind_inv)

variable {α β : Type} {ws rest : List Text}

/-! ## The words decoding takes as results -/

/-- The word does not start with a character of one byte. -/
def Wide : Text → Prop
  | [] => True
  | c :: _ => c.utf8Size ≠ 1

/-- The word spells a number of 64 bits. -/
def Numeric (word : Text) : Prop := ∃ n, parse word = some n

/-- A client record in a chunk: five numbers, the last of which counts the results
after it. -/
def RecordWords (record : List Text) : Prop :=
  ∃ clientId session requestNumber opNumber count results,
    record = [clientId, session, requestNumber, opNumber, count] ++ results ∧
      Numeric clientId ∧ Numeric session ∧ Numeric requestNumber ∧ Numeric opNumber ∧
      parse count = some results.length ∧ ∀ result ∈ results, ¬Wide result

/-- `word` stands in the line of words `ws` where decoding takes it as a result. -/
inductive ResultAt : List Text → Text → Prop
  | executed {viewNumber clientId session requestNumber word : Text} (rest : List Text)
      (numeric : ∀ n ∈ [viewNumber, clientId, session, requestNumber], Numeric n) :
      ResultAt ("EXECUTED".toList :: viewNumber :: clientId :: session :: requestNumber :: word :: rest)
        word
  | queried {viewNumber clientId queryNumber word : Text} (rest : List Text)
      (numeric : ∀ n ∈ [viewNumber, clientId, queryNumber], Numeric n) :
      ResultAt ("QUERIED".toList :: viewNumber :: clientId :: queryNumber :: word :: rest) word
  /-- In one of the records of a chunk, after those before it and after some of its
  results. -/
  | newChunk {replicaId opNumber index last count clientId session requestNumber latest replies
      word : Text} {records : List (List Text)} {results : List Text} {clients answers : Nat}
      (rest : List Text) (numeric : ∀ n ∈ [replicaId, opNumber, index], Numeric n)
      (isFlag : last = "0".toList ∨ last = "1".toList) (isCount : parse count = some clients)
      (fewer : records.length < clients) (whole : ∀ record ∈ records, RecordWords record)
      (begins : ∀ n ∈ [clientId, session, requestNumber, latest], Numeric n)
      (isReplies : parse replies = some answers) (less : results.length < answers)
      (narrow : ∀ result ∈ results, ¬Wide result) :
      ResultAt ("NEWCHUNK".toList :: replicaId :: opNumber :: index :: last :: count ::
        (records.flatten ++ clientId :: session :: requestNumber :: latest :: replies ::
          (results ++ word :: rest))) word

/-! ## What does not panic -/

theorem word_read {w : Text} : word.read ws = some (.ok (w, rest)) ↔ ws = w :: rest := by
  cases ws with
  | nil => exact ⟨(fun reads => by cases reads), fun isCons => by cases isCons⟩
  | cons first others =>
      constructor
      · intro reads
        cases reads
        rfl
      · rintro ⟨⟩
        rfl

theorem calm_word : word.Calm := by
  refine Calm.bind .next? fun next => ?_
  cases next with
  | none => exact .throw _
  | some w => exact .pure w

theorem panics_word {f : Text → Cursor Text β} :
    (word >>= f).Panics ws ↔ ∃ w rest, ws = w :: rest ∧ (f w).Panics rest := by
  rw [calm_word.panics_bind]
  simp only [word_read]

theorem calm_num : num.Calm := by
  refine calm_word.bind fun w => ?_
  split
  · exact .pure _
  · exact .throw _

theorem num_read {n : Nat} :
    num.read ws = some (.ok (n, rest)) ↔ ∃ w, ws = w :: rest ∧ parse w = some n := by
  constructor
  · intro reads
    obtain ⟨w, middle, first, parses⟩ := read_bind_inv reads
    obtain rfl := word_read.mp first
    refine ⟨w, ?_⟩
    split at parses
    · next isNumber =>
      cases parses
      exact ⟨rfl, isNumber⟩
    · cases parses
  · rintro ⟨w, rfl, isNumber⟩
    unfold num
    rw [read_bind_ok (word_read.mpr rfl), isNumber]
    rfl

theorem panics_num {f : Nat → Cursor Text β} : (num >>= f).Panics ws ↔
    ∃ w n rest, ws = w :: rest ∧ parse w = some n ∧ (f n).Panics rest := by
  rw [calm_num.panics_bind]
  simp only [num_read]
  constructor
  · rintro ⟨n, rest, ⟨w, isCons, isNumber⟩, panics⟩
    exact ⟨w, n, rest, isCons, isNumber, panics⟩
  · rintro ⟨w, n, rest, isCons, isNumber, panics⟩
    exact ⟨n, rest, ⟨w, isCons, isNumber⟩, panics⟩

theorem calm_numOr (err : String) : (numOr err).Calm := by
  refine calm_word.bind fun w => ?_
  split
  · exact .pure _
  · exact .throw _

theorem Calm.counted {item : Cursor Text α} (calm : item.Calm) : (counted item).Calm := by
  refine calm_num.bind fun count => ?_
  rw [withCapacity_reserved]
  exact calm.times count

theorem calm_op : op.Calm := by
  refine calm_word.bind fun w => ?_
  split
  · exact calm_word.bind fun key => calm_word.bind fun value => .pure _
  · exact .throw _

theorem calm_entry : entry.Calm := by
  refine calm_word.bind fun w => ?_
  split
  · exact calm_num.bind fun _ => .pure _
  · exact calm_num.bind fun _ => calm_num.bind fun _ => calm_num.bind fun _ => calm_num.bind fun _ =>
      calm_op.bind fun _ => .pure _
  · exact .throw _

theorem calm_segment : segment.Calm := by
  refine Calm.bind (calm_word.bind fun w => ?_) fun base => (Calm.counted calm_entry).bind fun _ => .pure _
  split
  · exact calm_num.bind fun _ => .pure _
  · exact calm_num.bind fun _ => .pure _
  · exact .throw _

theorem calm_recoveryState : recoveryState.Calm := by
  refine calm_word.bind fun w => ?_
  split
  · exact calm_num.bind fun _ => calm_segment.bind fun _ => .pure _
  · exact .pure _

theorem calm_flag : flag.Calm := by
  refine calm_word.bind fun w => ?_
  split
  · exact .pure _
  · exact .pure _
  · exact .throw _

theorem calm_done : done.Calm := by
  refine Calm.bind .next? fun next => ?_
  cases next with
  | none => exact .pure ()
  | some w => exact .throw _

theorem calm_lastEntry : lastEntry.Calm :=
  calm_entry.bind fun _ => calm_done.bind fun _ => .pure _

/-- The entries of a journal decode or fail. -/
theorem decodeEntry_calm (text : Text) : decodeEntry text ≠ none := by
  intro panics
  exact calm_lastEntry (words text) (Option.map_eq_none_iff.mp panics)

/-- Only the frames that hold results can panic. -/
theorem calm_body {kind : String} (executed : kind ≠ "EXECUTED") (queried : kind ≠ "QUERIED")
    (newChunk : kind ≠ "NEWCHUNK") : (body kind).Calm := by
  unfold body
  split
  all_goals
    first
    | contradiction
    | repeat' first
      | exact calm_num
      | exact calm_word
      | exact calm_numOr _
      | exact calm_op
      | exact calm_entry
      | exact calm_segment
      | exact calm_recoveryState
      | exact .pure _
      | exact .throw _
      | refine Calm.bind ?_ fun _ => ?_

/-! ## What does -/

theorem wide_iff {w : Text} : afterFirst w = none ↔ Wide w := by
  cases w with
  | nil => exact ⟨fun _ => trivial, fun _ => rfl⟩
  | cons c rest =>
      show (if c.utf8Size = 1 then some rest else none) = none ↔ c.utf8Size ≠ 1
      split
      · next one => exact ⟨(fun isNone => by cases isNone), fun wide => absurd one wide⟩
      · next wide => exact ⟨fun _ => wide, fun _ => rfl⟩

/-- Reading a result takes one word, and panics if it is wide. -/
theorem result_cases (w : Text) (rest : List Text) :
    (Wide w ∧ result.read (w :: rest) = none) ∨
      ¬Wide w ∧ ∃ a, result.read (w :: rest) = some (.ok (a, rest)) := by
  rw [← wide_iff]
  unfold result
  rw [read_bind_ok (word_read.mpr rfl)]
  split
  · exact .inr ⟨(fun isNone => by cases isNone), none, rfl⟩
  · cases after : afterFirst w with
    | none => exact .inl ⟨rfl, rfl⟩
    | some value => exact .inr ⟨(fun isNone => by cases isNone), value, rfl⟩

theorem takes_result : result.Takes fun taken => ∃ w, taken = [w] ∧ ¬Wide w := by
  intro ws rest
  cases ws with
  | nil =>
      constructor
      · rintro ⟨a, reads⟩
        cases reads
      · rintro ⟨_, ⟨w, rfl, _⟩, isCons⟩
        cases isCons
  | cons w others =>
      constructor
      · rintro ⟨a, reads⟩
        rcases result_cases w others with ⟨_, panics⟩ | ⟨narrow, b, read⟩
        · rw [panics] at reads
          cases reads
        · rw [read] at reads
          cases reads
          exact ⟨[w], ⟨w, rfl, narrow⟩, rfl⟩
      · rintro ⟨_, ⟨_, rfl, narrow⟩, ⟨⟩⟩
        exact ((result_cases w rest).resolve_left fun wide => narrow wide.1).2

theorem panics_result : result.Panics ws ↔ ∃ w rest, ws = w :: rest ∧ Wide w := by
  cases ws with
  | nil => exact ⟨(fun panics => by cases panics), fun ⟨w, rest, isCons, _⟩ => by cases isCons⟩
  | cons w rest =>
      constructor
      · intro panics
        rcases result_cases w rest with wide | ⟨_, a, read⟩
        · exact ⟨w, rest, rfl, wide.1⟩
        · cases panics.symm.trans read
      · rintro ⟨_, _, ⟨⟩, wide⟩
        exact ((result_cases w rest).resolve_right fun narrow => narrow.1 wide).2

/-- Lists of one word each, which `P` holds of. -/
theorem singles {P : Text → Prop} {parts : List (List Text)}
    (spell : ∀ part ∈ parts, ∃ w, part = [w] ∧ P w) :
    ∃ ws, ws.length = parts.length ∧ parts.flatten = ws ∧ ∀ w ∈ ws, P w := by
  induction parts with
  | nil => exact ⟨[], rfl, rfl, List.forall_mem_nil _⟩
  | cons part parts ih =>
      obtain ⟨⟨w, rfl, holds⟩, others⟩ := List.forall_mem_cons.mp spell
      obtain ⟨ws, same, isFlat, hold⟩ := ih others
      refine ⟨w :: ws, ?_, ?_, List.forall_mem_cons.mpr ⟨holds, hold⟩⟩
      · rw [List.length_cons, List.length_cons, same]
      · rw [List.flatten_cons, isFlat]
        rfl

theorem flatten_singles (ws : List Text) : (ws.map ([·])).flatten = ws := by
  rw [← List.flatMap_def]
  exact List.flatMap_singleton' ws

theorem takes_results (count : Nat) : (result.times count).Takes fun taken =>
    taken.length = count ∧ ∀ result ∈ taken, ¬Wide result := by
  intro ws rest
  rw [takes_result.times count ws rest]
  constructor
  · rintro ⟨_, ⟨parts, isCount, spell, rfl⟩, rfl⟩
    obtain ⟨results, same, isFlat, narrow⟩ := singles spell
    exact ⟨results, ⟨same.trans isCount, narrow⟩, by rw [isFlat]⟩
  · rintro ⟨results, ⟨isCount, narrow⟩, rfl⟩
    refine ⟨results, ⟨results.map ([·]), ?_, fun part mem => ?_, ?_⟩, rfl⟩
    · rw [List.length_map, isCount]
    · obtain ⟨result, isResult, rfl⟩ := List.mem_map.mp mem
      exact ⟨result, rfl, narrow result isResult⟩
    · exact (flatten_singles results).symm

/-- Reading the results of a record panics where one of them is wide. -/
theorem panics_results {count : Nat} : (result.times count).Panics ws ↔
    ∃ results w rest, ws = results ++ w :: rest ∧ results.length < count ∧
      (∀ result ∈ results, ¬Wide result) ∧ Wide w := by
  rw [takes_result.panics_times]
  simp only [panics_result]
  constructor
  · rintro ⟨parts, _, fewer, spell, rfl, w, rest, rfl, wide⟩
    obtain ⟨results, same, isFlat, narrow⟩ := singles spell
    exact ⟨results, w, rest, by rw [isFlat], same.trans_lt fewer, narrow, wide⟩
  · rintro ⟨results, w, rest, rfl, fewer, narrow, wide⟩
    refine ⟨results.map ([·]), w :: rest, ?_, ?_, ?_, w, rest, rfl, wide⟩
    · rwa [List.length_map]
    · intro part mem
      obtain ⟨result, isResult, rfl⟩ := List.mem_map.mp mem
      exact ⟨result, rfl, narrow result isResult⟩
    · rw [flatten_singles]

theorem counted_panics {item : Cursor Text α} : (counted item).Panics ws ↔
    ∃ w count rest, ws = w :: rest ∧ parse w = some count ∧ (item.times count).Panics rest := by
  unfold counted
  rw [panics_num]
  simp only [withCapacity_reserved, pure_bind]

theorem counted_read {item : Cursor Text α} {as : List α} :
    (counted item).read ws = some (.ok (as, rest)) ↔ ∃ w count middle, ws = w :: middle ∧
      parse w = some count ∧ (item.times count).read middle = some (.ok (as, rest)) := by
  constructor
  · intro reads
    obtain ⟨count, middle, first, items⟩ := read_bind_inv reads
    obtain ⟨w, rfl, isCount⟩ := num_read.mp first
    rw [withCapacity_reserved, pure_bind] at items
    exact ⟨w, count, middle, rfl, isCount, items⟩
  · rintro ⟨w, count, middle, rfl, isCount, reads⟩
    unfold counted
    rw [read_bind_ok (num_read.mpr ⟨w, rfl, isCount⟩), withCapacity_reserved, pure_bind]
    exact reads

/-- A record of a chunk. -/
def record : Cursor Text (ClientRecord (Option Text)) := num >>= client

theorem takes_record : record.Takes RecordWords := by
  intro ws rest
  constructor
  · rintro ⟨a, reads⟩
    obtain ⟨clientId, _, first, reads⟩ := read_bind_inv reads
    obtain ⟨session, _, second, reads⟩ := read_bind_inv reads
    obtain ⟨requestNumber, _, third, reads⟩ := read_bind_inv reads
    obtain ⟨opNumber, _, fourth, reads⟩ := read_bind_inv reads
    obtain ⟨replies, _, fifth, reads⟩ := read_bind_inv reads
    cases reads
    obtain ⟨w1, rfl, isClient⟩ := num_read.mp first
    obtain ⟨w2, rfl, isSession⟩ := num_read.mp second
    obtain ⟨w3, rfl, isRequest⟩ := num_read.mp third
    obtain ⟨w4, rfl, isOp⟩ := num_read.mp fourth
    obtain ⟨w5, count, middle, rfl, isCount, results⟩ := counted_read.mp fifth
    obtain ⟨taken, ⟨same, narrow⟩, rfl⟩ := (takes_results count middle rest).mp ⟨_, results⟩
    refine ⟨[w1, w2, w3, w4, w5] ++ taken, ⟨w1, w2, w3, w4, w5, taken, rfl, ⟨_, isClient⟩, ⟨_, isSession⟩,
      ⟨_, isRequest⟩, ⟨_, isOp⟩, ?_, narrow⟩, rfl⟩
    rw [same, isCount]
  · rintro ⟨_, ⟨w1, w2, w3, w4, w5, taken, rfl, ⟨clientId, isClient⟩, ⟨session, isSession⟩,
      ⟨requestNumber, isRequest⟩, ⟨opNumber, isOp⟩, isCount, narrow⟩, rfl⟩
    obtain ⟨replies, results⟩ := (takes_results taken.length (taken ++ rest) rest).mpr
      ⟨taken, ⟨rfl, narrow⟩, rfl⟩
    have counts := counted_read.mpr ⟨w5, taken.length, taken ++ rest, rfl, isCount, results⟩
    refine ⟨⟨clientId, session, requestNumber, replies, opNumber⟩, ?_⟩
    show (num >>= client).read (w1 :: w2 :: w3 :: w4 :: w5 :: (taken ++ rest)) = _
    rw [read_bind_ok (num_read.mpr ⟨w1, rfl, isClient⟩)]
    unfold client
    rw [read_bind_ok (num_read.mpr ⟨w2, rfl, isSession⟩), read_bind_ok (num_read.mpr ⟨w3, rfl, isRequest⟩),
      read_bind_ok (num_read.mpr ⟨w4, rfl, isOp⟩)]
    exact read_bind_ok counts

theorem panics_record : record.Panics ws ↔ ∃ w1 w2 w3 w4 w5 count results w rest,
    ws = w1 :: w2 :: w3 :: w4 :: w5 :: (results ++ w :: rest) ∧
      (∀ n ∈ [w1, w2, w3, w4], Numeric n) ∧ parse w5 = some count ∧ results.length < count ∧
      (∀ result ∈ results, ¬Wide result) ∧ Wide w := by
  unfold record client
  simp only [panics_num, panics_map, counted_panics, panics_results]
  constructor
  · rintro ⟨w1, _, _, rfl, isClient, w2, _, _, rfl, isSession, w3, _, _, rfl, isRequest, w4, _, _, rfl,
      isOp, w5, count, _, rfl, isCount, results, w, rest, rfl, fewer, narrow, wide⟩
    refine ⟨w1, w2, w3, w4, w5, count, results, w, rest, rfl, ?_, isCount, fewer, narrow, wide⟩
    simp only [List.forall_mem_cons]
    exact ⟨⟨_, isClient⟩, ⟨_, isSession⟩, ⟨_, isRequest⟩, ⟨_, isOp⟩, List.forall_mem_nil _⟩
  · rintro ⟨w1, w2, w3, w4, w5, count, results, w, rest, rfl, numeric, isCount, fewer, narrow, wide⟩
    simp only [List.forall_mem_cons] at numeric
    obtain ⟨⟨_, isClient⟩, ⟨_, isSession⟩, ⟨_, isRequest⟩, ⟨_, isOp⟩, _⟩ := numeric
    exact ⟨w1, _, _, rfl, isClient, w2, _, _, rfl, isSession, w3, _, _, rfl, isRequest, w4, _, _, rfl,
      isOp, w5, count, _, rfl, isCount, results, w, rest, rfl, fewer, narrow, wide⟩

/-! ## Frames -/

theorem ofList_eq {kind : Text} {name : String} : String.ofList kind = name ↔ kind = name.toList := by
  constructor
  · rintro rfl
    exact String.toList_ofList.symm
  · rintro rfl
    exact String.ofList_toList

theorem flag_read {last : Bool} : flag.read ws = some (.ok (last, rest)) ↔
    ∃ w, ws = w :: rest ∧ ((w = "0".toList ∧ last = false) ∨ (w = "1".toList ∧ last = true)) := by
  constructor
  · intro reads
    obtain ⟨w, middle, first, value⟩ := read_bind_inv reads
    obtain rfl := word_read.mp first
    split at value
    · next isWord =>
      cases value
      exact ⟨w, rfl, .inl ⟨ofList_eq.mp isWord, rfl⟩⟩
    · next isWord =>
      cases value
      exact ⟨w, rfl, .inr ⟨ofList_eq.mp isWord, rfl⟩⟩
    · cases value
  · rintro ⟨_, rfl, ⟨rfl, rfl⟩ | ⟨rfl, rfl⟩⟩
    · rfl
    · rfl

theorem panics_flag {f : Bool → Cursor Text β} : (flag >>= f).Panics ws ↔
    ∃ w last rest, ws = w :: rest ∧
      ((w = "0".toList ∧ last = false) ∨ (w = "1".toList ∧ last = true)) ∧ (f last).Panics rest := by
  rw [calm_flag.panics_bind]
  simp only [flag_read]
  constructor
  · rintro ⟨last, rest, ⟨w, isCons, isFlag⟩, panics⟩
    exact ⟨w, last, rest, isCons, isFlag, panics⟩
  · rintro ⟨w, last, rest, isCons, isFlag, panics⟩
    exact ⟨last, rest, ⟨w, isCons, isFlag⟩, panics⟩

/-- A chunk panics in one of its records, after those before it. -/
theorem panics_chunk : chunk.Panics ws ↔
    ∃ (count : Text) (clients : Nat) (records : List (List Text)) (rest : List Text),
      ws = count :: (records.flatten ++ rest) ∧ parse count = some clients ∧
        records.length < clients ∧ (∀ record ∈ records, RecordWords record) ∧ record.Panics rest := by
  have pairs : (counted (word >>= fun key => word >>= fun value => pure (key, value))).Calm :=
    Calm.counted (calm_word.bind fun _ => calm_word.bind fun _ => .pure _)
  have first : chunk.Panics ws ↔ (counted record).Panics ws := by
    unfold chunk
    rw [panics_bind]
    refine or_iff_left ?_
    rintro ⟨clients, rest, _, panics⟩
    exact (pairs.bind fun _ => .pure _) rest panics
  rw [first, counted_panics]
  simp only [takes_record.panics_times]
  constructor
  · rintro ⟨count, clients, _, rfl, isCount, records, rest, fewer, whole, rfl, panics⟩
    exact ⟨count, clients, records, rest, rfl, isCount, fewer, whole, panics⟩
  · rintro ⟨count, clients, records, rest, rfl, isCount, fewer, whole, panics⟩
    exact ⟨count, clients, _, rfl, isCount, records, rest, fewer, whole, rfl, panics⟩

theorem panics_executed (panics : (body "EXECUTED").Panics ws) :
    ∃ w, ResultAt ("EXECUTED".toList :: ws) w ∧ Wide w := by
  simp only [body, panics_num, panics_map, panics_result] at panics
  obtain ⟨w1, _, _, rfl, isView, w2, _, _, rfl, isClient, w3, _, _, rfl, isSession, w4, _, _, rfl,
    isRequest, w, rest, rfl, wide⟩ := panics
  refine ⟨w, .executed rest ?_, wide⟩
  simp only [List.forall_mem_cons]
  exact ⟨⟨_, isView⟩, ⟨_, isClient⟩, ⟨_, isSession⟩, ⟨_, isRequest⟩, List.forall_mem_nil _⟩

theorem panics_queried (panics : (body "QUERIED").Panics ws) :
    ∃ w, ResultAt ("QUERIED".toList :: ws) w ∧ Wide w := by
  simp only [body, panics_num, panics_map, panics_result] at panics
  obtain ⟨w1, _, _, rfl, isView, w2, _, _, rfl, isClient, w3, _, _, rfl, isQuery, w, rest, rfl,
    wide⟩ := panics
  refine ⟨w, .queried rest ?_, wide⟩
  simp only [List.forall_mem_cons]
  exact ⟨⟨_, isView⟩, ⟨_, isClient⟩, ⟨_, isQuery⟩, List.forall_mem_nil _⟩

theorem panics_newChunk (panics : (body "NEWCHUNK").Panics ws) :
    ∃ w, ResultAt ("NEWCHUNK".toList :: ws) w ∧ Wide w := by
  simp only [body, panics_num, panics_map, panics_flag, panics_chunk, panics_record] at panics
  obtain ⟨w1, _, _, rfl, isReplica, w2, _, _, rfl, isOp, w3, _, _, rfl, isIndex, last, _, _, rfl,
    isFlag, count, clients, records, _, rfl, isCount, fewer, whole, c1, c2, c3, c4, c5, answers,
    results, w, rest, rfl, begins, isReplies, less, narrow, wide⟩ := panics
  refine ⟨w, .newChunk rest ?_ (isFlag.imp And.left And.left) isCount fewer whole begins isReplies less
    narrow, wide⟩
  simp only [List.forall_mem_cons]
  exact ⟨⟨_, isReplica⟩, ⟨_, isOp⟩, ⟨_, isIndex⟩, List.forall_mem_nil _⟩

theorem ResultAt.panics {w : Text} (isResult : ResultAt ws w) (wide : Wide w) : frame.Panics ws := by
  unfold frame
  rw [panics_word]
  cases isResult with
  | executed rest numeric =>
      simp only [List.forall_mem_cons] at numeric
      obtain ⟨⟨_, isView⟩, ⟨_, isClient⟩, ⟨_, isSession⟩, ⟨_, isRequest⟩, _⟩ := numeric
      refine ⟨_, _, rfl, ?_⟩
      rw [String.ofList_toList]
      simp only [body, panics_num, panics_map, panics_result]
      exact ⟨_, _, _, rfl, isView, _, _, _, rfl, isClient, _, _, _, rfl, isSession, _, _, _, rfl,
        isRequest, w, rest, rfl, wide⟩
  | queried rest numeric =>
      simp only [List.forall_mem_cons] at numeric
      obtain ⟨⟨_, isView⟩, ⟨_, isClient⟩, ⟨_, isQuery⟩, _⟩ := numeric
      refine ⟨_, _, rfl, ?_⟩
      rw [String.ofList_toList]
      simp only [body, panics_num, panics_map, panics_result]
      exact ⟨_, _, _, rfl, isView, _, _, _, rfl, isClient, _, _, _, rfl, isQuery, w, rest, rfl, wide⟩
  | newChunk rest numeric isFlag isCount fewer whole begins isReplies less narrow =>
      simp only [List.forall_mem_cons] at numeric
      obtain ⟨⟨_, isReplica⟩, ⟨_, isOp⟩, ⟨_, isIndex⟩, _⟩ := numeric
      refine ⟨_, _, rfl, ?_⟩
      rw [String.ofList_toList]
      simp only [body, panics_num, panics_map, panics_flag, panics_chunk, panics_record]
      obtain ⟨last, isFlag⟩ : ∃ last, (_ = "0".toList ∧ last = false) ∨ (_ = "1".toList ∧ last = true) :=
        isFlag.elim (fun zero => ⟨false, .inl ⟨zero, rfl⟩⟩) fun one => ⟨true, .inr ⟨one, rfl⟩⟩
      exact ⟨_, _, _, rfl, isReplica, _, _, _, rfl, isOp, _, _, _, rfl, isIndex, _, last, _, rfl, isFlag,
        _, _, _, _, rfl, isCount, fewer, whole, _, _, _, _, _, _, _, w, rest, rfl, begins, isReplies, less,
        narrow, wide⟩

/-- Decoding panics where a word taken as a result is wide. -/
theorem panics_frame : frame.Panics ws ↔ ∃ w, ResultAt ws w ∧ Wide w := by
  constructor
  · unfold frame
    rw [panics_word]
    rintro ⟨kind, rest, rfl, panics⟩
    by_cases executed : String.ofList kind = "EXECUTED"
    · rw [executed] at panics
      exact ofList_eq.mp executed ▸ panics_executed panics
    by_cases queried : String.ofList kind = "QUERIED"
    · rw [queried] at panics
      exact ofList_eq.mp queried ▸ panics_queried panics
    by_cases newChunk : String.ofList kind = "NEWCHUNK"
    · rw [newChunk] at panics
      exact ofList_eq.mp newChunk ▸ panics_newChunk panics
    · exact absurd panics (calm_body executed queried newChunk rest)
  · rintro ⟨w, isResult, wide⟩
    exact isResult.panics wide

/-- Decoding a line panics on a wide word taken as a result, and on nothing else;
decoding an entry of the journal never panics. -/
theorem decode_panics (line text : Text) :
    (decode line ≠ none ↔ ∀ w, ResultAt (words line) w → ¬Wide w) ∧ decodeEntry text ≠ none := by
  refine ⟨?_, decodeEntry_calm text⟩
  have panics : decode line = none ↔ frame.Panics (words line) := Option.map_eq_none_iff
  rw [ne_eq, panics, panics_frame, not_exists]
  simp only [not_and]

/-- The reply of a write whose result is a letter of two bytes, without its sign. -/
theorem decode_wide : ¬∀ line, decode line ≠ none := by
  intro never
  exact never "EXECUTED 0 1 2 3 é".toList rfl

end Vsr.Kvstore
