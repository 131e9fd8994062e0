import Vsr.Kvstore.Tables
import Vsr.Pieces

/-!
# The chunks of a checkpoint

A kept checkpoint comes in chunks that depend on the snapshot and the index alone,
whatever was asked for before, that hold every key once, and that restore what the
snapshot held.
-/

set_option autoImplicit false

namespace Vsr.Kvstore

open Journal (Text pushNumber)
open Std (ExtTreeMap)

/-! ## Where scans stop -/

theorem scanFrom_split (bytes : Nat) (pairs : List (Text × Text)) :
    ∃ rest, pairs = (scanFrom bytes pairs).1 ++ rest ∧
      (scanFrom bytes pairs).2 = rest.head?.map Prod.fst := by
  induction pairs generalizing bytes with
  | nil => exact ⟨[], rfl, rfl⟩
  | cons pair rest ih =>
      unfold scanFrom
      split
      · exact ⟨pair :: rest, rfl, rfl⟩
      · obtain ⟨left, split, next⟩ := ih (bytes + pairBytes pair)
        exact ⟨left, congrArg (List.cons pair) split, next⟩

/-- A chunk takes as many pairs as a scan does, one at least. -/
def chunkCut : Cut (Text × Text) where
  length pairs := (scanFrom 0 pairs).1.length
  pos := by
    intro pairs some
    cases pairs with
    | nil => exact absurd rfl some
    | cons pair rest => exact Nat.succ_pos _

theorem scanFrom_eq (pairs : List (Text × Text)) :
    scanFrom 0 pairs = (pairs.take (chunkCut.length pairs),
      (pairs.drop (chunkCut.length pairs)).head?.map Prod.fst) := by
  obtain ⟨rest, split, next⟩ := scanFrom_split 0 pairs
  have isTaken : pairs.take (chunkCut.length pairs) = (scanFrom 0 pairs).1 := by
    show pairs.take (scanFrom 0 pairs).1.length = _
    conv_lhs => arg 2; rw [split]
    exact List.take_left
  have isLeft : pairs.drop (chunkCut.length pairs) = rest := by
    show pairs.drop (scanFrom 0 pairs).1.length = _
    conv_lhs => arg 2; rw [split]
    exact List.drop_left
  rw [isTaken, isLeft, ← next]

namespace ChunkReader

variable {reader : ChunkReader} {index : Nat} {start : Text}

def pairs (reader : ChunkReader) : List (Text × Text) := (reader.snapshot reader.keyspace).toList

/-- The key chunk `index` starts at. -/
def startAt (reader : ChunkReader) (index : Nat) : Option Text :=
  if index = 0 then some [] else (chunkCut.left reader.pairs index).head?.map Prod.fst

theorem pairs_sorted (reader : ChunkReader) :
    reader.pairs.Pairwise fun a b => compareKeys a.1 b.1 = .lt :=
  ExtTreeMap.ordered_keys_toList

/-- The pairs from a key of a sorted list on. -/
theorem filter_from {before after : List (Text × Text)} {first : Text × Text}
    (sorted : (before ++ first :: after).Pairwise fun a b => compareKeys a.1 b.1 = .lt) :
    (before ++ first :: after).filter (fun pair => (compareKeys first.1 pair.1).isLE) =
      first :: after := by
  obtain ⟨_, later, apart⟩ := List.pairwise_append.mp sorted
  obtain ⟨above, _⟩ := List.pairwise_cons.mp later
  have below : before.filter (fun pair => (compareKeys first.1 pair.1).isLE) = [] := by
    refine List.filter_eq_nil_iff.mpr fun pair mem => ?_
    have lt := apart pair mem first List.mem_cons_self
    rw [Std.OrientedCmp.gt_of_lt lt]
    simp
  have from_ : (first :: after).filter (fun pair => (compareKeys first.1 pair.1).isLE) =
      first :: after := by
    refine List.filter_eq_self.mpr fun pair mem => ?_
    rcases List.mem_cons.mp mem with rfl | mem
    · have same : compareKeys pair.1 pair.1 = .eq := Std.ReflCmp.compare_self
      rw [same]
      rfl
    · rw [above pair mem]
      rfl
  rw [List.filter_append, below, from_, List.nil_append]

theorem range_startAt (isStart : reader.startAt index = some start) :
    reader.range start = chunkCut.left reader.pairs index := by
  unfold startAt at isStart
  split at isStart
  · next zero =>
    subst zero
    cases isStart
    refine List.filter_eq_self.mpr fun pair _ => ?_
    show (compare (utf8 []) (utf8 pair.1)).isLE = true
    cases utf8 pair.1 <;> rfl
  · obtain ⟨first, isFirst, rfl⟩ := Option.map_eq_some_iff.mp isStart
    obtain ⟨after, isLeft⟩ := List.head?_eq_some_iff.mp isFirst
    have split := chunkCut.flatMap_pieces reader.pairs index
    have sorted := reader.pairs_sorted
    rw [isLeft] at split ⊢
    rw [← split] at sorted
    show reader.pairs.filter _ = _
    rw [← split]
    exact filter_from sorted

/-- A chunk is the piece at its index, and the next one starts where it stops. -/
theorem scan_startAt (isStart : reader.startAt index = some start) :
    reader.scan start = (chunkCut.piece reader.pairs index, reader.startAt (index + 1)) := by
  unfold scan
  rw [range_startAt isStart, scanFrom_eq]
  rfl

theorem startAt_eq_none (later : index ≠ 0) :
    reader.startAt index = none ↔ chunkCut.left reader.pairs index = [] := by
  unfold startAt
  rw [if_neg later, Option.map_eq_none_iff, List.head?_eq_none_iff]

theorem startAt_none_of_le {later : Nat} (pos : index ≠ 0) (past : reader.startAt index = none)
    (le : index ≤ later) : reader.startAt later = none :=
  (startAt_eq_none (by omega)).mpr (chunkCut.left_of_nil ((startAt_eq_none pos).mp past) le)

theorem startAt_succ_isNone :
    (reader.startAt (index + 1)).isNone = decide (chunkCut.last reader.pairs ≤ index) := by
  rw [Bool.eq_iff_iff, Option.isNone_iff_eq_none, startAt_eq_none (Nat.succ_ne_zero index),
    chunkCut.left_succ_eq_nil, decide_eq_true_iff]

end ChunkReader

/-! ## The memo of the starts -/

/-- The starts known are those of the first chunks. -/
def Starts (reader : ChunkReader) (starts : List Text) : Prop :=
  starts ≠ [] ∧ ∀ index < starts.length, starts[index]? = reader.startAt index

/-- What a kept checkpoint remembers is so. -/
structure Kept.Sound (kept : Kept) (reader : ChunkReader) : Prop where
  isReader : kept.reader = reader
  starts : Starts reader kept.starts
  ahead : ∀ read ∈ kept.ahead, reader.startAt read.1 = some read.2

section
variable {reader : ChunkReader} {starts : List Text} {index : Nat}

theorem Starts.snoc (known : Starts reader starts) {next : Text}
    (isNext : reader.startAt starts.length = some next) : Starts reader (starts ++ [next]) := by
  refine ⟨by simp, fun index inside => ?_⟩
  rw [List.length_append, List.length_singleton] at inside
  by_cases old : index < starts.length
  · rw [List.getElem?_append_left old]
    exact known.2 index old
  · obtain rfl : index = starts.length := by omega
    rw [List.getElem?_concat_length, isNext]

/-- The last start known stops where the next chunk starts. -/
theorem Starts.next (known : Starts reader starts) :
    (starts.getLast?.bind fun last => (reader.scan last).2) = reader.startAt starts.length := by
  have some : 0 < starts.length := List.length_pos_of_ne_nil known.1
  have isLast := known.2 (starts.length - 1) (by omega)
  rw [← List.getLast?_eq_getElem?] at isLast
  rw [isLast]
  cases isStart : reader.startAt (starts.length - 1) with
  | none =>
      rw [List.getLast?_eq_getElem?, List.getElem?_eq_getElem (by omega), isStart] at isLast
      cases isLast
  | some last =>
      show (reader.scan last).2 = _
      rw [ChunkReader.scan_startAt isStart, Nat.sub_add_cancel some]

theorem extend_starts (known : Starts reader starts) (missing : Nat) :
    Starts reader (Kept.extend reader starts missing).1 ∧
      starts.length ≤ (Kept.extend reader starts missing).1.length ∧
      if (Kept.extend reader starts missing).2 then
        starts.length + missing = (Kept.extend reader starts missing).1.length
      else
        (Kept.extend reader starts missing).1.length < starts.length + missing ∧
          reader.startAt (Kept.extend reader starts missing).1.length = none := by
  induction missing generalizing starts with
  | zero => exact ⟨known, le_rfl, rfl⟩
  | succ missing ih =>
      unfold Kept.extend
      rw [known.next]
      cases isNext : reader.startAt starts.length with
      | none => exact ⟨known, le_rfl, Nat.lt_add_of_pos_right (Nat.succ_pos missing), isNext⟩
      | some next =>
          obtain ⟨known, longer, length⟩ := ih (known.snoc isNext)
          rw [List.length_append, List.length_singleton] at longer length
          rw [Nat.add_assoc, Nat.add_comm 1] at length
          exact ⟨known, (Nat.le_succ _).trans longer, length⟩

/-- The start of a chunk is the one its index says. -/
theorem Kept.Sound.start {kept : Kept} (sound : kept.Sound reader) (index : Nat) :
    (kept.start index).1.Sound reader ∧ (kept.start index).2 = reader.startAt index := by
  have isReader := sound.isReader
  obtain ⟨known, longer, length⟩ := extend_starts sound.starts (index + 1 - kept.starts.length)
  have some := List.length_pos_of_ne_nil known.1
  rw [← isReader] at known
  refine ⟨⟨isReader, isReader ▸ known, sound.ahead⟩, ?_⟩
  show (if (Kept.extend kept.reader kept.starts (index + 1 - kept.starts.length)).2 then
    (Kept.extend kept.reader kept.starts (index + 1 - kept.starts.length)).1[index]? else none) = _
  rw [isReader] at known ⊢
  split at length
  · next found =>
    rw [if_pos found]
    exact known.2 index (by omega)
  · next notFound =>
    rw [if_neg notFound]
    exact (ChunkReader.startAt_none_of_le some.ne' length.2 (by omega)).symm

theorem takeAhead_some {ahead : List (Nat × Text)} {start : Text}
    (found : (Kept.takeAhead index ahead).1 = some start) : (index, start) ∈ ahead := by
  induction ahead with
  | nil => cases found
  | cons read rest ih =>
      unfold Kept.takeAhead at found
      split at found
      · next isIndex =>
        cases found
        subst isIndex
        exact List.mem_cons_self
      · exact List.mem_cons_of_mem _ (ih found)

theorem takeAhead_sublist (index : Nat) (ahead : List (Nat × Text)) :
    (Kept.takeAhead index ahead).2.Sublist ahead := by
  induction ahead with
  | nil => exact List.Sublist.refl _
  | cons read rest ih =>
      unfold Kept.takeAhead
      split
      · exact List.sublist_cons_self _ _
      · exact ih.cons_cons _

theorem Kept.Sound.readAhead {kept : Kept} (sound : kept.Sound reader) {start : Text}
    (isStart : reader.startAt index = some start) : (kept.readAhead index start).Sound reader := by
  unfold Kept.readAhead
  split
  · exact sound
  · refine ⟨sound.isReader, sound.starts, fun read mem => ?_⟩
    rcases List.mem_append.mp mem with old | new
    · refine sound.ahead read ?_
      split at old
      · exact List.mem_of_mem_tail old
      · exact old
    · rw [List.mem_singleton.mp new]
      exact isStart

/-- The chunk at an index, read from nothing but the snapshot. -/
def ChunkReader.readAt (reader : ChunkReader) (index : Nat) : Option ReadChunk :=
  reader.readFrom (reader.startAt index)

theorem ChunkReader.readAt_next {read : ReadChunk} {next : Text}
    (reads : reader.readAt index = some read) (isNext : read.2 = some next) :
    reader.startAt (index + 1) = some next := by
  unfold readAt at reads
  cases isStart : reader.startAt index with
  | none =>
      rw [isStart] at reads
      cases reads
      cases isNext
  | some start =>
      rw [isStart] at reads
      obtain ⟨chunk, _, rfl⟩ := Option.map_eq_some_iff.mp reads
      rw [← isNext]
      exact congrArg Prod.snd (ChunkReader.scan_startAt isStart).symm

theorem Kept.Sound.locate {kept : Kept} (sound : kept.Sound reader) (index : Nat) :
    (kept.locate index).1.Sound reader ∧ (kept.locate index).2 = reader.startAt index := by
  have left : ({ kept with ahead := (Kept.takeAhead index kept.ahead).2 } : Kept).Sound reader :=
    ⟨sound.isReader, sound.starts, fun read mem =>
      sound.ahead read ((takeAhead_sublist index kept.ahead).mem mem)⟩
  unfold Kept.locate
  split
  · next start rest taken =>
    rw [taken] at left
    have isAhead := sound.ahead _ (takeAhead_some (congrArg Prod.fst taken))
    exact ⟨left, isAhead.symm⟩
  · next rest taken =>
    rw [taken] at left
    exact left.start index

theorem Kept.Sound.goOn {kept : Kept} (sound : kept.Sound reader) {next : Option Text}
    (isNext : ∀ start, next = some start → reader.startAt (index + 1) = some start) :
    (kept.goOn index next).Sound reader := by
  cases next with
  | none => exact sound
  | some start =>
      have isStart := isNext start rfl
      have known : Starts reader
          (if kept.starts.length = index + 1 then kept.starts ++ [start] else kept.starts) := by
        split
        · next isLast =>
          rw [← isLast] at isStart
          exact sound.starts.snoc isStart
        · exact sound.starts
      have noted : ({ kept with starts :=
          if kept.starts.length = index + 1 then kept.starts ++ [start] else kept.starts } :
            Kept).Sound reader := ⟨sound.isReader, known, sound.ahead⟩
      exact noted.readAhead isStart

/-- Whatever was asked for before, a chunk is the one at its index. -/
theorem Kept.Sound.chunk {kept : Kept} (sound : kept.Sound reader) {read : ReadChunk}
    (reads : reader.readAt index = some read) :
    ∃ kept', kept.chunk index = some (kept', read) ∧ kept'.Sound reader := by
  obtain ⟨located, isStart⟩ := sound.locate index
  refine ⟨(kept.locate index).1.goOn index read.2, ?_, ?_⟩
  · unfold Kept.chunk
    dsimp only
    rw [isStart, located.isReader]
    exact congrArg _ reads
  · exact located.goOn fun start isNext => ChunkReader.readAt_next reads isNext

end

/-! ## What a chunk holds -/

/-- The chunk of a run of keys and values. -/
def chunkOf (pairs : List (Text × Text)) : StoreChunk where
  pairs := pairs.filterMap fun pair => (stripPrefix keyPrefix pair.1).map fun name => (name, pair.2)
  clients := pairs.filterMap fun pair =>
    (stripPrefix clientPrefix pair.1).bind fun name => clientAt name pair.2

/-- The keys and values a chunk was read from. -/
def chunkPairs (chunk : StoreChunk) : List (Text × Text) :=
  chunk.clients.map (fun record => (clientKey record.clientId, encodeClient record)) ++
    chunk.pairs.map fun pair => (dataKey pair.1, pair.2)

/-- The chunk of a keyspace at an index. -/
def chunkAt (keyspace : Keyspace) (index : Nat) : StoreChunk :=
  chunkOf (chunkCut.piece keyspace.toList index)

/-- The first index that has the last chunk. -/
def lastChunk (keyspace : Keyspace) : Nat := chunkCut.last keyspace.toList

/-- A pair the store writes. -/
inductive Stored : Text × Text → Prop where
  | value (name value : Text) : Stored (dataKey name, value)
  | client (record : KvClientRecord) (fits : ClientFits record) :
      Stored (clientKey record.clientId, encodeClient record)

theorem Represents.stored {keyspace : Keyspace} {table : Table}
    (represents : Represents keyspace table) {pair : Text × Text} (mem : pair ∈ keyspace.toList) :
    Stored pair := by
  rcases represents.pair_cases mem with ⟨name, isKey, _⟩ | ⟨record, rfl, _, fits⟩
  · rw [show pair = (dataKey name, pair.2) from Prod.ext isKey rfl]
    exact .value name pair.2
  · exact .client record fits

theorem chunkOf_value (name value : Text) (rest : List (Text × Text)) :
    chunkOf ((dataKey name, value) :: rest) =
      { chunkOf rest with pairs := (name, value) :: (chunkOf rest).pairs } := by
  have notClient : stripPrefix clientPrefix (dataKey name) = none := rfl
  simp [chunkOf, stripPrefix_dataKey, notClient]

theorem chunkOf_client {record : KvClientRecord} (fits : ClientFits record)
    (rest : List (Text × Text)) :
    chunkOf ((clientKey record.clientId, encodeClient record) :: rest) =
      { chunkOf rest with clients := record :: (chunkOf rest).clients } := by
  simp [chunkOf, stripPrefix_clientKey, clientAt_encodeClient fits]

theorem foldlM_take {pairs : List (Text × Text)} (stored : ∀ pair ∈ pairs, Stored pair)
    (chunk : StoreChunk) :
    pairs.foldlM StoreChunk.take chunk =
      some
        { pairs := chunk.pairs ++ (chunkOf pairs).pairs
          clients := chunk.clients ++ (chunkOf pairs).clients } := by
  induction pairs generalizing chunk with
  | nil => simp [chunkOf]
  | cons pair rest ih =>
      have later := ih fun other mem => stored other (List.mem_cons_of_mem _ mem)
      rw [List.foldlM_cons]
      cases stored pair List.mem_cons_self with
      | value name value =>
          have taken : chunk.take (dataKey name, value) =
              some { chunk with pairs := chunk.pairs ++ [(name, value)] } := by
            simp [StoreChunk.take, stripPrefix_dataKey]
          rw [taken, Option.bind_eq_bind, Option.bind_some, later, chunkOf_value]
          simp
      | client record fits =>
          have taken : chunk.take (clientKey record.clientId, encodeClient record) =
              some { chunk with clients := chunk.clients ++ [record] } := by
            simp [StoreChunk.take, stripPrefix_clientKey, clientAt_encodeClient fits]
          rw [taken, Option.bind_eq_bind, Option.bind_some, later, chunkOf_client fits]
          simp

/-- Nothing is lost in a chunk, and its clients come before its values. -/
theorem chunkPairs_chunkOf {pairs : List (Text × Text)} (stored : ∀ pair ∈ pairs, Stored pair)
    (sorted : pairs.Pairwise fun a b => compareKeys a.1 b.1 = .lt) :
    chunkPairs (chunkOf pairs) = pairs := by
  induction pairs with
  | nil => rfl
  | cons pair rest ih =>
      obtain ⟨first, sorted⟩ := List.pairwise_cons.mp sorted
      have later := ih (fun other mem => stored other (List.mem_cons_of_mem _ mem)) sorted
      cases stored pair List.mem_cons_self with
      | value name value =>
          -- no client comes after a value
          have noClients : (chunkOf rest).clients = [] := by
            cases isClients : (chunkOf rest).clients with
            | nil => rfl
            | cons record more =>
                have mem : (clientKey record.clientId, encodeClient record) ∈ rest := by
                  rw [← later, chunkPairs, isClients]
                  exact List.mem_cons_self
                have above : compareKeys (dataKey name) (clientKey record.clientId) = .lt := first _ mem
                have below := Std.OrientedCmp.gt_of_lt (clientKey_lt_dataKey record.clientId name)
                rw [below] at above
                cases above
          rw [chunkPairs, noClients] at later
          rw [chunkOf_value, chunkPairs, noClients]
          exact congrArg (List.cons _) later
      | client record fits =>
          rw [chunkOf_client fits]
          exact congrArg (List.cons _) later

section
variable {reader : ChunkReader} {table : Table} {index : Nat}

theorem ChunkReader.mem_piece {pair : Text × Text}
    (mem : pair ∈ chunkCut.piece reader.pairs index) : pair ∈ reader.pairs := by
  have isLeft : chunkCut.left reader.pairs index ⊆ reader.pairs := by
    have split := chunkCut.flatMap_pieces reader.pairs index
    intro pair mem
    rw [← split]
    exact List.mem_append_right _ mem
  exact isLeft (List.mem_of_mem_take mem)

theorem ChunkReader.piece_sorted (reader : ChunkReader) (index : Nat) :
    (chunkCut.piece reader.pairs index).Pairwise fun a b => compareKeys a.1 b.1 = .lt := by
  have sorted := reader.pairs_sorted
  rw [← chunkCut.flatMap_pieces reader.pairs index, ← chunkCut.piece_append_left] at sorted
  exact (List.pairwise_append.mp (List.pairwise_append.mp sorted).2.1).1

variable (represents : Represents (reader.snapshot reader.keyspace) table)
include represents

/-- The chunk read at an index is that of the piece there. -/
theorem ChunkReader.readAt_eq (index : Nat) :
    reader.readAt index =
      some (chunkOf (chunkCut.piece reader.pairs index), reader.startAt (index + 1)) := by
  unfold readAt
  cases isStart : reader.startAt index with
  | none =>
      have later : index ≠ 0 := by
        rintro rfl
        cases isStart
      have nothing := (ChunkReader.startAt_eq_none later).mp isStart
      have past := ChunkReader.startAt_none_of_le later isStart (Nat.le_succ index)
      rw [chunkCut.piece_of_nil nothing, past]
      rfl
  | some start =>
      have stored : ∀ pair ∈ chunkCut.piece reader.pairs index, Stored pair :=
        fun pair mem => represents.stored (ChunkReader.mem_piece mem)
      show ((reader.scan start).1.foldlM StoreChunk.take _).map
        (fun chunk => (chunk, (reader.scan start).2)) = _
      rw [ChunkReader.scan_startAt isStart, foldlM_take stored]
      rfl

/-- The chunks, up to the last, hold the keys of the snapshot in order. -/
theorem ChunkReader.flatMap_chunkPairs :
    ((List.range (chunkCut.last reader.pairs + 1)).flatMap fun index =>
      chunkPairs (chunkOf (chunkCut.piece reader.pairs index))) = reader.pairs := by
  refine (List.flatMap_congr fun index _ => ?_).trans (chunkCut.pieces_eq reader.pairs)
  exact chunkPairs_chunkOf (fun pair mem => represents.stored (ChunkReader.mem_piece mem))
    (reader.piece_sorted index)

end

/-! ## Serving a checkpoint -/

/-- What a store answers to requests for chunks. -/
def Store.serve (store : Store) : List Nat → Option (List (StoreChunk × Bool))
  | [] => some []
  | index :: rest => do
      let (store, chunk, last) ← store.checkpointChunk index
      let served ← store.serve rest
      some ((chunk, last) :: served)

theorem Store.serve_eq {store : Store} {kept : Kept} {reader : ChunkReader} {table : Table}
    (keeps : store.kept = some kept) (sound : kept.Sound reader)
    (represents : Represents (reader.snapshot reader.keyspace) table) (requests : List Nat) :
    store.serve requests = some (requests.map fun index =>
      (chunkOf (chunkCut.piece reader.pairs index), decide (chunkCut.last reader.pairs ≤ index))) := by
  induction requests generalizing store kept with
  | nil => rfl
  | cons index rest ih =>
      obtain ⟨kept', served, sound'⟩ := sound.chunk (ChunkReader.readAt_eq represents index)
      have answers : store.checkpointChunk index = some ({ store with kept := some kept' },
          chunkOf (chunkCut.piece reader.pairs index),
          decide (chunkCut.last reader.pairs ≤ index)) := by
        unfold checkpointChunk
        rw [keeps, ← ChunkReader.startAt_succ_isNone]
        show (kept.chunk index).bind _ = _
        rw [served]
        rfl
      unfold serve
      rw [answers]
      show (Store.serve _ rest).bind _ = _
      rw [ih rfl sound']
      rfl

theorem Kept.sound_new (reader : ChunkReader) : (Kept.new reader).Sound reader where
  isReader := rfl
  starts := by
    refine ⟨by simp [Kept.new], fun index inside => ?_⟩
    obtain rfl : index = 0 := Nat.lt_one_iff.mp inside
    rfl
  ahead _ mem := by cases mem

/-! ## Restoring a checkpoint -/

/-- Stages chunks, the first of `chunks` at `index`. -/
def Store.stageAll (opNumber : Nat) : Nat → List StoreChunk → Store → Option Store
  | _, [], store => some store
  | index, chunk :: rest, store => do
      let store ← store.stageChunk opNumber index chunk
      stageAll opNumber (index + 1) rest store

namespace Store

variable {store : Store} {opNumber : Nat}

/-- What staging leaves alone, and the keyspace it makes. -/
structure Staging (store staged : Store) (opNumber : Nat) (keyspace : Keyspace) : Prop where
  current : staged.current = store.current
  kept : staged.kept = store.kept
  flushing : staged.flushing = store.flushing
  isStaged : staged.staged = some opNumber
  keyspace : staged.db.live (.data (1 - store.current)) = keyspace

theorem stageChunk_first (store : Store) (opNumber : Nat) (chunk : StoreChunk) :
    ∃ staged, store.stageChunk opNumber 0 chunk = some staged ∧
      Staging store staged opNumber (changes ∅ (chunkChanges chunk)) := by
  refine ⟨_, require_of rfl, rfl, rfl, rfl, rfl, ?_⟩
  show Batches.live Image ((store.db.commit [.clear (.data (1 - store.current))]).commit
    (chunkBatch (1 - store.current) chunk)) (.data (1 - store.current)) = _
  rw [Batches.live_commit, chunkBatch_changes, Batches.live_commit,
    commit_self (by simp [Write.keyspace])]
  rfl

theorem stageChunk_next {start : Store} {keyspace : Keyspace}
    (staging : Staging start store opNumber keyspace) {index : Nat} (later : index ≠ 0)
    (chunk : StoreChunk) :
    ∃ staged, store.stageChunk opNumber index chunk = some staged ∧
      Staging start staged opNumber (changes keyspace (chunkChanges chunk)) := by
  unfold stageChunk
  dsimp only
  rw [if_neg later]
  refine ⟨_, require_of staging.isStaged, staging.current, staging.kept, staging.flushing,
    staging.isStaged, ?_⟩
  show Batches.live Image (store.db.commit (chunkBatch (1 - store.current) chunk))
    (.data (1 - start.current)) = _
  rw [Batches.live_commit, ← staging.current, chunkBatch_changes, staging.current]
  exact congrArg (fun keyspace => changes keyspace (chunkChanges chunk)) staging.keyspace

theorem stageAll_next {start : Store} {keyspace : Keyspace}
    (staging : Staging start store opNumber keyspace) {index : Nat} (later : index ≠ 0)
    (chunks : List StoreChunk) :
    ∃ staged, stageAll opNumber index chunks store = some staged ∧
      Staging start staged opNumber (changes keyspace (chunks.flatMap chunkChanges)) := by
  induction chunks generalizing store keyspace index with
  | nil => exact ⟨store, rfl, staging⟩
  | cons chunk rest ih =>
      obtain ⟨next, isNext, staging⟩ := stageChunk_next staging later chunk
      obtain ⟨staged, isStaged, staging⟩ := ih staging (Nat.succ_ne_zero index)
      refine ⟨staged, ?_, ?_⟩
      · unfold stageAll
        rw [isNext]
        exact isStaged
      · rw [List.flatMap_cons, changes, List.foldl_append]
        exact staging

/-- Chunks staged from the first on make the staging keyspace theirs. -/
theorem stageAll_eq (store : Store) (opNumber : Nat) {chunks : List StoreChunk} (some : chunks ≠ []) :
    ∃ staged, stageAll opNumber 0 chunks store = .some staged ∧
      Staging store staged opNumber (changes ∅ (chunks.flatMap chunkChanges)) := by
  cases chunks with
  | nil => exact absurd rfl some
  | cons chunk rest =>
      obtain ⟨next, isNext, staging⟩ := store.stageChunk_first opNumber chunk
      obtain ⟨staged, isStaged, staging⟩ := stageAll_next staging (Nat.succ_ne_zero 0) rest
      refine ⟨staged, ?_, ?_⟩
      · unfold stageAll
        rw [isNext]
        exact isStaged
      · rw [List.flatMap_cons, changes, List.foldl_append]
        exact staging

theorem flushWrites_staging (store : Store) :
    store.flushWrites.db.live (.data (1 - store.current)) =
      store.db.live (.data (1 - store.current)) := by
  cases out : store.flushing with
  | none => rw [flushWrites_none out]
  | some flushing =>
      by_cases isStarted : flushing.landing = .started
      · have different : 1 - store.current ≠ flushing.data := by
          rw [store.flushes flushing out]
          exact other_ne store.current
        rw [(flushWrites_started out isStarted).1]
        exact (congrFun (Batches.live_commit _ _) _).trans (writeBatch_other different)
      · rw [flushWrites_later out isStarted]

theorem flushLands_live (store : Store) : store.flushLands.db.live = store.db.live := by
  unfold flushLands
  split
  · split <;> rfl
  · rfl

theorem takeLanded_db (store : Store) : store.takeLanded.1.db = store.db := by
  unfold takeLanded
  split
  · split <;> rfl
  · rfl

/-- A flush leaves the staging keyspace alone. -/
theorem finishFlush_staging (store : Store) :
    store.finishFlush.1.db.live (.data (1 - store.current)) =
      store.db.live (.data (1 - store.current)) := by
  show store.flushWrites.flushLands.takeLanded.1.db.live _ = _
  rw [takeLanded_db, flushLands_live, flushWrites_staging]

/-- A store restored reads what was staged, and nothing over it. -/
theorem restore_staged (isStaged : store.staged = some opNumber) (keeps : store.kept = none) :
    ∃ restored, store.restore opNumber = some restored ∧ restored.overlay = [Writes.empty] ∧
      restored.db.live (.data restored.current) = store.db.live (.data (1 - store.current)) := by
  have isCurrent := store.finishFlush_beside.current
  unfold restore
  rw [require_of isStaged, require_of (by rw [keeps]; rfl)]
  refine ⟨_, rfl, ?_, ?_⟩
  · simp [overlay, finishFlush_flushing]
  · show Batches.live Image (Batches.commit (makeDurable store.finishFlush.1.db _) _)
      (.data (1 - store.finishFlush.1.current)) = _
    rw [isCurrent, Batches.live_commit, commit_other, makeDurable, Batches.live_sync,
      Batches.live_commit, commit_other]
    · exact store.finishFlush_staging
    · simp [Write.keyspace]
    · simp [Write.keyspace, (other_ne store.current).symm]

end Store

theorem chunkChanges_perm (chunk : StoreChunk) :
    (chunkChanges chunk).Perm ((chunkPairs chunk).map fun pair => (pair.1, some pair.2)) := by
  unfold chunkChanges chunkPairs
  rw [List.map_append, List.map_map, List.map_map]
  exact List.perm_append_comm

/-- The chunks of a keyspace, staged, are the keyspace. -/
theorem flatMap_chunkChanges {chunks : List StoreChunk} {keyspace : Keyspace}
    (all : chunks.flatMap chunkPairs = keyspace.toList) :
    changes ∅ (chunks.flatMap chunkChanges) = keyspace := by
  refine changes_empty_of_perm ?_
  rw [← all, List.map_flatMap]
  exact List.Perm.flatMap_left _ fun chunk _ => chunkChanges_perm chunk

/-- Chunks of a checkpoint are those of its keyspace, whatever is asked for in which
order; up to the first one said to be the last they hold each key once and in order,
and another store that restores them holds what the keyspace holds. -/
theorem Store.checkpoint_chunks {store keeping : Store} {applied : Nat} {keyspace : Keyspace}
    {table : Table} (isKeyspace : store.db.live (.data store.current) = keyspace)
    (represents : Represents keyspace table)
    (checkpoint : store.checkpoint = some (keeping, applied)) :
    (∀ requests, keeping.serve requests = some (requests.map fun index =>
      (chunkAt keyspace index, decide (lastChunk keyspace ≤ index)))) ∧
    ((List.range (lastChunk keyspace + 1)).flatMap fun index =>
      chunkPairs (chunkAt keyspace index)) = keyspace.toList ∧
    (∀ index < lastChunk keyspace, chunkPairs (chunkAt keyspace index) ≠ []) ∧
    (∀ index, lastChunk keyspace < index →
      chunkAt keyspace index = { pairs := [], clients := [] }) ∧
    ∀ (other : Store) (opNumber : Nat), other.kept = none →
      ∃ staged restored,
        stageAll opNumber 0 ((List.range (lastChunk keyspace + 1)).map (chunkAt keyspace)) other =
          some staged ∧
        staged.restore opNumber = some restored ∧
        restored.pairs = table.values.toList ∧
        restored.clientTable = some table.clients.values ∧
        ∀ key, restored.get key = table.values[key]? := by
  subst isKeyspace
  obtain ⟨_, _, isKeeping⟩ := Option.bind_eq_some_iff.mp checkpoint
  cases isKeeping
  let reader : ChunkReader := { snapshot := store.db.live, keyspace := .data store.current }
  have represented : Represents (reader.snapshot reader.keyspace) table := represents
  have all := ChunkReader.flatMap_chunkPairs represented
  refine ⟨Store.serve_eq rfl (Kept.sound_new reader) represented, all, ?_, ?_, ?_⟩
  · intro index before none
    have stored : ∀ pair ∈ chunkCut.piece reader.pairs index, Stored pair :=
      fun pair mem => represents.stored (ChunkReader.mem_piece mem)
    have isPiece := chunkPairs_chunkOf stored (reader.piece_sorted index)
    exact chunkCut.piece_before_last before (isPiece.symm.trans none)
  · intro index after
    have isPiece : chunkCut.piece reader.pairs index = [] := chunkCut.piece_after_last after
    exact congrArg chunkOf isPiece
  · intro other opNumber keepsNone
    have some : (List.range (chunkCut.last reader.pairs + 1)).map
        (fun index => chunkOf (chunkCut.piece reader.pairs index)) ≠ [] := by simp
    obtain ⟨staged, isStaged, staging⟩ := other.stageAll_eq opNumber some
    obtain ⟨restored, isRestored, nothingOver, held⟩ :=
      restore_staged staging.isStaged (staging.kept.trans keepsNone)
    have isKeyspace : restored.db.live (.data restored.current) =
        store.db.live (.data store.current) := by
      rw [held, staging.current, staging.keyspace]
      refine flatMap_chunkChanges ?_
      rw [List.flatMap_map]
      exact all
    have isTable : restored.view table = table := by
      rw [view, nothingOver]
      exact Table.write_empty table
    rw [← isKeyspace] at represents
    refine ⟨staged, restored, isStaged, isRestored, ?_, ?_, fun key => ?_⟩
    · rw [pairs_eq represents, isTable]
    · rw [clientTable_eq represents, isTable]
    · rw [get_eq represents, isTable]

/-- A store that persisted a key. -/
def Store.persisted : Store := (new.apply 1 (.put "a".toList "1".toList)).1.persist

theorem Store.persisted_live (keyspace : KeyspaceId) : persisted.db.live keyspace =
    Commits.commit (Commits.empty : Image)
      (writeBatch 0 ⟨(∅ : Keyspace).insert "a".toList "1".toList, ∅⟩ 1) keyspace := rfl

theorem Store.checkpoint_chunks_persisted : ∃ keeping,
    persisted.checkpoint = some (keeping, 1) ∧ ∀ requests, keeping.serve requests =
      some (requests.map fun index => (chunkAt (persisted.db.live (.data 0)) index,
        decide (lastChunk (persisted.db.live (.data 0)) ≤ index))) := by
  have represents : Represents (persisted.db.live (.data 0))
      (Table.empty.write ⟨(∅ : Keyspace).insert "a".toList "1".toList, ∅⟩) := by
    rw [persisted_live]
    exact writeBatch_represents Represents.empty (fun client mem => by cases mem)
  have applied : persisted.db.live.applied = some 1 := by
    unfold Image.applied Image.counter
    rw [persisted_live, writeBatch_metadata, ExtTreeMap.getElem?_insert_self]
    have small : Small 1 := by
      unfold Small
      decide
    exact parse_pushNumber small
  have checkpoint : persisted.checkpoint = some
      ({ persisted with kept := some (.new { snapshot := persisted.db.live, keyspace := .data 0 }) },
        1) := by
    simp only [checkpoint, applied]
    rfl
  exact ⟨_, checkpoint, (checkpoint_chunks rfl represents checkpoint).1⟩

end Vsr.Kvstore
