import Vsr.Journal.Model

/-!
# A replay is the fold of the writes

The entries a state retains each lie in the file of the write that wrote them
last.  Whatever records of older files are missing, a replay finds these entries,
and the runs of a journal name their files.
-/

set_option autoImplicit false

namespace Vsr.Journal

variable {Op : Type}

/-! ## The files of the retained entries -/

/-- The files of the entries left of `origins`, the files of a log that starts at
`logStart`, after `write` landed in `file`. -/
def placed (logStart : Nat) (origins : List Nat) (write : LogWrite Op) (file : Nat) : List Nat :=
  (origins.drop (write.logStart - logStart)).take (write.entriesFrom - write.logStart - 1) ++
    List.replicate write.entries.length file

/-- The writes appended to a journal, each with its file, bring the empty state to
`state`, whose entries lie in the files `origins`. -/
inductive Appended : List (Nat × LogWrite Op) → PersistentState Op → List Nat → Prop
  | nil : Appended [] .empty []
  | snoc {writes : List (Nat × LogWrite Op)} {state state' : PersistentState Op}
      {origins : List Nat} {write : LogWrite Op} {file : Nat} (before : Appended writes state origins)
      (applies : state.apply write = some state') (later : state.logStart ≤ write.logStart)
      (ends : write.opNumber = state'.logStart + state'.log.length)
      (newer : ∀ earlier ∈ writes, earlier.1 ≤ file) :
      Appended (writes ++ [(file, write)]) state' (placed state.logStart origins write file)

/-- What a write makes of a state whose log starts no later than the write's. -/
theorem apply_cases {state state' : PersistentState Op} {write : LogWrite Op}
    (later : state.logStart ≤ write.logStart) (applies : state.apply write = some state') :
    write.logStart < write.entriesFrom ∧
      write.entriesFrom - write.logStart - 1 ≤
        (state.log.drop (write.logStart - state.logStart)).length ∧
      state' =
        { viewNumber := write.viewNumber
          lastNormalView := write.lastNormalView
          commitNumber := write.commitNumber
          logStart := write.logStart
          log := (state.log.drop (write.logStart - state.logStart)).take
            (write.entriesFrom - write.logStart - 1) ++ write.entries
          recovering := write.recovering } := by
  have compacted : state.compactTo write.logStart =
      { state with
        log := state.log.drop (write.logStart - state.logStart), logStart := write.logStart } := by
    unfold PersistentState.compactTo
    by_cases past : write.logStart > state.logStart
    · rw [if_pos past]
      have dropped : state.log.drop (min (write.logStart - state.logStart) state.log.length) =
          state.log.drop (write.logStart - state.logStart) := by
        rcases Nat.le_total (write.logStart - state.logStart) state.log.length with le | le
        · rw [Nat.min_eq_left le]
        · rw [Nat.min_eq_right le, List.drop_length, List.drop_eq_nil_of_le le]
      simp only [dropped]
    · have same : write.logStart = state.logStart := by omega
      rw [if_neg past, same]
      simp
  unfold PersistentState.apply at applies
  rw [compacted] at applies
  obtain ⟨⟨first, last⟩, isState⟩ := require_eq_some.mp applies
  cases isState
  dsimp only at first last
  exact ⟨by omega, by omega, rfl⟩

theorem Appended.of_nil {writes : List (Nat × LogWrite Op)} {state : PersistentState Op}
    {origins : List Nat} (appended : Appended writes state origins) (none : writes = []) :
    state = .empty ∧ origins = [] := by
  cases appended with
  | nil => exact ⟨rfl, rfl⟩
  | snoc => simp at none

namespace Appended

variable {writes : List (Nat × LogWrite Op)} {state : PersistentState Op} {origins : List Nat}

theorem length (appended : Appended writes state origins) : origins.length = state.log.length := by
  induction appended with
  | nil => rfl
  | snoc _ applies later _ _ ih =>
      obtain ⟨_, _, isState⟩ := apply_cases later applies
      rw [isState]
      simp [placed, ih]

/-- Later entries lie in files no older, and all in files that were written. -/
theorem sorted (appended : Appended writes state origins) :
    origins.Pairwise (· ≤ ·) ∧ ∀ file ∈ origins, ∃ write ∈ writes, write.1 = file := by
  induction appended with
  | nil => exact ⟨.nil, fun file mem => by cases mem⟩
  | @snoc writes _ _ origins write file _ _ _ _ newer ih =>
      obtain ⟨sorted, written⟩ := ih
      have kept : ∀ {n k : Nat} (o : Nat), o ∈ (origins.drop n).take k → o ∈ origins :=
        fun o mem => List.mem_of_mem_drop (List.mem_of_mem_take mem)
      unfold placed
      refine ⟨List.pairwise_append.mpr ⟨sorted.drop.take, ?_, ?_⟩, fun o mem => ?_⟩
      · exact List.pairwise_replicate.mpr (.inr le_rfl)
      · intro o mem o' isNew
        obtain ⟨earlier, isEarlier, rfl⟩ := written o (kept o mem)
        rw [List.eq_of_mem_replicate isNew]
        exact newer earlier isEarlier
      · rcases List.mem_append.mp mem with before | isNew
        · obtain ⟨earlier, isEarlier, isFile⟩ := written o (kept o before)
          exact ⟨earlier, List.mem_append_left _ isEarlier, isFile⟩
        · rw [List.eq_of_mem_replicate isNew]
          exact ⟨_, List.mem_append_right _ (List.mem_singleton_self _), rfl⟩

end Appended

/-- The counters of a state are those of the last write. -/
theorem Appended.last {writes : List (Nat × LogWrite Op)} {state : PersistentState Op}
    {origins : List Nat} {file : Nat} {write : LogWrite Op}
    (appended : Appended writes state origins) (isLast : writes.getLast? = some (file, write)) :
    state =
      { viewNumber := write.viewNumber
        lastNormalView := write.lastNormalView
        commitNumber := write.commitNumber
        logStart := write.logStart
        log := state.log
        recovering := write.recovering } ∧ write.opNumber = state.logStart + state.log.length := by
  cases appended with
  | nil => cases isLast
  | snoc before applies later ends newer =>
      rw [List.getLast?_append_of_ne_nil _ (by simp)] at isLast
      cases isLast
      obtain ⟨_, _, isState⟩ := apply_cases later applies
      exact ⟨by rw [isState], ends⟩

/-- The file of an entry that a write keeps, or brings. -/
theorem placed_getElem? {logStart : Nat} {origins : List Nat} {write : LogWrite Op} {file i : Nat}
    (within : write.entriesFrom - write.logStart - 1 ≤
      (origins.drop (write.logStart - logStart)).length) :
    (placed logStart origins write file)[i]? =
      if i < write.entriesFrom - write.logStart - 1 then origins[write.logStart - logStart + i]?
      else if i < write.entriesFrom - write.logStart - 1 + write.entries.length then some file
      else none := by
  unfold placed
  have length : ((origins.drop (write.logStart - logStart)).take
      (write.entriesFrom - write.logStart - 1)).length = write.entriesFrom - write.logStart - 1 := by
    rw [List.length_take]
    omega
  split
  · next kept =>
    rw [List.getElem?_append_left (by omega), List.getElem?_take, if_pos kept, List.getElem?_drop]
  · next new =>
    rw [List.getElem?_append_right (by omega), length, List.getElem?_replicate]
    split
    · next inside => rw [if_pos (by omega)]
    · next outside => rw [if_neg (by omega)]

/-! ## The entries a replay finds -/

theorem numbered_getElem? (opNumber i : Nat) (entries : List (LogEntry Op)) :
    (numbered opNumber entries)[i]? = entries[i]?.map fun entry => (opNumber + i, entry) := by
  induction entries generalizing opNumber i with
  | nil => simp [numbered]
  | cons entry rest ih =>
      cases i with
      | zero => simp [numbered]
      | succ i =>
          rw [numbered, List.getElem?_cons_succ, List.getElem?_cons_succ, ih]
          congr 2
          funext entry
          rw [Nat.add_right_comm, Nat.add_assoc]

theorem mem_numbered {opNumber op : Nat} {entries : List (LogEntry Op)} {entry : LogEntry Op} :
    (op, entry) ∈ numbered opNumber entries ↔
      opNumber ≤ op ∧ entries[op - opNumber]? = some entry := by
  rw [List.mem_iff_getElem?]
  simp only [numbered_getElem?, Option.map_eq_some_iff, Prod.mk.injEq]
  constructor
  · rintro ⟨i, found, isEntry, rfl, rfl⟩
    exact ⟨by omega, by simpa using isEntry⟩
  · rintro ⟨le, isEntry⟩
    exact ⟨op - opNumber, entry, isEntry, by omega, rfl⟩

/-- Entries put into a map replace those of their op numbers. -/
theorem mem_putAll {file : Nat} {written : List (Nat × LogEntry Op)}
    {entries : OrderedMap (LogEntry Op × Nat)} {op : Nat} {found : LogEntry Op × Nat}
    (nodup : (written.map Prod.fst).Nodup) :
    (op, found) ∈ (written.foldl (fun entries numbered =>
        entries.insert numbered.1 (numbered.2, file)) entries).pairs ↔
      (∃ entry, (op, entry) ∈ written ∧ found = (entry, file)) ∨
        ((op, found) ∈ entries.pairs ∧ op ∉ written.map Prod.fst) := by
  induction written generalizing entries with
  | nil => simp
  | cons head rest ih =>
      obtain ⟨fresh, nodup⟩ := List.nodup_cons.mp nodup
      rw [List.foldl_cons, ih nodup]
      simp only [OrderedMap.mem_insert, List.map_cons, List.mem_cons, Prod.mk.injEq, not_or]
      constructor
      · rintro (⟨entry, mem, isFound⟩ | ⟨⟨isOp, isFound⟩ | ⟨mem, other⟩, notRest⟩)
        · exact .inl ⟨entry, .inr mem, isFound⟩
        · exact .inl ⟨head.2, .inl (by rw [isOp]), isFound⟩
        · exact .inr ⟨mem, other, notRest⟩
      · rintro (⟨entry, isHead | mem, isFound⟩ | ⟨mem, other, notRest⟩)
        · subst isHead
          exact .inr ⟨.inl ⟨rfl, isFound⟩, fresh⟩
        · exact .inl ⟨entry, mem, isFound⟩
        · exact .inr ⟨.inr ⟨mem, other⟩, notRest⟩

theorem numbered_ops (opNumber : Nat) (entries : List (LogEntry Op)) :
    (numbered opNumber entries).map Prod.fst = List.range' opNumber entries.length := by
  induction entries generalizing opNumber with
  | nil => rfl
  | cons entry rest ih => simp [numbered, List.range'_succ, ih]

/-- The replay of writes read back from their records. -/
def replayed (writes : List (Nat × LogWrite Op)) : Replay Op :=
  writes.foldl (fun replay landed => replay.put landed.1
    (numbered landed.2.entriesFrom landed.2.entries) (header landed.2)) ⟨.empty, none⟩

theorem replayFrom_records {codec : EntryCodec Op} (lawful : codec.Lawful)
    (writes : List (Nat × LogWrite Op)) (replay : Replay Op) :
    replayFrom codec replay (writes.map fun landed => (landed.1, record codec landed.2)) =
      .ok (writes.foldl (fun replay landed => replay.put landed.1
        (numbered landed.2.entriesFrom landed.2.entries) (header landed.2)) replay) := by
  induction writes generalizing replay with
  | nil => rfl
  | cons landed rest ih =>
      rw [List.map_cons, replayFrom, readRecord_record lawful]
      exact ih _

/-- The entries of a map after a write is put into it. -/
theorem mem_put {replay : Replay Op} {file op : Nat} {write : LogWrite Op}
    {found : LogEntry Op × Nat} :
    (op, found) ∈ (replay.put file (numbered write.entriesFrom write.entries)
        (header write)).entries.pairs ↔
      (∃ entry, write.entriesFrom ≤ op ∧ write.entries[op - write.entriesFrom]? = some entry ∧
        found = (entry, file)) ∨
      ((op, found) ∈ replay.entries.pairs ∧ write.logStart < op ∧ op < write.entriesFrom) := by
  have nodup : ((numbered write.entriesFrom write.entries).map Prod.fst).Nodup := by
    rw [numbered_ops]
    exact List.nodup_range'
  unfold Replay.put
  rw [mem_putAll nodup, numbered_ops]
  simp only [OrderedMap.mem_before, OrderedMap.mem_splitOff, List.mem_range'_1, mem_numbered]
  constructor
  · rintro (⟨entry, ⟨le, isEntry⟩, isFound⟩ | ⟨⟨⟨mem, first⟩, last⟩, _⟩)
    · exact .inl ⟨entry, le, isEntry, isFound⟩
    · exact .inr ⟨mem, first, last⟩
  · rintro (⟨entry, le, isEntry, isFound⟩ | ⟨mem, first, last⟩)
    · exact .inl ⟨entry, ⟨le, isEntry⟩, isFound⟩
    · exact .inr ⟨⟨⟨mem, first⟩, last⟩, fun within => absurd last (not_lt.mpr within.1)⟩

/-- A replay that misses no record of the files from `bound` on finds every entry
that lies there, with its file. -/
theorem Appended.replayed {writes : List (Nat × LogWrite Op)} {state : PersistentState Op}
    {origins : List Nat} {bound : Nat} (appended : Appended writes state origins)
    (present : Nat → Bool) (needed : ∀ file, bound ≤ file → present file = true) (i file : Nat)
    (isFile : origins[i]? = some file) (recent : bound ≤ file) :
    ∃ entry, state.log[i]? = some entry ∧ (state.logStart + 1 + i, (entry, file)) ∈
      (replayed (writes.filter fun landed => present landed.1)).entries.pairs := by
  induction appended generalizing i file with
  | nil => cases isFile
  | @snoc writes state state' origins write latest before applies later ends newer ih =>
      obtain ⟨past, within, isState⟩ := apply_cases later applies
      have isPresent : present latest = true := by
        obtain ⟨landed, isLanded, same⟩ :=
          (before.snoc applies later ends newer).sorted.2 file (List.mem_of_getElem? isFile)
        refine needed _ (recent.trans ?_)
        rw [← same]
        rcases List.mem_append.mp isLanded with earlier | isNew
        · exact newer landed earlier
        · rw [List.mem_singleton.mp isNew]
      have kept : (writes ++ [(latest, write)]).filter (fun landed => present landed.1) =
          writes.filter (fun landed => present landed.1) ++ [(latest, write)] := by
        simp [List.filter_append, isPresent]
      have put : Journal.replayed (writes.filter (fun landed => present landed.1) ++
            [(latest, write)]) =
          (Journal.replayed (writes.filter fun landed => present landed.1)).put latest
            (numbered write.entriesFrom write.entries) (header write) := by
        simp [Journal.replayed]
      have lengths : ((origins.drop (write.logStart - state.logStart)).length) =
          (state.log.drop (write.logStart - state.logStart)).length := by
        simp [before.length]
      rw [placed_getElem? (by omega)] at isFile
      rw [kept, put, isState]
      dsimp only
      by_cases old : i < write.entriesFrom - write.logStart - 1
      · rw [if_pos old] at isFile
        obtain ⟨entry, isEntry, found⟩ := ih _ file isFile recent
        refine ⟨entry, ?_, mem_put.mpr (.inr ⟨?_, by omega, by omega⟩)⟩
        · rw [List.getElem?_append_left (by rw [List.length_take]; omega), List.getElem?_take,
            if_pos old, List.getElem?_drop]
          exact isEntry
        · have same : state.logStart + 1 + (write.logStart - state.logStart + i) =
              write.logStart + 1 + i := by omega
          rw [← same]
          exact found
      · rw [if_neg old] at isFile
        split at isFile
        · next new =>
          obtain rfl : latest = file := Option.some.inj isFile
          obtain ⟨entry, isEntry⟩ : ∃ entry,
              write.entries[i - (write.entriesFrom - write.logStart - 1)]? = some entry :=
            ⟨_, List.getElem?_eq_getElem (by omega)⟩
          refine ⟨entry, ?_, mem_put.mpr (.inl ⟨entry, by omega, ?_, rfl⟩)⟩
          · rw [List.getElem?_append_right (by rw [List.length_take]; omega), List.length_take,
              Nat.min_eq_left within]
            exact isEntry
          · rw [← isEntry]
            congr 1
            omega
        · cases isFile

/-- A replay that has the record of the last write has its counters. -/
theorem replayed_header {writes : List (Nat × LogWrite Op)} {present : Nat → Bool} {file : Nat}
    {write : LogWrite Op} (isLast : writes.getLast? = some (file, write))
    (isPresent : present file = true) :
    (replayed (writes.filter fun landed => present landed.1)).header =
      some (header write, file) := by
  obtain ⟨rest, rfl⟩ := List.getLast?_eq_some_iff.mp isLast
  simp [replayed, List.filter_append, isPresent, Replay.put]

/-! ## The runs name the files -/

/-- The runs hold the files `origins` of the entries after `logStart`. -/
structure Describes (runs : OrderedMap Nat) (logStart : Nat) (origins : List Nat) : Prop where
  inside : ∀ run ∈ runs.pairs, logStart < run.1 ∧ run.1 ≤ logStart + origins.length
  covers : ∀ i file, origins[i]? = some file →
    ∃ first, runs.atMost? (logStart + 1 + i) = some (first, file)

theorem Describes.nil (logStart : Nat) : Describes .empty logStart [] :=
  ⟨(fun run mem => by cases mem), (fun i file isFile => by cases isFile)⟩

/-- The first run starts at the oldest entry. -/
theorem Describes.first {runs : OrderedMap Nat} {logStart : Nat} {origins : List Nat}
    (describes : Describes runs logStart origins) :
    runs.first? = origins.head?.map fun file => (logStart + 1, file) := by
  cases origins with
  | nil =>
      rw [List.head?_nil, Option.map_none, OrderedMap.first?_eq_none]
      cases shape : runs.pairs with
      | nil => rfl
      | cons run rest =>
          obtain ⟨above, below⟩ := describes.inside run (by rw [shape]; exact List.mem_cons_self)
          rw [List.length_nil] at below
          omega
  | cons file rest =>
      obtain ⟨first, isFirst⟩ := describes.covers 0 file rfl
      obtain ⟨mem, le, _⟩ := OrderedMap.atMost?_eq_some.mp isFirst
      have above := (describes.inside _ mem).1
      obtain rfl : first = logStart + 1 := by
        dsimp only at le above
        omega
      refine OrderedMap.first?_eq_some.mpr ⟨mem, fun run isRun => ?_⟩
      exact (describes.inside run isRun).1

theorem mem_pin {runs : OrderedMap Nat} {write : LogWrite Op} {file : Nat} {run : Nat × Nat} :
    run ∈ (pin runs write file).pairs ↔
      (write.entries ≠ [] ∧ run = (write.entriesFrom, file)) ∨
        (run ∈ runs.pairs ∧ run.1 < write.entriesFrom) := by
  unfold pin
  by_cases none : write.entries = []
  · simp [none]
  · have notEmpty : write.entries.isEmpty = false := by simpa using none
    simp only [notEmpty, Bool.false_eq_true, if_false, OrderedMap.mem_insert,
      OrderedMap.mem_before, ne_eq, none, not_false_eq_true, true_and]
    have : run.1 < write.entriesFrom → run.1 ≠ write.entriesFrom := fun lt => lt.ne
    tauto

/-- Whatever covered an entry retained covers it still. -/
theorem retain_atMost? {runs : OrderedMap Nat} {firstRetained opNumber op first file : Nat}
    (retained : firstRetained ≤ op) (within : op ≤ opNumber)
    (covers : runs.atMost? op = some (first, file)) :
    ∃ first, (retain runs firstRetained opNumber).atMost? op = some (first, file) := by
  obtain ⟨mem, le, most⟩ := OrderedMap.atMost?_eq_some.mp covers
  dsimp only at le most
  unfold retain
  by_cases inside : firstRetained ≤ first
  · -- The run starts among the entries retained.
    refine ⟨first, ?_⟩
    have kept : (first, file) ∈ (runs.splitOff firstRetained).pairs :=
      OrderedMap.mem_splitOff.mpr ⟨mem, inside⟩
    have mostKept : ∀ y ∈ (runs.splitOff firstRetained).pairs, y.1 ≤ op → y.1 ≤ first :=
      fun y isY => most y (OrderedMap.mem_splitOff.mp isY).1
    have same : (runs.splitOff firstRetained).atMost? op = some (first, file) :=
      OrderedMap.atMost?_eq_some.mpr ⟨kept, le, mostKept⟩
    dsimp only
    split
    · next covering isCovering =>
      split
      · split
        · exact same
        · next none =>
          refine OrderedMap.atMost?_eq_some.mpr ⟨OrderedMap.mem_insert.mpr (.inr ⟨kept, ?_⟩), le,
            fun y isY below => ?_⟩
          · exact OrderedMap.get?_eq_none.mp none _ kept
          · rcases OrderedMap.mem_insert.mp isY with isNew | ⟨isY, _⟩
            · rw [isNew]
              exact inside
            · exact mostKept y isY below
      · exact same
    · exact same
  · -- The run started earlier: it starts at the first entry retained now.
    have covering : runs.atMost? firstRetained = some (first, file) :=
      OrderedMap.atMost?_eq_some.mpr ⟨mem, by omega, fun y isY below => most y isY (below.trans retained)⟩
    have noOther : ∀ y ∈ (runs.splitOff firstRetained).pairs, ¬y.1 ≤ op := by
      intro y isY below
      obtain ⟨isRun, above⟩ := OrderedMap.mem_splitOff.mp isY
      have := most y isRun below
      omega
    have none : (runs.splitOff firstRetained).get? firstRetained = none := by
      cases found : (runs.splitOff firstRetained).get? firstRetained with
      | none => rfl
      | some other => exact absurd retained (noOther _ (OrderedMap.get?_eq_some.mp found))
    refine ⟨firstRetained, ?_⟩
    simp only [covering, Option.map_some, ge_iff_le, retained.trans within, if_true, none]
    refine OrderedMap.atMost?_eq_some.mpr ⟨OrderedMap.mem_insert.mpr (.inl rfl), retained,
      fun y isY below => ?_⟩
    rcases OrderedMap.mem_insert.mp isY with isNew | ⟨isY, _⟩
    · rw [isNew]
    · exact absurd below (noOther y isY)

theorem mem_retain {runs : OrderedMap Nat} {firstRetained opNumber : Nat} {run : Nat × Nat}
    (mem : run ∈ (retain runs firstRetained opNumber).pairs) :
    (run ∈ runs.pairs ∧ firstRetained ≤ run.1) ∨ (run.1 = firstRetained ∧ firstRetained ≤ opNumber) := by
  unfold retain at mem
  dsimp only at mem
  split at mem
  · split at mem
    · next within =>
      split at mem
      · exact .inl (OrderedMap.mem_splitOff.mp mem)
      · rcases OrderedMap.mem_insert.mp mem with isNew | ⟨isOld, _⟩
        · exact .inr ⟨congrArg Prod.fst isNew, within⟩
        · exact .inl (OrderedMap.mem_splitOff.mp isOld)
    · exact .inl (OrderedMap.mem_splitOff.mp mem)
  · exact .inl (OrderedMap.mem_splitOff.mp mem)

theorem placed_length {logStart : Nat} {origins : List Nat} {write : LogWrite Op} {file : Nat}
    (within : write.entriesFrom - write.logStart - 1 ≤
      (origins.drop (write.logStart - logStart)).length) :
    (placed logStart origins write file).length =
      write.entriesFrom - write.logStart - 1 + write.entries.length := by
  unfold placed
  rw [List.length_append, List.length_take, List.length_replicate, Nat.min_eq_left within]

/-- The runs go on naming the files when a write lands. -/
theorem Describes.place {runs : OrderedMap Nat} {logStart : Nat} {origins : List Nat}
    {write : LogWrite Op} {file : Nat} (describes : Describes runs logStart origins)
    (later : logStart ≤ write.logStart) (past : write.logStart < write.entriesFrom)
    (within : write.entriesFrom - write.logStart - 1 ≤
      (origins.drop (write.logStart - logStart)).length)
    (ends : write.opNumber + 1 = write.entriesFrom + write.entries.length) :
    Describes (Journal.place runs write file) write.logStart (placed logStart origins write file) where
  inside run mem := by
    rw [placed_length within]
    rcases mem_retain mem with ⟨isRun, above⟩ | ⟨isFirst, some⟩
    · rcases mem_pin.mp isRun with ⟨entries, isNew⟩ | ⟨_, below⟩
      · have := List.length_pos_iff.mpr entries
        rw [isNew]
        exact ⟨past, by dsimp only; omega⟩
      · exact ⟨above, by omega⟩
    · omega
  covers i o isFile := by
    have i_lt : i < write.entriesFrom - write.logStart - 1 + write.entries.length := by
      have length : (placed logStart origins write file).length = _ := placed_length within
      rw [← length]
      exact (List.getElem?_eq_some_iff.mp isFile).1
    rw [placed_getElem? within] at isFile
    have length : origins.length - (write.logStart - logStart) ≥
        write.entriesFrom - write.logStart - 1 := by simpa using within
    obtain ⟨first, covered⟩ : ∃ first,
        (pin runs write file).atMost? (write.logStart + 1 + i) = some (first, o) := by
      by_cases old : i < write.entriesFrom - write.logStart - 1
      · rw [if_pos old] at isFile
        obtain ⟨first, isFirst⟩ := describes.covers _ o isFile
        have same : logStart + 1 + (write.logStart - logStart + i) = write.logStart + 1 + i := by omega
        rw [same] at isFirst
        obtain ⟨mem, le, most⟩ := OrderedMap.atMost?_eq_some.mp isFirst
        refine ⟨first, OrderedMap.atMost?_eq_some.mpr
          ⟨mem_pin.mpr (.inr ⟨mem, by dsimp only at le ⊢; omega⟩), le, fun run isRun below => ?_⟩⟩
        rcases mem_pin.mp isRun with ⟨_, isNew⟩ | ⟨isOld, _⟩
        · rw [isNew] at below
          dsimp only at below
          omega
        · exact most run isOld below
      · rw [if_neg old, if_pos i_lt] at isFile
        cases isFile
        have some : write.entries ≠ [] := by
          intro none
          rw [none, List.length_nil] at i_lt
          omega
        refine ⟨write.entriesFrom, OrderedMap.atMost?_eq_some.mpr
          ⟨mem_pin.mpr (.inl ⟨some, rfl⟩), by dsimp only; omega, fun run isRun _ => ?_⟩⟩
        rcases mem_pin.mp isRun with ⟨_, isNew⟩ | ⟨_, below⟩
        · rw [isNew]
        · exact below.le
    exact retain_atMost? (by omega) (by omega) covered

/-- The next entry lies in the file of the last run, or starts a run. -/
theorem Describes.snoc {runs : OrderedMap Nat} {logStart : Nat} {origins : List Nat}
    (describes : Describes runs logStart origins) (file : Nat) :
    (runs.last?.map Prod.snd = some file → Describes runs logStart (origins ++ [file])) ∧
      Describes (runs.insert (logStart + 1 + origins.length) file) logStart (origins ++ [file]) := by
  have known : ∀ i o, (origins ++ [file])[i]? = some o →
      origins[i]? = some o ∨ (i = origins.length ∧ o = file) := by
    intro i o isFile
    rcases Nat.lt_trichotomy i origins.length with before | rfl | after
    · rw [List.getElem?_append_left before] at isFile
      exact .inl isFile
    · rw [List.getElem?_append_right le_rfl, Nat.sub_self] at isFile
      exact .inr ⟨rfl, (Option.some.inj isFile).symm⟩
    · have := (List.getElem?_eq_some_iff.mp isFile).1
      rw [List.length_append, List.length_singleton] at this
      omega
  constructor
  · intro isLast
    obtain ⟨⟨first, o⟩, isRun, rfl⟩ := Option.map_eq_some_iff.mp isLast
    obtain ⟨mem, most⟩ := OrderedMap.last?_eq_some.mp isRun
    refine ⟨fun run isRun => ?_, fun i o' isFile => ?_⟩
    · have := describes.inside run isRun
      rw [List.length_append]
      omega
    · rcases known i o' isFile with isOld | ⟨rfl, rfl⟩
      · exact describes.covers i o' isOld
      · refine ⟨first, OrderedMap.atMost?_eq_some.mpr ⟨mem, ?_, fun run isRun _ => most run isRun⟩⟩
        have := (describes.inside _ mem).2
        dsimp only at this ⊢
        omega
  · refine ⟨fun run isRun => ?_, fun i o isFile => ?_⟩
    · rw [List.length_append, List.length_singleton]
      rcases OrderedMap.mem_insert.mp isRun with rfl | ⟨isOld, _⟩
      · dsimp only
        omega
      · have := describes.inside run isOld
        omega
    · rcases known i o isFile with isOld | ⟨rfl, rfl⟩
      · obtain ⟨first, isFirst⟩ := describes.covers i o isOld
        obtain ⟨mem, le, most⟩ := OrderedMap.atMost?_eq_some.mp isFirst
        have inside := (List.getElem?_eq_some_iff.mp isOld).1
        refine ⟨first, OrderedMap.atMost?_eq_some.mpr ⟨OrderedMap.mem_insert.mpr (.inr ⟨mem, ?_⟩), le,
          fun run isRun below => ?_⟩⟩
        · dsimp only at le ⊢
          omega
        · rcases OrderedMap.mem_insert.mp isRun with rfl | ⟨isRun, _⟩
          · dsimp only at below
            omega
          · exact most run isRun below
      · refine ⟨_, OrderedMap.atMost?_eq_some.mpr ⟨OrderedMap.mem_insert.mpr (.inl rfl), le_rfl,
          fun run isRun below => below⟩⟩

/-- Rebuilding finds the log and the runs of a map that holds every entry. -/
theorem rebuild_describes {entries : OrderedMap (LogEntry Op × Nat)} {logStart : Nat}
    (more : List (LogEntry Op × Nat)) (log : List (LogEntry Op)) {runs : OrderedMap Nat}
    {origins : List Nat} (describes : Describes runs logStart origins)
    (found : ∀ i held, more[i]? = some held →
      entries.get? (logStart + 1 + origins.length + i) = some held) :
    ∃ runs', rebuild entries log runs
        (List.range' (logStart + 1 + origins.length) more.length) =
          .ok (log ++ more.map Prod.fst, runs') ∧
      Describes runs' logStart (origins ++ more.map Prod.snd) := by
  induction more generalizing log runs origins with
  | nil => exact ⟨runs, by simp [rebuild], by simpa using describes⟩
  | cons held rest ih =>
      obtain ⟨entry, file⟩ := held
      have here : entries.get? (logStart + 1 + origins.length) = some (entry, file) := found 0 _ rfl
      have next : ∀ {runs}, Describes runs logStart (origins ++ [file]) → ∃ runs',
          rebuild entries (log ++ [entry]) runs
            (List.range' (logStart + 1 + origins.length + 1) rest.length) =
              .ok (log ++ entry :: rest.map Prod.fst, runs') ∧
          Describes runs' logStart (origins ++ file :: rest.map Prod.snd) := by
        intro runs describes
        have := ih (log ++ [entry]) describes fun i held isHeld => by
          rw [← found (i + 1) held (by simpa using isHeld), List.length_append, List.length_singleton]
          congr 1
          omega
        simpa [List.length_append, Nat.add_assoc] using this
      rw [List.length_cons, List.range'_succ, rebuild, here]
      dsimp only
      split
      · exact next (describes.snoc file).2
      · next isLast => exact next ((describes.snoc file).1 (not_not.mp isLast))

end Vsr.Journal
