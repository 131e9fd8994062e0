import Vsr.Kvstore.Tables

/-!
# The store as one map

A store written back reads as one map that every call updates at once, and what a
power loss leaves of it is that map as of the op number recorded with it.
-/

set_option autoImplicit false

namespace Vsr.Kvstore

open Journal (Text pushNumber)
open Std (ExtTreeMap)

/-! ## The map and its past -/

/-- What the calls on a store make of one map. -/
structure Chronicle where
  now : Table
  /-- The map after the calls of op numbers up to a number, since the last restore. -/
  asOf : Nat → Table
  /-- What the chunks staged hold. -/
  staging : Table
  /-- Calls still to come are at later op numbers than this. -/
  settled : Nat
  /-- The op number the store was said to be durable as of: it only grows, unless a
  restore goes back. -/
  reported : Nat

namespace Chronicle

def new : Chronicle where
  now := .empty
  asOf _ := .empty
  staging := .empty
  settled := 0
  reported := 0

/-- A call at `opNumber` makes the map `table`. -/
def call (chronicle : Chronicle) (opNumber : Nat) (table : Table) : Chronicle :=
  { chronicle with
    now := table
    asOf := fun before => if opNumber ≤ before then table else chronicle.asOf before }

def settle (chronicle : Chronicle) (opNumber : Nat) : Chronicle :=
  { chronicle with settled := opNumber }

def report (chronicle : Chronicle) : Option Nat → Chronicle
  | some opNumber => { chronicle with reported := max chronicle.reported opNumber }
  | none => chronicle

/-- Chunk 0 drops what was staged before. -/
def stage (chronicle : Chronicle) (index : Nat) (chunk : StoreChunk) : Chronicle :=
  { chronicle with
    staging := (if index = 0 then .empty else chronicle.staging).stage chunk }

def restore (chronicle : Chronicle) (opNumber : Nat) : Chronicle where
  now := chronicle.staging
  asOf _ := chronicle.staging
  staging := .empty
  settled := opNumber
  reported := opNumber

/-- A store opened again as of `opNumber` lost the calls after it. -/
def reopen (chronicle : Chronicle) (opNumber : Nat) : Chronicle :=
  { chronicle with
    now := chronicle.asOf opNumber
    asOf := fun before => chronicle.asOf (min before opNumber)
    settled := opNumber }

end Chronicle

/-- What a put makes of the map. -/
def Table.apply (table : Table) : Op → Table
  | .put key value => table.putValue (key, value)

/-! ## Runs of a store -/

/-- What is done to a store, or happens to it. -/
inductive StoreAct where
  | apply (opNumber : Nat) (op : Op)
  | recordClient (opNumber clientId : Nat) (record : Option KvClientRecord)
  | stampFormat
  | flush
  | flushWrites
  | flushLands
  | landedFlush
  | finishFlush
  | persist
  | checkpoint
  | releaseCheckpoint
  | checkpointChunk (index : Nat)
  | stageChunk (opNumber index : Nat) (chunk : StoreChunk)
  | restore (opNumber : Nat)
  /-- The process ends, and the store is opened again. -/
  | reopen
  /-- The power fails, which leaves `count` batches, and the store is opened again. -/
  | losePower (count : Nat)

namespace StoreAct

/-- The store after an act that does not end its process, and what the act makes of
the map. -/
def run (store : Store) (chronicle : Chronicle) : StoreAct → Option (Store × Chronicle)
  | .apply opNumber op =>
      some ((store.apply opNumber op).1, chronicle.call opNumber (chronicle.now.apply op))
  | .recordClient opNumber clientId record =>
      some (store.recordClient opNumber clientId record,
        chronicle.call opNumber (chronicle.now.putClient (clientId, record)))
  | .stampFormat => some (store.stampFormat, chronicle)
  | .flush =>
      some (store.flush.1, if store.flush.2 then chronicle.settle store.applied else chronicle)
  | .flushWrites => some (store.flushWrites, chronicle)
  | .flushLands => some (store.flushLands, chronicle)
  | .landedFlush => some (store.landedFlush.1, chronicle.report store.landedFlush.2)
  | .finishFlush => some (store.finishFlush.1, chronicle.report store.finishFlush.2)
  | .persist => some (store.persist, (chronicle.settle store.applied).report (some store.applied))
  | .checkpoint => store.checkpoint.map fun done => (done.1, chronicle)
  | .releaseCheckpoint => some (store.releaseCheckpoint, chronicle)
  | .checkpointChunk index => (store.checkpointChunk index).map fun done => (done.1, chronicle)
  | .stageChunk opNumber index chunk =>
      (store.stageChunk opNumber index chunk).map fun staged =>
        (staged, chronicle.stage index chunk)
  | .restore opNumber =>
      (store.restore opNumber).map fun restored => (restored, chronicle.restore opNumber)
  | .reopen =>
      (Store.openDatabase store.db).map fun opened => (opened, chronicle.reopen opened.applied)
  | .losePower count =>
      (Store.openDatabase (store.db.lose count)).map fun opened =>
        (opened, chronicle.reopen opened.applied)

/-- A call is at an op number that is not settled yet, and no earlier than the last. -/
structure CallAt (store : Store) (chronicle : Chronicle) (opNumber : Nat) : Prop where
  applied : store.applied ≤ opNumber
  settled : chronicle.settled < opNumber
  small : Small opNumber

/-- What the store's owner and fjall see to. -/
def Allowed (store : Store) (chronicle : Chronicle) : StoreAct → Prop
  | .apply opNumber _ => CallAt store chronicle opNumber
  | .recordClient opNumber clientId record =>
      CallAt store chronicle opNumber ∧ HandedFits (clientId, record)
  | .stageChunk _ _ chunk => ∀ record ∈ chunk.clients, ClientFits record
  | .restore opNumber => Small opNumber
  | .losePower count => store.db.Survives count
  | _ => True

end StoreAct

/-- The stores a run from an empty directory reaches, each with its map. -/
inductive Reached : Store → Chronicle → Prop where
  | new : Reached .new .new
  | step {store store' : Store} {chronicle chronicle' : Chronicle} (act : StoreAct) :
      Reached store chronicle → act.Allowed store chronicle →
        act.run store chronicle = some (store', chronicle') → Reached store' chronicle'

/-! ## What an image holds -/

/-- The current keyspace of an image holds `table`, as of the op number recorded. -/
structure Image.Holds (image : Image) (table : Table) (opNumber : Nat) (data : Fin 2) : Prop where
  applied : image.applied = some opNumber
  current : image.current = some data
  represents : Represents (image (.data data)) table

/-- An image holds the map as of `opNumber`, and what was said to be durable. -/
def Chronicle.Keeps (chronicle : Chronicle) (image : Image) (opNumber : Nat) : Prop :=
  chronicle.reported ≤ opNumber ∧
    ∃ data, Image.Holds image (chronicle.asOf opNumber) opNumber data

section
variable {image : Image} {table : Table} {opNumber : Nat} {data : Fin 2} {key : Text}

/-- A number kept is read back. -/
theorem counter_insert (small : Small opNumber)
    (held : (image .metadata)[key]? = some (pushNumber opNumber)) :
    image.counter key = some opNumber := by
  unfold Image.counter
  rw [held]
  exact parse_pushNumber small

theorem counter_congr {image' : Image}
    (same : (image' .metadata)[key]? = (image .metadata)[key]?) :
    image'.counter key = image.counter key := by
  unfold Image.counter
  rw [same]

theorem current_congr {image' : Image}
    (same : image'.counter currentKey = image.counter currentKey) :
    image'.current = image.current := by
  unfold Image.current
  rw [same]

theorem current_of_counter (counter : image.counter currentKey = some (data : Nat)) :
    image.current = some data := by
  unfold Image.current
  rw [counter]
  revert data
  simp only [Fin.forall_fin_two]
  exact ⟨fun _ => rfl, fun _ => rfl⟩

/-- A batch that leaves the state of the keyspace `data` alone. -/
def Batch.Spares (batch : Batch) (data : Fin 2) : Prop :=
  ∀ image : Image,
    Image.applied (Commits.commit image batch) = image.applied ∧
      Image.current (Commits.commit image batch) = image.current ∧
      Commits.commit image batch (.data data) = image (.data data)

theorem Image.Holds.spared (holds : Image.Holds image table opNumber data) {batch : Batch}
    (spares : batch.Spares data) :
    Image.Holds (Commits.commit image batch) table opNumber data := by
  obtain ⟨applied, current, same⟩ := spares image
  exact ⟨applied.trans holds.applied, current.trans holds.current, same ▸ holds.represents⟩

/-- Writes of the other data keyspace spare this one. -/
theorem spares_of_other {batch : Batch}
    (all : ∀ write ∈ batch, write.keyspace = .data (1 - data)) : batch.Spares data := by
  intro image
  have metadata : Commits.commit image batch .metadata = image .metadata := by
    apply commit_other
    intro write mem
    rw [all write mem]
    simp
  have same : Commits.commit image batch (.data data) = image (.data data) := by
    apply commit_other
    intro write mem
    rw [all write mem]
    simp [other_ne]
  have counters : ∀ key, Image.counter (Commits.commit image batch) key = image.counter key := by
    intro key
    apply counter_congr
    rw [metadata]
  exact ⟨counters appliedKey, current_congr (counters currentKey), same⟩

theorem stampFormat_spares (data : Fin 2) :
    Batch.Spares [.insert .metadata formatKey (pushNumber format)] data := by
  intro image
  have counters : ∀ key, key ≠ formatKey →
      Image.counter (Commits.commit image [Write.insert .metadata formatKey (pushNumber format)])
        key = image.counter key := by
    intro key other
    apply counter_congr
    rw [commit_self (by simp [Write.keyspace])]
    show ((image .metadata).insert formatKey (pushNumber format))[key]? = _
    rw [ExtTreeMap.getElem?_insert, if_neg (compareKeys_ne other.symm)]
  refine ⟨counters appliedKey (by decide), current_congr (counters currentKey (by decide)), ?_⟩
  exact commit_other (by simp [Write.keyspace])

/-- The batch of a flush makes the image hold the map with its writes. -/
theorem Image.Holds.writeBatch (holds : Image.Holds image table opNumber data) {writes : Writes}
    (fits : writes.Fits) {reached : Nat} (small : Small reached) :
    Image.Holds (Commits.commit image (writeBatch data writes reached)) (table.write writes) reached
      data where
  applied := by
    apply counter_insert small
    rw [writeBatch_metadata, ExtTreeMap.getElem?_insert_self]
  current := by
    refine (current_congr (counter_congr ?_)).trans holds.current
    rw [writeBatch_metadata, ExtTreeMap.getElem?_insert, if_neg (compareKeys_ne (by decide))]
  represents := writeBatch_represents holds.represents fits

/-- The batch of a restore makes the keyspace staged current. -/
theorem holds_switch (represents : Represents (image (.data data)) table)
    (small : Small opNumber) :
    Image.Holds
      (Commits.commit image
        [Write.insert .metadata currentKey (pushNumber data),
          Write.insert .metadata appliedKey (pushNumber opNumber)])
      table opNumber data := by
  have metadata : Commits.commit image
      [Write.insert .metadata currentKey (pushNumber data),
        Write.insert .metadata appliedKey (pushNumber opNumber)] .metadata =
      ((image .metadata).insert currentKey (pushNumber data)).insert appliedKey
        (pushNumber opNumber) := commit_self (by simp [Write.keyspace])
  have smallData : Small data := by
    unfold Small
    omega
  refine ⟨?_, ?_, ?_⟩
  · apply counter_insert small
    rw [metadata, ExtTreeMap.getElem?_insert_self]
  · apply current_of_counter
    apply counter_insert smallData
    rw [metadata, ExtTreeMap.getElem?_insert, if_neg (compareKeys_ne (by decide)),
      ExtTreeMap.getElem?_insert_self]
  · rw [commit_other (by simp [Write.keyspace])]
    exact represents

end

/-! ## The invariant -/

/-- How far a flush out has come, in what the images of the database say. -/
def Landing.Shows (db : Database) (written opNumber : Nat) : Landing → Prop
  | .started => True
  | .written upTo =>
      written = opNumber ∧
        ∀ count, upTo ≤ count → count ≤ db.committed.length →
          (db.image count).applied = some opNumber
  | .landed =>
      written = opNumber ∧ ∀ count, db.Survives count → (db.image count).applied = some opNumber

/-- A flush out takes what fjall holds to the map as of its op number. -/
structure Flushing.Sound (out : Flushing) (db : Database) (chronicle : Chronicle)
    (written : Nat) : Prop where
  writes : (chronicle.asOf written).write out.writes = chronicle.asOf out.opNumber
  fits : out.writes.Fits
  after : written ≤ out.opNumber
  settled : out.opNumber ≤ chronicle.settled
  shows : out.landing.Shows db written out.opNumber

/-- A checkpoint kept is of the map. -/
def Kept.Of (kept : Kept) (chronicle : Chronicle) : Prop :=
  ∃ opNumber ≤ chronicle.settled, kept.reader.snapshot.applied = some opNumber ∧
    Represents (kept.reader.snapshot kept.reader.keyspace) (chronicle.asOf opNumber)

/-- Every image a power loss may leave holds the map, no later than `written`. -/
def Chronicle.Covers (chronicle : Chronicle) (db : Database) (written : Nat) : Prop :=
  ∀ count, db.Survives count → ∃ opNumber ≤ written, chronicle.Keeps (db.image count) opNumber

/-- The store is the map of its chronicle, and fjall holds it as of `written`. -/
structure Store.Mirrors (store : Store) (chronicle : Chronicle) (written : Nat) : Prop where
  live : Image.Holds store.db.live (chronicle.asOf written) written store.current
  covers : chronicle.Covers store.db written
  reads : store.view (chronicle.asOf written) = chronicle.now
  isNow : chronicle.asOf store.applied = chronicle.now
  reported_le : chronicle.reported ≤ written
  written_le : written ≤ chronicle.settled
  settled_le : chronicle.settled ≤ store.applied
  small : Small store.applied
  dirty : store.dirty.Fits
  flushing : ∀ out, store.flushing = some out → out.Sound store.db chronicle written
  kept : ∀ kept, store.kept = some kept → kept.Of chronicle
  staged : store.staged.isSome →
    Represents (store.db.live (.data (1 - store.current))) chronicle.staging

theorem Chronicle.Covers.commit {chronicle : Chronicle} {db : Database} {written reached : Nat}
    (covers : chronicle.Covers db written) (later : written ≤ reached) {batch : Batch}
    (last : chronicle.Keeps (Commits.commit db.live batch) reached) :
    chronicle.Covers (db.commit batch) reached := by
  refine Batches.forall_survives_commit
    (P := fun image : Image => ∃ k ≤ reached, chronicle.Keeps image k) (fun count survives => ?_) ?_
  · obtain ⟨opNumber, le, keeps⟩ := covers count survives
    exact ⟨opNumber, le.trans later, keeps⟩
  · rw [Batches.live_commit]
    exact ⟨reached, le_rfl, last⟩

/-- A power loss after `make_durable` keeps everything. -/
theorem survives_makeDurable {db : Database} {batch : Batch} {count : Nat}
    (survives : (Store.makeDurable db batch).Survives count) :
    (Store.makeDurable db batch).image count = Commits.commit db.live batch := by
  have all : count = (db.commit batch).committed.length :=
    le_antisymm survives.2 ((le_max_right _ _).trans survives.1)
  rw [← Batches.live_commit, all]
  rfl

theorem live_makeDurable (db : Database) (batch : Batch) :
    (Store.makeDurable db batch).live = Commits.commit db.live batch :=
  Batches.live_commit db batch

theorem Landing.Shows.commit {db : Database} {written opNumber : Nat} {landing : Landing}
    (shows : landing.Shows db written opNumber) {batch : Batch}
    (applied : Image.applied (Commits.commit db.live batch) = some written) :
    landing.Shows (db.commit batch) written opNumber := by
  have longer : ∀ start, written = opNumber →
      (∀ count, start ≤ count → count ≤ db.committed.length →
        (db.image count).applied = some opNumber) →
      ∀ count, start ≤ count → count ≤ db.committed.length + 1 →
        (Database.image (db.commit batch) count).applied = some opNumber := by
    intro start isWritten all count after inside
    by_cases before : count ≤ db.committed.length
    · have isImage : Database.image (db.commit batch) count = db.image count :=
        Batches.image_commit_of_le batch before
      rw [isImage]
      exact all count after before
    · have isLast : count = (db.commit batch).committed.length := by
        rw [Batches.length_commit]
        omega
      rw [← Batches.live_commit, isWritten] at applied
      rw [isLast]
      exact applied
  cases landing with
  | started => exact shows
  | written upTo =>
      refine ⟨shows.1, fun count after inside => ?_⟩
      rw [Batches.length_commit] at inside
      exact longer upTo shows.1 shows.2 count after inside
  | landed =>
      refine ⟨shows.1, fun count survives => ?_⟩
      have inside := survives.2
      rw [Batches.length_commit] at inside
      have all := fun other after within => shows.2 other ⟨after, within⟩
      exact longer db.synced shows.1 all count survives.1 inside

theorem Flushing.Sound.congr {out : Flushing} {db : Database} {chronicle chronicle' : Chronicle}
    {written : Nat} (sound : out.Sound db chronicle written)
    (asOf : chronicle'.asOf = chronicle.asOf) (settled : chronicle.settled ≤ chronicle'.settled) :
    out.Sound db chronicle' written where
  writes := asOf ▸ sound.writes
  fits := sound.fits
  after := sound.after
  settled := sound.settled.trans settled
  shows := sound.shows

theorem Writes.empty_fits : Writes.empty.Fits := by
  intro client mem
  have found := ExtTreeMap.mem_toList_iff_getElem?_eq_some.mp mem
  simp [Writes.empty] at found

theorem Writes.Fits.insert {writes : Writes} (fits : writes.Fits)
    {client : Nat × Option KvClientRecord} (handed : HandedFits client) :
    Writes.Fits { writes with clients := writes.clients.insert client.1 client.2 } := by
  intro other mem
  have found := ExtTreeMap.mem_toList_iff_getElem?_eq_some.mp mem
  rw [ExtTreeMap.getElem?_insert] at found
  split at found
  · next same =>
    have isOther : other = client :=
      Prod.ext (Std.LawfulEqCmp.eq_of_compare same).symm (Option.some.inj found).symm
    rw [isOther]
    exact handed
  · exact fits other (ExtTreeMap.mem_toList_iff_getElem?_eq_some.mpr found)

namespace Store.Mirrors

variable {store store' : Store} {chronicle : Chronicle} {written opNumber : Nat}

theorem view_eq (store : Store) (base : Table) :
    store.view base =
      ((store.flushing.map Flushing.writes).toList.foldl Table.write base).write store.dirty := by
  unfold view overlay
  rw [List.foldl_append]
  rfl

/-- A call leaves the past alone. -/
theorem asOf_call {before : Nat} {table : Table} (earlier : before < opNumber) :
    (chronicle.call opNumber table).asOf before = chronicle.asOf before :=
  if_neg (Nat.not_le_of_lt earlier)

/-- A call puts the same in the dirty writes as in the map. -/
theorem call (mirrors : store.Mirrors chronicle written)
    (at_ : StoreAct.CallAt store chronicle opNumber) {dirty : Writes} (put : Table → Table)
    (fits : dirty.Fits) (puts : ∀ base : Table, base.write dirty = put (base.write store.dirty)) :
    Mirrors { store with dirty := dirty, applied := opNumber }
      (chronicle.call opNumber (put chronicle.now)) written := by
  have past : ∀ before, before ≤ chronicle.settled →
      (chronicle.call opNumber (put chronicle.now)).asOf before = chronicle.asOf before :=
    fun before le => asOf_call (le.trans_lt at_.settled)
  have isWritten := past written mirrors.written_le
  refine ⟨?_, ?_, ?_, if_pos le_rfl, mirrors.reported_le, mirrors.written_le, ?_, at_.small, fits,
    ?_, ?_, mirrors.staged⟩
  · rw [isWritten]
    exact mirrors.live
  · intro count survives
    obtain ⟨before, le, reported, data, holds⟩ := mirrors.covers count survives
    rw [← past before (le.trans mirrors.written_le)] at holds
    exact ⟨before, le, reported, data, holds⟩
  · have reads := mirrors.reads
    rw [view_eq] at reads
    rw [isWritten, view_eq, puts, reads]
    rfl
  · exact mirrors.settled_le.trans at_.applied
  · intro out isOut
    have sound := mirrors.flushing out isOut
    refine ⟨?_, sound.fits, sound.after, sound.settled, sound.shows⟩
    rw [isWritten, past _ sound.settled]
    exact sound.writes
  · intro kept isKept
    obtain ⟨before, le, applied, represents⟩ := mirrors.kept kept isKept
    rw [← past before le] at represents
    exact ⟨before, le, applied, represents⟩

theorem apply (mirrors : store.Mirrors chronicle written)
    (at_ : StoreAct.CallAt store chronicle opNumber) (op : Op) :
    (store.apply opNumber op).1.Mirrors (chronicle.call opNumber (chronicle.now.apply op)) written := by
  obtain ⟨key, value⟩ := op
  exact mirrors.call at_ (fun table => table.putValue (key, value)) mirrors.dirty
    fun base => base.write_insert_value store.dirty (key, value)

/-- The copy reused of a client's last record is the record handed over. -/
theorem recordClient_eq {clientId : Nat} {record : Option KvClientRecord} (fits : store.dirty.Fits)
    (handed : HandedFits (clientId, record)) :
    store.recordClient opNumber clientId record =
      { store with
        dirty := { store.dirty with clients := store.dirty.clients.insert clientId record }
        applied := opNumber } := by
  unfold recordClient
  dsimp only
  split
  · next kept new isKept =>
    have isClient := (fits _ (ExtTreeMap.mem_toList_iff_getElem?_eq_some.mpr isKept) kept rfl).1
    have isRecord := (handed new rfl).1
    have same : ({ kept with
        session := new.session
        requestNumber := new.requestNumber
        replies := new.replies
        opNumber := new.opNumber } : KvClientRecord) = new := by
      obtain ⟨⟩ := kept
      obtain ⟨⟩ := new
      simp_all
    rw [same]
  · rfl

theorem recordClient (mirrors : store.Mirrors chronicle written)
    (at_ : StoreAct.CallAt store chronicle opNumber) {clientId : Nat}
    {record : Option KvClientRecord} (handed : HandedFits (clientId, record)) :
    (store.recordClient opNumber clientId record).Mirrors
      (chronicle.call opNumber (chronicle.now.putClient (clientId, record))) written := by
  rw [recordClient_eq mirrors.dirty handed]
  exact mirrors.call at_ (fun table => table.putClient (clientId, record))
    (mirrors.dirty.insert handed) fun base => base.write_insert_client store.dirty (clientId, record)

/-! ### Batches beside the state -/

/-- A batch that spares the state may stage. -/
theorem commit (mirrors : store.Mirrors chronicle written) {batch : Batch}
    (staged : Option Nat) (spares : batch.Spares store.current) {table : Table}
    (staging : staged.isSome →
      Represents (Commits.commit store.db.live batch (.data (1 - store.current))) table) :
    Mirrors { store with db := store.db.commit batch, staged := staged }
      { chronicle with staging := table } written := by
  have live := mirrors.live.spared spares
  refine ⟨?_, ?_, mirrors.reads, mirrors.isNow, mirrors.reported_le, mirrors.written_le,
    mirrors.settled_le, mirrors.small, mirrors.dirty, ?_, mirrors.kept, ?_⟩
  · rw [← Batches.live_commit] at live
    exact live
  · exact mirrors.covers.commit le_rfl ⟨mirrors.reported_le, store.current, live⟩
  · intro out isOut
    have sound := (mirrors.flushing out isOut).congr rfl le_rfl
    exact { sound with shows := sound.shows.commit live.applied }
  · intro isStaged
    have staged := staging isStaged
    rw [← Batches.live_commit] at staged
    exact staged

theorem stampFormat (mirrors : store.Mirrors chronicle written) :
    store.stampFormat.Mirrors chronicle written := by
  refine mirrors.commit store.staged (stampFormat_spares store.current) fun isStaged => ?_
  rw [commit_other (by simp [Write.keyspace])]
  exact mirrors.staged isStaged

theorem clearStaging (mirrors : store.Mirrors chronicle written) (opNumber : Nat) :
    (store.clearStaging opNumber).Mirrors { chronicle with staging := .empty } written := by
  refine mirrors.commit (some opNumber) (spares_of_other (by simp [Write.keyspace])) fun _ => ?_
  rw [commit_self (by simp [Write.keyspace])]
  exact Represents.empty

theorem stageChunk (mirrors : store.Mirrors chronicle written) {index : Nat} {chunk : StoreChunk}
    (fits : ∀ record ∈ chunk.clients, ClientFits record)
    (stages : store.stageChunk opNumber index chunk = some store') :
    store'.Mirrors (chronicle.stage index chunk) written := by
  have putIn : ∀ {s : Store} {c : Chronicle}, s.Mirrors c written → s.staged = some opNumber →
      Mirrors { s with db := s.db.commit (chunkBatch (1 - s.current) chunk) }
        { c with staging := c.staging.stage chunk } written := by
    intro s c mirrors isStaged
    refine mirrors.commit s.staged (spares_of_other fun write => chunkBatch_keyspace) fun _ => ?_
    exact chunkBatch_represents (mirrors.staged (by rw [isStaged]; rfl)) fits
  unfold Store.stageChunk at stages
  unfold Chronicle.stage
  by_cases first : index = 0
  · rw [if_pos first] at stages ⊢
    obtain ⟨isStaged, isStore⟩ := require_eq_some.mp stages
    cases isStore
    exact putIn (mirrors.clearStaging opNumber) isStaged
  · rw [if_neg first] at stages ⊢
    obtain ⟨isStaged, isStore⟩ := require_eq_some.mp stages
    cases isStore
    exact putIn mirrors isStaged

/-! ### Flushes -/

/-- What was said is forgotten. -/
theorem unreport {reported : Option Nat}
    (mirrors : store.Mirrors (chronicle.report reported) written) :
    store.Mirrors chronicle written := by
  cases reported with
  | none => exact mirrors
  | some reported =>
      refine ⟨mirrors.live, fun count survives => ?_, mirrors.reads, mirrors.isNow,
        (le_max_left _ _).trans mirrors.reported_le, mirrors.written_le, mirrors.settled_le,
        mirrors.small, mirrors.dirty, fun out isOut => ?_, mirrors.kept, mirrors.staged⟩
      · obtain ⟨opNumber, le, said, holds⟩ := mirrors.covers count survives
        exact ⟨opNumber, le, (le_max_left _ _).trans said, holds⟩
      · exact (mirrors.flushing out isOut).congr rfl le_rfl

/-- What every image that may be left holds may be said. -/
theorem report (mirrors : store.Mirrors chronicle written) (le : opNumber ≤ written)
    (all : ∀ count, store.db.Survives count → (store.db.image count).applied = some opNumber) :
    store.Mirrors (chronicle.report (some opNumber)) written := by
  refine ⟨mirrors.live, fun count survives => ?_, mirrors.reads, mirrors.isNow,
    max_le mirrors.reported_le le, mirrors.written_le, mirrors.settled_le, mirrors.small,
    mirrors.dirty, fun out isOut => ?_, mirrors.kept, mirrors.staged⟩
  · obtain ⟨recorded, le, said, data, holds⟩ := mirrors.covers count survives
    obtain rfl : opNumber = recorded :=
      Option.some.inj ((all count survives).symm.trans holds.applied)
    exact ⟨opNumber, le, max_le said le_rfl, data, holds⟩
  · exact (mirrors.flushing out isOut).congr rfl le_rfl

theorem flush (mirrors : store.Mirrors chronicle written) :
    store.flush.1.Mirrors (if store.flush.2 then chronicle.settle store.applied else chronicle)
      written := by
  unfold Store.flush
  cases isOut : store.flushing with
  | some out => exact mirrors
  | none =>
      have reads := mirrors.reads
      rw [view_eq, isOut] at reads
      refine ⟨mirrors.live, mirrors.covers, ?_, mirrors.isNow, mirrors.reported_le,
        mirrors.written_le.trans mirrors.settled_le, le_rfl, mirrors.small, Writes.empty_fits,
        ?_, ?_, mirrors.staged⟩
      · rw [view_eq]
        show (Table.write _ store.dirty).write .empty = _
        rw [Table.write_empty]
        exact reads
      · intro out isFlushing
        cases isFlushing
        exact
          { writes := reads.trans mirrors.isNow.symm
            fits := mirrors.dirty
            after := mirrors.written_le.trans mirrors.settled_le
            settled := le_rfl
            shows := trivial }
      · intro kept isKept
        obtain ⟨before, le, applied, represents⟩ := mirrors.kept kept isKept
        exact ⟨before, le.trans mirrors.settled_le, applied, represents⟩

/-- A flush going on changes the database and what is out alone. -/
theorem of_beside (mirrors : store.Mirrors chronicle written) (beside : Beside store store')
    {written' : Nat} (later : written ≤ written') (settled : written' ≤ chronicle.settled)
    (live : Image.Holds store'.db.live (chronicle.asOf written') written' store.current)
    (covers : chronicle.Covers store'.db written')
    (reads : store'.view (chronicle.asOf written') = chronicle.now)
    (flushing : ∀ out, store'.flushing = some out → out.Sound store'.db chronicle written')
    (staging : store'.db.live (.data (1 - store.current)) =
      store.db.live (.data (1 - store.current))) :
    store'.Mirrors chronicle written' := by
  have staged := mirrors.staged
  rw [← staging, ← beside.staged, ← beside.current] at staged
  rw [← beside.current] at live
  refine ⟨live, covers, reads, ?_, mirrors.reported_le.trans later, settled, ?_, ?_, ?_, flushing, ?_,
    staged⟩
  · rw [beside.applied]
    exact mirrors.isNow
  · rw [beside.applied]
    exact mirrors.settled_le
  · rw [beside.applied]
    exact mirrors.small
  · rw [beside.dirty]
    exact mirrors.dirty
  · rw [beside.kept]
    exact mirrors.kept

theorem flushWrites (mirrors : store.Mirrors chronicle written) :
    ∃ written', store.flushWrites.Mirrors chronicle written' := by
  cases isOut : store.flushing with
  | none =>
      rw [flushWrites_none isOut]
      exact ⟨written, mirrors⟩
  | some out =>
      by_cases isStarted : out.landing = .started
      · have sound := mirrors.flushing out isOut
        have beside := store.flushWrites_beside
        have small : Small out.opNumber :=
          lt_of_le_of_lt (sound.settled.trans mirrors.settled_le) mirrors.small
        have live := mirrors.live.writeBatch sound.fits small
        have again : (chronicle.asOf out.opNumber).write out.writes = chronicle.asOf out.opNumber := by
          rw [← sound.writes, Table.write_write]
        obtain ⟨isDb, isFlushing⟩ := flushWrites_started isOut isStarted
        rw [store.flushes out isOut] at isDb
        rw [sound.writes] at live
        refine ⟨out.opNumber, mirrors.of_beside beside sound.after sound.settled ?_ ?_ ?_ ?_ ?_⟩
        · rw [isDb, Database.live, Batches.live_commit]
          exact live
        · rw [isDb]
          exact mirrors.covers.commit sound.after
            ⟨mirrors.reported_le.trans sound.after, store.current, live⟩
        · have reads := mirrors.reads
          rw [view_eq, isOut] at reads
          rw [view_eq, isFlushing, beside.dirty, ← reads]
          show Table.write (Table.write _ out.writes) _ = Table.write (Table.write _ out.writes) _
          rw [again, sound.writes]
        · intro found isFound
          rw [isFlushing] at isFound
          cases isFound
          refine ⟨again, sound.fits, le_rfl, sound.settled, rfl, fun count after inside => ?_⟩
          have isLast : count = (store.db.commit
              (writeBatch store.current out.writes out.opNumber)).committed.length := by
            rw [isDb, Batches.length_commit] at inside
            rw [Batches.length_commit]
            omega
          rw [← Batches.live_commit] at live
          rw [isDb, isLast]
          exact live.applied
        · rw [isDb, Database.live, Batches.live_commit, writeBatch_other (other_ne store.current)]
      · rw [flushWrites_later isOut isStarted]
        exact ⟨written, mirrors⟩

theorem flushLands (mirrors : store.Mirrors chronicle written) :
    store.flushLands.Mirrors chronicle written := by
  cases isOut : store.flushing with
  | none =>
      rw [flushLands_none isOut]
      exact mirrors
  | some out =>
      have sound := mirrors.flushing out isOut
      cases landing : out.landing with
      | written upTo =>
          obtain ⟨isDb, isFlushing⟩ := flushLands_written isOut landing
          have shows := sound.shows
          rw [landing] at shows
          refine mirrors.of_beside store.flushLands_beside le_rfl mirrors.written_le ?_ ?_ ?_ ?_ ?_
          · rw [isDb]
            exact mirrors.live
          · rw [isDb]
            exact fun count survives => mirrors.covers count survives.of_sync
          · have reads := mirrors.reads
            rw [view_eq, isOut] at reads
            rw [view_eq, isFlushing, store.flushLands_beside.dirty]
            exact reads
          · intro found isFound
            rw [isFlushing] at isFound
            cases isFound
            refine ⟨sound.writes, sound.fits, sound.after, sound.settled, shows.1, fun count => ?_⟩
            rw [isDb]
            intro survives
            exact shows.2 count ((le_max_right _ _).trans survives.1) survives.2
          · rw [isDb]
            rfl
      | started =>
          rw [flushLands_other isOut (by simp [landing])]
          exact mirrors
      | landed =>
          rw [flushLands_other isOut (by simp [landing])]
          exact mirrors

/-- A flush that landed is in every image that may be left. -/
theorem takeLanded (mirrors : store.Mirrors chronicle written) :
    store.takeLanded.1.Mirrors (chronicle.report store.takeLanded.2) written := by
  cases isOut : store.flushing with
  | none =>
      rw [takeLanded_none isOut]
      exact mirrors
  | some out =>
      by_cases isLanded : out.landing = .landed
      · have sound := mirrors.flushing out isOut
        have shows := sound.shows
        rw [isLanded] at shows
        obtain ⟨isDb, isNone, isNumber⟩ := takeLanded_landed isOut isLanded
        have beside := store.takeLanded_beside
        have taken : store.takeLanded.1.Mirrors chronicle written := by
          refine mirrors.of_beside beside le_rfl mirrors.written_le ?_ ?_ ?_ ?_ ?_
          · rw [isDb]
            exact mirrors.live
          · rw [isDb]
            exact mirrors.covers
          · have reads := mirrors.reads
            rw [view_eq, isOut] at reads
            rw [view_eq, isNone, beside.dirty, ← reads]
            show Table.write _ _ = Table.write (Table.write _ out.writes) _
            rw [sound.writes, ← shows.1]
            rfl
          · intro found isFound
            rw [isNone] at isFound
            cases isFound
          · rw [isDb]
        rw [isNumber]
        apply taken.report shows.1.ge
        rw [isDb]
        exact shows.2
      · rw [takeLanded_other isOut isLanded]
        exact mirrors

theorem finishFlush (mirrors : store.Mirrors chronicle written) :
    ∃ written', store.finishFlush.1.Mirrors (chronicle.report store.finishFlush.2) written' := by
  obtain ⟨written', wrote⟩ := mirrors.flushWrites
  exact ⟨written', wrote.flushLands.takeLanded⟩

/-! ### What ends at a sync -/

/-- A store with nothing over its database is the map the database holds. -/
theorem of_database {db : Database} {data : Fin 2} {map : Chronicle}
    (live : Image.Holds db.live (map.asOf opNumber) opNumber data)
    (covers : map.Covers db opNumber) (isNow : map.asOf opNumber = map.now)
    (reported : map.reported ≤ opNumber) (settled : map.settled = opNumber)
    (small : Small opNumber) :
    Mirrors
      { new with db := db, current := data, applied := opNumber, flushes := by simp [new] }
      map opNumber where
  live := live
  covers := covers
  reads := by
    rw [view_eq]
    exact (Table.write_empty _).trans isNow
  isNow := isNow
  reported_le := reported
  written_le := settled.ge
  settled_le := settled.le
  small := small
  dirty := Writes.empty_fits
  flushing out isOut := by cases isOut
  kept _ isKept := by cases isKept
  staged isStaged := by cases isStaged

/-- What was applied, once no flush is out, is made durable with its op number. -/
theorem durable (mirrors : store.Mirrors chronicle written) (isNone : store.flushing = none) :
    Mirrors
      { store with
        db := makeDurable store.db (writeBatch store.current store.dirty store.applied)
        dirty := .empty }
      ((chronicle.settle store.applied).report (some store.applied)) store.applied := by
  have live := mirrors.live.writeBatch mirrors.dirty mirrors.small
  have reads := mirrors.reads
  rw [view_eq, isNone] at reads
  replace reads : (chronicle.asOf written).write store.dirty = chronicle.now := reads
  rw [reads, ← mirrors.isNow] at live
  have later := mirrors.written_le.trans mirrors.settled_le
  have staged := mirrors.staged
  have settled : Mirrors
      { store with
        db := makeDurable store.db (writeBatch store.current store.dirty store.applied)
        dirty := .empty }
      (chronicle.settle store.applied) store.applied := by
    refine ⟨?_, fun count survives => ?_, ?_, mirrors.isNow, mirrors.reported_le.trans later, le_rfl,
      le_rfl, mirrors.small, Writes.empty_fits, fun out isOut => ?_, fun kept isKept => ?_, ?_⟩
    · rw [← live_makeDurable] at live
      exact live
    · rw [survives_makeDurable survives]
      exact ⟨store.applied, le_rfl, mirrors.reported_le.trans later, store.current, live⟩
    · rw [view_eq]
      dsimp only
      rw [isNone]
      exact (Table.write_empty _).trans mirrors.isNow
    · rw [isNone] at isOut
      cases isOut
    · obtain ⟨before, le, applied, represents⟩ := mirrors.kept kept isKept
      exact ⟨before, le.trans mirrors.settled_le, applied, represents⟩
    · have same : (makeDurable store.db (writeBatch store.current store.dirty store.applied)).live
          (.data (1 - store.current)) = store.db.live (.data (1 - store.current)) := by
        rw [live_makeDurable, writeBatch_other (other_ne store.current)]
      intro isStaged
      rw [← same] at staged
      exact staged isStaged
  apply settled.report le_rfl
  intro count survives
  rw [survives_makeDurable survives]
  exact live.applied

theorem persist (mirrors : store.Mirrors chronicle written) :
    store.persist.Mirrors ((chronicle.settle store.applied).report (some store.applied))
      store.applied := by
  obtain ⟨_, finished⟩ := mirrors.finishFlush
  rw [← store.finishFlush_beside.applied]
  exact finished.unreport.durable store.finishFlush_flushing

/-- The keyspace staged becomes the map, and the old one is cleared. -/
theorem switch {s : Store} (noFlush : s.flushing = none) (notKept : s.kept = none)
    (represents : Represents (s.db.live (.data (1 - s.current))) chronicle.staging)
    (small : Small opNumber) :
    Mirrors
      { s with
        db := (makeDurable s.db
          [.insert .metadata currentKey (pushNumber (1 - s.current : Fin 2)),
            .insert .metadata appliedKey (pushNumber opNumber)]).commit [.clear (.data s.current)]
        current := 1 - s.current
        applied := opNumber
        dirty := .empty
        staged := none
        flushes := by simp [noFlush] }
      (chronicle.restore opNumber) opNumber := by
  obtain ⟨db, current, _, _, flushing, kept, _, _⟩ := s
  cases noFlush
  cases notKept
  have live := holds_switch represents small
  have switched : Mirrors
      { new with
        db := makeDurable db
          [.insert .metadata currentKey (pushNumber (1 - current : Fin 2)),
            .insert .metadata appliedKey (pushNumber opNumber)]
        current := 1 - current
        applied := opNumber
        flushes := by simp [new] }
      (chronicle.restore opNumber) opNumber := by
    refine of_database ?_ (fun count survives => ?_) rfl le_rfl rfl small
    · rw [live_makeDurable]
      exact live
    · rw [survives_makeDurable survives]
      exact ⟨opNumber, le_rfl, le_rfl, _, live⟩
  refine switched.commit none (spares_of_other fun write mem => ?_) fun isStaged => by cases isStaged
  rw [List.mem_singleton.mp mem]
  exact congrArg KeyspaceId.data (other_other current).symm

theorem restore (mirrors : store.Mirrors chronicle written) (small : Small opNumber)
    (restores : store.restore opNumber = some store') :
    store'.Mirrors (chronicle.restore opNumber) opNumber := by
  obtain ⟨isStaged, restores⟩ := require_eq_some.mp restores
  obtain ⟨notKept, isStore⟩ := require_eq_some.mp restores
  cases isStore
  obtain ⟨_, finished⟩ := mirrors.finishFlush
  have beside := store.finishFlush_beside
  apply switch store.finishFlush_flushing ?_ ?_ small
  · rw [beside.kept]
    exact Option.isNone_iff_eq_none.mp notKept
  · apply finished.unreport.staged
    rw [beside.staged, isStaged]
    rfl

/-! ### Checkpoints -/

theorem checkpoint (mirrors : store.Mirrors chronicle written) :
    ∃ keeping, store.checkpoint = some (keeping, written) ∧ keeping.Mirrors chronicle written := by
  have isApplied := mirrors.live.applied
  refine ⟨{ store with
    kept := some (.new { snapshot := store.db.live, keyspace := .data store.current }) }, ?_, ?_⟩
  · simp only [Store.checkpoint, isApplied]
    rfl
  · refine ⟨mirrors.live, mirrors.covers, mirrors.reads, mirrors.isNow, mirrors.reported_le,
      mirrors.written_le, mirrors.settled_le, mirrors.small, mirrors.dirty, mirrors.flushing, ?_,
      mirrors.staged⟩
    intro kept isKept
    cases isKept
    exact ⟨written, mirrors.written_le, isApplied, mirrors.live.represents⟩

theorem releaseCheckpoint (mirrors : store.Mirrors chronicle written) :
    store.releaseCheckpoint.Mirrors chronicle written :=
  { mirrors with kept := fun _ isKept => by cases isKept }

theorem reader_chunk {kept kept' : Kept} {index : Nat} {read : ReadChunk}
    (reads : kept.chunk index = some (kept', read)) : kept'.reader = kept.reader := by
  have ahead : ∀ (kept : Kept) (index : Nat) (start : Text),
      (kept.readAhead index start).reader = kept.reader := by
    intro kept index start
    unfold Kept.readAhead
    split <;> rfl
  have located : (kept.locate index).1.reader = kept.reader := by
    unfold Kept.locate
    split <;> rfl
  have goneOn : ∀ (kept : Kept) (next : Option Text), (kept.goOn index next).reader = kept.reader := by
    intro kept next
    cases next with
    | none => rfl
    | some next => exact ahead _ _ _
  obtain ⟨_, _, isKept⟩ := Option.map_eq_some_iff.mp reads
  cases isKept
  exact (goneOn _ _).trans located

theorem checkpointChunk (mirrors : store.Mirrors chronicle written) {index : Nat}
    {chunk : StoreChunk × Bool} (reads : store.checkpointChunk index = some (store', chunk)) :
    store'.Mirrors chronicle written := by
  obtain ⟨kept, isKept, reads⟩ := Option.bind_eq_some_iff.mp reads
  obtain ⟨⟨kept', read⟩, isRead, isStore⟩ := Option.bind_eq_some_iff.mp reads
  cases isStore
  refine { mirrors with kept := fun other isOther => ?_ }
  cases isOther
  have kept := mirrors.kept kept isKept
  unfold Kept.Of at kept ⊢
  rw [reader_chunk isRead]
  exact kept

/-! ### Stores opened again -/

/-- A store opened is the map as of the op number its database records. -/
theorem openDatabase {db : Database} {data : Fin 2}
    (live : Image.Holds db.live (chronicle.asOf opNumber) opNumber data)
    (covers : chronicle.Covers db opNumber) (reported : chronicle.reported ≤ opNumber)
    (small : Small opNumber) (opens : Store.openDatabase db = some store') :
    store'.Mirrors (chronicle.reopen store'.applied) opNumber := by
  obtain ⟨applied, isApplied, opens⟩ := Option.bind_eq_some_iff.mp opens
  obtain ⟨_, _, opens⟩ := Option.bind_eq_some_iff.mp opens
  obtain ⟨current, isCurrent, opens⟩ := Option.bind_eq_some_iff.mp opens
  obtain ⟨_, isStore⟩ := require_eq_some.mp opens
  obtain rfl : opNumber = applied := Option.some.inj (live.applied.symm.trans isApplied)
  obtain rfl : data = current := Option.some.inj (live.current.symm.trans isCurrent)
  cases isStore
  have opened : Mirrors
      { new with db := db, current := data, applied := opNumber, flushes := by simp [new] }
      (chronicle.reopen opNumber) opNumber := by
    have past : ∀ before ≤ opNumber,
        (chronicle.reopen opNumber).asOf before = chronicle.asOf before := by
      intro before le
      show chronicle.asOf (min before opNumber) = _
      rw [min_eq_left le]
    refine of_database ?_ (fun count survives => ?_) (past opNumber le_rfl) reported rfl small
    · rw [past opNumber le_rfl]
      exact live
    · obtain ⟨before, le, said, other, holds⟩ := covers count survives
      rw [← past before le] at holds
      exact ⟨before, le, said, other, holds⟩
  refine opened.commit none (spares_of_other ?_) fun isStaged => by cases isStaged
  simp [Write.keyspace]

/-- What a power loss leaves is one of the images it may leave. -/
theorem losePower (mirrors : store.Mirrors chronicle written) {count : Nat}
    (survives : store.db.Survives count)
    (opens : Store.openDatabase (store.db.lose count) = some store') :
    ∃ written', store'.Mirrors (chronicle.reopen store'.applied) written' := by
  obtain ⟨opNumber, le, said, data, holds⟩ := mirrors.covers count survives
  have live : Database.live (store.db.lose count) = store.db.image count :=
    Batches.live_lose survives
  have small : Small opNumber :=
    lt_of_le_of_lt (le.trans (mirrors.written_le.trans mirrors.settled_le)) mirrors.small
  rw [← live] at holds
  refine ⟨opNumber, openDatabase holds (fun left survives => ?_) said small opens⟩
  have all : left = (store.db.lose count).committed.length := by
    refine le_antisymm survives.2 (le_trans ?_ survives.1)
    rw [Batches.lose, List.length_take]
    exact min_le_left _ _
  rw [all]
  exact ⟨opNumber, le_rfl, said, data, holds⟩

end Store.Mirrors

theorem StoreAct.run_mirrors {act : StoreAct} {store store' : Store}
    {chronicle chronicle' : Chronicle} {written : Nat} (mirrors : store.Mirrors chronicle written)
    (allowed : act.Allowed store chronicle)
    (run : act.run store chronicle = some (store', chronicle')) :
    ∃ written', store'.Mirrors chronicle' written' := by
  cases act with
  | apply opNumber op =>
      cases run
      exact ⟨written, mirrors.apply allowed op⟩
  | recordClient opNumber clientId record =>
      cases run
      exact ⟨written, mirrors.recordClient allowed.1 allowed.2⟩
  | stampFormat =>
      cases run
      exact ⟨written, mirrors.stampFormat⟩
  | flush =>
      cases run
      exact ⟨written, mirrors.flush⟩
  | flushWrites =>
      cases run
      exact mirrors.flushWrites
  | flushLands =>
      cases run
      exact ⟨written, mirrors.flushLands⟩
  | landedFlush =>
      cases run
      exact ⟨written, mirrors.takeLanded⟩
  | finishFlush =>
      cases run
      exact mirrors.finishFlush
  | persist =>
      cases run
      exact ⟨_, mirrors.persist⟩
  | checkpoint =>
      obtain ⟨keeping, isKeeping, kept⟩ := mirrors.checkpoint
      obtain ⟨done, isDone, isRun⟩ := Option.map_eq_some_iff.mp run
      rw [isKeeping] at isDone
      cases isDone
      cases isRun
      exact ⟨written, kept⟩
  | releaseCheckpoint =>
      cases run
      exact ⟨written, mirrors.releaseCheckpoint⟩
  | checkpointChunk index =>
      obtain ⟨done, isDone, isRun⟩ := Option.map_eq_some_iff.mp run
      cases isRun
      exact ⟨written, mirrors.checkpointChunk isDone⟩
  | stageChunk opNumber index chunk =>
      obtain ⟨staged, stages, isRun⟩ := Option.map_eq_some_iff.mp run
      cases isRun
      exact ⟨written, mirrors.stageChunk allowed stages⟩
  | restore opNumber =>
      obtain ⟨restored, restores, isRun⟩ := Option.map_eq_some_iff.mp run
      cases isRun
      exact ⟨opNumber, mirrors.restore allowed restores⟩
  | reopen =>
      obtain ⟨opened, opens, isRun⟩ := Option.map_eq_some_iff.mp run
      cases isRun
      have small : Small written :=
        lt_of_le_of_lt (mirrors.written_le.trans mirrors.settled_le) mirrors.small
      exact ⟨written, .openDatabase mirrors.live mirrors.covers mirrors.reported_le small opens⟩
  | losePower count =>
      obtain ⟨opened, opens, isRun⟩ := Option.map_eq_some_iff.mp run
      cases isRun
      exact mirrors.losePower allowed opens

theorem Store.Mirrors.new : Store.new.Mirrors .new 0 := by
  have live : Image.Holds Store.new.db.live .empty 0 0 := ⟨rfl, rfl, Represents.empty⟩
  refine Store.Mirrors.of_database live (fun count survives => ?_) rfl le_rfl rfl (by simp [Small])
  obtain rfl : count = 0 := Nat.le_zero.mp survives.2
  exact ⟨0, le_rfl, le_rfl, 0, live⟩

theorem Reached.mirrors {store : Store} {chronicle : Chronicle} (reached : Reached store chronicle) :
    ∃ written, store.Mirrors chronicle written := by
  induction reached with
  | new => exact ⟨0, .new⟩
  | step act _ allowed run ih =>
      obtain ⟨written, mirrors⟩ := ih
      exact act.run_mirrors mirrors allowed run

end Vsr.Kvstore
