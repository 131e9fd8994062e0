import Std.Data.ExtTreeMap
import Vsr.Batches
import Vsr.Kvstore.Lines

/-!
# The store of a node

A fjall database that never syncs on its own, behind the writes applied since the
last flush.  The keys and the client table live in one of two data keyspaces; the
other stages a checkpoint being fetched.  Whatever fails in fjall ends the process,
and a step that ends it is a `none`.
-/

set_option autoImplicit false

namespace Vsr.Kvstore

open Journal (Text pushNumber words)
open Std (ExtTreeMap)

/-! ## The database -/

/-- Keys of the database, in the order of their bytes. -/
def compareKeys : Text → Text → Ordering := compareOn utf8

theorem utf8_inj {a b : Text} (same : utf8 a = utf8 b) : a = b := by
  have read := fromUtf8_utf8 a
  rw [same, fromUtf8_utf8] at read
  exact (Option.some.inj read).symm

instance : Std.TransCmp compareKeys := inferInstanceAs (Std.TransCmp (compareOn utf8))

instance : Std.LawfulEqCmp compareKeys where
  eq_of_compare same := utf8_inj (Std.LawfulEqOrd.eq_of_compare same)

/-- A map from texts: fjall holds their bytes. -/
abbrev Keyspace := ExtTreeMap Text Text compareKeys

inductive KeyspaceId where
  | metadata
  | data (index : Fin 2)
  deriving DecidableEq, Repr

/-- What each keyspace holds. -/
abbrev Image := KeyspaceId → Keyspace

inductive Write where
  | insert (keyspace : KeyspaceId) (key value : Text)
  | remove (keyspace : KeyspaceId) (key : Text)
  | clear (keyspace : KeyspaceId)

def Write.keyspace : Write → KeyspaceId
  | .insert keyspace _ _ => keyspace
  | .remove keyspace _ => keyspace
  | .clear keyspace => keyspace

/-- What a write makes of its keyspace. -/
def Write.run (held : Keyspace) : Write → Keyspace
  | .insert _ key value => held.insert key value
  | .remove _ key => held.erase key
  | .clear _ => ∅

def Write.apply (image : Image) (write : Write) : Image := fun keyspace =>
  if keyspace = write.keyspace then write.run (image keyspace) else image keyspace

abbrev Batch := List Write

instance : Commits Image Batch where
  empty _ := ∅
  commit image batch := batch.foldl Write.apply image

abbrev Database := Batches Batch

abbrev Database.image (db : Database) (count : Nat) : Image := Batches.image Image db count

/-- What reads and snapshots see. -/
abbrev Database.live (db : Database) : Image := Batches.live Image db

/-! ## Keys and counters -/

abbrev KvClientRecord := ClientRecord (Option Text)

def keyPrefix : Text := "k/".toList

def clientPrefix : Text := "c/".toList

def dataKey (key : Text) : Text := keyPrefix ++ key

def clientKey (clientId : Nat) : Text := clientPrefix ++ pushNumber clientId

/-- The number of operations applied, written in the same batch as their writes. -/
def appliedKey : Text := "applied".toList

/-- The data keyspace that holds the state. -/
def currentKey : Text := "current".toList

def formatKey : Text := "format".toList

def format : Nat := 3

/-- The bytes of keys and values a checkpoint chunk holds, about. -/
def chunkBytes : Nat := 256 * 1024

/-- The chunks a kept checkpoint reads ahead at most. -/
def chunksAhead : Nat := 4

/-- The number an image keeps under `key`, or 0 if it keeps none. -/
def Image.counter (image : Image) (key : Text) : Option Nat :=
  match (image .metadata)[key]? with
  | some value => parse value
  | none => some 0

/-- The number of operations an image says were applied. -/
def Image.applied (image : Image) : Option Nat := image.counter appliedKey

/-- The data keyspace an image says is current. -/
def Image.current (image : Image) : Option (Fin 2) :=
  match image.counter currentKey with
  | some 0 => some 0
  | some 1 => some 1
  | _ => none

/-- `text.strip_prefix(start)`. -/
def stripPrefix (start text : Text) : Option Text :=
  if start.isPrefixOf text then some (text.drop start.length) else none

/-- The record of client `clientId` as the store keeps it. -/
def decodeClient (clientId : Nat) (value : Text) : Option KvClientRecord :=
  match (client clientId).read (words value) with
  | some (.ok (record, _)) => some record
  | _ => none

/-- The record under the key of a client, less its prefix. -/
def clientAt (name value : Text) : Option KvClientRecord := do
  let clientId ← parse name
  decodeClient clientId value

/-! ## The store -/

/-- The writes of a run of operations. -/
structure Writes where
  values : ExtTreeMap Text Text compareKeys
  /-- The client records handed over, `none` for an eviction. -/
  clients : ExtTreeMap Nat (Option KvClientRecord)

def Writes.empty : Writes := ⟨∅, ∅⟩

/-- How far a flush has come on its thread. -/
inductive Landing where
  | started
  /-- Its batch is committed, the last of `upTo`. -/
  | written (upTo : Nat)
  | landed
  deriving DecidableEq, Repr

/-- A flush on a thread of its own. -/
structure Flushing where
  /-- The writes it makes durable, which reads see until it is taken. -/
  writes : Writes
  /-- The op number it makes the store durable as of. -/
  opNumber : Nat
  /-- The data keyspace it writes. -/
  data : Fin 2
  landing : Landing

structure ChunkReader where
  snapshot : Image
  keyspace : KeyspaceId

/-- A checkpoint kept: the key each chunk found so far starts at, and the chunks
being read ahead, each with where it starts. -/
structure Kept where
  reader : ChunkReader
  starts : List Text
  ahead : List (Nat × Text)

/-- A checkpoint nothing was read of yet. -/
def Kept.new (reader : ChunkReader) : Kept := ⟨reader, [[]], []⟩

structure Store where
  db : Database
  current : Fin 2
  /-- The number of operations applied. -/
  applied : Nat
  /-- The writes of the operations applied since the last flush began. -/
  dirty : Writes
  flushing : Option Flushing
  kept : Option Kept
  /-- The op number of the checkpoint being staged, if any. -/
  staged : Option Nat
  /-- A flush is of the current keyspace. -/
  flushes : ∀ out, flushing = some out → out.data = current

/-- The write of a client's record, or of its eviction. -/
def clientWrite (keyspace : KeyspaceId) (clientId : Nat) : Option KvClientRecord → Write
  | some record => .insert keyspace (clientKey clientId) (encodeClient record)
  | none => .remove keyspace (clientKey clientId)

/-- What `writes` write to a data keyspace. -/
def dataWrites (keyspace : KeyspaceId) (writes : Writes) : Batch :=
  (writes.values.toList.map fun pair => .insert keyspace (dataKey pair.1) pair.2) ++
    writes.clients.toList.map fun client => clientWrite keyspace client.1 client.2

/-- The batch of `writes` and the op number they reach. -/
def writeBatch (data : Fin 2) (writes : Writes) (opNumber : Nat) : Batch :=
  dataWrites (.data data) writes ++ [.insert .metadata appliedKey (pushNumber opNumber)]

/-- The batch of a chunk staged in the keyspace `data`. -/
def chunkBatch (data : Fin 2) (chunk : StoreChunk) : Batch :=
  (chunk.pairs.map fun pair => .insert (.data data) (dataKey pair.1) pair.2) ++
    chunk.clients.map fun record =>
      .insert (.data data) (clientKey record.clientId) (encodeClient record)

namespace Store

/-- A store on an empty directory. -/
def new : Store where
  db := .empty
  current := 0
  applied := 0
  dirty := .empty
  flushing := none
  kept := none
  staged := none
  flushes := by simp

/-- The store a database opens as: one of this format, or one that holds nothing
yet.  What was staged is cleared. -/
def openDatabase (db : Database) : Option Store := do
  let applied ← db.live.applied
  let format ← db.live.counter formatKey
  let current ← db.live.current
  require (format = Kvstore.format ∨ format = 0 ∧ applied = 0) <|
    some
      { new with
        db := db.commit [.clear (.data (1 - current))]
        current := current
        applied := applied
        flushes := by simp [new] }

/-- Records the store's format, durable with the next persist. -/
def stampFormat (store : Store) : Store :=
  { store with db := store.db.commit [.insert .metadata formatKey (pushNumber format)] }

/-- The database once `write_batch` and `sync` are done. -/
def makeDurable (db : Database) (batch : Batch) : Database :=
  let db := db.commit batch
  db.sync db.committed.length

/-- Starts a flush of the writes applied so far, unless one is out.  Returns
whether it started one. -/
def flush (store : Store) : Store × Bool :=
  if store.flushing.isSome then (store, false)
  else
    ({ store with
        dirty := .empty
        flushing := some
          { writes := store.dirty
            opNumber := store.applied
            data := store.current
            landing := .started }
        flushes := by simp }, true)

/-- The thread of the flush commits its batch. -/
def flushWrites (store : Store) : Store :=
  match out : store.flushing with
  | some flushing =>
      match flushing.landing with
      | .started =>
          let db := store.db.commit (writeBatch flushing.data flushing.writes flushing.opNumber)
          { store with
            db := db
            flushing := some { flushing with landing := .written db.committed.length }
            flushes := by simpa using store.flushes flushing out }
      | _ => store
  | none => store

/-- The sync of the flush completes. -/
def flushLands (store : Store) : Store :=
  match out : store.flushing with
  | some flushing =>
      match flushing.landing with
      | .written upTo =>
          { store with
            db := store.db.sync upTo
            flushing := some { flushing with landing := .landed }
            flushes := by simpa using store.flushes flushing out }
      | _ => store
  | none => store

/-- Takes the flush out, if it has landed, and returns the op number it made the
store durable as of. -/
def takeLanded (store : Store) : Store × Option Nat :=
  match store.flushing with
  | some flushing =>
      match flushing.landing with
      | .landed => ({ store with flushing := none, flushes := by simp }, some flushing.opNumber)
      | _ => (store, none)
  | none => (store, none)

/-- With `wait` the flush out lands first. -/
def takeFlush (store : Store) (wait : Bool) : Store × Option Nat :=
  (if wait then store.flushWrites.flushLands else store).takeLanded

/-- Waits for the flush out, if any. -/
def finishFlush (store : Store) : Store × Option Nat := store.takeFlush true

/-- `finishFlush`, for a flush that has landed; one still out stays out. -/
def landedFlush (store : Store) : Store × Option Nat := store.takeFlush false

section
variable {store : Store} {flushing : Flushing}

theorem flushWrites_none (isNone : store.flushing = none) : store.flushWrites = store := by
  unfold flushWrites
  split
  · next out =>
    rw [isNone] at out
    cases out
  · rfl

theorem flushWrites_started (out : store.flushing = some flushing)
    (isStarted : flushing.landing = .started) :
    store.flushWrites.db =
        store.db.commit (writeBatch flushing.data flushing.writes flushing.opNumber) ∧
      store.flushWrites.flushing =
        some { flushing with landing := .written (store.db.committed.length + 1) } := by
  unfold flushWrites
  split
  · next other isOther =>
    obtain rfl : flushing = other := Option.some.inj (out.symm.trans isOther)
    rw [isStarted]
    dsimp only
    rw [Batches.length_commit]
    exact ⟨rfl, rfl⟩
  · next isNone =>
    rw [out] at isNone
    cases isNone

theorem flushWrites_later (out : store.flushing = some flushing)
    (later : flushing.landing ≠ .started) : store.flushWrites = store := by
  unfold flushWrites
  split
  · next other isOther =>
    obtain rfl : flushing = other := Option.some.inj (out.symm.trans isOther)
    split
    · next isStarted => exact absurd isStarted later
    · rfl
  · rfl

theorem flushLands_none (isNone : store.flushing = none) : store.flushLands = store := by
  unfold flushLands
  split
  · next out =>
    rw [isNone] at out
    cases out
  · rfl

theorem flushLands_written {upTo : Nat} (out : store.flushing = some flushing)
    (isWritten : flushing.landing = .written upTo) :
    store.flushLands.db = store.db.sync upTo ∧
      store.flushLands.flushing = some { flushing with landing := .landed } := by
  unfold flushLands
  split
  · next other isOther =>
    obtain rfl : flushing = other := Option.some.inj (out.symm.trans isOther)
    rw [isWritten]
    exact ⟨rfl, rfl⟩
  · next isNone =>
    rw [out] at isNone
    cases isNone

theorem flushLands_other (out : store.flushing = some flushing)
    (other : ∀ upTo, flushing.landing ≠ .written upTo) : store.flushLands = store := by
  unfold flushLands
  split
  · next found isFound =>
    obtain rfl : flushing = found := Option.some.inj (out.symm.trans isFound)
    split
    · next upTo isWritten => exact absurd isWritten (other upTo)
    · rfl
  · rfl

theorem takeLanded_landed (out : store.flushing = some flushing)
    (isLanded : flushing.landing = .landed) :
    store.takeLanded.1.db = store.db ∧ store.takeLanded.1.flushing = none ∧
      store.takeLanded.2 = some flushing.opNumber := by
  unfold takeLanded
  rw [out]
  dsimp only
  rw [isLanded]
  exact ⟨rfl, rfl, rfl⟩

theorem takeLanded_none (isNone : store.flushing = none) : store.takeLanded = (store, none) := by
  unfold takeLanded
  rw [isNone]

theorem takeLanded_other (out : store.flushing = some flushing)
    (other : flushing.landing ≠ .landed) : store.takeLanded = (store, none) := by
  unfold takeLanded
  rw [out]
  dsimp only
  split
  · next isLanded => exact absurd isLanded other
  · rfl

/-- What a flush leaves alone as it goes. -/
structure Beside (s s' : Store) : Prop where
  current : s'.current = s.current
  applied : s'.applied = s.applied
  dirty : s'.dirty = s.dirty
  kept : s'.kept = s.kept
  staged : s'.staged = s.staged

theorem Beside.refl (s : Store) : Beside s s := ⟨rfl, rfl, rfl, rfl, rfl⟩

theorem Beside.trans {s t u : Store} (first : Beside s t) (second : Beside t u) : Beside s u where
  current := second.current.trans first.current
  applied := second.applied.trans first.applied
  dirty := second.dirty.trans first.dirty
  kept := second.kept.trans first.kept
  staged := second.staged.trans first.staged

theorem flushWrites_beside (store : Store) : Beside store store.flushWrites := by
  unfold flushWrites
  split
  · split
    · exact ⟨rfl, rfl, rfl, rfl, rfl⟩
    · exact .refl store
  · exact .refl store

theorem flushLands_beside (store : Store) : Beside store store.flushLands := by
  unfold flushLands
  split
  · split
    · exact ⟨rfl, rfl, rfl, rfl, rfl⟩
    · exact .refl store
  · exact .refl store

theorem takeLanded_beside (store : Store) : Beside store store.takeLanded.1 := by
  unfold takeLanded
  split
  · split
    · exact ⟨rfl, rfl, rfl, rfl, rfl⟩
    · exact .refl store
  · exact .refl store

theorem finishFlush_beside (store : Store) : Beside store store.finishFlush.1 :=
  (store.flushWrites_beside.trans (flushLands_beside _)).trans (takeLanded_beside _)

end

/-- A flush waited for is no longer out. -/
theorem finishFlush_flushing (store : Store) : store.finishFlush.1.flushing = none := by
  have landed : ∀ {s : Store} {f : Flushing}, s.flushing = some f → f.landing = .landed →
      s.takeLanded.1.flushing = none := fun out isLanded => (takeLanded_landed out isLanded).2.1
  show store.flushWrites.flushLands.takeLanded.1.flushing = none
  cases out : store.flushing with
  | none =>
      rw [flushWrites_none out, flushLands_none out]
      simp [takeLanded, out]
  | some flushing =>
      cases landing : flushing.landing with
      | started =>
          obtain ⟨_, written⟩ := flushWrites_started out landing
          exact landed (flushLands_written written rfl).2 rfl
      | written upTo =>
          rw [flushWrites_later out (by simp [landing])]
          exact landed (flushLands_written out landing).2 rfl
      | landed =>
          rw [flushWrites_later out (by simp [landing]), flushLands_other out (by simp [landing])]
          exact landed out landing

/-- Makes everything applied so far durable. -/
def persist (store : Store) : Store :=
  let store := store.finishFlush.1
  { store with
    db := makeDurable store.db (writeBatch store.current store.dirty store.applied)
    dirty := .empty }

def get (store : Store) (key : Text) : Option Text :=
  match store.dirty.values[key]? with
  | some value => some value
  | none =>
      match store.flushing.bind fun flushing => flushing.writes.values[key]? with
      | some value => some value
      | none => (store.db.live (.data store.current))[dataKey key]?

/-- The keys under `start` in fjall, less the prefix, and their values. -/
def committed (store : Store) (start : Text) : List (Text × Text) :=
  (store.db.live (.data store.current)).toList.filterMap fun pair =>
    (stripPrefix start pair.1).map fun name => (name, pair.2)

/-- The writes fjall may lack: those of the flush out, then those applied since. -/
def overlay (store : Store) : List Writes :=
  (store.flushing.map Flushing.writes).toList ++ [store.dirty]

/-- Every key and its value, less the prefix, in key order. -/
def pairs (store : Store) : List (Text × Text) :=
  let pairs : Keyspace := .ofList (store.committed keyPrefix) compareKeys
  (store.overlay.foldl
    (fun pairs writes =>
      writes.values.toList.foldl (fun pairs pair => pairs.insert pair.1 pair.2) pairs)
    pairs).toList

/-- Puts the client records of `writes` in a table. -/
def overlayClients (table : ExtTreeMap Nat KvClientRecord) (writes : Writes) :
    ExtTreeMap Nat KvClientRecord :=
  writes.clients.toList.foldl
    (fun table client => match client.2 with
      | some record => table.insert client.1 record
      | none => table.erase client.1)
    table

def clientTable (store : Store) : Option (List KvClientRecord) := do
  let records ← (store.committed clientPrefix).mapM fun pair => clientAt pair.1 pair.2
  let table : ExtTreeMap Nat KvClientRecord :=
    .ofList (records.map fun record => (record.clientId, record)) compare
  some (store.overlay.foldl overlayClients table).values

/-! ## The store as a state machine -/

def apply (store : Store) (opNumber : Nat) : Op → Store × Option Text
  | .put key value =>
      ({ store with
          dirty := { store.dirty with values := store.dirty.values.insert key value }
          applied := opNumber }, none)

def query (store : Store) (key : Text) : Option Text := store.get key

/-- Keeps the record in the writes since the last flush, reusing the copy kept
there of the client's last one. -/
def recordClient (store : Store) (opNumber clientId : Nat) (record : Option KvClientRecord) : Store :=
  let clients := store.dirty.clients
  let handed := match clients[clientId]?, record with
    | some (some kept), some record =>
        some { kept with
          session := record.session
          requestNumber := record.requestNumber
          replies := record.replies
          opNumber := record.opNumber }
    | _, record => record
  { store with
    dirty := { store.dirty with clients := clients.insert clientId handed }
    applied := opNumber }

/-- Keeps a snapshot of fjall, which holds the state as of the last flush written,
and returns the op number it is of. -/
def checkpoint (store : Store) : Option (Store × Nat) := do
  let snapshot := store.db.live
  let applied ← snapshot.applied
  some
    ({ store with
        kept := some (.new { snapshot := snapshot, keyspace := .data store.current }) }, applied)

def releaseCheckpoint (store : Store) : Store := { store with kept := none }

/-- Clears the data keyspace that is not current, to stage a checkpoint in it. -/
def clearStaging (store : Store) (opNumber : Nat) : Store :=
  { store with
    db := store.db.commit [.clear (.data (1 - store.current))]
    staged := some opNumber }

/-- Writes the chunk to the data keyspace that is not current, which chunk 0 clears
first. -/
def stageChunk (store : Store) (opNumber index : Nat) (chunk : StoreChunk) : Option Store :=
  let store := if index = 0 then store.clearStaging opNumber else store
  require (store.staged = some opNumber) <|
    some { store with db := store.db.commit (chunkBatch (1 - store.current) chunk) }

/-- Makes the staged checkpoint the state: one batch switches the data keyspaces and
sets the op number, and a sync makes it durable with the chunks.  The old state is
cleared. -/
def restore (store : Store) (opNumber : Nat) : Option Store :=
  require (store.staged = some opNumber) <|
    require (store.kept.isNone) <|
      let store := store.finishFlush.1
      let staging := 1 - store.current
      let db := makeDurable store.db
        [.insert .metadata currentKey (pushNumber staging), .insert .metadata appliedKey (pushNumber opNumber)]
      some
        { store with
          db := db.commit [.clear (.data store.current)]
          current := staging
          applied := opNumber
          dirty := .empty
          staged := none
          flushes := by simp [store, finishFlush_flushing] }

end Store

/-! ## Chunks of a checkpoint -/

/-- A chunk, and the key the next one starts at, if any. -/
abbrev ReadChunk := StoreChunk × Option Text

/-- The bytes of a key and its value. -/
def pairBytes (pair : Text × Text) : Nat := (utf8 pair.1).length + (utf8 pair.2).length

/-- What a chunk takes of `pairs` when it holds `bytes` already, and the key it stops
at, if any. -/
def scanFrom (bytes : Nat) : List (Text × Text) → List (Text × Text) × Option Text
  | [] => ([], none)
  | pair :: rest =>
      if chunkBytes ≤ bytes then ([], some pair.1)
      else
        let (taken, next) := scanFrom (bytes + pairBytes pair) rest
        (pair :: taken, next)

/-- Puts a key and its value in a chunk. -/
def StoreChunk.take (chunk : StoreChunk) (pair : Text × Text) : Option StoreChunk :=
  match stripPrefix keyPrefix pair.1 with
  | some name => some { chunk with pairs := chunk.pairs ++ [(name, pair.2)] }
  | none => do
      let name ← stripPrefix clientPrefix pair.1
      let record ← clientAt name pair.2
      some { chunk with clients := chunk.clients ++ [record] }

namespace ChunkReader

/-- The keys from `start` on, with their values. -/
def range (reader : ChunkReader) (start : Text) : List (Text × Text) :=
  (reader.snapshot reader.keyspace).toList.filter fun pair => (compareKeys start pair.1).isLE

/-- The keys and values of the chunk that starts at `start`, and the key the next one
starts at, if any. -/
def scan (reader : ChunkReader) (start : Text) : List (Text × Text) × Option Text :=
  scanFrom 0 (reader.range start)

def read (reader : ChunkReader) (start : Text) : Option ReadChunk :=
  let (pairs, next) := reader.scan start
  (pairs.foldlM StoreChunk.take { pairs := [], clients := [] }).map fun chunk => (chunk, next)

/-- The chunk that starts at a key found, and an empty one where none starts. -/
def readFrom (reader : ChunkReader) : Option Text → Option ReadChunk
  | some start => reader.read start
  | none => some ({ pairs := [], clients := [] }, none)

end ChunkReader

namespace Kept

/-- Finds the starts of `missing` chunks more, by the sizes of the keys and values
alone. -/
def extend (reader : ChunkReader) (starts : List Text) : Nat → List Text × Bool
  | 0 => (starts, true)
  | missing + 1 =>
      match starts.getLast?.bind fun last => (reader.scan last).2 with
      | some next => extend reader (starts ++ [next]) missing
      | none => (starts, false)

/-- Where chunk `index` starts, found from the last start known, or `none` past the
last chunk. -/
def start (kept : Kept) (index : Nat) : Kept × Option Text :=
  let (starts, found) := extend kept.reader kept.starts (index + 1 - kept.starts.length)
  ({ kept with starts := starts }, if found then starts[index]? else none)

/-- Reads chunk `index`, which starts at `start`, on a thread of its own, unless it is
being read already; with `chunksAhead` being read, the oldest read goes first. -/
def readAhead (kept : Kept) (index : Nat) (start : Text) : Kept :=
  if kept.ahead.any fun read => read.1 = index then kept
  else
    let ahead := if kept.ahead.length = chunksAhead then kept.ahead.tail else kept.ahead
    { kept with ahead := ahead ++ [(index, start)] }

/-- Takes the read of chunk `index` out of those ahead. -/
def takeAhead (index : Nat) : List (Nat × Text) → Option Text × List (Nat × Text)
  | [] => (none, [])
  | read :: rest =>
      if read.1 = index then (some read.2, rest)
      else ((takeAhead index rest).1, read :: (takeAhead index rest).2)

/-- Where chunk `index` is read from: where its read ahead started, or else where it
is found to start now. -/
def locate (kept : Kept) (index : Nat) : Kept × Option Text :=
  match takeAhead index kept.ahead with
  | (some start, left) => ({ kept with ahead := left }, some start)
  | (none, left) => { kept with ahead := left }.start index

/-- Notes where the chunk after `index` starts, and reads it ahead. -/
def goOn (kept : Kept) (index : Nat) : Option Text → Kept
  | some next =>
      let starts := if kept.starts.length = index + 1 then kept.starts ++ [next] else kept.starts
      { kept with starts := starts }.readAhead (index + 1) next
  | none => kept

/-- Chunk `index`: the one read ahead, or else read now; past the last chunk, an empty
one.  The chunk after it is then read ahead. -/
def chunk (kept : Kept) (index : Nat) : Option (Kept × ReadChunk) :=
  let (kept, start) := kept.locate index
  (kept.reader.readFrom start).map fun read => (kept.goOn index read.2, read)

end Kept

/-- A chunk of the checkpoint kept, and whether it is the last. -/
def Store.checkpointChunk (store : Store) (index : Nat) : Option (Store × StoreChunk × Bool) := do
  let kept ← store.kept
  let (kept, chunk, next) ← kept.chunk index
  some ({ store with kept := some kept }, chunk, next.isNone)

end Vsr.Kvstore
