import Mathlib.Data.List.Basic
import Vsr.Changes
import Vsr.Kvstore.Store

/-!
# What a keyspace holds

The keys and client records a data keyspace stands for, what the store's writes make
of them, and what the store reads through the writes fjall lacks.
-/

set_option autoImplicit false

namespace Vsr.Kvstore

open Journal (Text pushNumber parseNumber_pushNumber)
open Std (ExtTreeMap)

/-! ## Keys -/

theorem stripPrefix_eq_some {start text name : Text} :
    stripPrefix start text = some name ↔ text = start ++ name := by
  unfold stripPrefix
  split
  · next isPrefix =>
    obtain ⟨rest, rfl⟩ := List.isPrefixOf_iff_prefix.mp isPrefix
    rw [List.drop_left, Option.some.injEq, List.append_cancel_left_eq]
  · next notPrefix =>
    constructor
    · intro none
      cases none
    · rintro rfl
      exact absurd (List.isPrefixOf_iff_prefix.mpr (List.prefix_append _ _)) notPrefix

theorem dataKey_inj {key key' : Text} : dataKey key = dataKey key' ↔ key = key' :=
  List.append_cancel_left_eq _ _ _ |>.to_iff

theorem clientKey_inj {clientId clientId' : Nat} :
    clientKey clientId = clientKey clientId' ↔ clientId = clientId' := by
  constructor
  · intro same
    have number := List.append_cancel_left same
    have read := parseNumber_pushNumber clientId
    rw [number, parseNumber_pushNumber] at read
    exact (Option.some.inj read).symm
  · rintro rfl
    rfl

theorem dataKey_ne_clientKey (key : Text) (clientId : Nat) : dataKey key ≠ clientKey clientId := by
  intro same
  cases same

/-- Client keys come before data keys. -/
theorem clientKey_lt_dataKey (clientId : Nat) (key : Text) :
    compareKeys (clientKey clientId) (dataKey key) = .lt := rfl

theorem stripPrefix_dataKey (key : Text) : stripPrefix keyPrefix (dataKey key) = some key :=
  stripPrefix_eq_some.mpr rfl

theorem stripPrefix_clientKey (clientId : Nat) :
    stripPrefix keyPrefix (clientKey clientId) = none ∧
      stripPrefix clientPrefix (clientKey clientId) = some (pushNumber clientId) :=
  ⟨rfl, stripPrefix_eq_some.mpr rfl⟩

theorem decodeClient_encodeClient {record : KvClientRecord} (fits : ClientFits record) :
    decodeClient record.clientId (encodeClient record) = some record := by
  have reads := reads_client fits []
  rw [List.append_nil] at reads
  unfold decodeClient
  rw [reads]

theorem clientAt_encodeClient {record : KvClientRecord} (fits : ClientFits record) :
    clientAt (pushNumber record.clientId) (encodeClient record) = some record := by
  unfold clientAt
  rw [parse_pushNumber fits.clientId]
  exact decodeClient_encodeClient fits

/-! ## Tables -/

/-- The keys and the client records of a store. -/
structure Table where
  values : ExtTreeMap Text Text compareKeys
  clients : ExtTreeMap Nat KvClientRecord

namespace Table

def empty : Table := ⟨∅, ∅⟩

/-- Every record is under the id of its client. -/
def Fits (table : Table) : Prop :=
  ∀ clientId record, table.clients[clientId]? = some record →
    record.clientId = clientId ∧ ClientFits record

def putValue (table : Table) (pair : Text × Text) : Table :=
  { table with values := table.values.insert pair.1 pair.2 }

/-- Records a client, or takes it out. -/
def putClient (table : Table) (client : Nat × Option KvClientRecord) : Table :=
  { table with clients := change table.clients client }

/-- The table with `writes` over it. -/
def write (table : Table) (writes : Writes) : Table :=
  writes.clients.toList.foldl putClient (writes.values.toList.foldl putValue table)

/-- The table with a chunk put in it. -/
def stage (table : Table) (chunk : StoreChunk) : Table :=
  (chunk.clients.map fun record => (record.clientId, some record)).foldl putClient
    (chunk.pairs.foldl putValue table)

end Table

/-- What a record handed over must be: of its client, and one the store reads back. -/
def HandedFits (client : Nat × Option KvClientRecord) : Prop :=
  ∀ record, client.2 = some record → record.clientId = client.1 ∧ ClientFits record

def Writes.Fits (writes : Writes) : Prop := ∀ client ∈ writes.clients.toList, HandedFits client

/-- A data keyspace holds `table` and nothing else. -/
structure Represents (keyspace : Keyspace) (table : Table) : Prop where
  value : ∀ key, keyspace[dataKey key]? = table.values[key]?
  client : ∀ clientId, keyspace[clientKey clientId]? = table.clients[clientId]?.map encodeClient
  only : ∀ key value, keyspace[key]? = some value →
    (∃ name, key = dataKey name) ∨ ∃ clientId, key = clientKey clientId
  fits : table.Fits

theorem compareKeys_ne {key key' : Text} (different : key ≠ key') : compareKeys key key' ≠ .eq :=
  fun same => different (Std.LawfulEqCmp.eq_of_compare same)

theorem Represents.empty : Represents ∅ .empty where
  value _ := rfl
  client _ := rfl
  only _ _ found := by simp at found
  fits _ _ found := by simp [Table.empty] at found

namespace Represents

variable {keyspace : Keyspace} {table : Table}

theorem putValue (represents : Represents keyspace table) (pair : Text × Text) :
    Represents (change keyspace (dataKey pair.1, some pair.2)) (table.putValue pair) where
  value key := by
    show _ = (table.values.insert pair.1 pair.2)[key]?
    by_cases same : pair.1 = key
    · subst same
      rw [ExtTreeMap.getElem?_insert_self]
      exact getElem?_change_self keyspace (dataKey pair.1, some pair.2)
    · have other : (dataKey pair.1, some pair.2).1 ≠ dataKey key := fun isKey =>
        same (dataKey_inj.mp isKey)
      rw [getElem?_change_other other, ExtTreeMap.getElem?_insert, if_neg (compareKeys_ne same),
        represents.value]
  client clientId := by
    rw [getElem?_change_other (dataKey_ne_clientKey _ _)]
    exact represents.client clientId
  only key value found := by
    by_cases same : dataKey pair.1 = key
    · exact .inl ⟨pair.1, same.symm⟩
    · rw [getElem?_change_other same] at found
      exact represents.only key value found
  fits := represents.fits

theorem putClient (represents : Represents keyspace table) {client : Nat × Option KvClientRecord}
    (fits : HandedFits client) :
    Represents (change keyspace (clientKey client.1, client.2.map encodeClient))
      (table.putClient client) where
  value key := by
    rw [getElem?_change_other (dataKey_ne_clientKey _ _).symm]
    exact represents.value key
  client clientId := by
    show _ = (change table.clients client)[clientId]?.map encodeClient
    by_cases same : client.1 = clientId
    · subst same
      rw [getElem?_change_self table.clients client]
      exact getElem?_change_self keyspace (clientKey client.1, client.2.map encodeClient)
    · have other : (clientKey client.1, client.2.map encodeClient).1 ≠ clientKey clientId :=
        fun isKey => same (clientKey_inj.mp isKey)
      rw [getElem?_change_other other, getElem?_change_other same, represents.client]
  only key value found := by
    by_cases same : clientKey client.1 = key
    · exact .inr ⟨client.1, same.symm⟩
    · rw [getElem?_change_other same] at found
      exact represents.only key value found
  fits clientId record found := by
    replace found : (change table.clients client)[clientId]? = some record := found
    by_cases same : client.1 = clientId
    · subst same
      rw [getElem?_change_self table.clients client] at found
      exact fits record found
    · rw [getElem?_change_other same] at found
      exact represents.fits clientId record found

/-- The changes of a keyspace that puts of values make. -/
theorem putValues (represents : Represents keyspace table) (pairs : List (Text × Text)) :
    Represents (changes keyspace (pairs.map fun pair => (dataKey pair.1, some pair.2)))
      (pairs.foldl Table.putValue table) := by
  induction pairs generalizing keyspace table with
  | nil => exact represents
  | cons pair rest ih => exact ih (represents.putValue pair)

theorem putClients (represents : Represents keyspace table)
    {clients : List (Nat × Option KvClientRecord)} (fits : ∀ client ∈ clients, HandedFits client) :
    Represents
      (changes keyspace (clients.map fun client => (clientKey client.1, client.2.map encodeClient)))
      (clients.foldl Table.putClient table) := by
  induction clients generalizing keyspace table with
  | nil => exact represents
  | cons client rest ih =>
      refine ih (represents.putClient (fits client List.mem_cons_self)) fun other mem => ?_
      exact fits other (List.mem_cons_of_mem _ mem)

/-- Each pair of a keyspace is a value of the table or one of its records. -/
theorem pair_cases (represents : Represents keyspace table) {pair : Text × Text}
    (mem : pair ∈ keyspace.toList) :
    (∃ name, pair.1 = dataKey name ∧ table.values[name]? = some pair.2) ∨
      ∃ record, pair = (clientKey record.clientId, encodeClient record) ∧
        table.clients[record.clientId]? = some record ∧ ClientFits record := by
  have found : keyspace[pair.1]? = some pair.2 := ExtTreeMap.mem_toList_iff_getElem?_eq_some.mp mem
  rcases represents.only pair.1 pair.2 found with ⟨name, isName⟩ | ⟨clientId, isClient⟩
  · rw [isName, represents.value] at found
    exact .inl ⟨name, isName, found⟩
  · rw [isClient, represents.client] at found
    obtain ⟨record, isRecord, isValue⟩ := Option.map_eq_some_iff.mp found
    obtain ⟨rfl, fits⟩ := represents.fits clientId record isRecord
    exact .inr ⟨record, Prod.ext isClient isValue.symm, isRecord, fits⟩

end Represents

/-! ## Writes over a table -/

theorem foldl_putValue (table : Table) (pairs : List (Text × Text)) :
    pairs.foldl Table.putValue table =
      { table with
        values := changes table.values (pairs.map fun pair => (pair.1, some pair.2)) } := by
  induction pairs generalizing table with
  | nil => rfl
  | cons pair rest ih =>
      show rest.foldl Table.putValue (table.putValue pair) = _
      rw [ih]
      rfl

theorem foldl_putClient (table : Table) (clients : List (Nat × Option KvClientRecord)) :
    clients.foldl Table.putClient table =
      { table with clients := changes table.clients clients } := by
  induction clients generalizing table with
  | nil => rfl
  | cons client rest ih =>
      show rest.foldl Table.putClient (table.putClient client) = _
      rw [ih]
      rfl

theorem Table.write_eq (table : Table) (writes : Writes) :
    table.write writes =
      { values := changes table.values
          (writes.values.toList.map fun pair => (pair.1, some pair.2))
        clients := changes table.clients writes.clients.toList } := by
  unfold Table.write
  rw [foldl_putValue, foldl_putClient]

theorem Table.getElem?_write_values (table : Table) (writes : Writes) (key : Text) :
    (table.write writes).values[key]? = writes.values[key]?.or table.values[key]? := by
  rw [Table.write_eq]
  exact getElem?_changes_toList table.values writes.values key

theorem Table.getElem?_write_clients (table : Table) (writes : Writes) (clientId : Nat) :
    (table.write writes).clients[clientId]? =
      writes.clients[clientId]?.getD table.clients[clientId]? := by
  rw [Table.write_eq]
  exact getElem?_changes_optional table.clients writes.clients clientId

theorem Table.ext {table table' : Table}
    (values : ∀ key : Text, table.values[key]? = table'.values[key]?)
    (clients : ∀ clientId : Nat, table.clients[clientId]? = table'.clients[clientId]?) :
    table = table' := by
  obtain ⟨theseValues, theseClients⟩ := table
  obtain ⟨thoseValues, thoseClients⟩ := table'
  have sameValues : theseValues = thoseValues := ExtTreeMap.ext_getElem? values
  have sameClients : theseClients = thoseClients := ExtTreeMap.ext_getElem? clients
  rw [sameValues, sameClients]

@[simp] theorem Table.write_empty (table : Table) : table.write .empty = table := by
  apply Table.ext
  · intro key
    simp [Table.getElem?_write_values, Writes.empty]
  · intro clientId
    simp [Table.getElem?_write_clients, Writes.empty]

/-- The same writes again change nothing. -/
theorem Table.write_write (table : Table) (writes : Writes) :
    (table.write writes).write writes = table.write writes := by
  apply Table.ext
  · intro key
    simp only [Table.getElem?_write_values]
    cases writes.values[key]? <;> rfl
  · intro clientId
    simp only [Table.getElem?_write_clients]
    cases writes.clients[clientId]? <;> rfl

/-- One value more written is one put more. -/
theorem Table.write_insert_value (table : Table) (writes : Writes) (pair : Text × Text) :
    table.write { writes with values := writes.values.insert pair.1 pair.2 } =
      (table.write writes).putValue pair := by
  apply Table.ext
  · intro key
    show _ = ((table.write writes).values.insert pair.1 pair.2)[key]?
    simp only [Table.getElem?_write_values, ExtTreeMap.getElem?_insert]
    split <;> rfl
  · intro clientId
    show _ = (table.write writes).clients[clientId]?
    simp only [Table.getElem?_write_clients]

theorem Table.write_insert_client (table : Table) (writes : Writes)
    (client : Nat × Option KvClientRecord) :
    table.write { writes with clients := writes.clients.insert client.1 client.2 } =
      (table.write writes).putClient client := by
  apply Table.ext
  · intro key
    show _ = (table.write writes).values[key]?
    simp only [Table.getElem?_write_values]
  · intro clientId
    show _ = (change (table.write writes).clients client)[clientId]?
    rw [Table.getElem?_write_clients]
    by_cases same : client.1 = clientId
    · subst same
      rw [getElem?_change_self, ExtTreeMap.getElem?_insert_self, Option.getD_some]
    · rw [getElem?_change_other same, Table.getElem?_write_clients, ExtTreeMap.getElem?_insert,
        if_neg fun isSame => same (Std.LawfulEqCmp.eq_of_compare isSame)]

/-! ## Batches -/

theorem other_ne (data : Fin 2) : 1 - data ≠ data := by
  revert data
  decide

theorem other_other (data : Fin 2) : 1 - (1 - data) = data := by
  revert data
  decide

/-- A batch shows in a keyspace as its writes to it. -/
theorem commit_at (image : Image) (batch : Batch) (keyspace : KeyspaceId) :
    Commits.commit image batch keyspace =
      (batch.filter fun write => write.keyspace = keyspace).foldl Write.run (image keyspace) := by
  induction batch generalizing image with
  | nil => rfl
  | cons write rest ih =>
      show Commits.commit (write.apply image) rest keyspace = _
      rw [ih, List.filter_cons]
      by_cases same : write.keyspace = keyspace
      · rw [if_pos (decide_eq_true same), List.foldl_cons, Write.apply, if_pos same.symm]
      · rw [if_neg (by simpa using same), Write.apply, if_neg (Ne.symm same)]

theorem commit_other {image : Image} {batch : Batch} {keyspace : KeyspaceId}
    (others : ∀ write ∈ batch, write.keyspace ≠ keyspace) :
    Commits.commit image batch keyspace = image keyspace := by
  rw [commit_at, List.filter_eq_nil_iff.mpr fun write mem => by simpa using others write mem]
  rfl

/-- A batch that writes one keyspace runs on it. -/
theorem commit_self {image : Image} {batch : Batch} {keyspace : KeyspaceId}
    (all : ∀ write ∈ batch, write.keyspace = keyspace) :
    Commits.commit image batch keyspace = batch.foldl Write.run (image keyspace) := by
  rw [commit_at, List.filter_eq_self.mpr fun write mem => decide_eq_true (all write mem)]

section
variable {image : Image} {data : Fin 2} {table : Table} {writes : Writes} {opNumber : Nat}

/-- The changes that putting values and client records makes in a keyspace. -/
theorem foldl_run_insert (keyspace : KeyspaceId) (held : Keyspace) (pairs : List (Text × Text)) :
    (pairs.map fun pair => Write.insert keyspace (dataKey pair.1) pair.2).foldl Write.run held =
      changes held (pairs.map fun pair => (dataKey pair.1, some pair.2)) := by
  unfold changes
  rw [List.foldl_map, List.foldl_map]
  rfl

theorem foldl_run_client (keyspace : KeyspaceId) (held : Keyspace)
    (clients : List (Nat × Option KvClientRecord)) :
    (clients.map fun client => clientWrite keyspace client.1 client.2).foldl Write.run held =
      changes held
        (clients.map fun client => (clientKey client.1, client.2.map encodeClient)) := by
  unfold changes
  rw [List.foldl_map, List.foldl_map]
  congr 1
  funext held client
  obtain ⟨clientId, record⟩ := client
  cases record <;> rfl

theorem dataWrites_keyspace {keyspace : KeyspaceId} {write : Write}
    (mem : write ∈ dataWrites keyspace writes) : write.keyspace = keyspace := by
  rcases List.mem_append.mp mem with mem | mem
  · obtain ⟨pair, _, rfl⟩ := List.mem_map.mp mem
    rfl
  · obtain ⟨⟨clientId, record⟩, _, rfl⟩ := List.mem_map.mp mem
    cases record <;> rfl

theorem commit_append (image : Image) (first second : Batch) :
    Commits.commit image (first ++ second) = Commits.commit (Commits.commit image first) second :=
  List.foldl_append

theorem writeBatch_represents (represents : Represents (image (.data data)) table)
    (fits : writes.Fits) :
    Represents (Commits.commit image (writeBatch data writes opNumber) (.data data))
      (table.write writes) := by
  have counter : Commits.commit (Commits.commit image (dataWrites (.data data) writes))
      [Write.insert .metadata appliedKey (pushNumber opNumber)] (.data data) =
        Commits.commit image (dataWrites (.data data) writes) (.data data) :=
    commit_other (by simp [Write.keyspace])
  unfold writeBatch
  rw [commit_append, counter, commit_self fun write => dataWrites_keyspace]
  unfold dataWrites
  rw [List.foldl_append, foldl_run_insert, foldl_run_client]
  exact (represents.putValues _).putClients fits

theorem writeBatch_other {other : Fin 2} (different : other ≠ data) :
    Commits.commit image (writeBatch data writes opNumber) (.data other) = image (.data other) := by
  refine commit_other fun write mem => ?_
  rcases List.mem_append.mp mem with mem | mem
  · rw [dataWrites_keyspace mem]
    exact fun same => different (KeyspaceId.data.inj same).symm
  · rw [List.mem_singleton.mp mem]
    exact fun same => by cases same

theorem writeBatch_metadata :
    Commits.commit image (writeBatch data writes opNumber) .metadata =
      (image .metadata).insert appliedKey (pushNumber opNumber) := by
  have untouched : Commits.commit image (dataWrites (.data data) writes) .metadata =
      image .metadata := by
    refine commit_other fun write mem => ?_
    rw [dataWrites_keyspace mem]
    exact fun same => by cases same
  unfold writeBatch
  rw [commit_append, commit_self (by simp [Write.keyspace]), untouched]
  rfl

/-- The changes a chunk makes in a keyspace. -/
def chunkChanges (chunk : StoreChunk) : List (Text × Option Text) :=
  (chunk.pairs.map fun pair => (dataKey pair.1, some pair.2)) ++
    chunk.clients.map fun record => (clientKey record.clientId, some (encodeClient record))

theorem chunkBatch_keyspace {chunk : StoreChunk} {write : Write} (mem : write ∈ chunkBatch data chunk) :
    write.keyspace = .data data := by
  rcases List.mem_append.mp mem with mem | mem <;> obtain ⟨_, _, rfl⟩ := List.mem_map.mp mem <;> rfl

theorem chunkBatch_changes (chunk : StoreChunk) :
    Commits.commit image (chunkBatch data chunk) (.data data) =
      changes (image (.data data)) (chunkChanges chunk) := by
  rw [commit_self fun write => chunkBatch_keyspace]
  unfold chunkBatch chunkChanges changes
  rw [List.foldl_append, List.foldl_append, List.foldl_map, List.foldl_map, List.foldl_map,
    List.foldl_map]
  rfl

theorem chunkBatch_represents {chunk : StoreChunk} (represents : Represents (image (.data data)) table)
    (fits : ∀ record ∈ chunk.clients, ClientFits record) :
    Represents (Commits.commit image (chunkBatch data chunk) (.data data)) (table.stage chunk) := by
  have handed : ∀ client ∈ chunk.clients.map fun record => (record.clientId, some record),
      HandedFits client := by
    rintro client mem record isRecord
    obtain ⟨found, isFound, rfl⟩ := List.mem_map.mp mem
    cases isRecord
    exact ⟨rfl, fits _ isFound⟩
  have clients : (chunk.clients.map fun record => (clientKey record.clientId, some (encodeClient record)))
      = (chunk.clients.map fun record => (record.clientId, some record)).map fun client =>
        (clientKey client.1, client.2.map encodeClient) := by
    rw [List.map_map]
    rfl
  rw [chunkBatch_changes]
  unfold chunkChanges changes
  rw [List.foldl_append, clients]
  exact (represents.putValues _).putClients handed

end

/-! ## What the store reads -/

namespace Store

variable {store : Store} {base : Table}

/-- The table fjall holds, with the writes it may lack over it. -/
def view (store : Store) (base : Table) : Table := store.overlay.foldl Table.write base

theorem get_eq (represents : Represents (store.db.live (.data store.current)) base) (key : Text) :
    store.get key = (store.view base).values[key]? := by
  unfold get view overlay
  rw [represents.value, List.foldl_append, List.foldl_cons, List.foldl_nil,
    Table.getElem?_write_values]
  cases store.dirty.values[key]? with
  | some value => rfl
  | none =>
      cases store.flushing with
      | none => rfl
      | some flushing =>
          have flushed := base.getElem?_write_values flushing.writes key
          cases found : flushing.writes.values[key]? with
          | none =>
              rw [found, Option.none_or] at flushed
              simpa [found] using flushed.symm
          | some value =>
              rw [found, Option.some_or] at flushed
              simpa [found] using flushed.symm

/-- The keys under a prefix that spells keys one to one. -/
theorem committed_nodup (store : Store) (start : Text) :
    ((store.committed start).map Prod.fst).Nodup := by
  have names : (store.committed start).map Prod.fst =
      ((store.db.live (.data store.current)).toList.map Prod.fst).filterMap (stripPrefix start) := by
    unfold committed
    rw [List.map_filterMap, List.filterMap_map]
    congr 1
    funext pair
    show ((stripPrefix start pair.1).map _).map _ = stripPrefix start pair.1
    cases stripPrefix start pair.1 <;> rfl
  rw [names]
  refine (nodup_keys_toList _).filterMap fun key key' name isKey isKey' => ?_
  rw [stripPrefix_eq_some.mp isKey, stripPrefix_eq_some.mp isKey']

theorem committed_values (represents : Represents (store.db.live (.data store.current)) base) :
    ExtTreeMap.ofList (store.committed keyPrefix) compareKeys = base.values := by
  refine ofList_eq_of_mem_iff (store.committed_nodup keyPrefix) fun pair => ?_
  unfold committed
  rw [List.mem_filterMap, ← represents.value, ← ExtTreeMap.mem_toList_iff_getElem?_eq_some]
  constructor
  · rintro ⟨found, mem, isPair⟩
    obtain ⟨name, isName, rfl⟩ := Option.map_eq_some_iff.mp isPair
    have isKey := stripPrefix_eq_some.mp isName
    rw [show dataKey name = found.1 from isKey.symm]
    exact mem
  · intro mem
    exact ⟨_, mem, by rw [stripPrefix_dataKey]; rfl⟩

theorem foldl_insert_values (pairs : List (Text × Text)) (table : Table) :
    pairs.foldl (fun values pair => values.insert pair.1 pair.2) table.values =
      (pairs.foldl Table.putValue table).values := by
  induction pairs generalizing table with
  | nil => rfl
  | cons pair rest ih => exact ih (table.putValue pair)

theorem pairs_eq (represents : Represents (store.db.live (.data store.current)) base) :
    store.pairs = (store.view base).values.toList := by
  have folds : ∀ (all : List Writes) (table : Table),
      all.foldl (fun pairs writes => writes.values.toList.foldl
        (fun pairs pair => pairs.insert pair.1 pair.2) pairs) table.values =
        (all.foldl Table.write table).values := by
    intro all
    induction all with
    | nil => exact fun table => rfl
    | cons writes rest ih =>
        intro table
        rw [List.foldl_cons, List.foldl_cons, ← ih (table.write writes)]
        congr 1
        rw [foldl_insert_values, Table.write, foldl_putClient]
  unfold pairs view
  dsimp only
  rw [committed_values represents, folds]

theorem mapM_eq_filterMap {α β : Type} {f : α → Option β} {l : List α}
    (all : ∀ a ∈ l, (f a).isSome) : l.mapM f = some (l.filterMap f) := by
  induction l with
  | nil => rfl
  | cons a rest ih =>
      obtain ⟨b, isB⟩ := Option.isSome_iff_exists.mp (all a List.mem_cons_self)
      rw [List.mapM_cons, ih fun other mem => all other (List.mem_cons_of_mem _ mem), isB,
        List.filterMap_cons_some isB]
      rfl

theorem committed_client (represents : Represents (store.db.live (.data store.current)) base)
    {pair : Text × Text} (mem : pair ∈ store.committed clientPrefix) :
    ∃ record, pair = (pushNumber record.clientId, encodeClient record) ∧
      base.clients[record.clientId]? = some record ∧ clientAt pair.1 pair.2 = some record := by
  obtain ⟨found, isFound, isPair⟩ := List.mem_filterMap.mp mem
  obtain ⟨name, isName, rfl⟩ := Option.map_eq_some_iff.mp isPair
  rcases represents.pair_cases isFound with ⟨key, isKey, _⟩ | ⟨record, rfl, isRecord, fits⟩
  · rw [stripPrefix_eq_some.mp isName] at isKey
    cases isKey
  · rw [(stripPrefix_clientKey record.clientId).2] at isName
    cases isName
    exact ⟨record, rfl, isRecord, clientAt_encodeClient fits⟩

theorem mem_committed_client (represents : Represents (store.db.live (.data store.current)) base)
    {record : KvClientRecord} (isRecord : base.clients[record.clientId]? = some record) :
    (pushNumber record.clientId, encodeClient record) ∈ store.committed clientPrefix := by
  have held := represents.client record.clientId
  rw [isRecord] at held
  refine List.mem_filterMap.mpr ⟨(clientKey record.clientId, encodeClient record),
    ExtTreeMap.mem_toList_iff_getElem?_eq_some.mpr held, ?_⟩
  rw [(stripPrefix_clientKey record.clientId).2]
  rfl

/-- The records of the clients fjall holds. -/
theorem committed_clients (represents : Represents (store.db.live (.data store.current)) base) :
    ∃ records, (store.committed clientPrefix).mapM (fun pair => clientAt pair.1 pair.2) =
        some records ∧
      ExtTreeMap.ofList (records.map fun record => (record.clientId, record)) compare =
        base.clients := by
  have names : ∀ l : List (Text × Text), (∀ pair ∈ l, pair ∈ store.committed clientPrefix) →
      (l.filterMap fun pair => clientAt pair.1 pair.2).map (fun record => pushNumber record.clientId) =
        l.map Prod.fst := by
    intro l within
    induction l with
    | nil => rfl
    | cons pair rest ih =>
        obtain ⟨record, isPair, _, isRecord⟩ := committed_client represents (within pair List.mem_cons_self)
        simp only [List.filterMap_cons, isRecord, List.map_cons]
        rw [ih fun other mem => within other (List.mem_cons_of_mem _ mem), isPair]
  refine ⟨_, mapM_eq_filterMap fun pair mem => ?_, ofList_eq_of_mem_iff ?_ fun pair => ?_⟩
  · obtain ⟨record, _, _, isRecord⟩ := committed_client represents mem
    rw [isRecord]
    rfl
  · have distinct := names _ (fun _ mem => mem) ▸ store.committed_nodup clientPrefix
    rw [List.map_map]
    refine List.Nodup.of_map pushNumber ?_
    rw [List.map_map]
    exact distinct
  · rw [List.mem_map]
    constructor
    · rintro ⟨record, mem, rfl⟩
      obtain ⟨found, isFound, isRecord⟩ := List.mem_filterMap.mp mem
      obtain ⟨record', _, held, isRecord'⟩ := committed_client represents isFound
      rw [isRecord] at isRecord'
      cases isRecord'
      exact held
    · intro held
      obtain ⟨isId, fits⟩ := represents.fits pair.1 pair.2 held
      rw [← isId] at held
      refine ⟨pair.2, List.mem_filterMap.mpr ⟨_, mem_committed_client represents held, ?_⟩,
        Prod.ext isId rfl⟩
      exact clientAt_encodeClient fits

theorem overlayClients_eq (table : Table) (writes : Writes) :
    overlayClients table.clients writes = (table.write writes).clients := by
  rw [Table.write_eq]
  unfold overlayClients changes
  dsimp only
  congr 1
  funext clients client
  obtain ⟨clientId, record⟩ := client
  cases record <;> rfl

theorem clientTable_eq (represents : Represents (store.db.live (.data store.current)) base) :
    store.clientTable = some (store.view base).clients.values := by
  have folds : ∀ (all : List Writes) (table : Table),
      all.foldl overlayClients table.clients = (all.foldl Table.write table).clients := by
    intro all
    induction all with
    | nil => exact fun table => rfl
    | cons writes rest ih =>
        intro table
        rw [List.foldl_cons, List.foldl_cons, overlayClients_eq, ih]
  obtain ⟨records, isRecords, isTable⟩ := committed_clients represents
  unfold clientTable view
  rw [isRecords]
  show some (store.overlay.foldl overlayClients (ExtTreeMap.ofList _ compare)).values = _
  rw [isTable, folds]

end Store

end Vsr.Kvstore
