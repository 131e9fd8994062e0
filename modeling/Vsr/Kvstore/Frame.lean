import Mathlib.Algebra.Group.Nat.Defs
import Vsr.Cursor
import Vsr.Journal.Record

/-!
# Frames between nodes

The messages and replies nodes of the kvstore example send each other, a line of
words each, and the cursor that reads them back.
-/

set_option autoImplicit false

namespace Vsr.Kvstore

open Journal (Text pushNumber parseNumber words)
open Cursor (next? times panic)

/-! ## What is sent -/

/-- A write. -/
inductive Op where
  | put (key value : Text)
  deriving DecidableEq, Repr

/-- A run of a checkpoint's keys and values and client records. -/
structure StoreChunk where
  pairs : List (Text × Text)
  clients : List (ClientRecord (Option Text))
  deriving DecidableEq, Repr

inductive Frame where
  | message (message : Message Op Text StoreChunk)
  | reply (reply : Reply (Option Text))
  deriving DecidableEq, Repr

/-! ## Encoding -/

/-- Texts with a blank between any two. -/
def spaced : List Text → Text
  | [] => []
  | [text] => text
  | text :: rest => text ++ ' ' :: spaced rest

/-- The texts of numbers. -/
def numbers (numbers : List Nat) : List Text := numbers.map pushNumber

def writeOp : Op → Text
  | .put key value => spaced ["PUT".toList, key, value]

def writeEntry : LogEntry Op → Text
  | .register clientId => spaced ["REG".toList, pushNumber clientId]
  | .request clientId session requestNumber answered op =>
      spaced ("REQ".toList :: numbers [clientId, session, requestNumber, answered] ++ [writeOp op])

def encodeEntries (log : List (LogEntry Op)) : Text :=
  spaced (pushNumber log.length :: log.map writeEntry)

def encodeResult : Option Text → Text
  | some value => '+' :: value
  | none => ['-']

def encodeClient (record : ClientRecord (Option Text)) : Text :=
  spaced (numbers [record.session, record.requestNumber, record.opNumber, record.replies.length] ++
    record.replies.map encodeResult)

def encodeChunk (chunk : StoreChunk) : Text :=
  spaced (pushNumber chunk.clients.length ::
    chunk.clients.map (fun record => spaced [pushNumber record.clientId, encodeClient record]) ++
    pushNumber chunk.pairs.length :: chunk.pairs.map fun pair => spaced [pair.1, pair.2])

def encodeBase : LogBase → Text
  | .op opNumber => spaced ["-".toList, pushNumber opNumber]
  | .checkpoint opNumber => spaced ["+".toList, pushNumber opNumber]

def encodeSegment (segment : LogSegment Op) : Text :=
  spaced [encodeBase segment.base, encodeEntries segment.entries]

/-- A kind of frame, the numbers it starts with, and the rest of it. -/
def line (kind : String) (fields : List Nat) (rest : List Text) : Text :=
  spaced (kind.toList :: numbers fields ++ rest)

def encode : Frame → Text
  | .message message =>
      match message with
      | .register clientId => line "REGISTER" [clientId] []
      | .request clientId session requestNumber answered op =>
          line "REQUEST" [clientId, session, requestNumber, answered] [writeOp op]
      | .query clientId queryNumber query => line "QUERY" [clientId, queryNumber] [query]
      | .confirmView viewNumber round => line "CONFIRMVIEW" [viewNumber, round] []
      | .confirmViewOk viewNumber round replicaId =>
          line "CONFIRMVIEWOK" [viewNumber, round, replicaId] []
      | .prepare viewNumber opNumber entry commitNumber =>
          line "PREPARE" [viewNumber, opNumber, commitNumber] [writeEntry entry]
      | .prepareOk viewNumber opNumber replicaId =>
          line "PREPAREOK" [viewNumber, opNumber, replicaId] []
      | .commit viewNumber commitNumber => line "COMMIT" [viewNumber, commitNumber] []
      | .getState replicaId viewNumber opNumber =>
          line "GETSTATE" [replicaId, viewNumber, opNumber] []
      | .newState replicaId viewNumber segment commitNumber =>
          line "NEWSTATE" [replicaId, viewNumber, commitNumber] [encodeSegment segment]
      | .getChunk replicaId opNumber index => line "GETCHUNK" [replicaId, opNumber, index] []
      | .newChunk replicaId opNumber index chunk last =>
          line "NEWCHUNK" [replicaId, opNumber, index, last.toNat] [encodeChunk chunk]
      | .startViewChange viewNumber replicaId => line "STARTVIEWCHANGE" [viewNumber, replicaId] []
      | .doViewChange viewNumber replicaId lastNormalView segment commitNumber =>
          line "DOVIEWCHANGE" [viewNumber, replicaId, lastNormalView, commitNumber]
            [encodeSegment segment]
      | .startView viewNumber segment commitNumber =>
          line "STARTVIEW" [viewNumber, commitNumber] [encodeSegment segment]
      | .recovery replicaId nonce viewNumber => line "RECOVERY" [replicaId, nonce, viewNumber] []
      | .recoveryResponse viewNumber nonce replicaId state =>
          match state with
          | some state =>
              line "RECOVERYRESPONSE" [viewNumber, nonce, replicaId]
                ["+".toList, pushNumber state.commitNumber, encodeSegment state.segment]
          | none => line "RECOVERYRESPONSE" [viewNumber, nonce, replicaId] ["-".toList]
  | .reply reply =>
      match reply with
      | .registered viewNumber clientId session =>
          line "REGISTERED" [viewNumber, clientId, session] []
      | .executed viewNumber clientId session requestNumber result =>
          line "EXECUTED" [viewNumber, clientId, session, requestNumber] [encodeResult result]
      | .evicted viewNumber clientId session => line "EVICTED" [viewNumber, clientId, session] []
      | .queried viewNumber clientId queryNumber result =>
          line "QUERIED" [viewNumber, clientId, queryNumber] [encodeResult result]

/-! ## Reading back -/

/-- `str::parse` for a number of 64 bits. -/
def parse (word : Text) : Option Nat := (parseNumber word).filter (· < 2 ^ 64)

/-- `{:?}` of a word. -/
def debug (word : Text) : String := (String.ofList word).quote

def word : Cursor Text Text := do
  match ← next? with
  | some word => pure word
  | none => throw "truncated message"

def num : Cursor Text Nat := do
  let word ← word
  match parse word with
  | some n => pure n
  | none => throw ("bad number " ++ debug word)

/-- A number that is not a `usize`, parsed where it is read. -/
def numOr (err : String) : Cursor Text Nat := do
  match parse (← word) with
  | some n => pure n
  | none => throw err

/-- The most items reserved up front, whatever count a frame claims. -/
def reservedMax : Nat := 1024

/-- The most elements of at most 128 bytes that a vector can hold: reserving more
panics. -/
def capacityMax : Nat := (2 ^ 63 - 1) / 128

def withCapacity (capacity : Nat) : Cursor Text Unit :=
  if capacity ≤ capacityMax then pure () else panic

/-- Whatever count a frame claims, the room reserved for it is there. -/
theorem withCapacity_reserved (count : Nat) : withCapacity (min count reservedMax) = pure () := by
  have inside : min count reservedMax ≤ capacityMax := (min_le_right _ _).trans (by decide)
  exact if_pos inside

/-- A count, and so many of what `item` reads. -/
def counted {α : Type} (item : Cursor Text α) : Cursor Text (List α) := do
  let count ← num
  withCapacity (min count reservedMax)
  times item count

def op : Cursor Text Op := do
  match String.ofList (← word) with
  | "PUT" => do
      let key ← word
      let value ← word
      pure (.put key value)
  | kind => throw ("bad op " ++ kind.quote)

def entry : Cursor Text (LogEntry Op) := do
  match String.ofList (← word) with
  | "REG" => do
      let clientId ← num
      pure (.register clientId)
  | "REQ" => do
      let clientId ← num
      let session ← num
      let requestNumber ← num
      let answered ← num
      let op ← op
      pure (.request clientId session requestNumber answered op)
  | kind => throw ("bad entry " ++ kind.quote)

/-- `&value[1..]`, a panic unless the second byte starts a character. -/
def afterFirst : Text → Option Text
  | [] => none
  | c :: rest => if c.utf8Size = 1 then some rest else none

def result : Cursor Text (Option Text) := do
  match ← word with
  | ['-'] => pure none
  | value =>
      match afterFirst value with
      | some value => pure (some value)
      | none => panic

def client (clientId : Nat) : Cursor Text (ClientRecord (Option Text)) := do
  let session ← num
  let requestNumber ← num
  let opNumber ← num
  let replies ← counted result
  pure { clientId, session, requestNumber, replies, opNumber }

def entries : Cursor Text (List (LogEntry Op)) := counted entry

/-- Fails if a word is left. -/
def done : Cursor Text Unit := do
  match ← next? with
  | none => pure ()
  | some word => throw ("trailing " ++ debug word)

def chunk : Cursor Text StoreChunk := do
  let clients ← counted do
    let clientId ← num
    client clientId
  let pairs ← counted do
    let key ← word
    let value ← word
    pure (key, value)
  pure { pairs, clients }

def flag : Cursor Text Bool := do
  match String.ofList (← word) with
  | "0" => pure false
  | "1" => pure true
  | word => throw ("bad flag " ++ word.quote)

def base : Cursor Text LogBase := do
  match String.ofList (← word) with
  | "-" => do
      let opNumber ← num
      pure (.op opNumber)
  | "+" => do
      let opNumber ← num
      pure (.checkpoint opNumber)
  | word => throw ("bad segment base " ++ word.quote)

def segment : Cursor Text (LogSegment Op) := do
  let base ← base
  let entries ← entries
  pure { base, entries }

/-- The state of a primary in a `RecoveryResponse`, if it sends one. -/
def recoveryState : Cursor Text (Option (RecoveryState Op)) := do
  match String.ofList (← word) with
  | "+" => do
      let commitNumber ← num
      let segment ← segment
      pure (some { segment, commitNumber })
  | _ => pure none

/-- The rest of a frame of kind `kind`. -/
def body (kind : String) : Cursor Text Frame :=
  match kind with
  | "REGISTER" => do
      let clientId ← num
      pure (.message (.register clientId))
  | "REQUEST" => do
      let clientId ← num
      let session ← num
      let requestNumber ← num
      let answered ← num
      let op ← op
      pure (.message (.request clientId session requestNumber answered op))
  | "QUERY" => do
      let clientId ← num
      let queryNumber ← num
      let query ← word
      pure (.message (.query clientId queryNumber query))
  | "CONFIRMVIEW" => do
      let viewNumber ← num
      let round ← numOr "bad round"
      pure (.message (.confirmView viewNumber round))
  | "CONFIRMVIEWOK" => do
      let viewNumber ← num
      let round ← numOr "bad round"
      let replicaId ← num
      pure (.message (.confirmViewOk viewNumber round replicaId))
  | "PREPARE" => do
      let viewNumber ← num
      let opNumber ← num
      let commitNumber ← num
      let entry ← entry
      pure (.message (.prepare viewNumber opNumber entry commitNumber))
  | "PREPAREOK" => do
      let viewNumber ← num
      let opNumber ← num
      let replicaId ← num
      pure (.message (.prepareOk viewNumber opNumber replicaId))
  | "COMMIT" => do
      let viewNumber ← num
      let commitNumber ← num
      pure (.message (.commit viewNumber commitNumber))
  | "GETSTATE" => do
      let replicaId ← num
      let viewNumber ← num
      let opNumber ← num
      pure (.message (.getState replicaId viewNumber opNumber))
  | "NEWSTATE" => do
      let replicaId ← num
      let viewNumber ← num
      let commitNumber ← num
      let segment ← segment
      pure (.message (.newState replicaId viewNumber segment commitNumber))
  | "GETCHUNK" => do
      let replicaId ← num
      let opNumber ← num
      let index ← num
      pure (.message (.getChunk replicaId opNumber index))
  | "NEWCHUNK" => do
      let replicaId ← num
      let opNumber ← num
      let index ← num
      let last ← flag
      let chunk ← chunk
      pure (.message (.newChunk replicaId opNumber index chunk last))
  | "STARTVIEWCHANGE" => do
      let viewNumber ← num
      let replicaId ← num
      pure (.message (.startViewChange viewNumber replicaId))
  | "DOVIEWCHANGE" => do
      let viewNumber ← num
      let replicaId ← num
      let lastNormalView ← num
      let commitNumber ← num
      let segment ← segment
      pure (.message (.doViewChange viewNumber replicaId lastNormalView segment commitNumber))
  | "STARTVIEW" => do
      let viewNumber ← num
      let commitNumber ← num
      let segment ← segment
      pure (.message (.startView viewNumber segment commitNumber))
  | "RECOVERY" => do
      let replicaId ← num
      let nonce ← numOr "bad nonce"
      let viewNumber ← num
      pure (.message (.recovery replicaId nonce viewNumber))
  | "RECOVERYRESPONSE" => do
      let viewNumber ← num
      let nonce ← numOr "bad nonce"
      let replicaId ← num
      let state ← recoveryState
      pure (.message (.recoveryResponse viewNumber nonce replicaId state))
  | "REGISTERED" => do
      let viewNumber ← num
      let clientId ← num
      let session ← num
      pure (.reply (.registered viewNumber clientId session))
  | "EXECUTED" => do
      let viewNumber ← num
      let clientId ← num
      let session ← num
      let requestNumber ← num
      let result ← result
      pure (.reply (.executed viewNumber clientId session requestNumber result))
  | "EVICTED" => do
      let viewNumber ← num
      let clientId ← num
      let session ← num
      pure (.reply (.evicted viewNumber clientId session))
  | "QUERIED" => do
      let viewNumber ← num
      let clientId ← num
      let queryNumber ← num
      let result ← result
      pure (.reply (.queried viewNumber clientId queryNumber result))
  | kind => throw ("unknown message " ++ kind.quote)

def frame : Cursor Text Frame := do
  let kind ← word
  body (String.ofList kind)

/-- The frame a line holds, and `none` if decoding it panics. -/
def decode (line : Text) : Option (Except String Frame) :=
  (frame.read (words line)).map (·.map Prod.fst)

/-- An entry and nothing after it. -/
def lastEntry : Cursor Text (LogEntry Op) := do
  let entry ← entry
  done
  pure entry

/-- The entry a line of the journal holds, and `none` if decoding it panics. -/
def decodeEntry (text : Text) : Option (Except String (LogEntry Op)) :=
  (lastEntry.read (words text)).map (·.map Prod.fst)

end Vsr.Kvstore
