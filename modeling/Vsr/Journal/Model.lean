import Vsr.OrderedMap
import Vsr.Journal.Record

/-!
# The journal of a replica

The journal keeps the writes of a replica as records of a write-ahead log, whose
files it has deleted once a replay needs nothing they hold.  The write-ahead log
itself is what it replays as: its records in append order, each with its file.
-/

set_option autoImplicit false

namespace Vsr

/-- A journal, apart from the files it writes to. -/
structure Journal where
  /-- The files holding the retained entries: each maps the first op number of a
  run of entries to the file that holds the run, which lasts until the next. -/
  runs : OrderedMap Nat
  /-- The file holding the latest write. -/
  lastFile : Nat
  trimmedBefore : Nat
  /-- Whether a deletion of files is out that has not been answered. -/
  trimming : Bool

namespace Journal

variable {Op : Type}

/-! ## Replaying the records -/

/-- What a replay has read: the entries with their files, and the latest counters
with theirs. -/
structure Replay (Op : Type) where
  entries : OrderedMap (LogEntry Op × Nat)
  header : Option (Header × Nat)

/-- The entries `written`, from a record in `file`, replace what they follow. -/
def Replay.put (replay : Replay Op) (file : Nat) (written : List (Nat × LogEntry Op))
    (counters : Header) : Replay Op where
  entries := written.foldl (fun entries numbered => entries.insert numbered.1 (numbered.2, file))
    ((replay.entries.splitOff (counters.logStart + 1)).before counters.entriesFrom)
  header := some (counters, file)

def replayFrom (codec : EntryCodec Op) (replay : Replay Op) :
    List (Nat × Text) → Except String (Replay Op)
  | [] => .ok replay
  | (file, text) :: rest =>
      match readRecord codec text with
      | .error err => .error err
      | .ok (written, counters) => replayFrom codec (replay.put file written counters) rest

/-- The log of the ops asked for, and the runs of files that hold it. -/
def rebuild (entries : OrderedMap (LogEntry Op × Nat)) (log : List (LogEntry Op))
    (runs : OrderedMap Nat) : List Nat → Except String (List (LogEntry Op) × OrderedMap Nat)
  | [] => .ok (log, runs)
  | opNumber :: rest =>
      match entries.get? opNumber with
      | none => .error ("journal lacks op " ++ toString opNumber)
      | some (entry, file) =>
          if runs.last?.map Prod.snd ≠ some file then
            rebuild entries (log ++ [entry]) (runs.insert opNumber file) rest
          else rebuild entries (log ++ [entry]) runs rest

/-- Opens the journal on the records of its files and replays them.  Returns the
state of the replica if it has run before. -/
def openFiles (codec : EntryCodec Op) (files : List (Nat × Text)) :
    Except String (Journal × Option (PersistentState Op)) :=
  match replayFrom codec ⟨.empty, none⟩ files with
  | .error err => .error err
  | .ok ⟨_, none⟩ => .ok (⟨.empty, 0, 0, false⟩, none)
  | .ok ⟨entries, some (header, lastFile)⟩ =>
      match checkedSub header.opNumber header.logStart with
      | none => .error "attempt to subtract with overflow"
      | some length =>
          match rebuild entries [] .empty (List.range' (header.logStart + 1) length) with
          | .error err => .error err
          | .ok (log, runs) => .ok (⟨runs, lastFile, 0, false⟩, some
              { viewNumber := header.viewNumber
                lastNormalView := header.lastNormalView
                commitNumber := header.commitNumber
                logStart := header.logStart
                log := log
                recovering := header.recovering })

/-! ## Where a write landed -/

/-- What polling a trim that is out says. -/
inductive Poll where
  | pending
  | deleted
  | failed (err : String)

/-- Reads the answer to the trim that is out, if it has come.  Returns whether
the trim is still out. -/
def trimOut (journal : Journal) (poll : Poll) : Except String (Journal × Bool) :=
  if journal.trimming then
    match poll with
    | .pending => .ok (journal, true)
    | .deleted => .ok ({ journal with trimming := false }, false)
    | .failed err => .error ("cannot trim journal: " ++ err)
  else .ok (journal, false)

/-- The replaced entries no longer pin their files; the new ones pin `file`. -/
def pin (runs : OrderedMap Nat) (write : LogWrite Op) (file : Nat) : OrderedMap Nat :=
  let runs := runs.before write.entriesFrom
  if write.entries.isEmpty then runs else runs.insert write.entriesFrom file

/-- The compacted entries leave the first run. -/
def retain (runs : OrderedMap Nat) (firstRetained opNumber : Nat) : OrderedMap Nat :=
  let covering := (runs.atMost? firstRetained).map Prod.snd
  let runs := runs.splitOff firstRetained
  match covering with
  | some file =>
      if opNumber ≥ firstRetained then
        match runs.get? firstRetained with
        | some _ => runs
        | none => runs.insert firstRetained file
      else runs
  | none => runs

/-- The runs after `write` landed in `file`. -/
def place (runs : OrderedMap Nat) (write : LogWrite Op) (file : Nat) : OrderedMap Nat :=
  retain (pin runs write file) (write.logStart + 1) write.opNumber

/-- The oldest file a replay needs. -/
def oldest (runs : OrderedMap Nat) (lastFile : Nat) : Nat :=
  match runs.first? with
  | none => lastFile
  | some (_, file) => min file lastFile

/-- Records where `write` landed, and the bound below which it has files deleted,
if it does.  `answer` and `next` are what polling a trim that is out says. -/
def finish (journal : Journal) (write : LogWrite Op) (ids : List Nat) (answer next : Poll) :
    Except String Journal × Option Nat :=
  let lastFile := ids.getLast?.getD journal.lastFile
  let runs := place journal.runs write lastFile
  match { journal with runs := runs, lastFile := lastFile }.trimOut answer with
  | .error err => (.error err, none)
  | .ok (journal, out) =>
      if oldest runs lastFile > journal.trimmedBefore ∧ out = false then
        match { journal with trimming := true }.trimOut next with
        | .error err => (.error err, some (oldest runs lastFile))
        | .ok (journal, _) =>
            (.ok { journal with trimmedBefore := oldest runs lastFile }, some (oldest runs lastFile))
      else (.ok journal, none)

end Journal

end Vsr
