import Mathlib.Logic.Equiv.List
import Vsr.Accumulator
import Vsr.Durable.Owner
import Vsr.Journal.Replay

/-!
# A replica over its journal

A host keeps what its replica writes in a journal, deletes files the journal has
passed, and after a crash goes on from what the journal replays.
-/

set_option autoImplicit false

namespace Vsr

/-- The calls of a replica between its writes. -/
inductive Replica.Call {SM : Type} [StateMachine SM] (r : Replica SM) : Replica SM → Prop
  | message {r' : Replica SM} (message : MessageFor SM) (run : r.onMessage message = some r') :
      Call r r'
  | idle {r' : Replica SM} (run : r.onIdle = some r') : Call r r'
  | compact {r' : Replica SM} (opNumber : Nat) (run : r.compact opNumber = some r') : Call r r'
  | drainBeforePersist : Call r r.drainMessagesBeforePersist.1
  | drain : Call r r.drainMessages.1
  | drainReplies : Call r r.drainReplies.1

/-- An owner with its journal. -/
structure Host (SM : Type) [StateMachine SM] where
  owner : Owner SM
  journal : Journal
  /-- The records of the files that are left. -/
  files : List (Nat × Journal.Text)
  /-- The writes that have landed, each with its file. -/
  writes : List (Nat × LogWrite (Input SM))
  /-- The greatest bound below which the journal has had files deleted. -/
  passed : Nat
  /-- The file of a write that has landed and is not yet finished. -/
  landing : Option Nat

namespace Host

open Journal

variable {SM : Type} [StateMachine SM] {codec : EntryCodec (Input SM)}

/-- What the host does next. -/
inductive Step (codec : EntryCodec (Input SM)) : Host SM → Host SM → Prop
  | call {h : Host SM} {r : Replica SM} (call : h.owner.replica.Call r) :
      Step codec h { h with owner := { h.owner with replica := r } }
  | take {h : Host SM} {r : Replica SM} {write : LogWrite (Input SM)} (none : h.owner.out = none)
      (run : h.owner.replica.takeWrite = some (r, write)) :
      Step codec h { h with owner := { h.owner with replica := r, out := some (write, false) } }
  /-- The record of a write lands in a file no older than those before. -/
  | land {h : Host SM} {write : LogWrite (Input SM)} (file : Nat)
      (isOut : h.owner.out = some (write, false)) (newer : ∀ earlier ∈ h.writes, earlier.1 ≤ file) :
      Step codec h
        { h with
          owner :=
            { h.owner with
              disk := (h.owner.disk.apply write).getD h.owner.disk
              out := some (write, true) }
          files := h.files ++ [(file, record codec write)]
          writes := h.writes ++ [(file, write)]
          landing := some file }
  | finish {h : Host SM} {write : LogWrite (Input SM)} {file : Nat} {journal : Journal}
      {bound : Option Nat} (answer next : Poll) (isOut : h.owner.out = some (write, true))
      (landed : h.landing = some file)
      (run : h.journal.finish write [file] answer next = (.ok journal, bound)) :
      Step codec h
        { h with journal := journal, landing := none, passed := max h.passed (bound.getD 0) }
  /-- The journal answers that a trim failed. -/
  | finishFails {h : Host SM} {write : LogWrite (Input SM)} {file : Nat} {err : String}
      {bound : Option Nat} (answer next : Poll) (isOut : h.owner.out = some (write, true))
      (landed : h.landing = some file)
      (run : h.journal.finish write [file] answer next = (.error err, bound)) :
      Step codec h { h with passed := max h.passed (bound.getD 0) }
  | handBack {h : Host SM} {r : Replica SM} {write : LogWrite (Input SM)} {landed : Bool}
      (isOut : h.owner.out = some (write, landed)) (durable : landed = true ∨ write.sync = false)
      (finished : h.landing = none) (run : h.owner.replica.persisted write = some r) :
      Step codec h { h with owner := { h.owner with replica := r, out := none } }
  | delete {h : Host SM} (file : Nat) (below : file < h.passed) :
      Step codec h { h with files := h.files.filter fun landed => landed.1 ≠ file }
  /-- A crash, and the replica of the state the journal replays. -/
  | reopen {h : Host SM} {journal : Journal} {state : PersistentState (Input SM)} {r : Replica SM}
      (opens : openFiles codec h.files = .ok (journal, some state)) (stateMachine : SM)
      (applied nonce : Nat) (reached : state.logStart ≤ applied)
      (run : Replica.restart h.owner.replica.selfId h.owner.replica.config stateMachine applied state
        nonce = some r) :
      Step codec h
        { h with owner := ⟨r, h.owner.disk, none⟩, journal := journal, landing := none }
  /-- A crash before anything was written. -/
  | startOver {h : Host SM} {journal : Journal} {o : Owner SM}
      (opens : openFiles codec h.files = .ok (journal, none)) (starts : Owner.Starts o)
      (fresh : o.disk = .empty) :
      Step codec h { h with owner := o, journal := journal, landing := none }

/-- A host on a directory without files. -/
def start (o : Owner SM) : Host SM where
  owner := o
  journal := ⟨.empty, 0, 0, false⟩
  files := []
  writes := []
  passed := 0
  landing := none

/-- The states of a host's runs. -/
inductive Reach (codec : EntryCodec (Input SM)) : Host SM → Prop
  | start {o : Owner SM} (starts : Owner.Starts o) (fresh : o.disk = .empty) : Reach codec (start o)
  | step {h h' : Host SM} (before : Reach codec h) (step : Step codec h h') : Reach codec h'

/-! ## The invariant -/

/-- What a write that is out is to the disk. -/
structure Fits (disk : PersistentState (Input SM)) (write : LogWrite (Input SM)) : Prop where
  later : disk.logStart ≤ write.logStart
  applies : ∃ target, disk.apply write = some target ∧
    write.opNumber = target.logStart + target.log.length

/-- The journal has yet to hear of the last write. -/
def Unfinished (h : Host SM) (origins : List Nat) (file : Nat) : Prop :=
  ∃ earlier write state before, h.writes = earlier ++ [(file, write)] ∧
    h.owner.out = some (write, true) ∧ Appended earlier state before ∧
    Describes h.journal.runs state.logStart before ∧ Fits state write ∧
    state.apply write = some h.owner.disk ∧ origins = placed state.logStart before write file

/-- What holds of a host: the disk is the fold of the writes, a replay needs no
file below the bound passed, and the runs name the files it does need. -/
structure Inv (codec : EntryCodec (Input SM)) (h : Host SM) : Prop where
  reach : Owner.Reach h.owner
  fits : ∀ write, h.owner.out = some (write, false) → Fits h.owner.disk write
  needed : ∃ origins, Appended h.writes h.owner.disk origins ∧ (∀ file ∈ origins, h.passed ≤ file) ∧
    (h.landing = none → Describes h.journal.runs h.owner.disk.logStart origins) ∧
    ∀ file, h.landing = some file → Unfinished h origins file
  last : ∀ landed, h.writes.getLast? = some landed → h.passed ≤ landed.1
  unpassed : h.writes = [] → h.passed = 0
  files : ∃ present : Nat → Bool, (∀ file, h.passed ≤ file → present file = true) ∧
    h.files = (h.writes.filter fun landed => present landed.1).map fun landed =>
      (landed.1, record codec landed.2)

/-- A call keeps the reach of the owner. -/
theorem call_reach {o : Owner SM} {r : Replica SM} (reach : Owner.Reach o)
    (call : o.replica.Call r) : Owner.Reach { o with replica := r } := by
  cases call with
  | message message run => exact .step reach (.message message run)
  | idle run => exact .step reach (.idle run)
  | compact opNumber run => exact .step reach (.compact opNumber run)
  | drainBeforePersist => exact .step reach .drainBeforePersist
  | drain => exact .step reach .drain
  | drainReplies => exact .step reach .drainReplies

/-- A write taken fits the disk. -/
theorem take_fits {o : Owner SM} {r : Replica SM} {write : LogWrite (Input SM)}
    (reach : Owner.Reach o) (none : o.out = none) (run : o.replica.takeWrite = some (r, write)) :
    Fits o.disk write := by
  have tracks := ((Owner.inv_reach reach).between none).tracks
  have applies := (Owner.takeWrite_tracks reach run).1
  obtain ⟨_, rest⟩ := require_eq_some.mp run
  obtain ⟨durable, _, isWrite⟩ := Option.bind_eq_some_iff.mp rest
  cases isWrite
  exact ⟨tracks.start, _, applies, rfl⟩

/-- What the journal finds when it opens. -/
theorem Inv.opens {h : Host SM} (lawful : codec.Lawful) (inv : Inv codec h) :
    ∃ journal, openFiles codec h.files =
        .ok (journal, if h.writes.isEmpty then none else some h.owner.disk) ∧
      ∃ origins, Appended h.writes h.owner.disk origins ∧ (∀ file ∈ origins, h.passed ≤ file) ∧
        Describes journal.runs h.owner.disk.logStart origins := by
  obtain ⟨origins, appended, above, _⟩ := inv.needed
  obtain ⟨present, isPresent, isFiles⟩ := inv.files
  have replays : replayFrom codec ⟨.empty, none⟩ h.files =
      .ok (replayed (h.writes.filter fun landed => present landed.1)) := by
    rw [isFiles]
    exact replayFrom_records lawful _ _
  unfold openFiles
  rw [replays]
  cases isLast : h.writes.getLast? with
  | none =>
      have empty := List.getLast?_eq_none_iff.mp isLast
      obtain ⟨isDisk, isOrigins⟩ := appended.of_nil empty
      rw [empty]
      refine ⟨⟨.empty, 0, 0, false⟩, rfl, origins, empty ▸ appended, above, ?_⟩
      rw [isOrigins]
      exact .nil _
  | some landed =>
      obtain ⟨file, write⟩ := landed
      have notEmpty : h.writes.isEmpty = false := by
        cases shape : h.writes with
        | nil =>
            rw [shape] at isLast
            cases isLast
        | cons _ _ => rfl
      obtain ⟨isState, ends⟩ := appended.last isLast
      have isHeader := replayed_header isLast (isPresent file (inv.last _ isLast))
      have start : h.owner.disk.logStart = write.logStart := by rw [isState]
      obtain ⟨runs, rebuilds, describes⟩ := rebuild_describes
        (h.owner.disk.log.zip origins) [] (.nil h.owner.disk.logStart) fun i held isHeld => by
          obtain ⟨isEntry, isFile⟩ := List.getElem?_zip_eq_some.mp isHeld
          obtain ⟨entry, found, mem⟩ := appended.replayed present isPresent i held.2 isFile
            (above _ (List.mem_of_getElem? isFile))
          obtain rfl : entry = held.1 := Option.some.inj (found.symm.trans isEntry)
          exact OrderedMap.get?_eq_some.mpr mem
      rw [List.nil_append, List.map_fst_zip appended.length.ge] at rebuilds
      rw [List.nil_append, List.map_snd_zip appended.length.le] at describes
      have length : checkedSub write.opNumber write.logStart =
          some (h.owner.disk.log.zip origins).length := by
        rw [checkedSub_eq_some]
        rw [List.length_zip, appended.length, Nat.min_self, ends, start]
        omega
      refine ⟨⟨runs, file, 0, false⟩, ?_, origins, appended, above, describes⟩
      cases shape : replayed (h.writes.filter fun landed => present landed.1) with
      | mk entries counters =>
          rw [shape] at isHeader rebuilds
          dsimp only at isHeader rebuilds
          subst isHeader
          simp only [header, length]
          rw [start] at rebuilds
          simp only [List.length_nil, Nat.add_zero] at rebuilds
          rw [rebuilds, notEmpty]
          dsimp only
          rw [isState]
          rfl

/-! ## Each step -/

theorem starts_none {o : Owner SM} (starts : Owner.Starts o) : o.out = none := by
  cases starts <;> rfl

theorem inv_start {o : Owner SM} (starts : Owner.Starts o) (fresh : o.disk = .empty) :
    Inv codec (start o) where
  reach := .start starts
  fits write isOut := by
    have isNone := starts_none starts
    cases isNone.symm.trans isOut
  needed := by
    refine ⟨[], ?_, by simp, fun _ => .nil _, fun file isFile => by cases isFile⟩
    show Appended [] o.disk []
    rw [fresh]
    exact .nil
  last landed isLast := by cases isLast
  unpassed _ := rfl
  files := ⟨fun _ => true, fun _ _ => rfl, rfl⟩

/-- A step that touches the owner only, and neither its disk nor what has landed. -/
theorem Inv.owner {h : Host SM} (inv : Inv codec h) {o : Owner SM} (reach : Owner.Reach o)
    (disk : o.disk = h.owner.disk) (fits : ∀ write, o.out = some (write, false) → Fits o.disk write)
    (landing : ∀ write file, h.landing = some file → h.owner.out = some (write, true) →
      o.out = some (write, true)) :
    Inv codec { h with owner := o } where
  reach := reach
  fits := fits
  needed := by
    obtain ⟨origins, appended, above, finished, unfinished⟩ := inv.needed
    refine ⟨origins, disk ▸ appended, above, fun isNone => ?_, fun file isFile => ?_⟩
    · show Describes h.journal.runs o.disk.logStart origins
      rw [disk]
      exact finished isNone
    · obtain ⟨earlier, write, state, before, isWrites, isOut, rest⟩ := unfinished file isFile
      refine ⟨earlier, write, state, before, isWrites, landing write file isFile isOut, ?_⟩
      show _ ∧ _ ∧ _ ∧ state.apply write = some o.disk ∧ _
      rw [disk]
      exact rest
  last := inv.last
  unpassed := inv.unpassed
  files := inv.files

theorem Inv.land {h : Host SM} (inv : Inv codec h) {write : LogWrite (Input SM)} {file : Nat}
    (isOut : h.owner.out = some (write, false)) (newer : ∀ earlier ∈ h.writes, earlier.1 ≤ file) :
    Inv codec
      { h with
        owner :=
          { h.owner with
            disk := (h.owner.disk.apply write).getD h.owner.disk
            out := some (write, true) }
        files := h.files ++ [(file, record codec write)]
        writes := h.writes ++ [(file, write)]
        landing := some file } := by
  obtain ⟨later, target, applies, ends⟩ := inv.fits write isOut
  obtain ⟨origins, appended, above, finished, unfinished⟩ := inv.needed
  obtain ⟨present, isPresent, isFiles⟩ := inv.files
  have isFinished : h.landing = none := by
    cases isLanding : h.landing with
    | none => rfl
    | some other =>
        obtain ⟨_, _, _, _, _, isLanded, _⟩ := unfinished other isLanding
        cases isOut.symm.trans isLanded
  have passed : h.passed ≤ file := by
    cases isLast : h.writes.getLast? with
    | none => exact (inv.unpassed (List.getLast?_eq_none_iff.mp isLast)).le.trans (Nat.zero_le _)
    | some landed => exact (inv.last landed isLast).trans (newer _ (List.mem_of_getLast? isLast))
  have isDisk : (h.owner.disk.apply write).getD h.owner.disk = target := by rw [applies]; rfl
  rw [isDisk]
  refine
    { reach := .step inv.reach (.land isOut applies)
      fits := fun other isOther => by cases isOther
      needed := ⟨_, appended.snoc applies later ends newer, fun o mem => ?_, fun isNone => ?_,
        fun other isOther => ?_⟩
      last := fun landed isLast => ?_
      unpassed := fun none => by simp at none
      files := ⟨present, isPresent, ?_⟩ }
  · rcases List.mem_append.mp mem with old | new
    · exact above o (List.mem_of_mem_drop (List.mem_of_mem_take old))
    · rw [List.eq_of_mem_replicate new]
      exact passed
  · cases isNone
  · cases isOther
    exact ⟨h.writes, write, h.owner.disk, origins, rfl, rfl, appended, finished isFinished,
      ⟨later, target, applies, ends⟩, applies, rfl⟩
  · rw [List.getLast?_append_of_ne_nil _ (by simp)] at isLast
    cases isLast
    exact passed
  · simp only [isFiles, List.filter_append, List.map_append, List.filter_cons, List.filter_nil,
      isPresent file passed, if_true, List.map_cons, List.map_nil]

/-- What the journal passes lies below every file a replay needs. -/
theorem oldest_le {runs : OrderedMap Nat} {logStart : Nat} {origins : List Nat} {file : Nat}
    (describes : Describes runs logStart origins) (sorted : origins.Pairwise (· ≤ ·)) :
    oldest runs file ≤ file ∧ ∀ o ∈ origins, oldest runs file ≤ o := by
  unfold oldest
  rw [describes.first]
  cases origins with
  | nil => exact ⟨le_rfl, by simp⟩
  | cons first rest =>
      refine ⟨Nat.min_le_right _ _, fun o mem => (Nat.min_le_left _ _).trans ?_⟩
      rcases List.mem_cons.mp mem with rfl | later
      · exact le_rfl
      · exact (List.pairwise_cons.mp sorted).1 o later

theorem trimOut_runs {journal journal' : Journal} {poll : Poll} {out : Bool}
    (run : journal.trimOut poll = .ok (journal', out)) :
    journal'.runs = journal.runs := by
  unfold trimOut at run
  split at run
  · cases poll <;> cases run <;> rfl
  · cases run
    rfl

/-- What a journal that finishes a write makes of its runs, and what it passes. -/
theorem finish_cases {journal : Journal} {write : LogWrite (Input SM)} {file : Nat}
    {answer next : Poll} {result : Except String Journal} {bound : Option Nat}
    (run : journal.finish write [file] answer next = (result, bound)) :
    (bound = none ∨ bound = some (oldest (place journal.runs write file) file)) ∧
      ∀ journal', result = .ok journal' → journal'.runs = place journal.runs write file := by
  unfold finish at run
  generalize isFile : [file].getLast?.getD journal.lastFile = lastFile at run
  obtain rfl : file = lastFile := isFile
  dsimp only at run
  split at run
  · cases run
    exact ⟨.inl rfl, fun journal' isOk => by cases isOk⟩
  · next settled out isSettled =>
    have isRuns := trimOut_runs isSettled
    by_cases sends : oldest (place journal.runs write file) file > settled.trimmedBefore ∧ out = false
    · rw [if_pos sends] at run
      cases polled : { settled with trimming := true }.trimOut next with
      | error err =>
          rw [polled] at run
          cases run
          exact ⟨.inr rfl, fun journal' isOk => by cases isOk⟩
      | ok trimmed =>
          rw [polled] at run
          cases run
          refine ⟨.inr rfl, fun journal' isOk => ?_⟩
          cases isOk
          exact (trimOut_runs polled).trans isRuns
    · rw [if_neg sends] at run
      cases run
      refine ⟨.inl rfl, fun journal' isOk => ?_⟩
      cases isOk
      exact isRuns

/-- Raising the bound passed, as far as nothing needed lies below it. -/
theorem Inv.pass {h : Host SM} (inv : Inv codec h) {bound : Nat} {journal : Journal}
    {landing : Option Nat} (last : ∀ landed, h.writes.getLast? = some landed → bound ≤ landed.1)
    (written : h.writes = [] → bound = 0)
    (needed : ∃ origins, Appended h.writes h.owner.disk origins ∧
      (∀ file ∈ origins, h.passed ≤ file ∧ bound ≤ file) ∧
      (landing = none → Describes journal.runs h.owner.disk.logStart origins) ∧
      ∀ file, landing = some file → Unfinished { h with journal := journal } origins file) :
    Inv codec { h with journal := journal, landing := landing, passed := max h.passed bound } where
  reach := inv.reach
  fits := inv.fits
  needed := by
    obtain ⟨origins, appended, above, rest⟩ := needed
    exact ⟨origins, appended, fun file mem => Nat.max_le.mpr (above file mem), rest⟩
  last landed isLast := Nat.max_le.mpr ⟨inv.last landed isLast, last landed isLast⟩
  unpassed none := by
    show max h.passed bound = 0
    rw [inv.unpassed none, written none]
    rfl
  files := by
    obtain ⟨present, isPresent, isFiles⟩ := inv.files
    exact ⟨present, fun file le => isPresent file ((Nat.le_max_left _ _).trans le), isFiles⟩

/-- The files of the last write, and of what is retained with it, once the journal
hears of it. -/
theorem Unfinished.placed {h : Host SM} {origins : List Nat} {file : Nat}
    {write : LogWrite (Input SM)} (unfinished : Unfinished h origins file)
    (isOut : h.owner.out = some (write, true)) :
    Describes (place h.journal.runs write file) h.owner.disk.logStart origins ∧
      ∃ earlier, h.writes = earlier ++ [(file, write)] := by
  obtain ⟨earlier, landed, state, before, isWrites, isLanded, appended, describes,
    ⟨later, target, isTarget, ends⟩, applies, rfl⟩ := unfinished
  cases isOut.symm.trans isLanded
  obtain ⟨past, within, isDisk⟩ := apply_cases later applies
  cases applies.symm.trans isTarget
  have lengths : (before.drop (write.logStart - state.logStart)).length =
      (state.log.drop (write.logStart - state.logStart)).length := by
    simp [appended.length]
  refine ⟨?_, earlier, isWrites⟩
  have placed : Describes (place h.journal.runs write file) _ _ := describes.place later past (by omega) (by
    rw [ends, isDisk]
    simp only [List.length_append, List.length_take]
    omega)
  rw [isDisk]
  exact placed

/-- A journal that finishes a write passes nothing a replay needs. -/
theorem Inv.bound {h : Host SM} (inv : Inv codec h) {write : LogWrite (Input SM)} {file : Nat}
    {answer next : Poll} {result : Except String Journal} {bound : Option Nat}
    (isOut : h.owner.out = some (write, true)) (isLanding : h.landing = some file)
    (run : h.journal.finish write [file] answer next = (result, bound)) :
    (∀ landed, h.writes.getLast? = some landed → bound.getD 0 ≤ landed.1) ∧
      (h.writes = [] → bound.getD 0 = 0) ∧
      ∃ origins, Appended h.writes h.owner.disk origins ∧
        (∀ o ∈ origins, h.passed ≤ o ∧ bound.getD 0 ≤ o) ∧ Unfinished h origins file ∧
        ∀ journal', result = .ok journal' →
          Describes journal'.runs h.owner.disk.logStart origins := by
  obtain ⟨origins, appended, above, _, unfinished⟩ := inv.needed
  obtain ⟨describes, earlier, isWrites⟩ := (unfinished file isLanding).placed isOut
  obtain ⟨isBound, isRuns⟩ := finish_cases run
  obtain ⟨belowLast, below⟩ : oldest (place h.journal.runs write file) file ≤ file ∧
      ∀ o ∈ origins, oldest (place h.journal.runs write file) file ≤ o :=
    oldest_le describes appended.sorted.1
  have le : ∀ {o}, oldest (place h.journal.runs write file) file ≤ o → bound.getD 0 ≤ o := by
    intro o le
    rcases isBound with isNone | isSome
    · rw [isNone]
      exact Nat.zero_le o
    · rw [isSome]
      exact le
  refine ⟨fun landed isLast => ?_, fun none => ?_, origins, appended,
    fun o mem => ⟨above o mem, le (below o mem)⟩, unfinished file isLanding,
    fun journal' isOk => ?_⟩
  · rw [isWrites, List.getLast?_append_of_ne_nil _ (by simp)] at isLast
    cases isLast
    exact le belowLast
  · rw [isWrites] at none
    simp at none
  · rw [isRuns journal' isOk]
    exact describes

theorem inv_step {h h' : Host SM} (lawful : codec.Lawful) (inv : Inv codec h)
    (step : Step codec h h') : Inv codec h' := by
  cases step with
  | call call => exact inv.owner (call_reach inv.reach call) rfl inv.fits fun _ _ _ isOut => isOut
  | take none run =>
      refine inv.owner (.step inv.reach (.take none run)) rfl (fun write isOut => ?_)
        fun write file _ isOut => ?_
      · cases isOut
        exact take_fits (o := h.owner) inv.reach none run
      · cases none.symm.trans isOut
  | land file isOut newer => exact inv.land isOut newer
  | finish answer next isOut landed run =>
      obtain ⟨last, written, origins, appended, above, _, describes⟩ := inv.bound isOut landed run
      exact inv.pass last written ⟨origins, appended, above, fun _ => describes _ rfl,
        fun file isFile => by cases isFile⟩
  | finishFails answer next isOut landed run =>
      obtain ⟨last, written, origins, appended, above, unfinished, _⟩ := inv.bound isOut landed run
      refine inv.pass last written ⟨origins, appended, above, fun isNone => ?_, fun file isFile => ?_⟩
      · cases landed.symm.trans isNone
      · cases landed.symm.trans isFile
        exact unfinished
  | handBack isOut durable finished run =>
      refine inv.owner (.step inv.reach (.handBack isOut durable run)) rfl
        (fun write isNone => by cases isNone) fun write file isLanding _ => ?_
      cases finished.symm.trans isLanding
  | delete file below =>
      obtain ⟨present, isPresent, isFiles⟩ := inv.files
      refine ⟨inv.reach, inv.fits, inv.needed, inv.last, inv.unpassed,
        fun other => present other && decide (other ≠ file), fun other le => ?_, ?_⟩
      · have : other ≠ file := by
          rintro rfl
          exact absurd below (not_lt.mpr le)
        simp [isPresent other le, this]
      · dsimp only
        rw [isFiles, List.filter_map, List.filter_filter]
        congr 1
        refine List.filter_congr fun landed _ => ?_
        simp only [Function.comp_apply, ne_eq, decide_not, Bool.and_comm]
  | reopen opens stateMachine applied nonce reached run =>
      obtain ⟨journal, isOpen, origins, appended, above, describes⟩ := inv.opens lawful
      cases isEmpty : h.writes.isEmpty with
      | true =>
          rw [isEmpty] at isOpen
          cases opens.symm.trans isOpen
      | false =>
          rw [isEmpty] at isOpen
          cases opens.symm.trans isOpen
          exact
            { reach := .step inv.reach (.crash stateMachine applied nonce reached run)
              fits := fun write isNone => by cases isNone
              needed := ⟨origins, appended, above, fun _ => describes, fun file isFile => by
                cases isFile⟩
              last := inv.last
              unpassed := inv.unpassed
              files := inv.files }
  | startOver opens starts fresh =>
      obtain ⟨journal, isOpen, origins, appended, above, describes⟩ := inv.opens lawful
      cases isEmpty : h.writes.isEmpty with
      | false =>
          rw [isEmpty] at isOpen
          cases opens.symm.trans isOpen
      | true =>
          rw [isEmpty] at isOpen
          cases opens.symm.trans isOpen
          have isDisk := (appended.of_nil (List.isEmpty_iff.mp isEmpty)).1
          exact
            { reach := .start starts
              fits := fun write isOut => by
                have isNone := starts_none starts
                cases isNone.symm.trans isOut
              needed := by
                refine ⟨origins, ?_, above, fun _ => ?_, fun file isFile => by cases isFile⟩
                all_goals
                  dsimp only
                  rw [fresh, ← isDisk]
                · exact appended
                · exact describes
              last := inv.last
              unpassed := inv.unpassed
              files := inv.files }

theorem inv_reach {h : Host SM} (lawful : codec.Lawful) (reach : Reach codec h) : Inv codec h := by
  induction reach with
  | start starts fresh => exact inv_start starts fresh
  | step _ step ih => exact inv_step lawful ih step

theorem fold_appended {writes : List (Nat × LogWrite (Input SM))}
    {state : PersistentState (Input SM)} {origins : List Nat}
    (appended : Appended writes state origins) :
    (writes.map Prod.snd).foldlM PersistentState.apply .empty = some state := by
  induction appended with
  | nil => rfl
  | snoc _ applies _ _ _ ih =>
      rw [List.map_append, List.foldlM_append, ih]
      simpa using applies

/-- Whatever was trimmed, a journal opens on the fold of the writes appended to it. -/
theorem open_replays {h : Host SM} (lawful : codec.Lawful) (reach : Reach codec h) :
    ∃ journal state, (h.writes.map Prod.snd).foldlM PersistentState.apply .empty = some state ∧
      openFiles codec h.files = .ok (journal, if h.writes.isEmpty then none else some state) := by
  obtain ⟨journal, isOpen, origins, appended, _⟩ := (inv_reach lawful reach).opens lawful
  exact ⟨journal, h.owner.disk, fold_appended appended, isOpen⟩

/-! ## Lines that end in a carriage return -/

/-- The host of a replica that has persisted a registration. -/
def registered (codec : EntryCodec (Input Accumulator)) : Option (Host Accumulator) := do
  let r ← Replica.new 0 Accumulator.config .new
  let r ← r.onMessage (.register 0)
  let (r, write) ← r.takeWrite
  some
    { owner :=
        { replica := r
          disk := (PersistentState.empty.apply write).getD .empty
          out := some (write, true) }
      journal := ⟨.empty, 0, 0, false⟩
      files := [(0, record codec write)]
      writes := [(0, write)]
      passed := 0
      landing := some 0 }

theorem registered_reach {codec : EntryCodec (Input Accumulator)} {h : Host Accumulator}
    (run : registered codec = some h) : Reach codec h := by
  unfold registered at run
  obtain ⟨r, made, run⟩ := Option.bind_eq_some_iff.mp run
  obtain ⟨r', heard, run⟩ := Option.bind_eq_some_iff.mp run
  obtain ⟨⟨r'', write⟩, taken, isHost⟩ := Option.bind_eq_some_iff.mp run
  cases isHost
  refine .step (.step (.step (.start (.new made) rfl) (.call (.message (.register 0) heard)))
    (.take rfl taken)) ?_
  exact .land 0 rfl fun earlier mem => by cases mem

/-- The fields of an entry. -/
def fields : LogEntry Accumulator.Op → Nat ⊕ (Nat × Nat × Nat × Nat × (Int ⊕ Int))
  | .register clientId => .inl clientId
  | .request clientId session number answered (.add operand) =>
      .inr (clientId, session, number, answered, .inl operand)
  | .request clientId session number answered (.sub operand) =>
      .inr (clientId, session, number, answered, .inr operand)

def ofFields : Nat ⊕ (Nat × Nat × Nat × Nat × (Int ⊕ Int)) → LogEntry Accumulator.Op
  | .inl clientId => .register clientId
  | .inr (clientId, session, number, answered, .inl operand) =>
      .request clientId session number answered (.add operand)
  | .inr (clientId, session, number, answered, .inr operand) =>
      .request clientId session number answered (.sub operand)

theorem ofFields_fields (entry : LogEntry Accumulator.Op) : ofFields (fields entry) = entry := by
  cases entry with
  | register clientId => rfl
  | request clientId session number answered op => cases op <;> rfl

/-- Writes an entry as a number in unary with `mark` after it. -/
def unary (mark : Char) : EntryCodec (Input Accumulator) where
  write entry := List.replicate (Encodable.encode (fields entry)) '1' ++ [mark]
  decode text :=
    if text.getLast? = some mark then
      match Encodable.decode (text.length - 1) with
      | some found => .ok (ofFields found)
      | none => .error "not an entry"
    else .error "not marked"

theorem unary_decodes (mark : Char) (entry : LogEntry Accumulator.Op) :
    (unary mark).decode ((unary mark).write entry) = .ok entry := by
  unfold unary
  simp [ofFields_fields]

theorem unary_oneLine {mark : Char} (other : mark ≠ '\n') (entry : LogEntry Accumulator.Op) :
    '\n' ∉ (unary mark).write entry := by
  simp [unary, Ne.symm other]

theorem unary_lawful {mark : Char} (noNewline : mark ≠ '\n') (noReturn : mark ≠ '\r') :
    (unary mark).Lawful where
  oneLine := unary_oneLine noNewline
  noReturn entry := by simpa [unary] using noReturn
  decodes := unary_decodes mark

/-- The journal opens on a registration. -/
theorem open_replays_registered : ∃ h, registered (unary '.') = some h ∧
    ∃ journal state, (h.writes.map Prod.snd).foldlM PersistentState.apply .empty = some state ∧
      openFiles (unary '.') h.files = .ok (journal, if h.writes.isEmpty then none else some state) := by
  obtain ⟨h, run⟩ : ∃ h, registered (unary '.') = some h := Option.isSome_iff_exists.mp (by decide)
  exact ⟨h, run, open_replays (unary_lawful (by decide) (by decide)) (registered_reach run)⟩

/-- A line that ends in a carriage return is read without it. -/
theorem return_not_replayed : ¬∀ codec : EntryCodec (Input Accumulator),
    (∀ entry, '\n' ∉ codec.write entry) →
    (∀ entry, codec.decode (codec.write entry) = .ok entry) → ∀ h, Reach codec h →
    ∃ journal state, (h.writes.map Prod.snd).foldlM PersistentState.apply .empty = some state ∧
      openFiles codec h.files = .ok (journal, if h.writes.isEmpty then none else some state) := by
  intro replays
  have fails : ∃ h, registered (unary '\r') = some h ∧
      (openFiles (unary '\r') h.files).isOk = false := by
    have some : (registered (unary '\r')).any
        (fun h => !(openFiles (unary '\r') h.files).isOk) = true := by decide
    obtain ⟨h, isHost, isError⟩ := (Option.any_eq_true _ _).mp some
    exact ⟨h, isHost, by simpa using isError⟩
  obtain ⟨h, run, isError⟩ := fails
  obtain ⟨journal, state, _, opens⟩ :=
    replays _ (unary_oneLine (by decide)) (unary_decodes '\r') h (registered_reach run)
  rw [opens] at isError
  cases isError

end Host

end Vsr
