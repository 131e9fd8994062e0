import Vsr.Durable.Owner
import Vsr.Replica.Calls

/-!
# Nothing executes before it is on disk

Whatever a replica executes, the writes handed back to it hold at that op number,
and it executes the entries of its log one after the other.
-/

set_option autoImplicit false

namespace Vsr

open Relation (ReflTransGen)

/-! ## The copy on disk -/

section Disk

variable {Op : Type}

/-- The entry a persisted log holds with op number `opNumber`. -/
def PersistentState.entry (state : PersistentState Op) (opNumber : Nat) : Option (LogEntry Op) := do
  let index ← checkedSub opNumber (state.logStart + 1)
  state.log[index]?

theorem PersistentState.entry_of_lt {state : PersistentState Op} {k : Nat}
    (later : state.logStart < k) : state.entry k = state.log[k - (state.logStart + 1)]? := by
  unfold entry
  rw [checkedSub_of_le later]
  rfl

theorem Standing.entry_of_lt {s : Standing Op} {k : Nat} (later : s.logStart < k) :
    s.entry k = s.log[k - (s.logStart + 1)]? := by
  unfold entry
  rw [checkedSub_of_le later]
  rfl

/-- The entries whose write has been handed back, and that have not changed since,
are on disk. -/
def Agrees (disk : PersistentState Op) (p : Peer Op) : Prop :=
  ∀ k entry, p.entry k = some entry → k ≤ p.durable →
    (∀ changed, p.logChangedFrom = some changed → k < changed) → disk.entry k = some entry

theorem WriteState.durableOp_le {w : WriteState} {durable k : Nat}
    (isDurable : w.durableOp = some durable) (inside : k ≤ durable) :
    k ≤ w.durable ∧ ∀ changed, w.logChangedFrom = some changed → k < changed := by
  unfold durableOp at isDurable
  split at isDurable
  · next unchanged =>
    cases isDurable
    exact ⟨inside, fun changed isChanged => by cases unchanged.symm.trans isChanged⟩
  · next first isFirst =>
    obtain ⟨before, sub, isMin⟩ := Option.bind_eq_some_iff.mp isDurable
    obtain ⟨pos, rfl⟩ := checkedSub_eq_some.mp sub
    cases isMin
    refine ⟨inside.trans (min_le_left _ _), fun changed isChanged => ?_⟩
    cases isFirst.symm.trans isChanged
    have := inside.trans (min_le_right _ _)
    omega

/-- Between writes the disk holds whatever has not changed. -/
theorem Tracks.agrees {disk : PersistentState Op} {p : Peer Op} (tracks : Tracks disk p) :
    Agrees disk p := by
  intro k entry isEntry _ before
  obtain ⟨later, inside⟩ := Replica.entry_bounds isEntry
  have start := tracks.start
  rw [Standing.entry_of_lt later] at isEntry
  rw [PersistentState.entry_of_lt (start.trans_lt later)]
  have index : k - (disk.logStart + 1) = p.logStart - disk.logStart + (k - (p.logStart + 1)) := by
    omega
  rw [index, ← List.getElem?_drop]
  cases isChanged : p.logChangedFrom with
  | none => rwa [tracks.same isChanged]
  | some changed =>
      obtain ⟨_, _, _, agree⟩ := tracks.marked changed isChanged
      have unchanged : k - (p.logStart + 1) < p.unchanged changed := by
        have := before changed isChanged
        unfold Peer.unchanged
        omega
      rw [← List.getElem?_take_of_lt unchanged, agree, List.getElem?_take_of_lt unchanged]
      exact isEntry

/-- A mark at `fresh`, before which the log is as it was. -/
theorem Agrees.mark {disk : PersistentState Op} {p p' : Peer Op} {fresh : Nat}
    (agrees : Agrees disk p) (writes : p'.toWriteState = p.toWriteState.markLogChanged fresh)
    (same : ∀ k entry, k < fresh → p'.entry k = some entry → p.entry k = some entry) :
    Agrees disk p' := by
  intro k entry isEntry inside before
  rw [writes] at inside before
  have first : k < fresh ∧ ∀ changed, p.logChangedFrom = some changed → k < changed := by
    unfold WriteState.markLogChanged at before
    cases isChanged : p.logChangedFrom with
    | none =>
        have := before fresh (by rw [isChanged])
        exact ⟨this, fun _ isSome => by cases isSome⟩
    | some changed =>
        have := before (min changed fresh) (by rw [isChanged])
        refine ⟨this.trans_le (min_le_right _ _), fun changed' isSome => ?_⟩
        cases isSome
        exact this.trans_le (min_le_left _ _)
  exact agrees k entry (same k entry first.1 isEntry) inside first.2

theorem LogMove.agrees {disk : PersistentState Op} {p p' : Peer Op} (move : LogMove p p')
    (agrees : Agrees disk p) : Agrees disk p' := by
  cases move with
  | stay log logStart writes more committed executes =>
      intro k entry isEntry inside before
      rw [writes] at inside before
      refine agrees k entry ?_ inside before
      unfold Standing.entry at isEntry ⊢
      rwa [log, logStart] at isEntry
  | append entry =>
      refine agrees.mark rfl fun k entry' before isEntry => ?_
      have later := (Replica.entry_bounds isEntry).1
      replace later : p.logStart < k := later
      rw [Standing.entry_of_lt (s := (p.append entry).toStanding) later] at isEntry
      rw [Standing.entry_of_lt later]
      replace isEntry : (p.log ++ [entry])[k - (p.logStart + 1)]? = some entry' := isEntry
      rwa [List.getElem?_append_left] at isEntry
      unfold Standing.opNumber at before
      omega
  | merge start entries mergeable =>
      refine agrees.mark rfl fun k entry' before isEntry => ?_
      have later := (Replica.entry_bounds isEntry).1
      replace later : p.logStart < k := later
      rw [Standing.entry_of_lt (s := (p.merge start entries).toStanding) later] at isEntry
      rw [Standing.entry_of_lt later]
      obtain ⟨within, held, _⟩ := mergeable
      replace isEntry : (p.log.take (p.keepUpTo start - p.logStart) ++
        entries.drop (p.keepUpTo start - start))[k - (p.logStart + 1)]? = some entry' := isEntry
      have kept : k - (p.logStart + 1) < p.keepUpTo start - p.logStart := by omega
      have inside : k - (p.logStart + 1) < (p.log.take (p.keepUpTo start - p.logStart)).length := by
        rw [List.length_take]
        unfold Standing.opNumber at within
        omega
      rwa [List.getElem?_append_left inside, List.getElem?_take_of_lt kept] at isEntry
  | restore opNumber beyond =>
      intro k entry isEntry
      have bounds := Replica.entry_bounds isEntry
      have none : (p.restore opNumber).opNumber = (p.restore opNumber).logStart := rfl
      omega
  | compact opNumber held done within =>
      intro k entry isEntry inside before
      refine agrees k entry ?_ inside before
      have later := (Replica.entry_bounds isEntry).1
      replace later : opNumber < k := later
      rw [Standing.entry_of_lt later] at isEntry
      rw [Standing.entry_of_lt (held.trans later)]
      replace isEntry : (p.log.drop (opNumber - p.logStart))[k - (opNumber + 1)]? = some entry :=
        isEntry
      rw [List.getElem?_drop] at isEntry
      rwa [show k - (p.logStart + 1) = opNumber - p.logStart + (k - (opNumber + 1)) by omega]

/-- Both hold along any sequence of moves. -/
theorem agrees_moves {disk : PersistentState Op} {p p' : Peer Op}
    (moves : ReflTransGen LogMove p p') (order : p.Ordered) (agrees : Agrees disk p) :
    p'.Ordered ∧ Agrees disk p' := by
  induction moves with
  | refl => exact ⟨order, agrees⟩
  | tail _ move ih => exact ⟨move.ordered ih.1, move.agrees ih.2⟩

/-! ## A copy that holds more -/

/-- `disk` is `shadow` with more entries at the end. -/
structure Within (shadow disk : PersistentState Op) : Prop where
  start : shadow.logStart = disk.logStart
  log : shadow.log <+: disk.log

theorem Within.refl (disk : PersistentState Op) : Within disk disk := ⟨rfl, List.prefix_refl _⟩

theorem Within.entry {shadow disk : PersistentState Op} {k : Nat} {entry : LogEntry Op}
    (within : Within shadow disk) (isEntry : shadow.entry k = some entry) :
    disk.entry k = some entry := by
  obtain ⟨index, sub, isEntry⟩ := Option.bind_eq_some_iff.mp isEntry
  unfold PersistentState.entry
  rw [← within.start, sub]
  obtain ⟨rest, isLog⟩ := within.log
  have inside := (List.getElem?_eq_some_iff.mp isEntry).1
  show disk.log[index]? = some entry
  rwa [← isLog, List.getElem?_append_left inside]

/-- A write leaves nothing of what follows the entries it goes on from. -/
theorem Within.apply {shadow disk target : PersistentState Op} {write : LogWrite Op}
    (within : Within shadow disk) (run : shadow.apply write = some target) :
    disk.apply write = some target := by
  obtain ⟨rest, isLog⟩ := within.log
  have compacts : (shadow.compactTo write.logStart).logStart =
      (disk.compactTo write.logStart).logStart ∧
      (shadow.compactTo write.logStart).log <+: (disk.compactTo write.logStart).log := by
    unfold PersistentState.compactTo
    rw [within.start]
    split
    · refine ⟨rfl, ?_⟩
      dsimp only
      rw [Replica.drop_min_length, Replica.drop_min_length]
      exact within.log.drop _
    · exact ⟨within.start, within.log⟩
  obtain ⟨start, more, isMore⟩ := compacts
  unfold PersistentState.apply at run ⊢
  dsimp only at run ⊢
  obtain ⟨⟨first, last⟩, run⟩ := require_eq_some.mp run
  rw [start] at first last run
  have inside : write.entriesFrom ≤
      (disk.compactTo write.logStart).logStart + (disk.compactTo write.logStart).log.length + 1 := by
    rw [← isMore, List.length_append]
    omega
  rw [require_of ⟨first, inside⟩, ← isMore, List.take_append_of_le_length (by omega)]
  exact run

end Disk

/-! ## What executes -/

variable {SM : Type} [StateMachine SM]

/-- Whether a call neither executes an entry nor restores a checkpoint. -/
def MachineCall.keeps : MachineCall SM → Bool
  | .checkpoint => true
  | .releaseCheckpoint => true
  | .stageChunk .. => true
  | _ => false

/-- The calls of a trace, each with the disk it was made over, execute the entries
after op `start` one after the other up to op `b`: every entry as the disk holds it,
and from a restored checkpoint on the ones after it. -/
inductive Continues (start : Nat) :
    List (PersistentState (Input (Recorded SM)) × MachineCall SM) → Nat → Prop
  | nil : Continues start [] start
  | entry {trace : List (PersistentState (Input (Recorded SM)) × MachineCall SM)} {b : Nat}
      (before : Continues start trace b) (disk : PersistentState (Input (Recorded SM)))
      {entry : EntryFor (Recorded SM)} {calls : List (MachineCall SM)}
      (held : disk.entry (b + 1) = some entry) (runs : Runs (b + 1) calls entry) :
      Continues start (trace ++ calls.map fun call => (disk, call)) (b + 1)
  | keep {trace : List (PersistentState (Input (Recorded SM)) × MachineCall SM)} {b : Nat}
      (before : Continues start trace b) (disk : PersistentState (Input (Recorded SM)))
      {call : MachineCall SM} (keeps : call.keeps = true) :
      Continues start (trace ++ [(disk, call)]) b
  | restore {trace : List (PersistentState (Input (Recorded SM)) × MachineCall SM)} {b : Nat}
      (before : Continues start trace b) (disk : PersistentState (Input (Recorded SM)))
      {opNumber : Nat} (beyond : b < opNumber) :
      Continues start (trace ++ [(disk, .restore opNumber)]) opNumber

theorem Continues.trans {a b c : Nat}
    {trace rest : List (PersistentState (Input (Recorded SM)) × MachineCall SM)}
    (first : Continues a trace b) (second : Continues b rest c) : Continues a (trace ++ rest) c := by
  induction second with
  | nil => rwa [List.append_nil]
  | entry _ disk held runs ih =>
      rw [← List.append_assoc]
      exact .entry ih disk held runs
  | keep _ disk keeps ih =>
      rw [← List.append_assoc]
      exact .keep ih disk keeps
  | restore _ disk beyond ih =>
      rw [← List.append_assoc]
      exact .restore ih disk beyond

theorem Blocks.executes {may : Nat → EntryFor (Recorded SM) → Prop} {a b : Nat}
    {m m' : Recorded SM} {disk : PersistentState (Input (Recorded SM))}
    (blocks : Blocks may a m b m') (held : ∀ k entry, may k entry → disk.entry k = some entry) :
    ∃ calls : List (MachineCall SM), m'.calls = m.calls ++ calls ∧
      Continues a (calls.map fun call => (disk, call)) b := by
  induction blocks with
  | refl => exact ⟨[], (List.append_nil _).symm, .nil⟩
  | tail _ allowed block ih =>
      obtain ⟨calls, isCalls, executes⟩ := ih
      obtain ⟨last, isLast, runs⟩ := block.recorded
      refine ⟨calls ++ last, ?_, ?_⟩
      · rw [isLast, isCalls, List.append_assoc]
      · rw [List.map_append]
        exact .entry executes disk (held _ _ allowed) runs

namespace Replica

variable {heard : MessageFor (Recorded SM) → Prop} {r r' : Replica (Recorded SM)}
  {disk : PersistentState (Input (Recorded SM))}

theorem Calls.executes {applied : Nat} {m : Recorded SM} (calls : Calls heard r applied m)
    (ordered : r.peer.Ordered) (agrees : Agrees disk r.peer) :
    ∃ new : List (MachineCall SM), m.calls = r.stateMachine.calls ++ new ∧
      Continues r.applied (new.map fun call => (disk, call)) applied := by
  have one : ∀ call : MachineCall SM, call.keeps = true →
      Continues r.applied ([call].map fun call => (disk, call)) r.applied :=
    fun call keeps => .keep .nil disk keeps
  cases calls with
  | none => exact ⟨[], (List.append_nil _).symm, .nil⟩
  | execute blocks =>
      refine blocks.executes fun k entry durable => ?_
      obtain ⟨isEntry, last, isDurable, inside⟩ := durable
      obtain ⟨back, before⟩ := WriteState.durableOp_le isDurable inside
      exact agrees k entry isEntry back before
  | keep => exact ⟨[.checkpoint], rfl, one _ rfl⟩
  | release => exact ⟨[.releaseCheckpoint], rfl, one _ rfl⟩
  | stage => exact ⟨_, rfl, one _ rfl⟩
  | restore _ beyond =>
      have later : r.applied < applied := ordered.applied.trans_lt beyond
      show ∃ new : List (MachineCall SM),
        r.stopServing.stateMachine.calls ++ [.restore applied] = _ ∧ _
      unfold stopServing
      split
      · refine ⟨[.releaseCheckpoint, .restore applied], List.append_assoc _ _ _, ?_⟩
        exact .restore (one .releaseCheckpoint rfl) disk later
      · exact ⟨[.restore applied], rfl, .restore .nil disk later⟩

/-- While the disk stays as it is, a handler executes what it holds. -/
theorem Handles.executes (handles : Handles heard r r') (ordered : r.peer.Ordered)
    (agrees : Agrees disk r.peer) : Agrees disk r'.peer ∧ ∃ calls : List (MachineCall SM),
      r'.stateMachine.calls = r.stateMachine.calls ++ calls ∧
        Continues r.applied (calls.map fun call => (disk, call)) r'.applied := by
  have kept : r'.peer.Ordered ∧ Agrees disk r'.peer ∧ ∃ calls : List (MachineCall SM),
      r'.stateMachine.calls = r.stateMachine.calls ++ calls ∧
        Continues r.applied (calls.map fun call => (disk, call)) r'.applied := by
    refine handles.induct (P := fun m => m.peer.Ordered ∧ Agrees disk m.peer ∧
      ∃ calls : List (MachineCall SM), m.stateMachine.calls = r.stateMachine.calls ++ calls ∧
        Continues r.applied (calls.map fun call => (disk, call)) m.applied)
      ⟨ordered, agrees, [], (List.append_nil _).symm, .nil⟩ (fun before move => ?_)
      fun before tell => ?_
    · obtain ⟨ordered, agrees, calls, isCalls, executes⟩ := before
      obtain ⟨new, isNew, more⟩ := move.calls.executes ordered agrees
      obtain ⟨ordered', agrees'⟩ := agrees_moves move.logMoves ordered agrees
      refine ⟨ordered', agrees', calls ++ new, ?_, ?_⟩
      · rw [isNew, isCalls, List.append_assoc]
      · rw [List.map_append]
        exact executes.trans more
    · obtain ⟨ordered, agrees, calls, isCalls, executes⟩ := before
      refine ⟨tell.core_same.ordered ordered, tell.core_same.agrees agrees, calls, ?_, ?_⟩
      · rw [tell.machine.2, isCalls]
      · rwa [tell.machine.1]
  exact kept.2

end Replica

/-! ## Whole runs -/

/-- A replica, the state its owner started from brought up to date with the writes
handed back that needed a sync, the write that is out, and the calls made to the
state machine, each with the disk it was made over. -/
structure Execution (SM : Type) [StateMachine SM] where
  replica : Replica (Recorded SM)
  disk : PersistentState (Input (Recorded SM))
  out : Option (LogWrite (Input (Recorded SM)))
  trace : List (PersistentState (Input (Recorded SM)) × MachineCall SM)

namespace Execution

variable {start : Nat} {e e' : Execution SM}

/-- The disk once `write` is handed back. -/
def fold (disk : PersistentState (Input SM)) (write : LogWrite (Input SM)) :
    Option (PersistentState (Input SM)) :=
  if write.sync then disk.apply write else some disk

/-- The replica comes to `r` over `disk`. -/
def next (e : Execution SM) (disk : PersistentState (Input (Recorded SM)))
    (out : Option (LogWrite (Input (Recorded SM)))) (r : Replica (Recorded SM)) : Execution SM :=
  ⟨r, disk, out, e.trace ++ (e.replica.callsTo r).map fun call => (disk, call)⟩

/-- What the owner does next.  A call that panics is not a step. -/
inductive Step : Execution SM → Execution SM → Prop
  | message {e : Execution SM} {r : Replica (Recorded SM)} (message : MessageFor (Recorded SM))
      (run : e.replica.onMessage message = some r) : Step e (e.next e.disk e.out r)
  | idle {e : Execution SM} {r : Replica (Recorded SM)} (run : e.replica.onIdle = some r) :
      Step e (e.next e.disk e.out r)
  | compact {e : Execution SM} {r : Replica (Recorded SM)} (opNumber : Nat)
      (run : e.replica.compact opNumber = some r) : Step e (e.next e.disk e.out r)
  | take {e : Execution SM} {r : Replica (Recorded SM)} {write : LogWrite (Input (Recorded SM))}
      (none : e.out = none) (run : e.replica.takeWrite = some (r, write)) :
      Step e (e.next e.disk (some write) r)
  | handBack {e : Execution SM} {r : Replica (Recorded SM)} {write : LogWrite (Input (Recorded SM))}
      {disk : PersistentState (Input (Recorded SM))} (isOut : e.out = some write)
      (lands : fold e.disk write = some disk) (run : e.replica.persisted write = some r) :
      Step e (e.next disk none r)
  | drainBeforePersist {e : Execution SM} :
      Step e (e.next e.disk e.out e.replica.drainMessagesBeforePersist.1)
  | drain {e : Execution SM} : Step e (e.next e.disk e.out e.replica.drainMessages.1)
  | drainReplies {e : Execution SM} : Step e (e.next e.disk e.out e.replica.drainReplies.1)

/-- How the owner made the replica, and the op its state machine starts from. -/
inductive Starts : Nat → Execution SM → Prop
  | new {selfId : Nat} {config : Config} {stateMachine : Recorded SM} {r : Replica (Recorded SM)}
      (run : Replica.new selfId config stateMachine = some r) : Starts 0 ⟨r, .empty, none, []⟩
  | recover {selfId : Nat} {config : Config} {stateMachine : Recorded SM} {viewNumber nonce : Nat}
      {r : Replica (Recorded SM)}
      (run : Replica.recover selfId config stateMachine viewNumber nonce = some r) :
      Starts 0 ⟨r, .empty, none, []⟩
  /-- `restart` executes what the state it is given has as committed. -/
  | restart {selfId : Nat} {config : Config} {stateMachine : Recorded SM} {applied nonce : Nat}
      {state : PersistentState (Input (Recorded SM))} {r : Replica (Recorded SM)}
      (reached : state.logStart ≤ applied)
      (run : Replica.restart selfId config stateMachine applied state nonce = some r) :
      Starts applied ⟨r, state, none,
        (r.stateMachine.calls.drop stateMachine.calls.length).map fun call => (state, call)⟩

inductive Reach (start : Nat) : Execution SM → Prop
  | start {e : Execution SM} (starts : Starts start e) : Reach start e
  | step {e e' : Execution SM} (before : Reach start e) (step : Step e e') : Reach start e'

/-- What the owner holds of a run, but for the entries a recovering replica ignores. -/
def owner (e : Execution SM) (shadow : PersistentState (Input (Recorded SM))) :
    Owner (Recorded SM) :=
  ⟨e.replica, shadow, e.out.map fun write => (write, false)⟩

/-- What holds in every state of a run. -/
structure Inv (start : Nat) (e : Execution SM) (shadow : PersistentState (Input (Recorded SM))) :
    Prop where
  owned : (e.owner shadow).Inv
  fetches : e.replica.Fetches
  within : Within shadow e.disk
  agrees : Agrees shadow e.replica.peer
  executes : Continues start e.trace e.replica.applied

theorem Inv.sound {shadow : PersistentState (Input (Recorded SM))} (inv : Inv start e shadow) :
    ∃ target, Owner.Sound target e.replica.peer := by
  cases isOut : e.out with
  | none => exact ⟨shadow, inv.owned.between (by simp [owner, isOut])⟩
  | some write =>
      obtain ⟨_, target, sound, _⟩ := inv.owned.during write false (by simp [owner, isOut])
      exact ⟨target, sound⟩

/-- A step that brings no write back executes what the disk holds. -/
theorem Inv.handles {shadow : PersistentState (Input (Recorded SM))} (inv : Inv start e shadow)
    {heard : MessageFor (Recorded SM) → Prop} {r : Replica (Recorded SM)}
    (handles : Replica.Handles heard e.replica r)
    (owned : Owner.Step (e.owner shadow) { e.owner shadow with replica := r }) :
    Inv start (e.next e.disk e.out r) shadow := by
  obtain ⟨_, sound⟩ := inv.sound
  have agrees : Agrees e.disk e.replica.peer := fun k entry isEntry inside before =>
    inv.within.entry (inv.agrees k entry isEntry inside before)
  obtain ⟨_, calls, isCalls, executes⟩ := handles.executes sound.ordered agrees
  refine ⟨Owner.inv_step inv.owned owned, inv.fetches.handles handles, inv.within, ?_, ?_⟩
  · exact (handles.executes sound.ordered inv.agrees).1
  · show Continues start (e.trace ++ (e.replica.callsTo r).map _) r.applied
    rw [Replica.callsTo_eq isCalls]
    exact inv.executes.trans executes

/-- A step that calls the state machine for nothing. -/
theorem Inv.still {shadow : PersistentState (Input (Recorded SM))} (inv : Inv start e shadow)
    {out : Option (LogWrite (Input (Recorded SM)))} {r : Replica (Recorded SM)}
    (machine : r.stateMachine = e.replica.stateMachine) (applied : r.applied = e.replica.applied)
    (fetches : r.Fetches) (agrees : Agrees shadow r.peer)
    (owned : Owner.Step (e.owner shadow) ((e.next e.disk out r).owner shadow)) :
    Inv start (e.next e.disk out r) shadow := by
  refine ⟨Owner.inv_step inv.owned owned, fetches, inv.within, agrees, ?_⟩
  show Continues start (e.trace ++ (e.replica.callsTo r).map _) r.applied
  have none : r.stateMachine.calls = e.replica.stateMachine.calls ++ [] := by
    rw [machine, List.append_nil]
  rw [Replica.callsTo_eq none, List.map_nil, List.append_nil, applied]
  exact inv.executes

/-- A write handed back is on disk from then on, if it had anything to bring there. -/
theorem Inv.lands {shadow disk : PersistentState (Input (Recorded SM))} (inv : Inv start e shadow)
    {write : LogWrite (Input (Recorded SM))} {r : Replica (Recorded SM)} (isOut : e.out = some write)
    (lands : fold e.disk write = some disk) (run : e.replica.persisted write = some r) :
    ∃ shadow', Owner.Inv ⟨r, shadow', none⟩ ∧ Within shadow' disk ∧
      ∀ outstanding, Agrees shadow' (e.replica.handedBack outstanding).peer := by
  have out : (e.owner shadow).out = some (write, false) := by simp [owner, isOut]
  obtain ⟨_, target, sound, _, _, brings⟩ := inv.owned.during write false out
  obtain ⟨applies, unchanged⟩ := brings rfl
  have agrees : ∀ outstanding, Agrees target (e.replica.handedBack outstanding).peer := by
    intro outstanding
    exact Tracks.agrees ⟨sound.tracks.start, sound.tracks.same, sound.tracks.marked,
      sound.tracks.written⟩
  unfold fold at lands
  split at lands
  · next sync =>
    have isTarget : disk = target := Option.some.inj (lands.symm.trans (inv.within.apply applies))
    subst isTarget
    have landed : Owner.Step (e.owner shadow) ⟨e.replica, disk, some (write, true)⟩ :=
      .land out applies
    have back : Owner.Step ⟨e.replica, disk, some (write, true)⟩ ⟨r, disk, none⟩ :=
      .handBack rfl (.inl rfl) run
    exact ⟨disk, Owner.inv_step (Owner.inv_step inv.owned landed) back, .refl _, agrees⟩
  · next noSync =>
    cases lands
    rw [Bool.not_eq_true] at noSync
    have back : Owner.Step (e.owner shadow) ⟨r, shadow, none⟩ :=
      .handBack out (.inr noSync) run
    refine ⟨shadow, Owner.inv_step inv.owned back, inv.within, fun outstanding k entry => ?_⟩
    have held := agrees outstanding k entry
    rwa [← unchanged noSync] at held

theorem inv_step {shadow : PersistentState (Input (Recorded SM))} (inv : Inv start e shadow)
    (step : Step e e') : ∃ shadow', Inv start e' shadow' := by
  obtain ⟨target, sound⟩ := inv.sound
  cases step with
  | message message run =>
      have handles : Replica.Handles (fun _ => True) e.replica _ :=
        Replica.onMessage_handles run (Owner.quorum_two sound.several) trivial inv.fetches
      exact ⟨shadow, inv.handles handles (.message message run)⟩
  | idle run =>
      have handles : Replica.Handles (fun _ => True) e.replica _ := Replica.onIdle_handles run
      exact ⟨shadow, inv.handles handles (.idle run)⟩
  | compact opNumber run =>
      rcases Replica.compact_effect run with rfl | ⟨bound, held, done, _, within, rfl⟩
      · exact ⟨shadow, inv.still rfl rfl inv.fetches inv.agrees (.compact opNumber run)⟩
      · refine ⟨shadow, inv.still rfl rfl (inv.fetches.same rfl rfl rfl) ?_ (.compact opNumber run)⟩
        exact LogMove.agrees (.compact bound held done within) inv.agrees
  | take free run =>
      obtain ⟨_, durable, isDurable, peer, _⟩ := Replica.takeWrite_cases run
      have taken : Owner.Step (e.owner shadow) _ := .take (by simp [owner, free]) run
      obtain ⟨_, run⟩ := require_eq_some.mp run
      obtain ⟨_, _, run⟩ := Option.bind_eq_some_iff.mp run
      cases run
      refine ⟨shadow, inv.still rfl rfl (inv.fetches.same rfl rfl rfl) ?_ taken⟩
      rw [peer]
      intro k entry isEntry inside _
      obtain ⟨back, before⟩ := WriteState.durableOp_le isDurable inside
      exact inv.agrees k entry isEntry back before
  | handBack isOut lands run =>
      obtain ⟨shadow', owned, within, agrees⟩ := inv.lands isOut lands run
      obtain ⟨outstanding, executed, _, _, moves, rfl⟩ := Replica.persisted_moves run
      have handles : Replica.Handles (fun _ => True) (e.replica.handedBack outstanding) executed :=
        .moves moves
      have fetches : (e.replica.handedBack outstanding).Fetches := inv.fetches.same rfl rfl rfl
      have onDisk := fun k entry isEntry inside before =>
        within.entry (agrees outstanding k entry isEntry inside before)
      obtain ⟨_, calls, isCalls, executes⟩ :=
        handles.executes ⟨sound.ordered.start, sound.ordered.applied⟩ onDisk
      refine ⟨shadow', owned, (fetches.handles handles).same rfl rfl rfl, within,
        (owned.between rfl).tracks.agrees, ?_⟩
      show Continues start (e.trace ++ (e.replica.callsTo executed.releaseWaiting).map _)
        executed.applied
      have made : e.replica.callsTo executed.releaseWaiting = calls := Replica.callsTo_eq isCalls
      rw [made]
      exact inv.executes.trans executes
  | drainBeforePersist =>
      refine ⟨shadow, inv.still rfl rfl ?_ inv.agrees .drainBeforePersist⟩
      exact inv.fetches.same rfl rfl rfl
  | drain => exact ⟨shadow, inv.still rfl rfl (inv.fetches.same rfl rfl rfl) inv.agrees .drain⟩
  | drainReplies =>
      exact ⟨shadow, inv.still rfl rfl (inv.fetches.same rfl rfl rfl) inv.agrees .drainReplies⟩

/-! ### The start -/

/-- What `restart` goes by of the state it is given: a recovering replica starts with
no log. -/
def heeded (state : PersistentState (Input SM)) : PersistentState (Input SM) :=
  if state.recovering then { state with log := [] } else state

theorem heeded_within (state : PersistentState (Input SM)) : Within (heeded state) state := by
  unfold heeded
  split
  · exact ⟨rfl, List.nil_prefix⟩
  · exact .refl state

theorem heeded_empty (state : PersistentState (Input SM))
    (recovering : (heeded state).recovering = true) : (heeded state).log = [] := by
  unfold heeded at recovering ⊢
  split
  · rfl
  · next awake => exact absurd recovering (by rwa [if_neg awake])

theorem restart_heeded {selfId : Nat} {config : Config} {stateMachine : SM} {applied nonce : Nat}
    (state : PersistentState (Input SM)) :
    Replica.restart selfId config stateMachine applied (heeded state) nonce =
      Replica.restart selfId config stateMachine applied state nonce := by
  unfold heeded
  split
  · next recovering =>
    unfold Replica.restart Replica.restored
    rw [if_pos recovering, if_pos recovering]
  · rfl

theorem restored_machine {selfId : Nat} {config : Config} {stateMachine : SM} {applied nonce : Nat}
    {state : PersistentState (Input SM)} {r : Replica SM}
    (run : Replica.restored selfId config stateMachine applied state nonce = some r) :
    r.stateMachine = stateMachine := by
  unfold Replica.restored at run
  split at run
  · obtain ⟨made, make, run⟩ := Option.bind_eq_some_iff.mp run
    obtain ⟨_, rfl⟩ := Replica.recover_eq make
    cases run
    have same := (Replica.sendRecovery_same
      (Replica.forgetful selfId config stateMachine state.viewNumber nonce)).clientTable
    exact congrArg (fun table : ClientTable SM => table.stateMachine) same
  · obtain ⟨made, make, run⟩ := Option.bind_eq_some_iff.mp run
    obtain ⟨_, rfl⟩ := Replica.new_eq make
    dsimp only at run
    split at run
    · obtain ⟨_, _, run⟩ := Option.bind_eq_some_iff.mp run
      cases run
      rfl
    · obtain ⟨_, run⟩ := require_eq_some.mp run
      cases run
      rfl

theorem inv_start (starts : Starts start e) : ∃ shadow, Inv start e shadow := by
  cases starts with
  | @new selfId config stateMachine r run =>
      have owned : Owner.Inv (⟨r, .empty, none⟩ : Owner (Recorded SM)) := Owner.inv_start (.new run)
      obtain ⟨_, rfl⟩ := Replica.new_eq run
      have free : (Replica.fresh selfId config stateMachine).Fetches := fun fetch isFetch => by
        cases isFetch
      exact ⟨.empty, owned, free, .refl _, (owned.between rfl).tracks.agrees, .nil⟩
  | @recover selfId config stateMachine viewNumber nonce r run =>
      have owned : Owner.Inv (⟨r, .empty, none⟩ : Owner (Recorded SM)) :=
        Owner.inv_start (.recover run)
      obtain ⟨_, rfl⟩ := Replica.recover_eq run
      have core := (Replica.sendRecovery_same
        (Replica.forgetful selfId config stateMachine viewNumber nonce)).core
      have free : (Replica.forgetful selfId config stateMachine viewNumber nonce).Fetches :=
        fun fetch isFetch => by cases isFetch
      refine ⟨.empty, owned, free.same ?_ ?_ ?_, .refl _, (owned.between rfl).tracks.agrees, ?_⟩
      · rw [core]
      · rw [core]
      · rw [core]
      · rw [core]
        exact .nil
  | @restart selfId config stateMachine applied nonce state r reached run =>
      have within := heeded_within state
      rw [← restart_heeded] at run
      have reached' : (heeded state).logStart ≤ start := within.start.trans_le reached
      have owned : Owner.Inv (⟨r, heeded state, none⟩ : Owner (Recorded SM)) :=
        Owner.inv_start (.restart reached' (heeded_empty state) run)
      obtain ⟨made, woken, make, wakes⟩ := Replica.restart_wakes run
      obtain ⟨several, peer, _⟩ := Replica.restored_peer make
      have isRisen : (made.risen start (heeded state)).peer =
          Peer.reborn selfId config start (heeded state) nonce := peer
      have sound : Owner.Sound (heeded state) (made.risen start (heeded state)).peer := by
        rw [isRisen]
        exact Owner.sound_reborn several reached' (heeded_empty state)
      have handles : Replica.Handles (fun _ => False) (made.risen start (heeded state)) r :=
        wakes.handles
      have free : (made.risen start (heeded state)).Fetches := fun fetch isFetch => by
        have isFree : made.fetch = none := congrArg (·.fetch) peer
        cases isFree.symm.trans isFetch
      have onDisk : Agrees state (made.risen start (heeded state)).peer :=
        fun k entry isEntry inside before =>
          within.entry (sound.tracks.agrees k entry isEntry inside before)
      obtain ⟨_, calls, isCalls, executes⟩ := handles.executes sound.ordered onDisk
      refine ⟨heeded state, owned, free.handles handles, within,
        (owned.between rfl).tracks.agrees, ?_⟩
      replace isCalls : r.stateMachine.calls = made.stateMachine.calls ++ calls := isCalls
      rw [restored_machine make] at isCalls
      show Continues start ((r.stateMachine.calls.drop stateMachine.calls.length).map _) r.applied
      rw [isCalls, List.drop_left]
      exact executes

theorem inv_reach (reach : Reach start e) : ∃ shadow, Inv start e shadow := by
  induction reach with
  | start starts => exact inv_start starts
  | step _ step ih =>
      obtain ⟨shadow, inv⟩ := ih
      exact inv_step inv step

/-- Every call that executes an entry is made over a disk that holds that entry, and
the entries execute one after the other, but for the checkpoints restored; and a
write that is out can always be brought to the disk. -/
theorem continues (reach : Reach start e) : Continues start e.trace e.replica.applied ∧
    ∀ write, e.out = some write → ∃ disk, fold e.disk write = some disk := by
  obtain ⟨shadow, inv⟩ := inv_reach reach
  refine ⟨inv.executes, fun write isOut => ?_⟩
  obtain ⟨_, target, _, _, _, brings⟩ :=
    inv.owned.during write false (by simp [owner, isOut])
  unfold fold
  split
  · exact ⟨target, inv.within.apply (brings rfl).1⟩
  · exact ⟨e.disk, rfl⟩

/-- A primary that registers a client: the entry's write is taken and handed back,
and a backup acknowledges it. -/
def registering : Option (Execution Accumulator) := do
  let made ← Replica.new 0 Accumulator.config ⟨.new, []⟩
  let asked ← made.onMessage (.register 5)
  let (taken, write) ← asked.takeWrite
  let disk ← fold .empty write
  let back ← taken.persisted write
  let acked ← back.onMessage (.prepareOk 0 1 1)
  some (((((⟨made, .empty, none, []⟩ : Execution Accumulator).next .empty none asked).next .empty
    (some write) taken).next disk none back).next disk none acked)

theorem registering_reach {e : Execution Accumulator} (run : registering = some e) : Reach 0 e := by
  unfold registering at run
  obtain ⟨made, isMade, run⟩ := Option.bind_eq_some_iff.mp run
  obtain ⟨asked, isAsked, run⟩ := Option.bind_eq_some_iff.mp run
  obtain ⟨⟨taken, write⟩, isTaken, run⟩ := Option.bind_eq_some_iff.mp run
  obtain ⟨disk, lands, run⟩ := Option.bind_eq_some_iff.mp run
  obtain ⟨back, isBack, run⟩ := Option.bind_eq_some_iff.mp run
  obtain ⟨acked, isAcked, run⟩ := Option.bind_eq_some_iff.mp run
  cases run
  have start : Reach 0 (⟨made, .empty, none, []⟩ : Execution Accumulator) := .start (.new isMade)
  have first := Reach.step start (.message (.register 5) isAsked)
  have second := Reach.step first (.take rfl isTaken)
  have third := Reach.step second (.handBack rfl lands isBack)
  exact .step third (.message (.prepareOk 0 1 1) isAcked)

theorem continues_registering : ∃ e, registering = some e ∧ e.trace.length = 1 ∧
    Continues 0 e.trace e.replica.applied := by
  obtain ⟨e, isRegistering, one⟩ : ∃ e, registering = some e ∧ e.trace.length = 1 :=
    ⟨_, rfl, rfl⟩
  exact ⟨e, isRegistering, one, (continues (registering_reach isRegistering)).1⟩

end Execution

end Vsr
