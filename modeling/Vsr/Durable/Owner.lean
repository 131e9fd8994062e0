import Vsr.Accumulator
import Vsr.Durable.Tracks
import Vsr.Protocol.Restart

/-!
# The writes track the state

An owner of one replica hands it any messages, takes one write at a time, has it
land or, if it needs no sync, skips it, and comes back from crashes with the
state the landed writes left.  At every write taken, that state brought up to
date with the write is the state of the replica.
-/

set_option autoImplicit false

namespace Vsr

open Relation (ReflTransGen)

/-- A replica, the state its landed writes fold to, and the write that is out,
with whether it has landed. -/
structure Owner (SM : Type) [StateMachine SM] where
  replica : Replica SM
  disk : PersistentState (Input SM)
  out : Option (LogWrite (Input SM) × Bool)

namespace Owner

variable {SM : Type} [StateMachine SM]

/-- What the owner does next.  A call that panics is not a step. -/
inductive Step : Owner SM → Owner SM → Prop
  | message {o : Owner SM} {r : Replica SM} (message : MessageFor SM)
      (run : o.replica.onMessage message = some r) : Step o { o with replica := r }
  | idle {o : Owner SM} {r : Replica SM} (run : o.replica.onIdle = some r) :
      Step o { o with replica := r }
  | compact {o : Owner SM} {r : Replica SM} (opNumber : Nat)
      (run : o.replica.compact opNumber = some r) : Step o { o with replica := r }
  | drainBeforePersist {o : Owner SM} :
      Step o { o with replica := o.replica.drainMessagesBeforePersist.1 }
  | drain {o : Owner SM} : Step o { o with replica := o.replica.drainMessages.1 }
  | drainReplies {o : Owner SM} : Step o { o with replica := o.replica.drainReplies.1 }
  | take {o : Owner SM} {r : Replica SM} {write : LogWrite (Input SM)} (none : o.out = none)
      (run : o.replica.takeWrite = some (r, write)) :
      Step o { o with replica := r, out := some (write, false) }
  | land {o : Owner SM} {disk : PersistentState (Input SM)} {write : LogWrite (Input SM)}
      (isOut : o.out = some (write, false)) (run : o.disk.apply write = some disk) :
      Step o { o with disk := disk, out := some (write, true) }
  | handBack {o : Owner SM} {r : Replica SM} {write : LogWrite (Input SM)} {landed : Bool}
      (isOut : o.out = some (write, landed)) (durable : landed = true ∨ write.sync = false)
      (run : o.replica.persisted write = some r) : Step o { o with replica := r, out := none }
  /-- A crash: a write that is out and has not landed is lost. -/
  | crash {o : Owner SM} {r : Replica SM} (stateMachine : SM) (applied nonce : Nat)
      (reached : o.disk.logStart ≤ applied)
      (run : Replica.restart o.replica.selfId o.replica.config stateMachine applied o.disk nonce =
        some r) : Step o { o with replica := r, out := none }

/-- How the owner made the replica. -/
inductive Starts : Owner SM → Prop
  | new {selfId : Nat} {config : Config} {stateMachine : SM} {r : Replica SM}
      (run : Replica.new selfId config stateMachine = some r) : Starts ⟨r, .empty, none⟩
  | recover {selfId : Nat} {config : Config} {stateMachine : SM} {viewNumber nonce : Nat}
      {r : Replica SM} (run : Replica.recover selfId config stateMachine viewNumber nonce = some r) :
      Starts ⟨r, .empty, none⟩
  /-- From a state persisted earlier; what a recovering replica persists holds no
  log. -/
  | restart {selfId : Nat} {config : Config} {stateMachine : SM} {applied nonce : Nat}
      {state : PersistentState (Input SM)} {r : Replica SM} (reached : state.logStart ≤ applied)
      (empty : state.recovering = true → state.log = [])
      (run : Replica.restart selfId config stateMachine applied state nonce = some r) :
      Starts ⟨r, state, none⟩

/-- The states of an owner's runs. -/
inductive Reach : Owner SM → Prop
  | start {o : Owner SM} (starts : Starts o) : Reach o
  | step {o o' : Owner SM} (before : Reach o) (step : Step o o') : Reach o'

end Owner

/-! ## One write -/

section Write
variable {SM : Type} [StateMachine SM]

theorem compactTo_eq {Op : Type} (state : PersistentState Op) (logStart : Nat)
    (later : state.logStart ≤ logStart) :
    state.compactTo logStart =
      { state with log := state.log.drop (logStart - state.logStart), logStart := logStart } := by
  unfold PersistentState.compactTo
  split
  · dsimp only
    rw [Replica.drop_min_length]
  · next same =>
    have : logStart = state.logStart := by omega
    subst this
    simp

/-- A write taken brings the copy that tracks the replica to its state. -/
theorem takeWrite_apply {r r' : Replica SM} {write : LogWrite (Input SM)}
    {disk : PersistentState (Input SM)} (run : r.takeWrite = some (r', write))
    (tracks : Tracks disk r.peer) : disk.apply write = some r.persistentState := by
  obtain ⟨_, run⟩ := require_eq_some.mp run
  obtain ⟨durable, _, run⟩ := Option.bind_eq_some_iff.mp run
  cases run
  have onDisk : disk.compactTo r.logStart = { disk with
      log := disk.log.drop (r.logStart - disk.logStart), logStart := r.logStart } :=
    compactTo_eq disk r.logStart tracks.start
  unfold PersistentState.apply
  dsimp only
  rw [onDisk]
  cases changed : r.logChangedFrom with
  | none =>
      have same := tracks.same changed
      replace same : disk.log.drop (r.logStart - disk.logStart) = r.log := same
      rw [require_of]
      · have all : r.opNumber + 1 - r.logStart - 1 = r.log.length := by
          unfold Standing.opNumber
          omega
        have rest : r.logFrom (r.opNumber + 1) = [] := by
          simp [Standing.logFrom, Standing.opNumber]
        simp only [same, all, rest, List.take_length, List.append_nil]
        rfl
      · rw [same]
        unfold Standing.opNumber
        constructor
        · show r.logStart + 1 ≤ r.logStart + r.log.length + 1
          omega
        · exact le_rfl
  | some first =>
      obtain ⟨_, onDiskLong, inMemory, agree⟩ := tracks.marked first changed
      replace onDiskLong : first - 1 - r.logStart ≤
        (disk.log.drop (r.logStart - disk.logStart)).length := onDiskLong
      replace inMemory : first - 1 - r.logStart ≤ r.log.length := inMemory
      replace agree : (disk.log.drop (r.logStart - disk.logStart)).take (first - 1 - r.logStart) =
        r.log.take (first - 1 - r.logStart) := agree
      have index : max first (r.logStart + 1) - r.logStart - 1 = first - 1 - r.logStart := by omega
      have index' : max first (r.logStart + 1) - (r.logStart + 1) = first - 1 - r.logStart := by
        omega
      rw [require_of]
      · have rest : r.logFrom (max first (r.logStart + 1)) =
            r.log.drop (first - 1 - r.logStart) := by
          unfold Standing.logFrom
          rw [index', Replica.drop_min_length]
        simp only [index, agree, rest, List.take_append_drop]
        rfl
      · dsimp only
        omega

/-- A write that needs no sync changes nothing but the commit number. -/
theorem takeWrite_noSync {r r' : Replica SM} {write : LogWrite (Input SM)}
    {disk : PersistentState (Input SM)} (run : r.takeWrite = some (r', write))
    (tracks : Tracks disk r.peer) (noSync : write.sync = false) :
    { disk with commitNumber := r.commitNumber } = r.persistentState := by
  obtain ⟨_, run⟩ := require_eq_some.mp run
  obtain ⟨durable, _, run⟩ := Option.bind_eq_some_iff.mp run
  cases run
  simp only [Bool.or_eq_false_iff, Option.isSome_eq_false_iff, Option.isNone_iff_eq_none,
    decide_eq_false_iff_not, ne_eq, not_not] at noSync
  obtain ⟨unchanged, written⟩ := noSync
  have same : disk.log.drop (r.logStart - disk.logStart) = r.log := tracks.same unchanged
  have record := tracks.written _ written
  simp only [Written.mk.injEq] at record
  obtain ⟨view, lastNormal, recovering, start⟩ := record
  rw [start, Nat.sub_self, List.drop_zero] at same
  unfold Standing.persistentState
  rw [view, lastNormal, start, recovering, ← same]

/-- The state the write holds tracks the replica that has taken it. -/
theorem takeWrite_tracks_out {r r' : Replica SM} {write : LogWrite (Input SM)}
    (run : r.takeWrite = some (r', write)) : Tracks r.persistentState r'.peer := by
  obtain ⟨_, durable, _, peer, _⟩ := Replica.takeWrite_cases run
  rw [peer]
  refine ⟨le_rfl, fun _ => ?_, fun changed isChanged => ?_, fun written isWritten => ?_⟩
  · show r.log.drop (r.logStart - r.logStart) = r.log
    simp
  · cases isChanged
  · cases isWritten
    rfl

end Write

/-! ## Whole runs -/

namespace Owner

variable {SM : Type} [StateMachine SM]

/-- What holds of a replica whatever its owner does. -/
structure Sound (disk : PersistentState (Input SM)) (p : Peer (Input SM)) : Prop where
  several : 3 ≤ p.config.replicas.length
  ordered : p.Ordered
  recovering : p.status = .recovering → p.log = []
  tracks : Tracks disk p

theorem Sound.act {disk : PersistentState (Input SM)} {i : Replica.InputsFor SM}
    {p p' : Peer (Input SM)} (sound : Sound disk p) (act : Act i p p') : Sound disk p' := by
  obtain ⟨ordered, tracks⟩ := tracks_moves act.moves sound.ordered sound.tracks
  exact
    { several := by rw [act.identity.1]; exact sound.several
      ordered := ordered
      recovering := act.recovering sound.recovering
      tracks := tracks }

theorem Sound.runs {disk : PersistentState (Input SM)} {i : Replica.InputsFor SM}
    {r r' : Replica SM} (sound : Sound disk r.peer) (runs : Replica.Runs i r r') :
    Sound disk r'.peer :=
  runs.induct sound Sound.act

/-- A copy that differs in the commit number only is tracked as well. -/
theorem Sound.of_commit {disk disk' : PersistentState (Input SM)} {p : Peer (Input SM)}
    (sound : Sound disk p) {commitNumber : Nat}
    (same : { disk' with commitNumber := commitNumber } = disk) : Sound disk' p := by
  subst same
  exact ⟨sound.several, sound.ordered, sound.recovering, sound.tracks.start, sound.tracks.same,
    sound.tracks.marked, sound.tracks.written⟩

/-- Everything may be heard and appended: the protocol is not what the writes
rest on. -/
def anything : Replica.InputsFor SM := ⟨fun _ => True, fun _ => True, fun _ _ => True⟩

theorem quorum_two {config : Config} (several : 3 ≤ config.replicas.length) :
    2 ≤ config.quorum := by
  unfold Config.quorum
  omega

/-- What a replica that comes back starts from tracks the copy it came back from. -/
theorem sound_reborn {selfId : Nat} {config : Config} {applied nonce : Nat}
    {state : PersistentState (Input SM)} (several : 3 ≤ config.replicas.length)
    (reached : state.logStart ≤ applied) (empty : state.recovering = true → state.log = []) :
    Sound state (Peer.reborn selfId config applied state nonce) := by
  refine ⟨several, ?_, ?_, ?_⟩
  · unfold Peer.reborn
    constructor <;> dsimp only <;> split <;> simp_all
  · intro recovering
    unfold Peer.reborn at recovering ⊢
    dsimp only at recovering ⊢
    split at recovering
    · next isRecovering => simp [isRecovering]
    · cases recovering
  · refine ⟨?_, fun _ => ?_, fun changed isChanged => ?_, fun written isWritten => ?_⟩
    · unfold Peer.reborn
      dsimp only
      split <;> omega
    · unfold Peer.reborn
      dsimp only
      cases isRecovering : state.recovering with
      | true => simp [empty isRecovering]
      | false =>
          by_cases ahead : state.commitNumber < applied <;> simp [ahead]
    · cases isChanged
    · cases isWritten
      rfl

/-- The replica `restart` makes of a copy tracks that copy. -/
theorem sound_restart {selfId : Nat} {config : Config} {stateMachine : SM} {applied nonce : Nat}
    {state : PersistentState (Input SM)} {r : Replica SM} (reached : state.logStart ≤ applied)
    (empty : state.recovering = true → state.log = [])
    (run : Replica.restart selfId config stateMachine applied state nonce = some r) :
    Sound state r.peer := by
  obtain ⟨several, _⟩ := Replica.restart_executed (i := anything) run
  have reborn : Sound state (Peer.reborn selfId config applied state nonce) :=
    sound_reborn several reached empty
  cases kept : state.recovering with
  | true =>
      rw [(Replica.restart_recovering (i := anything) run kept).1]
      exact reborn
  | false =>
      obtain ⟨base, executed, _, runs, bounds, takesUp⟩ :=
        Replica.restart_runs (i := anything) run kept
      refine Sound.runs (r := base) ?_ runs
      obtain ⟨_, ordered, recovering, tracks⟩ := reborn
      have executes : Sound state
          { Peer.reborn selfId config applied state nonce with applied := executed } := by
        refine ⟨several, ?_, recovering, tracks.start, tracks.same, tracks.marked, tracks.written⟩
        obtain ⟨start, done⟩ := ordered
        have isApplied : (Peer.reborn selfId config applied state nonce).applied = applied := rfl
        constructor
        · show (Peer.reborn selfId config applied state nonce).logStart ≤ executed
          omega
        · show executed ≤ (Peer.reborn selfId config applied state nonce).commitNumber
          omega
      have turns : ∀ v, Sound state (Peer.turnTo
          { Peer.reborn selfId config applied state nonce with applied := executed } v) := by
        intro v
        refine ⟨several, ⟨executes.ordered.start, executes.ordered.applied⟩, fun recovering => ?_,
          executes.tracks.start, executes.tracks.same, executes.tracks.marked,
          executes.tracks.written⟩
        cases recovering
      rcases takesUp with ⟨_, same⟩ | ⟨_, _, same⟩ | ⟨_, _, same⟩
      · rw [same]
        exact turns _
      · rw [same]
        exact turns _
      · rw [same]
        exact executes

theorem moves_outstanding {Op : Type} {p p' : Peer Op} (moves : ReflTransGen LogMove p p') :
    p'.outstanding = p.outstanding := by
  induction moves with
  | refl => rfl
  | tail _ move ih =>
      refine Eq.trans ?_ ih
      cases move with
      | stay log logStart writes => rw [writes]
      | _ => rfl

/-- What holds in every state of an owner's runs: between writes the disk tracks
the replica, and while one is out, the state it brings the disk to does. -/
structure Inv (o : Owner SM) : Prop where
  diskEmpty : o.disk.recovering = true → o.disk.log = []
  between : o.out = none → Sound o.disk o.replica.peer
  during : ∀ write landed, o.out = some (write, landed) → o.replica.outstanding ≠ none ∧
    ∃ target, Sound target o.replica.peer ∧ (target.recovering = true → target.log = []) ∧
      (landed = true → o.disk = target) ∧
      (landed = false → o.disk.apply write = some target ∧ (write.sync = false →
        { o.disk with commitNumber := target.commitNumber } = target))

theorem inv_start {o : Owner SM} (starts : Starts o) : Inv o := by
  have fresh : ∀ {p : Peer (Input SM)}, 3 ≤ p.config.replicas.length → p.logStart = 0 →
      p.applied = 0 → p.log = [] → p.logChangedFrom = none → p.written = none →
      Sound .empty p := by
    intro p several start applied log changed written
    refine ⟨several, ⟨by omega, by omega⟩, fun _ => log, Nat.zero_le _, fun _ => ?_,
      fun from_ isChanged => ?_, fun record isWritten => ?_⟩
    · simp [PersistentState.empty, log]
    · rw [changed] at isChanged
      cases isChanged
    · rw [written] at isWritten
      cases isWritten
  cases starts with
  | new run =>
      obtain ⟨several, rfl⟩ := Replica.new_eq run
      exact ⟨by simp [PersistentState.empty], fun _ => fresh several rfl rfl rfl rfl rfl,
        fun _ _ isOut => by cases isOut⟩
  | recover run =>
      obtain ⟨several, rfl⟩ := Replica.recover_eq run
      refine ⟨by simp [PersistentState.empty], fun _ => ?_, fun _ _ isOut => by cases isOut⟩
      show Sound .empty (Core.peer _)
      rw [(Replica.sendRecovery_same _).core]
      exact fresh several rfl rfl rfl rfl rfl
  | restart reached empty run =>
      exact ⟨empty, fun _ => sound_restart reached empty run, fun _ _ isOut => by cases isOut⟩

/-- A call that acts by the protocol keeps the invariant. -/
theorem Inv.runs {o : Owner SM} (inv : Inv o) {r : Replica SM}
    (runs : Replica.Runs anything o.replica r) : Inv { o with replica := r } where
  diskEmpty := inv.diskEmpty
  between none := (inv.between none).runs runs
  during write landed isOut := by
    obtain ⟨out, target, sound, rest⟩ := inv.during write landed isOut
    refine ⟨?_, target, sound.runs runs, rest⟩
    have same : r.outstanding = o.replica.outstanding := moves_outstanding runs.moves
    show r.outstanding ≠ none
    rwa [same]

theorem several_of_inv {o : Owner SM} (inv : Inv o) : 3 ≤ o.replica.config.replicas.length := by
  cases isOut : o.out with
  | none => exact (inv.between isOut).several
  | some out =>
      obtain ⟨_, _, sound, _⟩ := inv.during out.1 out.2 isOut
      exact sound.several

theorem inv_step {o o' : Owner SM} (inv : Inv o) (step : Step o o') : Inv o' := by
  cases step with
  | message message run =>
      exact inv.runs (Replica.onMessage_runs run (quorum_two (several_of_inv inv)) trivial
        fun _ _ => trivial)
  | idle run => exact inv.runs (Replica.onIdle_runs run)
  | compact opNumber run => exact inv.runs (Replica.compact_runs run)
  | drainBeforePersist => exact inv.runs (Replica.drains_run o.replica).1
  | drain => exact inv.runs (Replica.drains_run o.replica).2.1
  | drainReplies => exact inv.runs (Replica.drains_run o.replica).2.2
  | take free run =>
      have sound := inv.between free
      obtain ⟨_, durable, _, peer, _⟩ := Replica.takeWrite_cases run
      refine ⟨inv.diskEmpty, (fun isNone => by cases isNone), fun write landed isOut => ?_⟩
      cases isOut
      refine ⟨?_, o.replica.persistentState, ?_, ?_, (fun landed => by cases landed), fun _ =>
        ⟨takeWrite_apply run sound.tracks, takeWrite_noSync run sound.tracks⟩⟩
      · intro isNone
        have isSome := congrArg (·.outstanding) peer
        cases isNone.symm.trans isSome
      · refine ⟨?_, ?_, ?_, takeWrite_tracks_out run⟩
        all_goals rw [peer]
        · exact sound.several
        · exact ⟨sound.ordered.start, sound.ordered.applied⟩
        · exact sound.recovering
      · intro recovering
        exact sound.recovering (of_decide_eq_true recovering)
  | land isOut run =>
      obtain ⟨out, target, sound, empty, _, lands⟩ := inv.during _ _ isOut
      cases (lands rfl).1.symm.trans run
      refine ⟨empty, (fun isNone => by cases isNone), fun write landed isOut => ?_⟩
      cases isOut
      exact ⟨out, _, sound, empty, fun _ => rfl, fun landed => by cases landed⟩
  | handBack isOut durable run =>
      rename_i write isLanded
      obtain ⟨out, target, sound, empty, landed, lands⟩ := inv.during _ _ isOut
      obtain ⟨outstanding, _, _, runs⟩ := Replica.persisted_runs (i := anything) run
        fun _ _ _ _ _ _ _ => trivial
      refine ⟨inv.diskEmpty, fun _ => ?_, fun write landed isOut => by cases isOut⟩
      have back : Sound target (o.replica.handedBack outstanding).peer :=
        ⟨sound.several, ⟨sound.ordered.start, sound.ordered.applied⟩, sound.recovering,
          sound.tracks.start, sound.tracks.same, sound.tracks.marked, sound.tracks.written⟩
      refine Sound.runs ?_ runs
      cases isLanded with
      | true =>
          rw [landed rfl]
          exact back
      | false =>
          obtain noSync := durable.resolve_left (by simp)
          exact back.of_commit ((lands rfl).2 noSync)
  | crash stateMachine applied nonce reached run =>
      exact ⟨inv.diskEmpty, fun _ => sound_restart reached inv.diskEmpty run,
        fun write landed isOut => by cases isOut⟩

theorem inv_reach {o : Owner SM} (reach : Reach o) : Inv o := by
  induction reach with
  | start starts => exact inv_start starts
  | step _ step ih => exact inv_step ih step

/-- At every write taken, the disk brought up to date with the write is the state
of the replica; and a write that needs no sync changes the commit number only. -/
theorem takeWrite_tracks {o : Owner SM} (reach : Reach o) {r : Replica SM}
    {write : LogWrite (Input SM)} (run : o.replica.takeWrite = some (r, write)) :
    o.disk.apply write = some o.replica.persistentState ∧
      (write.sync = false →
        { o.disk with commitNumber := o.replica.commitNumber } = o.replica.persistentState) := by
  have inv := inv_reach reach
  cases isOut : o.out with
  | none =>
      have tracks := (inv.between isOut).tracks
      exact ⟨takeWrite_apply run tracks, takeWrite_noSync run tracks⟩
  | some out =>
      exact absurd (Replica.takeWrite_cases run).1 (inv.during out.1 out.2 isOut).1

/-- A primary that has been asked for a session. -/
def asked : Option (Replica Accumulator) :=
  (Replica.new 0 Accumulator.config .new).bind fun r => r.onMessage (.register 0)

theorem asked_reach {r : Replica Accumulator} (run : asked = some r) : Reach ⟨r, .empty, none⟩ := by
  unfold asked at run
  obtain ⟨r₀, made, heard⟩ := Option.bind_eq_some_iff.mp run
  exact .step (.start (.new made)) (.message (.register 0) heard)

theorem takeWrite_tracks_asked : ∃ r r' write, asked = some r ∧ r.takeWrite = some (r', write) ∧
    PersistentState.empty.apply write = some r.persistentState ∧ (write.sync = false →
      { (PersistentState.empty : PersistentState Accumulator.Op) with
        commitNumber := r.commitNumber } = r.persistentState) := by
  obtain ⟨⟨r', write⟩, run⟩ : ∃ taken, (asked.bind fun r => r.takeWrite) = some taken :=
    Option.isSome_iff_exists.mp (by decide)
  obtain ⟨r, isAsked, taken⟩ := Option.bind_eq_some_iff.mp run
  exact ⟨r, r', write, isAsked, taken, takeWrite_tracks (asked_reach isAsked) taken⟩

end Owner

end Vsr
