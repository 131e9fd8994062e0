import Vsr.Protocol.LogMoves

/-!
# Coming back, as the protocol sees it

`Peer.reborn` is what `restart` makes of the persisted state and of a state
machine that has applied `applied` ops; the replica then executes what it holds
as committed, and takes up the view change its state calls for.
-/

set_option autoImplicit false

namespace Vsr

open Std (ExtTreeMap)

/-- What a peer that comes back after a crash starts from. -/
def Peer.reborn {Op : Type} (selfId : Nat) (config : Config) (applied : Nat)
    (state : PersistentState Op) (nonce : Nat) : Peer Op :=
  let ahead : Bool := state.recovering || decide (state.commitNumber < applied)
  let logStart := if ahead then applied else state.logStart
  let log := if state.recovering then [] else if ahead then state.log.drop (applied - state.logStart)
    else state.log
  { status := if state.recovering then .recovering else .normal
    viewNumber := state.viewNumber
    lastNormalView := if state.recovering then 0 else state.lastNormalView
    commitNumber := if ahead then applied else state.commitNumber
    applied := applied
    logStart := logStart
    log := log
    logChangedFrom := none
    written := some
      { viewNumber := state.viewNumber, lastNormalView := state.lastNormalView
        recovering := state.recovering, logStart := state.logStart }
    writes := 0
    outstanding := none
    durable := logStart + log.length
    config := config
    selfId := selfId
    acked := List.replicate config.replicas.length 0
    doViewChangeSent := false
    doViewChangeFrom := ∅
    catchingUp := none
    serving := none
    fetch := none
    recoveryNonce := if state.recovering then nonce else 0
    recoveryResponses := ∅ }

/-- The view a peer that comes back moves to: the view change it was in, or, from
the view it led, the next one; a backup stays. -/
def Peer.TakesUp {Op : Type} (p : Peer Op) (state : PersistentState Op) : Peer Op → Prop :=
  fun p' => (state.lastNormalView < state.viewNumber ∧ p' = p.turnTo state.viewNumber) ∨
    (¬state.lastNormalView < state.viewNumber ∧ p.isPrimary ∧
      p' = p.turnTo (state.viewNumber + 1)) ∨
    (¬state.lastNormalView < state.viewNumber ∧ ¬p.isPrimary ∧ p' = p)

namespace Replica

variable {SM : Type} [StateMachine SM] {i : InputsFor SM}

theorem drop_min_length {α : Type} (n : Nat) (l : List α) : l.drop (min n l.length) = l.drop n := by
  rcases Nat.le_total n l.length with short | long
  · rw [Nat.min_eq_left short]
  · rw [Nat.min_eq_right long, List.drop_length, List.drop_eq_nil_of_le long]

theorem new_eq {selfId : Nat} {config : Config} {stateMachine : SM} {r : Replica SM}
    (run : new selfId config stateMachine = some r) :
    3 ≤ config.replicas.length ∧ r = fresh selfId config stateMachine := by
  obtain ⟨enough, run⟩ := require_eq_some.mp run
  exact ⟨enough, (Option.some.inj run).symm⟩

/-- A replica without memory, before it asks for its state. -/
def forgetful (selfId : Nat) (config : Config) (stateMachine : SM) (viewNumber nonce : Nat) :
    Replica SM :=
  { fresh selfId config stateMachine with
    status := .recovering, viewNumber := viewNumber, recoveryNonce := nonce }

theorem recover_eq {selfId : Nat} {config : Config} {stateMachine : SM} {viewNumber nonce : Nat}
    {r : Replica SM} (run : recover selfId config stateMachine viewNumber nonce = some r) :
    3 ≤ config.replicas.length ∧
      r = (forgetful selfId config stateMachine viewNumber nonce).sendRecovery := by
  unfold recover at run
  obtain ⟨made, make, run⟩ := Option.bind_eq_some_iff.mp run
  obtain ⟨enough, rfl⟩ := new_eq make
  exact ⟨enough, (Option.some.inj run).symm⟩

/-- What `restart` has made before it loads the client table. -/
theorem restored_peer {selfId : Nat} {config : Config} {stateMachine : SM} {applied nonce : Nat}
    {state : PersistentState (Input SM)} {r : Replica SM}
    (run : restored selfId config stateMachine applied state nonce = some r) :
    3 ≤ config.replicas.length ∧
      { r.peer with
        applied := applied
        written := some
          { viewNumber := state.viewNumber, lastNormalView := state.lastNormalView
            recovering := state.recovering, logStart := state.logStart }
        durable := r.opNumber } = Peer.reborn selfId config applied state nonce ∧
      (state.recovering = false → r.queued = []) ∧
      (state.recovering = true → r =
        { (forgetful selfId config stateMachine state.viewNumber nonce).sendRecovery with
          logStart := applied, commitNumber := applied }) := by
  unfold restored at run
  split at run
  · next recovering =>
    obtain ⟨made, make, run⟩ := Option.bind_eq_some_iff.mp run
    obtain ⟨enough, rfl⟩ := recover_eq make
    cases run
    refine ⟨enough, ?_, by simp [recovering], fun _ => rfl⟩
    have core := (sendRecovery_same
      (forgetful selfId config stateMachine state.viewNumber nonce)).core
    simp only [Replica.peer, Core.peer, core, Standing.opNumber, Peer.reborn, recovering]
    simp [forgetful, fresh]
  · next notRecovering =>
    obtain ⟨made, make, run⟩ := Option.bind_eq_some_iff.mp run
    obtain ⟨enough, rfl⟩ := new_eq make
    dsimp only at run
    split at run
    · next ahead =>
      obtain ⟨drained, sub, run⟩ := Option.bind_eq_some_iff.mp run
      obtain ⟨_, rfl⟩ := checkedSub_eq_some.mp sub
      cases run
      refine ⟨enough, ?_, fun _ => rfl, by simp [notRecovering]⟩
      simp [Replica.peer, Peer.reborn, notRecovering, ahead, Core.peer, fresh, Standing.opNumber,
        drop_min_length]
    · next behind =>
      obtain ⟨_, run⟩ := require_eq_some.mp run
      cases run
      refine ⟨enough, ?_, fun _ => rfl, by simp [notRecovering]⟩
      simp [Replica.peer, Peer.reborn, notRecovering, behind, Core.peer, fresh, Standing.opNumber]

theorem mem_queued_sendEach {r : Replica SM} {ids : List Nat} {message : MessageFor SM}
    {envelope : Envelope SM} (mem : envelope ∈ (r.sendEach ids message).queued) :
    envelope ∈ r.queued ∨ ∃ replicaId ∈ ids, envelope = (replicaId, message) := by
  unfold sendEach at mem
  induction ids generalizing r with
  | nil => exact .inl mem
  | cons replicaId rest ih =>
      rcases ih mem with sent | other
      · rcases mem_queued_send sent with rfl | old
        · exact .inr ⟨replicaId, List.mem_cons_self .., rfl⟩
        · exact .inl old
      · obtain ⟨other, isOther, same⟩ := other
        exact .inr ⟨other, List.mem_cons_of_mem _ isOther, same⟩

/-- Every step of `restart` up to the view change it may start. -/
theorem restart_executed {selfId : Nat} {config : Config} {stateMachine : SM}
    {applied nonce : Nat} {state : PersistentState (Input SM)} {r' : Replica SM}
    (run : restart selfId config stateMachine applied state nonce = some r') :
    3 ≤ config.replicas.length ∧
      (Peer.reborn selfId config applied state nonce).commitNumber ≤
        (Peer.reborn selfId config applied state nonce).opNumber ∧
      ∃ (r : Replica SM) (executed : Nat),
        r.peer = { Peer.reborn selfId config applied state nonce with applied := executed } ∧
        (executed = applied ∨ (applied ≤ executed ∧
          executed ≤ (Peer.reborn selfId config applied state nonce).commitNumber)) ∧
        (state.recovering = false → r.queued = []) ∧
        (state.recovering = true → ∀ envelope ∈ r.queued,
          Says i (Peer.reborn selfId config applied state nonce) envelope) ∧
        (if r.status = .recovering then some r
          else if state.lastNormalView < state.viewNumber then r.startViewChange state.viewNumber
          else if r.isPrimary then r.startViewChange (state.viewNumber + 1)
          else some r) = some r' := by
  unfold restart at run
  obtain ⟨made, make, run⟩ := Option.bind_eq_some_iff.mp run
  obtain ⟨enough, peer, quiet, asks⟩ := restored_peer make
  obtain ⟨held, run⟩ := require_eq_some.mp run
  obtain ⟨executed, execute, run⟩ := Option.bind_eq_some_iff.mp run
  obtain ⟨rebuilt, rebuild, run⟩ := Option.bind_eq_some_iff.mp run
  obtain ⟨done, executedPeer, executedQueued, bounds⟩ := applyCommitted_peer execute
  have same := rebuildPending_same rebuild
  have queued : rebuilt.queued = made.queued := by
    have : rebuilt.queued = executed.queued := by
      unfold Replica.queued
      rw [same.outboxes]
    rw [this, executedQueued]
    rfl
  refine ⟨enough, ?_, rebuilt, done, ?_, ?_, ?_, ?_, run⟩
  · rw [← peer]
    exact held
  · unfold Replica.peer at executedPeer ⊢
    rw [same.core, executedPeer, ← peer]
    rfl
  · rw [← peer]
    rcases bounds with same | ⟨more, committed, _⟩
    · exact .inl same
    · exact .inr ⟨more, committed⟩
  · rw [queued]
    exact quiet
  · intro recovering envelope mem
    rw [queued, asks recovering] at mem
    rcases mem_queued_sendEach (r := forgetful selfId config stateMachine state.viewNumber nonce)
      mem with none | ⟨replicaId, asked, rfl⟩
    · simp [forgetful, fresh, Replica.queued] at none
    · have other : replicaId ≠ selfId := ne_of_mem_others (List.mem_filter.mp asked).1
      simp [Says, Peer.reborn, recovering, forgetful, fresh, other]

/-- What `restart` makes of a replica that was not recovering. -/
theorem restart_runs {selfId : Nat} {config : Config} {stateMachine : SM} {applied nonce : Nat}
    {state : PersistentState (Input SM)} {r' : Replica SM}
    (run : restart selfId config stateMachine applied state nonce = some r')
    (kept : state.recovering = false) :
    ∃ (r : Replica SM) (executed : Nat), r.queued = [] ∧ Runs i r r' ∧
      (executed = applied ∨ (applied ≤ executed ∧
        executed ≤ (Peer.reborn selfId config applied state nonce).commitNumber)) ∧
      Peer.TakesUp { Peer.reborn selfId config applied state nonce with applied := executed }
        state r.peer := by
  obtain ⟨_, _, r, executed, peer, bounds, quiet, _, run⟩ := restart_executed (i := i) run
  have status : r.status = .normal := by
    refine (congrArg (·.status) peer).trans ?_
    simp [Peer.reborn, kept]
  have moves : ∀ {v : Nat}, r.startViewChange v = some r' → Runs i (r.leaveFor v) r' := by
    intro v change
    refine Runs.trans (sendToOthers_runs fun replicaId => ?_) (maybeSendDoViewChange_runs change)
    exact ⟨rfl, rfl⟩
  rw [if_neg (by simp [status])] at run
  split at run
  · next changing =>
    refine ⟨r.leaveFor state.viewNumber, executed, quiet kept, moves run, bounds, .inl ⟨changing, ?_⟩⟩
    rw [← peer]
    rfl
  · next settled =>
    split at run
    · next primary =>
      refine ⟨r.leaveFor (state.viewNumber + 1), executed, quiet kept, moves run, bounds,
        .inr (.inl ⟨settled, ?_, ?_⟩)⟩
      · rw [← peer]
        exact primary
      · rw [← peer]
        rfl
    · next backup =>
      cases run
      refine ⟨_, executed, quiet kept, .refl _, bounds, .inr (.inr ⟨settled, ?_, peer⟩)⟩
      rw [← peer]
      exact backup

theorem restart_recovering {selfId : Nat} {config : Config} {stateMachine : SM}
    {applied nonce : Nat} {state : PersistentState (Input SM)} {r' : Replica SM}
    (run : restart selfId config stateMachine applied state nonce = some r')
    (recovering : state.recovering = true) :
    r'.peer = Peer.reborn selfId config applied state nonce ∧
      ∀ envelope ∈ r'.queued, Says i (Peer.reborn selfId config applied state nonce) envelope := by
  obtain ⟨_, _, r, executed, peer, bounds, _, asks, run⟩ := restart_executed (i := i) run
  have status : r.status = .recovering := by
    refine (congrArg (·.status) peer).trans ?_
    simp [Peer.reborn, recovering]
  rw [if_pos status] at run
  cases run
  refine ⟨?_, asks recovering⟩
  have all : executed = applied := by
    have : (Peer.reborn selfId config applied state nonce).commitNumber = applied := by
      simp [Peer.reborn, recovering]
    rw [this] at bounds
    omega
  rw [peer, all]
  rfl

end Replica

end Vsr
