import Vsr.Protocol.Restart
import Vsr.Replica.Handled

/-!
# Idle periods, writes handed back and restarts are sequences of moves
-/

set_option autoImplicit false

namespace Vsr.Replica

open Relation (ReflTransGen)

variable {SM : Type} [StateMachine SM] {heard : MessageFor SM → Prop} {r r' : Replica SM}

/-! ## Idle periods -/

theorem serveOnIdle_moves : Moves heard r r.serveOnIdle := by
  unfold serveOnIdle
  split
  · exact .refl
  · next serving =>
    split
    · exact .single .release
    · refine .single (.quiet ?_)
      constructor <;> simp only [serving, Option.map_some]

theorem serveOnIdle_same : r.serveOnIdle.status = r.status ∧
    r.serveOnIdle.config = r.config ∧ r.serveOnIdle.selfId = r.selfId ∧
    r.serveOnIdle.viewNumber = r.viewNumber := by
  unfold serveOnIdle
  split
  · exact ⟨rfl, rfl, rfl, rfl⟩
  · split <;> exact ⟨rfl, rfl, rfl, rfl⟩

theorem fetchOnIdle_moves : Moves heard r r.fetchOnIdle.1 := by
  unfold fetchOnIdle
  split
  · exact .refl
  · next fetch isFetch =>
    split
    · exact .refl
    · dsimp only
      split
      · have gaveUp : r.Refetch
            (some { fetch with idlePeriods := fetch.idlePeriods + 1, stalled := true }) :=
          .goOn isFetch rfl rfl rfl (.inl rfl)
        exact .single (.refetch gaveUp)
      · have waits : r.Refetch (some { fetch with idlePeriods := fetch.idlePeriods + 1 }) :=
          .goOn isFetch rfl rfl rfl (.inl rfl)
        split
        · exact .head (.refetch waits) sendGetChunk_moves
        · exact .single (.refetch waits)

theorem fetchOnIdle_same : r.fetchOnIdle.1.status = r.status ∧
    r.fetchOnIdle.1.viewNumber = r.viewNumber := by
  unfold fetchOnIdle
  split
  · exact ⟨rfl, rfl⟩
  · split
    · exact ⟨rfl, rfl⟩
    · dsimp only
      split
      · exact ⟨rfl, rfl⟩
      · split
        · rw [(sendGetChunk_same _).core]
          exact ⟨rfl, rfl⟩
        · exact ⟨rfl, rfl⟩

theorem resendPrepare_moves {due : Nat} (run : r.resendPrepare due = some r') :
    Moves heard r r' := by
  unfold resendPrepare at run
  split at run
  · obtain ⟨entry, _, run⟩ := Option.map_eq_some_iff.mp run
    cases run
    exact sendEach_moves trivial
  · cases run
    exact .refl

theorem resendPrepare_same {due : Nat} (run : r.resendPrepare due = some r') :
    SameButQueued r r' := by
  unfold resendPrepare at run
  split at run
  · obtain ⟨entry, _, run⟩ := Option.map_eq_some_iff.mp run
    cases run
    exact sendEach_same _ _ _
  · cases run
    exact .refl r

theorem resendRound_moves (status : r.status = .normal) (primary : r.isPrimary) :
    Moves heard r r.resendRound := by
  unfold resendRound
  split
  · exact sendEach_moves ⟨rfl, status, primary, le_rfl⟩
  · exact .refl

theorem primaryOnIdle_moves (run : r.primaryOnIdle = some r') (status : r.status = .normal)
    (primary : r.isPrimary) : Moves heard r r' := by
  unfold primaryOnIdle at run
  obtain ⟨resent, resend, run⟩ := Option.map_eq_some_iff.mp run
  cases run
  have beat := (sendToOthers_same r.noteStable (.commit r.viewNumber r.commitNumber)).core
  have resends : Moves heard _ resent := resendPrepare_moves resend
  have same := (resendPrepare_same resend).core
  have isNormal : resent.status = .normal := by
    rw [same]
    exact (congrArg (·.status) beat).trans status
  have isPrimary : resent.isPrimary := by
    unfold Core.isPrimary Core.primaryId at primary ⊢
    rw [same]
    dsimp only
    rw [beat]
    exact primary
  have stable : Move heard r r.noteStable := .quiet (by constructor <;> rfl)
  have beats : Moves heard r.noteStable (r.noteStable.sendToOthers (.commit r.viewNumber
    r.commitNumber)) := sendToOthers_moves trivial
  refine .head stable (beats.trans (.head (.quiet (by constructor <;> rfl)) (resends.trans ?_)))
  exact resendRound_moves isNormal isPrimary

theorem transferOnIdle_moves : Moves heard r r.transferOnIdle := by
  unfold transferOnIdle
  split
  · next status =>
    have moves : Moves heard r r.fetchOnIdle.1 := fetchOnIdle_moves
    have same := (fetchOnIdle_same (r := r)).1
    split
    · next waited isWaiting =>
      rwa [isWaiting] at moves
    · next waited isWaiting =>
      rw [isWaiting] at moves same
      exact moves.trans (stateTransfer_moves (.inr (same.trans status)))
  · exact .refl

theorem startIfTimedOut_handles {next : Replica SM → Option (Replica SM)}
    (run : r.startIfTimedOut next = some r')
    (goesOn : ∀ waited : Replica SM, Quiet r waited → next waited = some r' →
      Handles heard waited r') : Handles heard r r' := by
  unfold startIfTimedOut at run
  have quiet : Quiet r r.waitTimedOut.1 := by constructor <;> rfl
  refine .after (.single (.quiet quiet)) ?_
  split at run
  · next timedOut isOut =>
    rw [isOut]
    exact startViewChange_handles run (.inl (Nat.lt_succ_self _))
  · next waiting isWaiting =>
    rw [isWaiting] at quiet ⊢
    exact goesOn waiting quiet run

theorem backupOnIdle_handles (run : r.backupOnIdle = some r') : Handles heard r r' := by
  refine .after transferOnIdle_moves ?_
  unfold backupOnIdle hearOnIdle at run
  split at run
  · cases run
    exact .move (.quiet (by constructor <;> rfl))
  · refine .after (.single (.quiet ?_)) (startIfTimedOut_handles run fun waited _ same => ?_)
    · constructor <;> rfl
    · cases same
      exact .refl _

theorem catchUpOnIdle_moves : Moves heard r r.catchUpOnIdle := by
  unfold catchUpOnIdle
  split
  · exact .refl
  · have moves : Moves heard r r.fetchOnIdle.1 := fetchOnIdle_moves
    split
    · next waited isWaiting =>
      rwa [isWaiting] at moves
    · next waited isWaiting =>
      rw [isWaiting] at moves
      exact moves.trans sendGetStateTo_moves

theorem catchUpOnIdle_status : r.catchUpOnIdle.status = r.status := by
  unfold catchUpOnIdle
  split
  · rfl
  · have same := (fetchOnIdle_same (r := r)).1
    split
    · next waited isWaiting =>
      rwa [isWaiting] at same
    · next waited isWaiting =>
      rw [isWaiting] at same
      exact (congrArg (·.status) (sendGetStateTo_same waited _ _).core).trans same

theorem askAgain_moves : Moves heard r r.askAgain := by
  unfold askAgain
  split
  · exact sendToOthers_moves rfl
  · exact .refl

theorem askAgain_core : r.askAgain.toCore = r.toCore := by
  unfold askAgain
  split
  · exact (sendToOthers_same _ _).core
  · rfl

theorem viewChangeOnIdle_handles (run : r.viewChangeOnIdle = some r')
    (status : r.status = .viewChange) : Handles heard r r' := by
  refine startIfTimedOut_handles run fun waited same resend => ?_
  refine .after (catchUpOnIdle_moves.trans askAgain_moves) ?_
  unfold resendViewChange at resend
  split at resend
  · refine sendDoViewChange_handles resend ?_
    rw [askAgain_core, catchUpOnIdle_status, same.standing, status]
    decide
  · cases resend
    exact .refl _

theorem onIdle_handles (run : r.onIdle = some r') : Handles heard r r' := by
  have serves : Moves heard r r.serveOnIdle := serveOnIdle_moves
  refine .after serves ?_
  unfold onIdle at run
  dsimp only at run
  split at run
  · next status =>
    split at run
    · next primary => exact .moves (primaryOnIdle_moves run status primary)
    · exact backupOnIdle_handles run
  · exact backupOnIdle_handles run
  · have moves : Moves heard r.serveOnIdle r.serveOnIdle.fetchOnIdle.1 := fetchOnIdle_moves
    split at run
    · next waited isWaiting =>
      cases run
      rw [isWaiting] at moves
      exact .moves moves
    · next waited isWaiting =>
      cases run
      rw [isWaiting] at moves
      exact .moves (moves.trans (sendEach_moves trivial))
  · next status => exact viewChangeOnIdle_handles run status

/-! ## Writes handed back -/

/-- A write handed back makes the primary count its own acknowledgement, lets
entries execute, and releases the messages that waited for it. -/
theorem persisted_moves {write : LogWrite (Input SM)} (run : r.persisted write = some r') :
    ∃ outstanding executed, r.outstanding = some outstanding ∧
      outstanding.sequence = write.sequence ∧ Moves heard (r.handedBack outstanding) executed ∧
      r' = executed.releaseWaiting := by
  unfold persisted at run
  obtain ⟨outstanding, isOut, run⟩ := Option.bind_eq_some_iff.mp run
  obtain ⟨sequence, run⟩ := require_eq_some.mp run
  obtain ⟨durable, isDurable, run⟩ := Option.bind_eq_some_iff.mp run
  obtain ⟨acked, ack, run⟩ := Option.bind_eq_some_iff.mp run
  obtain ⟨executed, apply, run⟩ := Option.bind_eq_some_iff.mp run
  cases run
  refine ⟨outstanding, executed, isOut, sequence, ?_, rfl⟩
  unfold ackOwn at ack
  split at ack
  · refine .head (.count ack) (.single (.apply ?_ apply))
    exact (registerAck_durableOp ack).trans isDurable
  · cases ack
    exact .single (.apply isDurable apply)

/-! ## Coming back -/

/-- A replica as its constructors make it. -/
inductive Made : Replica SM → Prop
  | new {selfId : Nat} {config : Config} {stateMachine : SM} {r : Replica SM}
      (run : new selfId config stateMachine = some r) : Made r
  | recover {selfId : Nat} {config : Config} {stateMachine : SM} {viewNumber nonce : Nat}
      {r : Replica SM} (run : recover selfId config stateMachine viewNumber nonce = some r) : Made r
  | restart {selfId : Nat} {config : Config} {stateMachine : SM} {applied nonce : Nat}
      {state : PersistentState (Input SM)} {r : Replica SM}
      (run : restart selfId config stateMachine applied state nonce = some r) : Made r

/-- A replica `restart` has restored, about to execute what is committed. -/
def risen (r : Replica SM) (applied : Nat) (state : PersistentState (Input SM)) : Replica SM :=
  { { r with
      applied := applied
      written := some
        { viewNumber := state.viewNumber
          lastNormalView := state.lastNormalView
          recovering := state.recovering
          logStart := state.logStart } }.loadClientTable with
    durable := r.opNumber }

/-- `restart` executes what is committed, and then takes up the view change it was
in, or, from the view it led, the next one. -/
structure Wakes (made woken r' : Replica SM) (applied : Nat) (state : PersistentState (Input SM)) :
    Prop where
  isDurable : (made.risen applied state).durableOp = some (made.risen applied state).durable
  executes : ∃ executed, (made.risen applied state).applyCommitted
    (made.risen applied state).durable = some executed ∧ executed.rebuildPending = some woken
  view : woken.viewNumber = state.viewNumber
  goesOn : (r' = woken ∧ (woken.status = .recovering ∨ woken.viewNumber ≤ woken.lastNormalView)) ∨
    ∃ viewNumber, (woken.viewNumber < viewNumber ∨
      (woken.viewNumber = viewNumber ∧ woken.lastNormalView < viewNumber)) ∧
      woken.startViewChange viewNumber = some r'

theorem restart_wakes {selfId : Nat} {config : Config} {stateMachine : SM} {applied nonce : Nat}
    {state : PersistentState (Input SM)}
    (run : restart selfId config stateMachine applied state nonce = some r') :
    ∃ made woken, restored selfId config stateMachine applied state nonce = some made ∧
      Wakes made woken r' applied state := by
  unfold restart at run
  obtain ⟨made, make, run⟩ := Option.bind_eq_some_iff.mp run
  obtain ⟨_, run⟩ := require_eq_some.mp run
  obtain ⟨executed, execute, run⟩ := Option.bind_eq_some_iff.mp run
  obtain ⟨woken, rebuild, run⟩ := Option.bind_eq_some_iff.mp run
  obtain ⟨_, peer, _⟩ := restored_peer make
  obtain ⟨done, executedPeer, _⟩ := applyCommitted_peer execute
  have unchanged : made.logChangedFrom = none := congrArg (·.logChangedFrom) peer
  have isDurable : (made.risen applied state).durableOp = some (made.risen applied state).durable := by
    show WriteState.durableOp _ = _
    unfold WriteState.durableOp
    dsimp only [risen, loadClientTable]
    rw [unchanged]
  -- Executing and rebuilding leave the view and the status.
  have standing : woken.toStanding = { made.toStanding with applied := done } := by
    have same := (rebuildPending_same rebuild).core
    rw [same]
    exact congrArg (·.toStanding) executedPeer
  have view : woken.viewNumber = state.viewNumber := by
    rw [standing]
    exact congrArg (·.viewNumber) peer
  refine ⟨made, woken, make, isDurable, ⟨executed, execute, rebuild⟩, view, ?_⟩
  split at run
  · next asleep =>
    cases run
    exact .inl ⟨rfl, .inl asleep⟩
  · next awake =>
    have kept : state.recovering = false := by
      have status : made.status = if state.recovering then .recovering else .normal :=
        congrArg (·.status) peer
      rw [standing, status] at awake
      simpa using awake
    have lastNormal : woken.lastNormalView = state.lastNormalView := by
      rw [standing]
      refine (congrArg (·.lastNormalView) peer).trans ?_
      unfold Peer.reborn
      simp [kept]
    split at run
    · next changing =>
      exact .inr ⟨_, .inr ⟨view, lastNormal.trans_lt changing⟩, run⟩
    · next settled =>
      split at run
      · refine .inr ⟨_, .inl ?_, run⟩
        rw [view]
        exact Nat.lt_succ_self _
      · cases run
        refine .inl ⟨rfl, .inr ?_⟩
        rw [view, lastNormal]
        exact not_lt.mp settled

theorem Wakes.moves {made woken : Replica SM} {applied : Nat} {state : PersistentState (Input SM)}
    (wakes : Wakes made woken r' applied state) : Moves heard (made.risen applied state) woken := by
  obtain ⟨executed, execute, rebuild⟩ := wakes.executes
  exact .head (.apply wakes.isDurable execute) (.single (.rebuild rebuild))

theorem Wakes.handles {made woken : Replica SM} {applied : Nat} {state : PersistentState (Input SM)}
    (wakes : Wakes made woken r' applied state) :
    Handles heard (made.risen applied state) r' := by
  refine .after wakes.moves ?_
  rcases wakes.goesOn with ⟨rfl, _⟩ | ⟨viewNumber, later, run⟩
  · exact .refl _
  · exact startViewChange_handles run later

end Vsr.Replica
