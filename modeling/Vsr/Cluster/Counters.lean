import Vsr.Cluster.Script
import Vsr.Durable.Promises

/-!
# Counters

The op numbers and view numbers of a replica are in order in every state of a
cluster, and do not go down while the replica's process lives.
-/

set_option autoImplicit false

namespace Vsr

open Relation (ReflTransGen)

/-! ## What the writes handed back reach -/

/-- What the writes handed back hold as memory does is within the log. -/
structure Peer.Covered {Op : Type} (p : Peer Op) : Prop where
  unchanged : p.logChangedFrom = none → p.durable ≤ p.opNumber ∧
    ∀ out, p.outstanding = some out → out.opNumber ≤ p.opNumber
  changed : ∀ changed, p.logChangedFrom = some changed → 1 ≤ changed ∧ changed ≤ p.opNumber + 1

theorem Peer.Covered.durable {Op : Type} {p : Peer Op} (covered : p.Covered) :
    ∃ opNumber ≤ p.opNumber, p.durableOp = some opNumber := by
  unfold WriteState.durableOp
  cases isChanged : p.logChangedFrom with
  | none => exact ⟨_, (covered.unchanged isChanged).1, rfl⟩
  | some changed =>
      obtain ⟨pos, within⟩ := covered.changed changed isChanged
      refine ⟨min p.durable (changed - 1), by omega, ?_⟩
      simp [checkedSub_of_le pos]

/-- A mark within the log covers whatever was covered below it. -/
theorem Peer.Covered.mark {Op : Type} {p p' : Peer Op} (covered : p.Covered) {fresh : Nat}
    (pos : 1 ≤ fresh) (within : fresh ≤ p'.opNumber + 1)
    (longer : ∀ changed ≤ p.opNumber + 1, min changed fresh ≤ p'.opNumber + 1)
    (marked : p'.toWriteState = p.toWriteState.markLogChanged fresh) : p'.Covered := by
  have isMarked : p'.logChangedFrom = (p.toWriteState.markLogChanged fresh).logChangedFrom := by
    rw [marked]
  refine ⟨fun unchanged => ?_, fun changed isChanged => ?_⟩
  · rw [isMarked] at unchanged
    cases unchanged
  · cases before : p.logChangedFrom with
    | none =>
        have isFresh : changed = fresh := by
          rw [isMarked] at isChanged
          simpa [WriteState.markLogChanged, before, eq_comm] using isChanged
        omega
    | some earlier =>
        obtain ⟨pos', within'⟩ := covered.changed earlier before
        have isMin : changed = min earlier fresh := by
          rw [isMarked] at isChanged
          simpa [WriteState.markLogChanged, before, eq_comm] using isChanged
        have := longer earlier within'
        omega

theorem LogMove.covered {Op : Type} {p p' : Peer Op} (move : LogMove p p') (covered : p.Covered) :
    p'.Covered := by
  cases move with
  | stay log logStart writes =>
      have same : p'.opNumber = p.opNumber := by
        unfold Standing.opNumber
        rw [log, logStart]
      refine ⟨fun unchanged => ?_, fun changed isChanged => ?_⟩
      · rw [writes] at unchanged ⊢
        rw [same]
        exact covered.unchanged unchanged
      · rw [writes] at isChanged
        rw [same]
        exact covered.changed changed isChanged
  | append entry =>
      have longer : (p.append entry).opNumber = p.opNumber + 1 := by
        simp [Standing.opNumber, Peer.append, Nat.add_assoc]
      exact covered.mark (by omega) (by omega) (fun changed within => by omega) rfl
  | merge start entries mergeable =>
      have reach : p.keepUpTo start ≤ (p.merge start entries).opNumber := by
        obtain ⟨within, held, _⟩ := mergeable
        unfold Standing.opNumber at within ⊢
        simp only [Peer.merge, Standing.merged, List.length_append, List.length_take]
        omega
      exact covered.mark (by omega) (by omega) (fun changed within => by omega) rfl
  | restore opNumber beyond =>
      have reach : (p.restore opNumber).opNumber = opNumber := by
        simp [Standing.opNumber, Peer.restore, Standing.restoredAt]
      exact covered.mark (by omega) (by omega) (fun changed within => by omega) rfl
  | compact opNumber held done within =>
      have same : ({ p with log := p.log.drop (opNumber - p.logStart), logStart := opNumber } :
          Peer Op).opNumber = p.opNumber := by
        simp only [Standing.opNumber, List.length_drop]
        omega
      refine ⟨fun unchanged => ?_, fun changed isChanged => ?_⟩
      · rw [same]
        exact covered.unchanged unchanged
      · rw [same]
        exact covered.changed changed isChanged

theorem covered_moves {Op : Type} {p p' : Peer Op} (moves : ReflTransGen LogMove p p')
    (covered : p.Covered) : p'.Covered := by
  induction moves with
  | refl => exact covered
  | tail _ move ih => exact move.covered ih

/-- A replica that was just made, or has just come back, has changed nothing yet. -/
theorem covered_fresh {Op : Type} {p : Peer Op} (unchanged : p.logChangedFrom = none)
    (durable : p.durable ≤ p.opNumber) (free : p.outstanding = none) : p.Covered where
  unchanged _ := ⟨durable, fun out isOut => by cases free.symm.trans isOut⟩
  changed changed isChanged := by cases unchanged.symm.trans isChanged

namespace Owner
variable {SM : Type} [StateMachine SM]

theorem covered_restart {selfId : Nat} {config : Config} {stateMachine : SM} {applied nonce : Nat}
    {state : PersistentState (Input SM)} {r : Replica SM}
    (run : Replica.restart selfId config stateMachine applied state nonce = some r) :
    r.peer.Covered := by
  have reborn : (Peer.reborn selfId config applied state nonce).Covered :=
    covered_fresh rfl le_rfl rfl
  cases kept : state.recovering with
  | true =>
      rw [(Replica.restart_recovering (i := anything) run kept).1]
      exact reborn
  | false =>
      obtain ⟨base, executed, _, runs, _, takesUp⟩ :=
        Replica.restart_runs (i := anything) run kept
      refine covered_moves runs.moves ?_
      rcases takesUp with ⟨_, same⟩ | ⟨_, _, same⟩ | ⟨_, _, same⟩
      all_goals
        rw [same]
        exact ⟨reborn.unchanged, reborn.changed⟩

theorem covered_reach {o : Owner SM} (reach : Reach o) : o.replica.peer.Covered := by
  induction reach with
  | start starts =>
      cases starts with
      | new run =>
          obtain ⟨_, rfl⟩ := Replica.new_eq run
          exact covered_fresh rfl (Nat.zero_le _) rfl
      | recover run =>
          obtain ⟨_, rfl⟩ := Replica.recover_eq run
          show Peer.Covered (Core.peer _)
          rw [(Replica.sendRecovery_same _).core]
          exact covered_fresh rfl (Nat.zero_le _) rfl
      | restart reached empty run => exact covered_restart run
  | @step o o' before step ih =>
      have inv := inv_reach before
      cases step with
      | message message run =>
          exact covered_moves (Replica.onMessage_runs (i := anything) run
            (quorum_two (several_of_inv inv)) trivial fun _ _ => trivial).moves ih
      | idle run => exact covered_moves (Replica.onIdle_runs (i := anything) run).moves ih
      | compact opNumber run => exact covered_moves (Replica.compact_runs (i := anything) run).moves ih
      | drainBeforePersist | drain | drainReplies | land => exact ih
      | take free run =>
          obtain ⟨_, durable, isDurable, peer, _⟩ := Replica.takeWrite_cases run
          obtain ⟨reach, within, same⟩ := ih.durable
          cases same.symm.trans isDurable
          rw [peer]
          refine ⟨fun _ => ⟨within, fun out isOut => ?_⟩, fun changed isChanged => ?_⟩
          · cases isOut
            exact le_rfl
          · cases isChanged
      | handBack isOut durable run =>
          obtain ⟨outstanding, isOutstanding, _, runs⟩ := Replica.persisted_runs (i := anything) run
            fun _ _ _ _ _ _ _ => trivial
          refine covered_moves runs.moves ⟨fun unchanged => ⟨?_, fun out isOut => ?_⟩, ih.changed⟩
          · exact (ih.unchanged unchanged).2 outstanding isOutstanding
          · cases isOut
      | crash stateMachine applied nonce reached run => exact covered_restart run

end Owner

/-! ## The owner of a node -/

section Cluster
variable {SM : Type} [StateMachine SM] {setting : Setting SM} {asks : MessageFor SM → Prop}

/-- A step of a node is a step of its owner, unless it changes what is durable in
the state machine, or loses the disk. -/
theorem Node.Step.owner {hears : MessageFor SM → Prop} {n n' : Node SM}
    (step : Node.Step setting hears n n') (start : n.disk.logStart ≤ n.kept)
    (reach : Owner.Reach n.toOwner) : Owner.Reach n'.toOwner := by
  cases step with
  | message message heard run => exact .step reach (.message message run)
  | idle run => exact .step reach (.idle run)
  | compact opNumber durable run => exact .step reach (.compact opNumber run)
  | keep => exact reach
  | take free run => exact .step reach (.take free run)
  | land isOut run => exact .step reach (.land isOut run)
  | handBack isOut durable run => exact .step reach (.handBack isOut durable run)
  | drainBeforePersist => exact .step reach .drainBeforePersist
  | drain => exact .step reach .drain
  | drainReplies => exact .step reach .drainReplies
  | crash newer older back split orderly machine comesBack nonce fresh run =>
      exact .step reach (.crash machine n.kept nonce start run)
  | lose allowed machine blank viewNumber view nonce fresh run => exact .start (.recover run)

theorem Cluster.Reach.owner (orderly : setting.orderly) {c : Cluster SM}
    (reach : Cluster.Reach setting asks c) {R : Nat} (inside : R < c.size) :
    Owner.Reach (c.nodes R).toOwner := by
  induction reach with
  | start starts =>
      obtain ⟨machine, r, _, run, isNode⟩ := starts.nodes R inside
      rw [isNode]
      exact .start (.new run)
  | @step c c' before step ih =>
      obtain ⟨g, tracked⟩ := before.tracked orderly
      obtain ⟨trails, ok⟩ := tracked.trails
      cases step with
      | node S insideS step =>
          rcases eq_or_ne R S with rfl | other
          · simp only [Cluster.update, Function.update_self]
            exact step.owner (ok.nodes R insideS).disk.start (ih insideS)
          · simp only [Cluster.update, Function.update_of_ne other]
            exact ih inside

/-- The counters of a replica are in order. -/
structure Replica.Ordered (r : Replica SM) : Prop where
  start : r.logStart ≤ r.applied
  applied : r.applied ≤ r.commitNumber
  committed : r.commitNumber ≤ r.opNumber
  lastNormal : r.lastNormalView ≤ r.viewNumber
  current : r.status = .normal ∨ r.status = .stateTransfer → r.lastNormalView = r.viewNumber
  changing : r.status = .viewChange → r.lastNormalView < r.viewNumber
  durable : ∃ opNumber ≤ r.opNumber, r.durableOp = some opNumber

theorem Cluster.Reach.ordered (orderly : setting.orderly) {c : Cluster SM}
    (reach : Cluster.Reach setting asks c) {R : Nat} (inside : R < c.size) :
    (c.nodes R).replica.Ordered := by
  obtain ⟨g, tracked⟩ := reach.tracked orderly
  obtain ⟨trails, ok⟩ := tracked.trails
  obtain ⟨said, w, began, _, _, _, _, _, speaker⟩ := (ok.nodes R inside).live ok.worlds inside
  exact
    { start := speaker.log.start
      applied := speaker.log.applied
      committed := speaker.log.committed
      lastNormal := speaker.view.lastNormal
      current := speaker.view.current
      changing := speaker.view.changing
      durable := (Owner.covered_reach (reach.owner orderly inside)).durable }

/-! ## While the process lives -/

theorem moves_counters {Op : Type} {p p' : Peer Op} (moves : ReflTransGen LogMove p p')
    (order : p.Ordered) :
    p.commitNumber ≤ p'.commitNumber ∧ p.applied ≤ p'.applied ∧ p.logStart ≤ p'.logStart := by
  induction moves with
  | refl => exact ⟨le_rfl, le_rfl, le_rfl⟩
  | tail before move ih =>
      obtain ⟨commit, applied, start⟩ := ih
      obtain ⟨_, order'⟩ := moves_applied_le before order
      have goesOn := move.applied_le order'
      cases move with
      | stay log logStart writes more committed =>
          exact ⟨commit.trans committed, applied.trans goesOn, start.trans logStart.ge⟩
      | restore opNumber beyond =>
          have inside := order'.start
          have done := order'.applied
          refine ⟨commit.trans beyond.le, applied.trans goesOn, start.trans ?_⟩
          exact (inside.trans done).trans beyond.le
      | compact opNumber held done within => exact ⟨commit, applied, start.trans held.le⟩
      | _ => exact ⟨commit, applied, start⟩

/-- No counter of `r'` is behind that of `r`. -/
structure Replica.Onward (r r' : Replica SM) : Prop where
  view : r.viewNumber ≤ r'.viewNumber
  lastNormal : r.lastNormalView ≤ r'.lastNormalView
  commit : r.commitNumber ≤ r'.commitNumber
  applied : r.applied ≤ r'.applied
  start : r.logStart ≤ r'.logStart

theorem Replica.Onward.refl (r : Replica SM) : r.Onward r := ⟨le_rfl, le_rfl, le_rfl, le_rfl, le_rfl⟩

theorem Replica.Onward.trans {r r' r'' : Replica SM} (first : r.Onward r') (second : r'.Onward r'') :
    r.Onward r'' where
  view := first.view.trans second.view
  lastNormal := first.lastNormal.trans second.lastNormal
  commit := first.commit.trans second.commit
  applied := first.applied.trans second.applied
  start := first.start.trans second.start

/-- A step of a node that is no crash takes its replica onward. -/
theorem Node.Step.onward {hears : MessageFor SM → Prop} {n n' : Node SM}
    (step : Node.Step setting hears n n') (reach : Owner.Reach n.toOwner)
    (ordered : n.replica.Ordered) (lives : n'.nonces = n.nonces) : n.replica.Onward n'.replica := by
  have vouched := Owner.vouched_reach reach
  have order : n.replica.peer.Ordered := ⟨ordered.start, ordered.applied⟩
  have several := Owner.quorum_two (Owner.several_of_inv vouched.inv)
  have goesOn : ∀ {r : Replica SM}, Replica.Handles (fun _ => True) n.replica r →
      Replica.Runs Owner.anything n.replica r → n.replica.Onward r := by
    intro r handles runs
    have pledges := handles.pledges vouched.settled
    obtain ⟨commit, applied, start⟩ := moves_counters runs.moves order
    exact ⟨pledges.view, (min_eq_right ordered.lastNormal).ge.trans pledges.lastNormal, commit,
      applied, start⟩
  have same : ∀ {r : Replica SM}, r.toStanding = n.replica.toStanding → n.replica.Onward r := by
    intro r standing
    constructor <;> rw [standing]
  cases step with
  | message message heard run =>
      exact goesOn (Replica.onMessage_handles run several trivial vouched.fetches)
        (Replica.onMessage_runs run several trivial fun _ _ => trivial)
  | idle run => exact goesOn (Replica.onIdle_handles run) (Replica.onIdle_runs run)
  | compact opNumber durable run =>
      rcases Replica.compact_effect run with rfl | ⟨bound, later, _, _, _, rfl⟩
      · exact .refl _
      · exact ⟨le_rfl, le_rfl, le_rfl, le_rfl, later.le⟩
  | keep | land => exact .refl _
  | take free run => exact same (Replica.takeWrite_outboxes run).2.2.2.2.1
  | handBack isOut durable run =>
      obtain ⟨outstanding, executed, _, _, moves, isExecuted⟩ := Replica.persisted_moves run
      have handles : Replica.Handles (fun _ => True) (n.replica.handedBack outstanding) executed :=
        .moves moves
      have pledges := handles.pledges vouched.settled
      obtain ⟨other, _, _, runs⟩ := Replica.persisted_runs (i := Owner.anything) run
        fun _ _ _ _ _ _ _ => trivial
      have back : (n.replica.handedBack other).peer.Ordered := ⟨order.start, order.applied⟩
      obtain ⟨commit, applied, start⟩ := moves_counters runs.moves back
      refine ⟨?_, ?_, commit, applied, start⟩
      · rw [isExecuted]
        exact pledges.view
      · rw [isExecuted]
        exact (min_eq_right ordered.lastNormal).ge.trans pledges.lastNormal
  | drainBeforePersist | drain | drainReplies => exact same rfl
  | crash | lose => exact absurd lives (List.cons_ne_self _ _)

theorem Node.Step.nonces {hears : MessageFor SM → Prop} {n n' : Node SM}
    (step : Node.Step setting hears n n') : n.nonces <:+ n'.nonces := by
  cases step with
  | crash | lose => exact List.suffix_cons _ _
  | _ => exact List.suffix_rfl

/-- In every state the counters of every replica are in order, and in every later
one in which its process still lives, none of them has gone down. -/
theorem Cluster.counters (orderly : setting.orderly) {c c' : Cluster SM}
    (reach : Cluster.Reach setting asks c) (runs : Cluster.Runs setting asks c c') {R : Nat}
    (inside : R < c.size) :
    (c'.nodes R).replica.Ordered ∧ ((c'.nodes R).nonces = (c.nodes R).nonces →
      (c.nodes R).replica.Onward (c'.nodes R).replica) := by
  have size : ∀ {c₁ : Cluster SM}, Cluster.Runs setting asks c c₁ → c₁.size = c.size := by
    intro c₁ runs
    induction runs with
    | refl => rfl
    | tail _ step ih =>
        cases step with
        | node => exact ih
  refine ⟨(reach.runs runs).ordered orderly ((size runs).symm ▸ inside), fun lives => ?_⟩
  suffices (c.nodes R).nonces <:+ (c'.nodes R).nonces ∧ ((c'.nodes R).nonces = (c.nodes R).nonces →
      (c.nodes R).replica.Onward (c'.nodes R).replica) from this.2 lives
  clear lives
  induction runs with
  | refl => exact ⟨List.suffix_rfl, fun _ => .refl _⟩
  | @tail c₁ c₂ before step ih =>
      obtain ⟨older, onward⟩ := ih
      have reach₁ := reach.runs before
      have inside₁ : R < c₁.size := (size before).symm ▸ inside
      cases step with
      | node S insideS step =>
          rename_i n'
          rcases eq_or_ne R S with rfl | other
          · have isNode : (c₁.update R n').nodes R = n' := Function.update_self ..
            rw [isNode]
            refine ⟨older.trans step.nonces, fun lives => ?_⟩
            -- Nothing was added to the nonces in between.
            have between : (c₁.nodes R).nonces = (c.nodes R).nonces := by
              have longer := older.length_le
              have shorter := step.nonces.length_le
              rw [lives] at shorter
              exact (older.eq_of_length (by omega)).symm
            exact (onward between).trans (step.onward (reach₁.owner orderly inside₁)
              (reach₁.ordered orderly inside₁) (lives.trans between.symm))
          · have isNode : (c₁.update S n').nodes R = c₁.nodes R := Function.update_of_ne other ..
            rw [isNode]
            exact ⟨older, onward⟩

end Cluster

/-- Replica 1 goes from view 0 to view 1. -/
theorem Accumulator.counters_views : ∃ c c' : Cluster Accumulator,
    (c.nodes 1).replica.viewNumber = 0 ∧ (c'.nodes 1).replica.viewNumber = 1 ∧
      (c'.nodes 1).replica.Ordered ∧ (c.nodes 1).replica.Onward (c'.nodes 1).replica := by
  have evaluated : ((three.play (spares true false) registers).bind fun c =>
      (c.play (spares true false) changesView).map fun c' =>
        decide (c.size = 3 ∧ (c.nodes 1).replica.viewNumber = 0 ∧
          (c'.nodes 1).replica.viewNumber = 1 ∧ (c'.nodes 1).nonces = (c.nodes 1).nonces)) =
      some true := by
    decide +kernel
  obtain ⟨c, run, rest⟩ := Option.bind_eq_some_iff.mp evaluated
  obtain ⟨c', run', holds⟩ := Option.map_eq_some_iff.mp rest
  obtain ⟨size, view, view', lives⟩ := of_decide_eq_true holds
  have fit := spares_fit true false
  have inside : 1 < c.size := by omega
  obtain ⟨ordered, onward⟩ := Cluster.counters rfl
    ((three_reach true false).runs (Cluster.play_runs fit run)) (Cluster.play_runs fit run') inside
  exact ⟨c, c', view, view', ordered, onward lives⟩

end Vsr
