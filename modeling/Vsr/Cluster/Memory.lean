import Vsr.Cluster.Counters

/-!
# What a node remembers

The states of a node that no crash has discarded are in order, and have queued
more and more messages.
-/

set_option autoImplicit false

namespace Vsr

variable {SM : Type} [StateMachine SM] {setting : Setting SM} {asks : MessageFor SM → Prop}

/-- A node remembers nothing but what it was. -/
theorem Node.Step.past {hears : MessageFor SM → Prop} {n n' : Node SM}
    (step : Node.Step setting hears n n') : ∀ m ∈ n'.past, m ∈ n.moments := by
  cases step with
  | keep | land => exact fun m mem => List.mem_cons_of_mem _ mem
  | crash newer older back split =>
      intro m mem
      rw [split]
      exact List.mem_append_right _ mem
  | lose => exact fun m mem => by cases mem
  | _ => exact fun m mem => mem

/-- What holds of every replica in every state holds of what the nodes remember. -/
theorem Cluster.Reach.ever {P : Nat → Moment SM → Prop}
    (now : ∀ {c}, Cluster.Reach setting asks c → ∀ R < c.size, P R (c.nodes R).now)
    {c : Cluster SM} (reach : Cluster.Reach setting asks c) {R : Nat} (inside : R < c.size) :
    ∀ m ∈ (c.nodes R).moments, P R m := by
  induction reach with
  | start starts =>
      intro m mem
      obtain ⟨machine, r, _, _, isNode⟩ := starts.nodes R inside
      have isNow : m = (Node.start r).now := by
        rw [isNode] at mem
        exact List.mem_singleton.mp mem
      rw [isNow, ← isNode]
      exact now (.start starts) R inside
  | @step c c' before step ih =>
      intro m mem
      rcases List.mem_cons.mp mem with isNow | mem
      · rw [isNow]
        exact now (.step before step) R inside
      · cases step with
        | node S _ step =>
            rcases eq_or_ne R S with rfl | other
            · simp only [Cluster.update, Function.update_self] at mem
              exact ih inside m (step.past m mem)
            · simp only [Cluster.update, Function.update_of_ne other] at mem
              exact ih inside m (List.mem_cons_of_mem _ mem)

theorem Traces.pairwise {P : Standing (Input SM) → Standing (Input SM) → Prop}
    {moments : List (Moment SM)} {trail : TrailFor SM} (traces : Traces moments trail)
    (pairwise : trail.Pairwise fun newer older => P older.peer.toStanding newer.peer.toStanding) :
    moments.Pairwise fun newer older =>
      P older.replica.peer.toStanding newer.replica.peer.toStanding := by
  induction traces with
  | nil => exact .nil
  | @hit m moments s trail here rest ih =>
      obtain ⟨first, others⟩ := List.pairwise_cons.mp pairwise
      refine .cons (fun older mem => ?_) (ih others)
      obtain ⟨found, _, isSuffix, is⟩ := rest.mem mem
      have := first found (isSuffix.subset List.mem_cons_self)
      rwa [is.peer, here.peer] at this
  | @skip moments s trail rest ih => exact ih (List.pairwise_cons.mp pairwise).2

/-- Newer states have queued what older ones had. -/
def SaidMore (moments : List (Moment SM)) : Prop :=
  moments.Pairwise fun newer older => older.said ⊆ newer.said

theorem SaidMore.cons {m now : Moment SM} {past : List (Moment SM)} (more : SaidMore (m :: past))
    (said : m.said ⊆ now.said) : SaidMore (now :: m :: past) := by
  refine List.Pairwise.cons (fun older mem => ?_) more
  rcases List.mem_cons.mp mem with rfl | mem
  · exact said
  · exact List.Subset.trans ((List.pairwise_cons.mp more).1 older mem) said

theorem SaidMore.older {moments : List (Moment SM)} (more : SaidMore moments) {d t : Moment SM}
    {older rest : List (Moment SM)} (remembered : (t :: rest) <:+ moments)
    (later : (d :: older) <:+ (t :: rest)) : d.said ⊆ t.said := by
  rcases List.suffix_cons_iff.mp later with same | later
  · rw [(List.cons.inj same).1]
    exact List.Subset.refl _
  · have pairwise : SaidMore (t :: rest) := more.sublist remembered.sublist
    exact (List.pairwise_cons.mp pairwise).1 d (later.subset List.mem_cons_self)

theorem Node.Step.saidMore {hears : MessageFor SM → Prop} {n n' : Node SM}
    (step : Node.Step setting hears n n') (more : SaidMore n.moments) : SaidMore n'.moments := by
  cases step with
  | keep | land => exact more
  | crash newer older back split =>
      rw [split] at more
      have kept : SaidMore (back :: older) := (List.pairwise_append.mp more).2.1
      exact kept.cons (List.subset_append_left _ _)
  | lose => exact List.pairwise_singleton _ _
  | _ =>
      have before : SaidMore (n.now :: n.past) := more
      exact before.cons (List.subset_append_left _ _)

theorem Cluster.Reach.saidMore {c : Cluster SM} (reach : Cluster.Reach setting asks c) {R : Nat}
    (inside : R < c.size) : SaidMore (c.nodes R).moments := by
  induction reach with
  | start starts =>
      obtain ⟨machine, r, _, _, isNode⟩ := starts.nodes R inside
      rw [isNode]
      exact List.pairwise_singleton _ _
  | step before step ih =>
      cases step with
      | node S _ step =>
          rcases eq_or_ne R S with rfl | other
          · simp only [Cluster.update, Function.update_self]
            exact step.saidMore (ih inside)
          · simp only [Cluster.update, Function.update_of_ne other]
            exact ih inside

section Orderly
variable {c : Cluster SM} (orderly : setting.orderly) (reach : Cluster.Reach setting asks c)
include orderly reach

/-- What a node remembers is in order. -/
theorem Cluster.Reach.earlier {R : Nat} (inside : R < c.size) :
    (c.nodes R).moments.Pairwise fun newer older =>
      Earlier c.config R older.replica.peer.toStanding newer.replica.peer.toStanding := by
  obtain ⟨g, tracked⟩ := reach.tracked orderly
  obtain ⟨trails, ok⟩ := tracked.trails
  exact (ok.nodes R inside).traces.pairwise (ok.worlds.earlier R inside)

/-- The states a node remembers are in order, each with itself as well. -/
theorem Cluster.Reach.earlier_of_suffix {R : Nat} (inside : R < c.size) {s m : Moment SM}
    {older rest : List (Moment SM)} (remembered : (s :: older) <:+ (c.nodes R).moments)
    (isSuffix : (m :: rest) <:+ (s :: older)) :
    Earlier c.config R m.replica.peer.toStanding s.replica.peer.toStanding := by
  have pairwise := (reach.earlier orderly inside).sublist remembered.sublist
  rcases List.suffix_cons_iff.mp isSuffix with same | isSuffix
  · rw [(List.cons.inj same).1]
    exact .same rfl rfl rfl le_rfl
  · exact (List.pairwise_cons.mp pairwise).1 m (isSuffix.subset List.mem_cons_self)

/-- A replica that loses no disk never recovers. -/
theorem Cluster.Reach.awake (lossless : ¬setting.diskLoss) {R : Nat} (inside : R < c.size) :
    ∀ m ∈ (c.nodes R).moments, m.replica.status ≠ .recovering := by
  induction reach with
  | start starts =>
      obtain ⟨machine, r, _, run, isNode⟩ := starts.nodes R inside
      obtain ⟨_, rfl⟩ := Replica.new_eq run
      intro m mem
      rw [isNode] at mem
      rw [List.mem_singleton.mp mem]
      exact Status.noConfusion
  | @step c c' before step ih =>
      have earlier := (Cluster.Reach.step before step).earlier orderly inside
      cases step with
      | node S insideS step =>
          rename_i n'
          rcases eq_or_ne R S with rfl | other
          · simp only [Cluster.update, Function.update_self] at earlier ⊢
            -- No step makes a replica recovering that was not.
            have older : ∀ m ∈ n'.past, n'.replica.status ≠ .recovering := fun m mem recovering =>
              ih inside m (step.past m mem) ((List.pairwise_cons.mp earlier).1 m mem |>.awake recovering)
            have now : n'.replica.status ≠ .recovering := by
              cases step with
              | keep | land => exact ih inside _ List.mem_cons_self
              | lose allowed => exact absurd allowed lossless
              | _ => exact older _ List.mem_cons_self
            intro m mem
            rcases List.mem_cons.mp mem with rfl | mem
            · exact now
            · exact ih inside m (step.past m mem)
          · simp only [Cluster.update, Function.update_of_ne other]
            exact ih inside

end Orderly

end Vsr
