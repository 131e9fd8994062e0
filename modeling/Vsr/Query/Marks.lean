import Mathlib.Order.Bounds.Basic
import Vsr.Protocol.Refine

/-!
# The mark a quorum reaches

`quorum_mark` yields the greatest number that a quorum of the marks reaches.
-/

set_option autoImplicit false

namespace Vsr.Replica

variable {quorum : Nat} {marks marks' : List Nat}

/-- How many of the marks reach `k`. -/
def reaching (marks : List Nat) (k : Nat) : Nat := marks.countP fun mark => k ≤ mark

theorem reaching_zero : reaching marks 0 = marks.length := by
  simp [reaching]

theorem reaching_anti {k k' : Nat} (le : k ≤ k') : reaching marks k' ≤ reaching marks k :=
  List.countP_mono_left fun mark _ reaches => by
    simp only [decide_eq_true_eq] at reaches ⊢
    exact le.trans reaches

/-- A number some mark reaches is reached by the same marks as one of them. -/
theorem exists_mark {k : Nat} (pos : 0 < reaching marks k) :
    ∃ mark ∈ marks, k ≤ mark ∧ reaching marks mark = reaching marks k := by
  obtain ⟨one, mem, reaches⟩ := List.countP_pos_iff.mp pos
  have reached : one ∈ marks.filter fun mark => k ≤ mark := List.mem_filter.mpr ⟨mem, reaches⟩
  -- The least of the marks that reach `k`.
  obtain ⟨least, isLeast⟩ := Option.isSome_iff_exists.mp (List.isSome_min?_of_mem reached)
  obtain ⟨isMark, below⟩ := List.min?_eq_some_iff.mp isLeast
  obtain ⟨isMark, above⟩ := List.mem_filter.mp isMark
  rw [decide_eq_true_eq] at above
  refine ⟨least, isMark, above, le_antisymm (reaching_anti above) ?_⟩
  refine List.countP_mono_left fun mark mem reaches => ?_
  exact decide_eq_true (below mark (List.mem_filter.mpr ⟨mem, reaches⟩))

theorem quorumMark_greatest (pos : 0 < quorum) (enough : quorum ≤ marks.length) :
    IsGreatest { k | quorum ≤ reaching marks k } (quorumMark quorum marks) := by
  constructor
  · rcases Nat.eq_zero_or_pos (quorumMark quorum marks) with zero | more
    · rw [zero]
      exact enough.trans reaching_zero.ge
    · have reached := quorumMark_reached marks more
      rwa [← List.countP_eq_length_filter] at reached
  · intro k reached
    obtain ⟨mark, mem, le, same⟩ := exists_mark (pos.trans_le reached)
    refine le.trans ((le_foldl_max _ 0).2 mark (List.mem_filter.mpr ⟨mem, ?_⟩))
    rw [decide_eq_true_eq, ← List.countP_eq_length_filter]
    exact reached.trans same.ge

/-- Marks one by one at least as high reach as high a mark. -/
theorem quorumMark_mono (pos : 0 < quorum) (enough : quorum ≤ marks.length)
    (same : marks'.length = marks.length) (higher : ∀ k, reaching marks k ≤ reaching marks' k) :
    quorumMark quorum marks ≤ quorumMark quorum marks' := by
  have before := (quorumMark_greatest pos enough).1
  refine (quorumMark_greatest pos (same ▸ enough)).2 ?_
  exact le_trans before (higher _)

/-- The marks that reach `k`, counted by their places. -/
theorem reaching_places (marks : List Nat) (k : Nat) :
    reaching marks k = (List.range marks.length).countP fun j => k ≤ (marks[j]?).getD 0 := by
  have places : marks = (List.range marks.length).map fun j => (marks[j]?).getD 0 := by
    refine List.ext_getElem (by simp) fun j inside _ => ?_
    rw [List.getElem_map, List.getElem_range, List.getElem?_eq_getElem inside, Option.getD_some]
  conv_lhs => rw [places]
  unfold reaching
  rw [List.countP_map]
  rfl

/-- If only one mark reaches `k`, no quorum does. -/
theorem quorumMark_lt {k : Nat} (own : Nat) (several : 2 ≤ quorum) (enough : quorum ≤ marks.length)
    (others : ∀ j mark, j ≠ own → marks[j]? = some mark → mark < k) :
    quorumMark quorum marks < k ∨ k = 0 := by
  by_contra none
  rw [not_or, not_lt] at none
  obtain ⟨reaches, pos⟩ := none
  have reached : quorum ≤ reaching marks k :=
    ((quorumMark_greatest (by omega) enough).1).trans (reaching_anti reaches)
  have alone : reaching marks k ≤ (List.range marks.length).countP (· = own) := by
    rw [reaching_places]
    refine List.countP_mono_left fun j mem reaches => ?_
    rw [decide_eq_true_eq] at reaches ⊢
    by_contra other
    have inside := List.mem_range.mp mem
    have isMark := List.getElem?_eq_getElem inside
    have below := others j _ other isMark
    rw [isMark, Option.getD_some] at reaches
    omega
  have once : (List.range marks.length).countP (· = own) ≤ 1 := by
    have := List.nodup_iff_count_le_one.mp (List.nodup_range (n := marks.length)) own
    rwa [List.count_eq_countP] at this
  omega

theorem reaching_set {own mark k : Nat} (k' : Nat) (isMark : marks[own]? = some mark)
    (more : mark ≤ k) : reaching marks k' ≤ reaching (marks.set own k) k' := by
  rw [reaching_places, reaching_places, List.length_set]
  refine List.countP_mono_left fun j mem reaches => ?_
  rw [decide_eq_true_eq] at reaches ⊢
  rw [List.getElem?_set]
  split
  · next same =>
    subst same
    rw [if_pos (List.getElem?_eq_some_iff.mp isMark).1, Option.getD_some]
    rw [isMark, Option.getD_some] at reaches
    exact reaches.trans more
  · exact reaches

theorem quorumMark_set {own mark k : Nat} (pos : 0 < quorum) (enough : quorum ≤ marks.length)
    (isMark : marks[own]? = some mark) (more : mark ≤ k) :
    quorumMark quorum marks ≤ quorumMark quorum (marks.set own k) :=
  quorumMark_mono pos enough List.length_set fun k' => reaching_set k' isMark more

/-- A mark that runs ahead of all others alone leaves what a quorum reaches. -/
theorem quorumMark_ahead {own mark : Nat} (several : 2 ≤ quorum) (enough : quorum ≤ marks.length)
    (isMark : marks[own]? = some mark)
    (others : ∀ j other, j ≠ own → marks[j]? = some other → other ≤ mark) :
    quorumMark quorum (marks.set own (mark + 1)) = quorumMark quorum marks := by
  have long : quorum ≤ (marks.set own (mark + 1)).length := enough.trans List.length_set.ge
  refine le_antisymm ?_ (quorumMark_set (by omega) enough isMark (Nat.le_succ _))
  have inside : quorumMark quorum (marks.set own (mark + 1)) < mark + 1 := by
    refine (quorumMark_lt own several long fun j other ne isOther => ?_).resolve_right
      (Nat.succ_ne_zero _)
    rw [List.getElem?_set_ne (Ne.symm ne)] at isOther
    exact Nat.lt_succ_of_le (others j other ne isOther)
  refine (quorumMark_greatest (by omega) enough).2 ?_
  have reached : quorum ≤ reaching _ _ := (quorumMark_greatest (by omega) long).1
  refine reached.trans ?_
  rw [reaching_places, reaching_places, List.length_set]
  refine List.countP_mono_left fun j mem reaches => ?_
  rw [decide_eq_true_eq] at reaches ⊢
  by_cases same : j = own
  · subst same
    rw [isMark, Option.getD_some]
    exact Nat.le_of_lt_succ inside
  · rwa [List.getElem?_set_ne (Ne.symm same)] at reaches

end Vsr.Replica
