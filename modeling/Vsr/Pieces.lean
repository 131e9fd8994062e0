import Mathlib.Data.List.Basic
import Mathlib.Order.Nat

/-!
# Cutting a list into pieces

A list is cut from the front, piece by piece, each as long as what is left of the list
says, and none of them empty while something is left.
-/

set_option autoImplicit false

namespace Vsr

/-- How long a piece to cut off a list. -/
structure Cut (α : Type) where
  length : List α → Nat
  pos : ∀ {left}, left ≠ [] → 0 < length left

namespace Cut

variable {α : Type} (cut : Cut α)

/-- What is left of a list after `count` pieces. -/
def left (l : List α) : Nat → List α
  | 0 => l
  | count + 1 => (left l count).drop (cut.length (left l count))

def piece (l : List α) (index : Nat) : List α :=
  (cut.left l index).take (cut.length (cut.left l index))

variable {l : List α} {index : Nat}

theorem piece_append_left (l : List α) (index : Nat) :
    cut.piece l index ++ cut.left l (index + 1) = cut.left l index :=
  List.take_append_drop _ _

/-- The pieces in order, and what is left after them, are the list. -/
theorem flatMap_pieces (l : List α) (count : Nat) :
    (List.range count).flatMap (cut.piece l) ++ cut.left l count = l := by
  induction count with
  | zero => rfl
  | succ count ih =>
      rw [List.range_succ, List.flatMap_append, List.append_assoc, List.flatMap_singleton,
        piece_append_left, ih]

theorem piece_ne_nil (some : cut.left l index ≠ []) : cut.piece l index ≠ [] := by
  intro none
  rcases List.take_eq_nil_iff.mp none with zero | none
  · exact absurd zero (cut.pos some).ne'
  · exact some none

theorem left_of_nil {later : Nat} (none : cut.left l index = []) (le : index ≤ later) :
    cut.left l later = [] := by
  induction later, le using Nat.le_induction with
  | base => exact none
  | succ later _ ih => rw [left, ih, List.drop_nil]

theorem piece_of_nil (none : cut.left l index = []) : cut.piece l index = [] := by
  rw [piece, none, List.take_nil]

theorem length_left_le (l : List α) (count : Nat) : (cut.left l count).length ≤ l.length - count := by
  induction count with
  | zero => exact le_rfl
  | succ count ih =>
      rw [left, List.length_drop]
      by_cases none : cut.left l count = []
      · rw [none, List.length_nil]
        omega
      · have := cut.pos none
        omega

theorem exists_left_nil (l : List α) : ∃ count, cut.left l (count + 1) = [] := by
  refine ⟨l.length, List.length_eq_zero_iff.mp ?_⟩
  have := cut.length_left_le l (l.length + 1)
  omega

/-- The index of the last piece. -/
def last [DecidableEq α] (l : List α) : Nat := Nat.find (cut.exists_left_nil l)

variable [DecidableEq α]

/-- Something is left after a piece exactly before the last one. -/
theorem left_succ_eq_nil : cut.left l (index + 1) = [] ↔ cut.last l ≤ index := by
  constructor
  · exact fun none => Nat.find_min' (cut.exists_left_nil l) none
  · exact fun le => cut.left_of_nil (Nat.find_spec (cut.exists_left_nil l)) (Nat.succ_le_succ le)

theorem pieces_eq (l : List α) : (List.range (cut.last l + 1)).flatMap (cut.piece l) = l := by
  have all := cut.flatMap_pieces l (cut.last l + 1)
  rwa [cut.left_succ_eq_nil.mpr le_rfl, List.append_nil] at all

theorem piece_before_last (before : index < cut.last l) : cut.piece l index ≠ [] := by
  refine cut.piece_ne_nil fun none => ?_
  have := cut.left_succ_eq_nil.mp (cut.left_of_nil none (Nat.le_succ index))
  omega

theorem piece_after_last (after : cut.last l < index) : cut.piece l index = [] := by
  obtain ⟨before, rfl⟩ : ∃ before, index = before + 1 := ⟨index - 1, by omega⟩
  exact cut.piece_of_nil (cut.left_succ_eq_nil.mpr (Nat.lt_succ_iff.mp after))

end Cut

end Vsr
