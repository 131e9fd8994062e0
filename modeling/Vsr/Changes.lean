import Mathlib.Data.List.Nodup
import Std.Data.ExtTreeMap

/-!
# Changes of a map

A change gives a key a value or takes it out.  Changes of different keys, one after
another, show at their own keys and nowhere else.
-/

set_option autoImplicit false

namespace Vsr

open Std (ExtTreeMap TransCmp LawfulEqCmp)

variable {K V : Type} {cmp : K → K → Ordering} [TransCmp cmp]

def change (m : ExtTreeMap K V cmp) (one : K × Option V) : ExtTreeMap K V cmp :=
  match one.2 with
  | some value => m.insert one.1 value
  | none => m.erase one.1

def changes (m : ExtTreeMap K V cmp) (all : List (K × Option V)) : ExtTreeMap K V cmp :=
  all.foldl change m

theorem getElem?_change_self (m : ExtTreeMap K V cmp) (one : K × Option V) :
    (change m one)[one.1]? = one.2 := by
  unfold change
  split
  · next isSome => rw [ExtTreeMap.getElem?_insert_self, isSome]
  · next isNone => rw [ExtTreeMap.getElem?_erase_self, isNone]

theorem nodup_keys_toList [LawfulEqCmp cmp] (m : ExtTreeMap K V cmp) :
    (m.toList.map Prod.fst).Nodup := by
  rw [ExtTreeMap.map_fst_toList_eq_keys]
  exact ExtTreeMap.nodup_keys

variable [LawfulEqCmp cmp] {m : ExtTreeMap K V cmp} {key : K} {value : Option V}
  {all : List (K × Option V)}

theorem getElem?_change_other {one : K × Option V} (other : one.1 ≠ key) :
    (change m one)[key]? = m[key]? := by
  have different : cmp one.1 key ≠ .eq := fun same => other (LawfulEqCmp.eq_of_compare same)
  unfold change
  split
  · rw [ExtTreeMap.getElem?_insert, if_neg different]
  · rw [ExtTreeMap.getElem?_erase, if_neg different]

theorem getElem?_changes_of_not_mem (others : key ∉ all.map Prod.fst) :
    (changes m all)[key]? = m[key]? := by
  induction all generalizing m with
  | nil => rfl
  | cons one rest ih =>
      obtain ⟨other, others⟩ := not_or.mp (fun mem => others (List.mem_cons.mpr mem))
      show (changes (change m one) rest)[key]? = _
      rw [ih others, getElem?_change_other (Ne.symm other)]

/-- A key has the value its change gives it. -/
theorem getElem?_changes_of_mem (distinct : (all.map Prod.fst).Nodup) (mem : (key, value) ∈ all) :
    (changes m all)[key]? = value := by
  induction all generalizing m with
  | nil => cases mem
  | cons one rest ih =>
      obtain ⟨fresh, distinct⟩ := List.nodup_cons.mp distinct
      show (changes (change m one) rest)[key]? = _
      rcases List.mem_cons.mp mem with rfl | mem
      · rw [getElem?_changes_of_not_mem fresh]
        exact getElem?_change_self m (key, value)
      · exact ih distinct mem

/-- The pairs of a map, put in an empty one in any order, are the map. -/
theorem changes_empty_of_perm {W : Type} {m : ExtTreeMap K W cmp} {all : List (K × Option W)}
    (perm : all.Perm (m.toList.map fun pair => (pair.1, some pair.2))) : changes ∅ all = m := by
  have isKeys : (m.toList.map fun pair => (pair.1, some pair.2)).map Prod.fst =
      m.toList.map Prod.fst := by
    rw [List.map_map]
    rfl
  have sameKeys : (all.map Prod.fst).Perm (m.toList.map Prod.fst) := isKeys ▸ perm.map Prod.fst
  refine ExtTreeMap.ext_getElem? fun key => ?_
  cases found : m[key]? with
  | some value =>
      have mem : (key, some value) ∈ m.toList.map fun pair => (pair.1, some pair.2) :=
        List.mem_map.mpr ⟨(key, value), ExtTreeMap.mem_toList_iff_getElem?_eq_some.mpr found, rfl⟩
      exact getElem?_changes_of_mem (sameKeys.nodup_iff.mpr (nodup_keys_toList m))
        (perm.mem_iff.mpr mem)
  | none =>
      have absent : key ∉ all.map Prod.fst := by
        intro mem
        obtain ⟨pair, isPair, rfl⟩ := List.mem_map.mp (sameKeys.mem_iff.mp mem)
        rw [ExtTreeMap.mem_toList_iff_getElem?_eq_some.mp isPair] at found
        cases found
      rw [getElem?_changes_of_not_mem absent]
      simp

theorem ofList_eq_of_mem_iff {W : Type} {m : ExtTreeMap K W cmp} {pairs : List (K × W)}
    (distinct : (pairs.map Prod.fst).Nodup) (same : ∀ pair, pair ∈ pairs ↔ m[pair.1]? = some pair.2) :
    ExtTreeMap.ofList pairs cmp = m := by
  have perm : pairs.Perm m.toList := by
    refine (List.perm_ext_iff_of_nodup (.of_map _ distinct) (.of_map _ (nodup_keys_toList m))).mpr
      fun pair => (same pair).trans ?_
    exact ExtTreeMap.mem_toList_iff_getElem?_eq_some.symm
  rw [ExtTreeMap.ofList_eq_foldl, ← changes_empty_of_perm (perm.map _), changes, List.foldl_map]
  rfl

/-- The values of a map put over those of another. -/
theorem getElem?_changes_toList (m newer : ExtTreeMap K V cmp) (key : K) :
    (changes m (newer.toList.map fun pair => (pair.1, some pair.2)))[key]? =
      newer[key]?.or m[key]? := by
  have isKeys : (newer.toList.map fun pair => (pair.1, some pair.2)).map Prod.fst =
      newer.toList.map Prod.fst := by
    rw [List.map_map]
    rfl
  have distinct := isKeys ▸ nodup_keys_toList newer
  cases found : newer[key]? with
  | some value =>
      have mem := ExtTreeMap.mem_toList_iff_getElem?_eq_some.mpr found
      rw [getElem?_changes_of_mem distinct (List.mem_map_of_mem (f := fun pair => (pair.1, some pair.2)) mem)]
      rfl
  | none =>
      refine (getElem?_changes_of_not_mem fun mem => ?_).trans (Option.none_or).symm
      rw [isKeys] at mem
      obtain ⟨pair, isPair, rfl⟩ := List.mem_map.mp mem
      rw [ExtTreeMap.mem_toList_iff_getElem?_eq_some.mp isPair] at found
      cases found

/-- A map that shows the changes of a map of changes over another. -/
theorem getElem?_changes_optional (m : ExtTreeMap K V cmp) (newer : ExtTreeMap K (Option V) cmp)
    (key : K) : (changes m newer.toList)[key]? = newer[key]?.getD m[key]? := by
  cases found : newer[key]? with
  | some value =>
      have mem := ExtTreeMap.mem_toList_iff_getElem?_eq_some.mpr found
      exact getElem?_changes_of_mem (nodup_keys_toList newer) mem
  | none =>
      refine getElem?_changes_of_not_mem fun mem => ?_
      obtain ⟨pair, isPair, rfl⟩ := List.mem_map.mp mem
      rw [ExtTreeMap.mem_toList_iff_getElem?_eq_some.mp isPair] at found
      cases found

end Vsr
