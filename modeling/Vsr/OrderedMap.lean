import Mathlib.Data.List.Nodup
import Mathlib.Order.Nat
import Mathlib.Tactic.Tauto

/-!
# Maps ordered by their keys

A map from numbers as the list of its pairs in the order of the keys: what cutting
such a map in two, inserting into it and asking for its first, its last and its
last pair up to a key mean for the pairs it holds.
-/

set_option autoImplicit false

namespace Vsr

/-- The pairs of a map in the order of their keys. -/
structure OrderedMap (V : Type) where
  pairs : List (Nat × V)
  sorted : pairs.Pairwise fun x y => x.1 < y.1

namespace OrderedMap

variable {V : Type}

def empty : OrderedMap V := ⟨[], .nil⟩

def get? (m : OrderedMap V) (key : Nat) : Option V :=
  (m.pairs.find? fun x => x.1 == key).map Prod.snd

/-- The part with keys below `key`, which splitting off the rest leaves. -/
def before (m : OrderedMap V) (key : Nat) : OrderedMap V :=
  ⟨m.pairs.filter fun x => x.1 < key, m.sorted.filter _⟩

/-- The part with keys from `key` on. -/
def splitOff (m : OrderedMap V) (key : Nat) : OrderedMap V :=
  ⟨m.pairs.filter fun x => key ≤ x.1, m.sorted.filter _⟩

theorem insert_sorted (m : OrderedMap V) (key : Nat) (value : V) :
    ((m.before key).pairs ++ (key, value) :: (m.splitOff (key + 1)).pairs).Pairwise
      fun x y => x.1 < y.1 := by
  refine List.pairwise_append.mpr ⟨(m.before key).sorted, ?_, ?_⟩
  · refine List.pairwise_cons.mpr ⟨fun y mem => ?_, (m.splitOff (key + 1)).sorted⟩
    exact of_decide_eq_true (List.mem_filter.mp mem).2
  · intro x isX y isY
    have below : x.1 < key := of_decide_eq_true (List.mem_filter.mp isX).2
    rcases List.mem_cons.mp isY with rfl | isY
    · exact below
    · have above : key < y.1 := of_decide_eq_true (List.mem_filter.mp isY).2
      exact below.trans above

def insert (m : OrderedMap V) (key : Nat) (value : V) : OrderedMap V :=
  ⟨(m.before key).pairs ++ (key, value) :: (m.splitOff (key + 1)).pairs, m.insert_sorted key value⟩

def erase (m : OrderedMap V) (key : Nat) : OrderedMap V :=
  ⟨m.pairs.filter fun x => x.1 ≠ key, m.sorted.filter _⟩

def values (m : OrderedMap V) : List V := m.pairs.map Prod.snd

/-- The map with `f` of each value. -/
def mapValues {W : Type} (m : OrderedMap V) (f : V → W) : OrderedMap W :=
  ⟨m.pairs.map fun x => (x.1, f x.2), List.pairwise_map.mpr m.sorted⟩

def first? (m : OrderedMap V) : Option (Nat × V) := m.pairs.head?

def last? (m : OrderedMap V) : Option (Nat × V) := m.pairs.getLast?

/-- The last pair with a key of at most `key`. -/
def atMost? (m : OrderedMap V) (key : Nat) : Option (Nat × V) := (m.before (key + 1)).last?

/-! ## The pairs a map holds -/

variable {m : OrderedMap V} {key : Nat} {value : V} {x : Nat × V}

@[simp] theorem mem_before : x ∈ (m.before key).pairs ↔ x ∈ m.pairs ∧ x.1 < key := by
  simp [before]

@[simp] theorem mem_splitOff : x ∈ (m.splitOff key).pairs ↔ x ∈ m.pairs ∧ key ≤ x.1 := by
  simp [splitOff]

@[simp] theorem mem_insert :
    x ∈ (m.insert key value).pairs ↔ x = (key, value) ∨ (x ∈ m.pairs ∧ x.1 ≠ key) := by
  simp only [insert, List.mem_append, List.mem_cons, mem_before, mem_splitOff]
  have : x.1 ≠ key ↔ x.1 < key ∨ key + 1 ≤ x.1 := by omega
  tauto

@[simp] theorem mem_erase : x ∈ (m.erase key).pairs ↔ x ∈ m.pairs ∧ x.1 ≠ key := by
  simp [erase]

/-- A key has one value. -/
theorem unique {y : Nat × V} (isX : x ∈ m.pairs) (isY : y ∈ m.pairs) (same : x.1 = y.1) : x = y := by
  have sorted := m.sorted
  revert sorted isX isY
  induction m.pairs with
  | nil =>
      intro isX
      cases isX
  | cons head rest ih =>
      intro isX isY sorted
      obtain ⟨first, sorted⟩ := List.pairwise_cons.mp sorted
      rcases List.mem_cons.mp isX with rfl | inX <;> rcases List.mem_cons.mp isY with rfl | inY
      · rfl
      · exact absurd same (first y inY).ne
      · exact absurd same (first x inX).ne'
      · exact ih inX inY sorted

theorem get?_eq_some : m.get? key = some value ↔ (key, value) ∈ m.pairs := by
  unfold get?
  constructor
  · intro found
    obtain ⟨x, isX, rfl⟩ := Option.map_eq_some_iff.mp found
    have isKey := List.find?_some isX
    have mem := List.mem_of_find?_eq_some isX
    rw [beq_iff_eq] at isKey
    subst isKey
    exact mem
  · intro mem
    cases found : m.pairs.find? fun x => x.1 == key with
    | none =>
        have := List.find?_eq_none.mp found (key, value) mem
        simp at this
    | some x =>
        have isKey := List.find?_some found
        rw [beq_iff_eq] at isKey
        rw [unique (List.mem_of_find?_eq_some found) mem isKey]
        rfl

/-- The last pair holds the greatest key. -/
theorem last?_eq_some : m.last? = some x ↔ x ∈ m.pairs ∧ ∀ y ∈ m.pairs, y.1 ≤ x.1 := by
  have greatest : ∀ {x}, m.last? = some x → x ∈ m.pairs ∧ ∀ y ∈ m.pairs, y.1 ≤ x.1 := by
    intro x isLast
    obtain ⟨rest, shape⟩ := List.getLast?_eq_some_iff.mp isLast
    have sorted := m.sorted
    rw [shape] at sorted ⊢
    refine ⟨List.mem_append_right _ (List.mem_singleton_self x), fun y mem => ?_⟩
    rcases List.mem_append.mp mem with inRest | isX
    · exact ((List.pairwise_append.mp sorted).2.2 y inRest x (List.mem_singleton_self x)).le
    · exact (congrArg Prod.fst (List.mem_singleton.mp isX)).le
  refine ⟨greatest, fun ⟨mem, most⟩ => ?_⟩
  cases isLast : m.last? with
  | none =>
      rw [List.getLast?_eq_none_iff.mp isLast] at mem
      cases mem
  | some z =>
      obtain ⟨isZ, above⟩ := greatest isLast
      rw [unique isZ mem (le_antisymm (most z isZ) (above x mem))]

theorem last?_eq_none : m.last? = none ↔ m.pairs = [] :=
  List.getLast?_eq_none_iff

/-- The first pair holds the least key. -/
theorem first?_eq_some : m.first? = some x ↔ x ∈ m.pairs ∧ ∀ y ∈ m.pairs, x.1 ≤ y.1 := by
  have least : ∀ {x}, m.first? = some x → x ∈ m.pairs ∧ ∀ y ∈ m.pairs, x.1 ≤ y.1 := by
    intro x isFirst
    obtain ⟨rest, shape⟩ := List.head?_eq_some_iff.mp isFirst
    have sorted := m.sorted
    rw [shape] at sorted ⊢
    refine ⟨List.mem_cons_self, fun y mem => ?_⟩
    rcases List.mem_cons.mp mem with rfl | inRest
    · exact le_rfl
    · exact ((List.pairwise_cons.mp sorted).1 y inRest).le
  refine ⟨least, fun ⟨mem, fewest⟩ => ?_⟩
  cases isFirst : m.first? with
  | none =>
      rw [List.head?_eq_none_iff.mp isFirst] at mem
      cases mem
  | some z =>
      obtain ⟨isZ, below⟩ := least isFirst
      rw [unique isZ mem (le_antisymm (below x mem) (fewest z isZ))]

theorem first?_eq_none : m.first? = none ↔ m.pairs = [] :=
  List.head?_eq_none_iff

theorem atMost?_eq_some :
    m.atMost? key = some x ↔
      x ∈ m.pairs ∧ x.1 ≤ key ∧ ∀ y ∈ m.pairs, y.1 ≤ key → y.1 ≤ x.1 := by
  unfold atMost?
  simp only [last?_eq_some, mem_before, Nat.lt_succ_iff]
  constructor
  · rintro ⟨⟨mem, le⟩, most⟩
    exact ⟨mem, le, fun y isY le => most y ⟨isY, le⟩⟩
  · rintro ⟨mem, le, most⟩
    exact ⟨⟨mem, le⟩, fun y ⟨isY, le⟩ => most y isY le⟩

/-! ## Counting the pairs -/

theorem nodup (m : OrderedMap V) : m.pairs.Nodup :=
  m.sorted.imp fun lt same => absurd (congrArg Prod.fst same) lt.ne

/-- A map with a value is the value and the map without its key. -/
theorem erase_perm (found : m.get? key = some value) :
    m.pairs.Perm ((key, value) :: (m.erase key).pairs) := by
  have mem := get?_eq_some.mp found
  refine (List.perm_ext_iff_of_nodup m.nodup ?_).mpr fun x => ?_
  · exact List.nodup_cons.mpr ⟨fun mem => absurd rfl (mem_erase.mp mem).2, (m.erase key).nodup⟩
  · rw [List.mem_cons, mem_erase]
    constructor
    · intro isX
      by_cases same : x.1 = key
      · exact .inl (unique isX mem same)
      · exact .inr ⟨isX, same⟩
    · rintro (rfl | ⟨isX, _⟩)
      · exact mem
      · exact isX

theorem insert_perm (m : OrderedMap V) (key : Nat) (value : V) :
    (m.insert key value).pairs.Perm ((key, value) :: (m.erase key).pairs) := by
  refine (List.perm_ext_iff_of_nodup (m.insert key value).nodup ?_).mpr fun x => ?_
  · exact List.nodup_cons.mpr ⟨fun mem => absurd rfl (mem_erase.mp mem).2, (m.erase key).nodup⟩
  · rw [List.mem_cons, mem_erase, mem_insert]

theorem get?_eq_none : m.get? key = none ↔ ∀ x ∈ m.pairs, x.1 ≠ key := by
  constructor
  · rintro none ⟨k, value⟩ mem rfl
    rw [get?_eq_some.mpr mem] at none
    cases none
  · intro others
    cases found : m.get? key with
    | none => rfl
    | some value => exact absurd rfl (others _ (get?_eq_some.mp found))

theorem erase_of_none (none : m.get? key = none) : (m.erase key).pairs = m.pairs := by
  refine List.filter_eq_self.mpr fun x mem => ?_
  simpa using get?_eq_none.mp none x mem

theorem get?_insert (m : OrderedMap V) (key : Nat) (value : V) (other : Nat) :
    (m.insert key value).get? other = if key = other then some value else m.get? other := by
  split
  · next same =>
    subst same
    exact get?_eq_some.mpr (mem_insert.mpr (.inl rfl))
  · next different =>
    refine Option.ext fun found => ?_
    rw [get?_eq_some, get?_eq_some, mem_insert]
    have : (other, found) ≠ (key, value) := fun same => different (congrArg Prod.fst same).symm
    simp only [this, false_or]
    exact and_iff_left (Ne.symm different)

theorem get?_mapValues {W : Type} (m : OrderedMap V) (f : V → W) (key : Nat) :
    (m.mapValues f).get? key = (m.get? key).map f := by
  unfold get? mapValues
  rw [List.find?_map, Option.map_map, Option.map_map]
  rfl

theorem get?_erase (m : OrderedMap V) (key other : Nat) :
    (m.erase key).get? other = if key = other then none else m.get? other := by
  split
  · next same =>
    subst same
    exact get?_eq_none.mpr fun x mem => (mem_erase.mp mem).2
  · next different =>
    refine Option.ext fun found => ?_
    rw [get?_eq_some, get?_eq_some, mem_erase]
    exact and_iff_left (Ne.symm different)

/-! ## Putting a map together -/

theorem ext_pairs {m' : OrderedMap V} (pairs : m.pairs = m'.pairs) : m = m' := by
  cases m
  cases m'
  cases pairs
  rfl

/-- A pair with the largest key comes last. -/
theorem insert_last (m : OrderedMap V) (value : V) (last : ∀ x ∈ m.pairs, x.1 < key) :
    (m.insert key value).pairs = m.pairs ++ [(key, value)] := by
  have before : (m.before key).pairs = m.pairs :=
    List.filter_eq_self.mpr fun x mem => decide_eq_true (last x mem)
  have after : (m.splitOff (key + 1)).pairs = [] := by
    refine List.filter_eq_nil_iff.mpr fun x mem later => ?_
    have := last x mem
    have := of_decide_eq_true later
    omega
  show (m.before key).pairs ++ (key, value) :: (m.splitOff (key + 1)).pairs = _
  rw [before, after]

/-- Inserting pairs in the order of their keys, after those a map holds. -/
theorem foldl_insert {A : Type} (pairs : List A) (key : A → Nat) (value : A → V)
    (inOrder : pairs.Pairwise fun a b => key a < key b) (m : OrderedMap V)
    (later : ∀ x ∈ m.pairs, ∀ a ∈ pairs, x.1 < key a) :
    (pairs.foldl (fun m a => m.insert (key a) (value a)) m).pairs =
      m.pairs ++ pairs.map fun a => (key a, value a) := by
  induction pairs generalizing m with
  | nil => simp
  | cons a rest ih =>
      obtain ⟨first, inOrder⟩ := List.pairwise_cons.mp inOrder
      have inserted :=
        m.insert_last (value a) fun x mem => later x mem a List.mem_cons_self
      rw [List.foldl_cons, ih inOrder, inserted, List.map_cons, List.append_assoc]
      · rfl
      · rw [inserted]
        intro x mem b isRest
        rcases List.mem_append.mp mem with old | new
        · exact later x old b (List.mem_cons_of_mem _ isRest)
        · rw [List.mem_singleton.mp new]
          exact first b isRest

end OrderedMap

end Vsr
