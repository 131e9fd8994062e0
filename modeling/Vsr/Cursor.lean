import Mathlib.Data.List.Basic

/-!
# Reading words off a list

A reader takes words from the front of a list.  It may fail with a message, and it
may panic, which is a `none`.
-/

set_option autoImplicit false

namespace Vsr

/-- A reader of words. -/
abbrev Cursor (W : Type) := StateT (List W) (ExceptT String Option)

namespace Cursor

variable {W α β : Type} {p : Cursor W α} {f : α → Cursor W β} {ws ws' rest : List W} {a : α} {b : β}

/-- What a reader makes of the words `ws`, and those it leaves. -/
def read (p : Cursor W α) (ws : List W) : Option (Except String (α × List W)) := (p.run ws).run

def panic : Cursor W α := fun _ => none

/-- The next word, if there is one. -/
def next? : Cursor W (Option W) := fun ws => some (.ok (ws.head?, ws.tail))

/-- What `p` reads `count` times. -/
def times (p : Cursor W α) : Nat → Cursor W (List α)
  | 0 => pure []
  | count + 1 => do
      let a ← p
      let as ← times p count
      pure (a :: as)

@[simp] theorem read_pure (a : α) (ws : List W) :
    (pure a : Cursor W α).read ws = some (.ok (a, ws)) := rfl

@[simp] theorem read_throw (err : String) (ws : List W) :
    (throw err : Cursor W α).read ws = some (.error err) := rfl

@[simp] theorem read_panic (ws : List W) : (panic : Cursor W α).read ws = none := rfl

@[simp] theorem read_next? (ws : List W) :
    (next? : Cursor W (Option W)).read ws = some (.ok (ws.head?, ws.tail)) := rfl

theorem read_bind (p : Cursor W α) (f : α → Cursor W β) (ws : List W) :
    (p >>= f).read ws = match p.read ws with
      | none => none
      | some (.error err) => some (.error err)
      | some (.ok (a, rest)) => (f a).read rest := by
  show Option.bind (p.read ws) _ = _
  rcases p.read ws with _ | _ | ⟨a, rest⟩ <;> rfl

/-- `p` then `f` reads on where `p` stops. -/
theorem read_bind_ok (first : p.read ws = some (.ok (a, rest))) :
    (p >>= f).read ws = (f a).read rest := by
  rw [read_bind, first]

/-- What comes of two readers came of one after the other. -/
theorem read_bind_inv {rest' : List W} (reads : (p >>= f).read ws = some (.ok (b, rest'))) :
    ∃ a rest, p.read ws = some (.ok (a, rest)) ∧ (f a).read rest = some (.ok (b, rest')) := by
  rw [read_bind] at reads
  rcases first : p.read ws with _ | _ | ⟨a, rest⟩
  · rw [first] at reads
    cases reads
  · rw [first] at reads
    cases reads
  · rw [first] at reads
    exact ⟨a, rest, rfl, reads⟩

theorem times_succ (p : Cursor W α) (count : Nat) :
    p.times (count + 1) = p >>= fun a => p.times count >>= fun as => pure (a :: as) := rfl

/-! ## Reading a value back -/

/-- `p` reads `a` off the words `ws`, and leaves what follows them. -/
def Reads (p : Cursor W α) (ws : List W) (a : α) : Prop :=
  ∀ rest, p.read (ws ++ rest) = some (.ok (a, rest))

theorem Reads.pure (a : α) : Reads (pure a : Cursor W α) [] a := fun _ => rfl

theorem Reads.bind (first : Reads p ws a) (second : Reads (f a) ws' b) :
    Reads (p >>= f) (ws ++ ws') b := by
  intro rest
  rw [List.append_assoc, read_bind_ok (first _), second rest]

/-- `p` and a result made of what it reads. -/
theorem Reads.map (first : Reads p ws a) (g : α → β) : Reads (p >>= fun a => Pure.pure (g a)) ws (g a) := by
  have both := first.bind (f := fun a => Pure.pure (g a)) (.pure (g a))
  rwa [List.append_nil] at both

theorem Reads.times {spell : α → List W} {as : List α} (one : ∀ a ∈ as, Reads p (spell a) a) :
    Reads (p.times as.length) (as.flatMap spell) as := by
  induction as with
  | nil => exact .pure []
  | cons a as ih =>
      have first := one a List.mem_cons_self
      have others := ih fun other mem => one other (List.mem_cons_of_mem _ mem)
      exact first.bind (others.map _)

/-! ## Panics -/

/-- `p` panics on the words `ws`. -/
def Panics (p : Cursor W α) (ws : List W) : Prop := p.read ws = none

/-- `p` panics on no words. -/
def Calm (p : Cursor W α) : Prop := ∀ ws, ¬p.Panics ws

theorem panics_bind : (p >>= f).Panics ws ↔
    p.Panics ws ∨ ∃ a rest, p.read ws = some (.ok (a, rest)) ∧ (f a).Panics rest := by
  unfold Panics
  rw [read_bind]
  rcases p.read ws with _ | _ | ⟨a, rest⟩ <;> simp

theorem Calm.pure (a : α) : Calm (pure a : Cursor W α) := fun _ panics => by cases panics

theorem Calm.throw (err : String) : Calm (throw err : Cursor W α) := fun _ panics => by cases panics

theorem Calm.next? : Calm (next? : Cursor W (Option W)) := fun _ panics => by cases panics

theorem Calm.bind (first : p.Calm) (second : ∀ a, (f a).Calm) : (p >>= f).Calm := by
  intro ws panics
  rcases panics_bind.mp panics with before | ⟨a, rest, _, after⟩
  · exact first ws before
  · exact second a rest after

theorem Calm.times (calm : p.Calm) (count : Nat) : (p.times count).Calm := by
  induction count with
  | zero => exact .pure []
  | succ count ih => exact calm.bind fun a => ih.bind fun as => .pure _

/-- After a reader that does not panic, what panics is what follows. -/
theorem Calm.panics_bind (calm : p.Calm) : (p >>= f).Panics ws ↔
    ∃ a rest, p.read ws = some (.ok (a, rest)) ∧ (f a).Panics rest := by
  rw [Cursor.panics_bind, or_iff_right (calm ws)]

theorem panics_map (g : α → β) : (p >>= fun a => Pure.pure (g a)).Panics ws ↔ p.Panics ws := by
  rw [panics_bind]
  refine or_iff_left ?_
  rintro ⟨a, rest, _, panics⟩
  exact Calm.pure (g a) rest panics

theorem read_times_succ {count : Nat} {as : List α} {rest' : List W}
    (first : p.read ws = some (.ok (a, rest)))
    (others : (p.times count).read rest = some (.ok (as, rest'))) :
    (p.times (count + 1)).read ws = some (.ok (a :: as, rest')) := by
  rw [times_succ, read_bind_ok first, read_bind_ok others]
  rfl

/-- Reading several values panics where reading one of them does. -/
theorem panics_times {count : Nat} : (p.times count).Panics ws ↔
    ∃ before < count, ∃ as rest, (p.times before).read ws = some (.ok (as, rest)) ∧
      p.Panics rest := by
  induction count generalizing ws with
  | zero =>
      constructor
      · exact fun panics => absurd panics (Calm.pure [] ws)
      · rintro ⟨_, less, _⟩
        omega
  | succ count ih =>
      rw [times_succ, panics_bind]
      simp only [panics_map, ih]
      constructor
      · rintro (panics | ⟨a, rest, first, before, less, as, rest', others, panics⟩)
        · exact ⟨0, Nat.succ_pos _, [], ws, rfl, panics⟩
        · exact ⟨before + 1, Nat.succ_lt_succ less, a :: as, rest', read_times_succ first others,
            panics⟩
      · rintro ⟨before, less, as, rest, reads, panics⟩
        cases before with
        | zero =>
            cases reads
            exact .inl panics
        | succ before =>
            rw [times_succ] at reads
            obtain ⟨a, rest', first, reads⟩ := read_bind_inv reads
            obtain ⟨as', rest'', others, reads⟩ := read_bind_inv reads
            cases reads
            exact .inr ⟨a, rest', first, before, Nat.lt_of_succ_lt_succ less, as', _, others, panics⟩

/-! ## What a reader takes -/

/-- The words `p` reads a value off are those that `spells` holds of. -/
def Takes (p : Cursor W α) (spells : List W → Prop) : Prop :=
  ∀ ws rest, (∃ a, p.read ws = some (.ok (a, rest))) ↔ ∃ taken, spells taken ∧ ws = taken ++ rest

/-- Reading several values takes the words of one after those of the other. -/
theorem Takes.times {spells : List W → Prop} (takes : p.Takes spells) (count : Nat) :
    (p.times count).Takes fun taken => ∃ parts : List (List W),
      parts.length = count ∧ (∀ part ∈ parts, spells part) ∧ taken = parts.flatten := by
  induction count with
  | zero =>
      intro ws rest
      constructor
      · rintro ⟨as, reads⟩
        cases reads
        exact ⟨[], ⟨[], rfl, List.forall_mem_nil _, rfl⟩, rfl⟩
      · rintro ⟨taken, ⟨parts, none, _, rfl⟩, rfl⟩
        rw [List.length_eq_zero_iff.mp none]
        exact ⟨[], rfl⟩
  | succ count ih =>
      intro ws rest
      constructor
      · rintro ⟨as, reads⟩
        rw [times_succ] at reads
        obtain ⟨a, middle, first, reads⟩ := read_bind_inv reads
        obtain ⟨as', rest', others, reads⟩ := read_bind_inv reads
        cases reads
        obtain ⟨part, spelled, rfl⟩ := (takes ws middle).mp ⟨a, first⟩
        obtain ⟨taken, ⟨parts, isCount, spell, rfl⟩, rfl⟩ := (ih middle _).mp ⟨as', others⟩
        refine ⟨part ++ parts.flatten, ⟨part :: parts, ?_, ?_, rfl⟩, (List.append_assoc _ _ _).symm⟩
        · rw [List.length_cons, isCount]
        · exact List.forall_mem_cons.mpr ⟨spelled, spell⟩
      · rintro ⟨taken, ⟨parts, isCount, spell, rfl⟩, rfl⟩
        cases parts with
        | nil => cases isCount
        | cons part parts =>
            obtain ⟨spelled, spell⟩ := List.forall_mem_cons.mp spell
            obtain ⟨as, others⟩ := (ih (parts.flatten ++ rest) rest).mpr
              ⟨parts.flatten, ⟨parts, Nat.succ.inj isCount, spell, rfl⟩, rfl⟩
            obtain ⟨a, first⟩ := (takes (part ++ (parts.flatten ++ rest)) _).mpr ⟨part, spelled, rfl⟩
            rw [List.flatten_cons, List.append_assoc]
            exact ⟨a :: as, read_times_succ first others⟩

/-- Reading several values panics where reading one does, after the words of fewer. -/
theorem Takes.panics_times {spells : List W → Prop} (takes : p.Takes spells) {count : Nat} :
    (p.times count).Panics ws ↔ ∃ parts : List (List W), ∃ rest, parts.length < count ∧
      (∀ part ∈ parts, spells part) ∧ ws = parts.flatten ++ rest ∧ p.Panics rest := by
  rw [Cursor.panics_times]
  constructor
  · rintro ⟨before, less, as, rest, reads, panics⟩
    obtain ⟨taken, ⟨parts, rfl, spell, rfl⟩, rfl⟩ := (takes.times before ws rest).mp ⟨as, reads⟩
    exact ⟨parts, rest, less, spell, rfl, panics⟩
  · rintro ⟨parts, rest, less, spell, rfl, panics⟩
    obtain ⟨as, reads⟩ := (takes.times parts.length (parts.flatten ++ rest) rest).mpr
      ⟨parts.flatten, ⟨parts, rfl, spell, rfl⟩, rfl⟩
    exact ⟨parts.length, less, as, rest, reads, panics⟩

end Cursor

end Vsr
