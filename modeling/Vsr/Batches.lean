import Mathlib.Data.List.Basic
import Mathlib.Order.Nat

/-!
# Databases of atomic batches

A database is the batches committed to it, in order, with how many of them are
durable.  A batch commits whole, and a power loss keeps a prefix of the batches that
holds those durable.
-/

set_option autoImplicit false

namespace Vsr

structure Batches (B : Type) where
  committed : List B
  /-- How many batches of the front are durable. -/
  synced : Nat

/-- What a batch makes of an image, and the image before the first one. -/
class Commits (I : Type) (B : outParam Type) where
  empty : I
  commit : I → B → I

namespace Batches

variable {I B : Type}

def empty : Batches B := ⟨[], 0⟩

def commit (db : Batches B) (batch : B) : Batches B :=
  { db with committed := db.committed ++ [batch] }

/-- A sync that began with `upTo` batches committed has completed. -/
def sync (db : Batches B) (upTo : Nat) : Batches B := { db with synced := max db.synced upTo }

/-- The database after a power loss that keeps `count` batches. -/
def lose (db : Batches B) (count : Nat) : Batches B := ⟨db.committed.take count, count⟩

/-- Whether a power loss may keep `count` batches. -/
def Survives (db : Batches B) (count : Nat) : Prop :=
  db.synced ≤ count ∧ count ≤ db.committed.length

instance (db : Batches B) (count : Nat) : Decidable (db.Survives count) :=
  inferInstanceAs (Decidable (_ ∧ _))

section
variable (I)
variable [Commits I B]

/-- The image after the first `count` batches. -/
def image (db : Batches B) (count : Nat) : I :=
  (db.committed.take count).foldl Commits.commit (Commits.empty : I)

/-- The image reads see. -/
def live (db : Batches B) : I := db.image I db.committed.length

end

variable [Commits I B] {db : Batches B} {count : Nat}

@[simp] theorem length_commit (db : Batches B) (batch : B) :
    (db.commit batch).committed.length = db.committed.length + 1 := by
  simp [commit]

@[simp] theorem synced_commit (db : Batches B) (batch : B) : (db.commit batch).synced = db.synced :=
  rfl

@[simp] theorem committed_sync (db : Batches B) (upTo : Nat) :
    (db.sync upTo).committed = db.committed := rfl

@[simp] theorem image_sync (db : Batches B) (upTo count : Nat) :
    (db.sync upTo).image I count = db.image I count := rfl

@[simp] theorem live_sync (db : Batches B) (upTo : Nat) : (db.sync upTo).live I = db.live I := rfl

/-- A batch leaves the images before it. -/
theorem image_commit_of_le (batch : B) (before : count ≤ db.committed.length) :
    (db.commit batch).image I count = db.image I count := by
  unfold image commit
  rw [List.take_append_of_le_length before]

theorem live_commit (db : Batches B) (batch : B) :
    (db.commit batch).live I = Commits.commit (db.live I) batch := by
  unfold live image
  rw [List.take_length, List.take_length, commit, List.foldl_append]
  rfl

/-- The images of a database with one batch more. -/
theorem forall_survives_commit {P : I → Prop} {batch : B}
    (before : ∀ count, db.Survives count → P (db.image I count))
    (last : P ((db.commit batch).live I)) :
    ∀ count, (db.commit batch).Survives count → P ((db.commit batch).image I count) := by
  intro count survives
  by_cases inside : count ≤ db.committed.length
  · rw [image_commit_of_le batch inside]
    exact before count ⟨survives.1, inside⟩
  · have isLast : count = (db.commit batch).committed.length :=
      le_antisymm survives.2 (by rw [length_commit]; omega)
    rw [isLast]
    exact last

theorem Survives.of_sync {upTo : Nat} (survives : (db.sync upTo).Survives count) :
    db.Survives count :=
  ⟨(le_max_left _ _).trans survives.1, survives.2⟩

theorem image_lose {kept : Nat} (within : count ≤ kept) :
    (db.lose kept).image I count = db.image I count := by
  unfold image lose
  rw [List.take_take, min_eq_left within]

theorem live_lose {kept : Nat} (survives : db.Survives kept) :
    (db.lose kept).live I = db.image I kept := by
  have isLength : (db.lose kept).committed.length = kept := by
    rw [lose, List.length_take, min_eq_left survives.2]
  unfold live
  rw [isLength, image_lose le_rfl]

end Batches

end Vsr
