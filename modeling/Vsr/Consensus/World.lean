import Mathlib.Data.Finset.Card
import Mathlib.Data.List.Basic
import Mathlib.Logic.Function.Basic
import Mathlib.Data.Set.Basic

/-!
# Views, votes and logs

The abstract picture of a replicated log that changes leaders.  Each view has at
most one leader, whose log only grows; a member votes for a prefix of that log,
and stops voting in a view once it has left it.  What a quorum has voted for in
one view is decided, and the log a later view starts from must hold it.

The members are an arbitrary type with a system of quorums, the entries an
arbitrary type.
-/

set_option autoImplicit false

namespace Consensus

/-- A family of quorums any two of which share a member. -/
structure QuorumSystem (ι : Type) where
  IsQuorum : Finset ι → Prop
  meets : ∀ {P Q : Finset ι}, IsQuorum P → IsQuorum Q → ∃ R ∈ P, R ∈ Q

/-- How far each member has come, and the leader's log in each view. -/
structure World (ι E : Type) where
  view : ι → Nat
  /-- The length of the leader's log a member has voted for, by view. -/
  votes : ι → Nat → Nat
  /-- The leader's log in each view, empty before the view starts. -/
  led : Nat → List E
  /-- The log a view started from. -/
  base : Nat → Option (List E)
  /-- The longest prefix known to be decided. -/
  decided : List E
  /-- The views that decided prefixes of it, with their lengths. -/
  marks : Set (Nat × Nat)

variable {ι E : Type}

namespace World

/-! ## The order of worlds -/

/-- `w'` is a later world: nothing is taken back, and a member votes no more in
a view it has left. -/
structure Le (w w' : World ι E) : Prop where
  view : ∀ R, w.view R ≤ w'.view R
  votes : ∀ R x, w.votes R x ≤ w'.votes R x
  frozen : ∀ R x, x < w.view R → w'.votes R x = w.votes R x
  led : ∀ x, w.led x <+: w'.led x
  base : ∀ x b, w.base x = some b → w'.base x = some b
  decided : w.decided <+: w'.decided
  marks : w.marks ⊆ w'.marks

theorem Le.refl (w : World ι E) : Le w w where
  view _ := le_rfl
  votes _ _ := le_rfl
  frozen _ _ _ := rfl
  led _ := List.prefix_rfl
  base _ _ started := started
  decided := List.prefix_rfl
  marks _ mem := mem

theorem Le.trans {w w' w'' : World ι E} (first : Le w w') (second : Le w' w'') : Le w w'' where
  view R := (first.view R).trans (second.view R)
  votes R x := (first.votes R x).trans (second.votes R x)
  frozen R x left :=
    (second.frozen R x (left.trans_le (first.view R))).trans (first.frozen R x left)
  led x := (first.led x).trans (second.led x)
  base x b started := second.base x b (first.base x b started)
  decided := first.decided.trans second.decided
  marks := first.marks.trans second.marks

/-- The part of the decided prefix up to a length it already has stays. -/
theorem Le.take_decided {w w' : World ι E} (later : Le w w') {k : Nat}
    (within : k ≤ w.decided.length) : w'.decided.take k = w.decided.take k := by
  obtain ⟨rest, grown⟩ := later.decided
  rw [← grown, List.take_append_of_le_length within]

theorem Le.length_decided {w w' : World ι E} (later : Le w w') :
    w.decided.length ≤ w'.decided.length :=
  later.decided.length_le

theorem Le.started {w w' : World ι E} (later : Le w w') {x : Nat} (started : w.base x ≠ none) :
    w'.base x ≠ none := by
  obtain ⟨b, isBase⟩ := Option.ne_none_iff_exists'.mp started
  rw [later.base x b isBase]
  exact Option.some_ne_none b

/-! ## What a log holds of a view -/

variable (quorums : QuorumSystem ι)

/-- `L` holds the first `k + 1` entries of the log of view `x`. -/
def Matches (w : World ι E) (L : List E) (x k : Nat) : Prop :=
  k < (w.led x).length ∧ L.take (k + 1) = (w.led x).take (k + 1)

/-- A quorum has left view `x` without a vote for its entry at index `k`, which
view `x` will therefore never decide. -/
def Blocked (w : World ι E) (x k : Nat) : Prop :=
  ∃ Q, quorums.IsQuorum Q ∧ ∀ R ∈ Q, x < w.view R ∧ w.votes R x ≤ k

/-- `L` is safe as to the entry of view `x` at index `k`. -/
def Covers (w : World ι E) (L : List E) (x k : Nat) : Prop :=
  w.Matches L x k ∨ w.Blocked quorums x k

/-- `L` is safe as to every view before `v`: view `v` may start from it. -/
def Complete (w : World ι E) (L : List E) (v : Nat) : Prop :=
  ∀ x < v, ∀ k, w.Covers quorums L x k

/-- A quorum has voted in view `x` for the prefix `L` of its log. -/
def Chosen (w : World ι E) (x : Nat) (L : List E) : Prop :=
  L <+: w.led x ∧ ∃ Q, quorums.IsQuorum Q ∧ ∀ R ∈ Q, L.length ≤ w.votes R x

/-- The first `k` entries of the decided prefix were decided in a view up to `v`. -/
def KnownBy (w : World ι E) (v k : Nat) : Prop :=
  k = 0 ∨ ∃ y m, (y, m) ∈ w.marks ∧ y ≤ v ∧ k ≤ m

/-- What holds of every world a run reaches. -/
structure Valid (w : World ι E) : Prop where
  /-- A view starts from a log that is safe as to every view before. -/
  complete : ∀ x b, w.base x = some b → w.Complete quorums b x
  grows : ∀ x b, w.base x = some b → b <+: w.led x
  unstarted : ∀ x, w.base x = none → w.led x = []
  votes_le : ∀ R x, w.votes R x ≤ (w.led x).length
  /-- A member votes only in views it has reached. -/
  ahead : ∀ R x, w.view R < x → w.votes R x = 0
  marked : ∀ y k, (y, k) ∈ w.marks →
    k ≤ w.decided.length ∧ w.Chosen quorums y (w.decided.take k)
  known : w.decided = [] ∨ ∃ y, (y, w.decided.length) ∈ w.marks
  /-- A quorum has reached a view that has started, the first one apart. -/
  reached : ∀ x, 0 < x → w.base x ≠ none →
    ∃ Q, quorums.IsQuorum Q ∧ ∀ R ∈ Q, x ≤ w.view R

variable {quorums}

/-! ## Later worlds keep it -/

section Mono
variable {w w' : World ι E} (later : Le w w')
include later

theorem Matches.mono {L : List E} {x k : Nat} (here : w.Matches L x k) : w'.Matches L x k := by
  obtain ⟨within, same⟩ := here
  obtain ⟨rest, grown⟩ := later.led x
  refine ⟨within.trans_le (later.led x).length_le, ?_⟩
  rw [same, ← grown, List.take_append_of_le_length within]

theorem Blocked.mono {x k : Nat} (here : w.Blocked quorums x k) : w'.Blocked quorums x k := by
  obtain ⟨Q, isQuorum, left⟩ := here
  refine ⟨Q, isQuorum, fun R mem => ?_⟩
  obtain ⟨gone, few⟩ := left R mem
  refine ⟨gone.trans_le (later.view R), ?_⟩
  rw [later.frozen R x gone]
  exact few

theorem Covers.mono {L : List E} {x k : Nat} (here : w.Covers quorums L x k) :
    w'.Covers quorums L x k :=
  here.imp (Matches.mono later) (Blocked.mono later)

theorem Complete.mono {L : List E} {v : Nat} (here : w.Complete quorums L v) :
    w'.Complete quorums L v :=
  fun x before k => (here x before k).mono later

theorem Chosen.mono {L : List E} {x : Nat} (here : w.Chosen quorums x L) :
    w'.Chosen quorums x L := by
  obtain ⟨held, Q, isQuorum, voted⟩ := here
  exact ⟨held.trans (later.led x), Q, isQuorum,
    fun R mem => (voted R mem).trans (later.votes R x)⟩

theorem KnownBy.mono {v k : Nat} (here : w.KnownBy v k) : w'.KnownBy v k := by
  rcases here with zero | ⟨y, m, mark, before, within⟩
  · exact .inl zero
  · exact .inr ⟨y, m, later.marks mark, before, within⟩

end Mono

theorem KnownBy.of_le {w : World ι E} {v v' k k' : Nat} (here : w.KnownBy v k) (views : v ≤ v')
    (lengths : k' ≤ k) : w.KnownBy v' k' := by
  rcases here with zero | ⟨y, m, mark, before, within⟩
  · exact .inl (by omega)
  · exact .inr ⟨y, m, mark, before.trans views, lengths.trans within⟩

/-! ## What is decided stays -/

theorem Chosen.take {w : World ι E} {x : Nat} {L : List E} (chosen : w.Chosen quorums x L)
    (k : Nat) : w.Chosen quorums x (L.take k) := by
  obtain ⟨held, Q, isQuorum, voted⟩ := chosen
  exact ⟨(List.take_prefix k L).trans held, Q, isQuorum,
    fun R mem => (List.length_take_le' k L).trans (voted R mem)⟩

theorem Chosen.not_blocked {w : World ι E} {x k : Nat} {L : List E}
    (chosen : w.Chosen quorums x L) (within : k < L.length) : ¬w.Blocked quorums x k := by
  rintro ⟨P, isP, left⟩
  obtain ⟨_, Q, isQ, voted⟩ := chosen
  obtain ⟨R, memP, memQ⟩ := quorums.meets isP isQ
  have few := (left R memP).2
  have many := voted R memQ
  omega

/-- A log that is safe as to a view holds what that view has chosen. -/
theorem Chosen.prefix_of_covers {w : World ι E} {x : Nat} {P L : List E}
    (chosen : w.Chosen quorums x P) (covers : ∀ k < P.length, w.Covers quorums L x k) :
    P <+: L := by
  rcases Nat.eq_zero_or_pos P.length with zero | pos
  · rw [List.length_eq_zero_iff.mp zero]
    exact List.nil_prefix
  · have last : P.length - 1 < P.length := by omega
    rcases covers _ last with ⟨_, same⟩ | blocked
    · have whole : P.length - 1 + 1 = P.length := by omega
      rw [whole] at same
      rw [List.prefix_iff_eq_take.mp chosen.1, ← same]
      exact List.take_prefix _ _
    · exact absurd blocked (chosen.not_blocked last)

theorem Chosen.prefix_of_complete {w : World ι E} {x v : Nat} {P L : List E}
    (chosen : w.Chosen quorums x P) (complete : w.Complete quorums L v) (before : x < v) :
    P <+: L :=
  chosen.prefix_of_covers fun k _ => complete x before k

namespace Valid
variable {w : World ι E} (valid : w.Valid quorums)
include valid

/-- A view with a vote in it has started. -/
theorem started_of_led {x : Nat} (nonempty : w.led x ≠ []) : ∃ b, w.base x = some b := by
  cases started : w.base x with
  | none => exact absurd (valid.unstarted x started) nonempty
  | some b => exact ⟨b, rfl⟩

theorem started_of_chosen {x : Nat} {L : List E} (chosen : w.Chosen quorums x L)
    (pos : 0 < L.length) : ∃ b, w.base x = some b := by
  refine valid.started_of_led fun empty => ?_
  have := chosen.1.length_le
  simp only [empty, List.length_nil] at this
  omega

theorem knownBy_length {v k : Nat} (known : w.KnownBy v k) : k ≤ w.decided.length := by
  rcases known with zero | ⟨y, m, mark, _, within⟩
  · omega
  · exact within.trans (valid.marked y m mark).1

/-- What a view up to `v` decided is chosen in one of them. -/
theorem knownBy_chosen {v k : Nat} (known : w.KnownBy v k) (pos : 0 < k) :
    ∃ y ≤ v, w.Chosen quorums y (w.decided.take k) := by
  rcases known with zero | ⟨y, m, mark, before, within⟩
  · omega
  · have chosen := (valid.marked y m mark).2.take k
    rw [List.take_take, Nat.min_eq_left within] at chosen
    exact ⟨y, before, chosen⟩

/-- The log of a started view holds what the views up to it decided. -/
theorem knownBy_prefix_led {v k : Nat} (known : w.KnownBy v k) (started : w.base v ≠ none) :
    w.decided.take k <+: w.led v := by
  rcases Nat.eq_zero_or_pos k with rfl | pos
  · simp
  · obtain ⟨y, before, chosen⟩ := valid.knownBy_chosen known pos
    obtain ⟨b, isBase⟩ := Option.ne_none_iff_exists'.mp started
    rcases before.lt_or_eq with before | rfl
    · exact (chosen.prefix_of_complete (valid.complete v b isBase) before).trans
        (valid.grows v b isBase)
    · exact chosen.1

/-- A log view `v` may start from holds what the views up to `v` decided, as long
as `v` itself has not started. -/
theorem knownBy_prefix_complete {v k : Nat} {L : List E} (known : w.KnownBy v k)
    (unstarted : w.base v = none) (complete : w.Complete quorums L v) :
    w.decided.take k <+: L := by
  rcases Nat.eq_zero_or_pos k with rfl | pos
  · simp
  · have within := valid.knownBy_length known
    obtain ⟨y, before, chosen⟩ := valid.knownBy_chosen known pos
    rcases before.lt_or_eq with before | rfl
    · exact chosen.prefix_of_complete complete before
    · have held := chosen.1
      rw [valid.unstarted y unstarted, List.prefix_nil] at held
      rw [held]
      exact List.nil_prefix

/-- Where the log of a view and the decided prefix differ, the view is blocked. -/
theorem led_agrees {x k : Nat} (within : k < w.decided.length) (held : k < (w.led x).length) :
    (w.led x).take (k + 1) = w.decided.take (k + 1) ∨ w.Blocked quorums x k := by
  rcases valid.known with empty | ⟨y, mark⟩
  · simp [empty] at within
  · have chosen := (valid.marked y _ mark).2
    rw [List.take_length] at chosen
    have started : w.base x ≠ none := by
      intro unstarted
      simp [valid.unstarted x unstarted] at held
    rcases Nat.lt_or_ge x y with before | after
    · -- The view that decided started from a log that covers view `x`.
      obtain ⟨b, isBase⟩ := valid.started_of_chosen chosen (by omega)
      refine (valid.complete y b isBase x before k).imp (fun ⟨_, same⟩ => ?_) id
      have long : k + 1 ≤ b.length := by
        have := congrArg List.length same
        simp only [List.length_take] at this
        omega
      obtain ⟨more, grown⟩ := valid.grows y b isBase
      obtain ⟨rest, voted⟩ := chosen.1
      have shorter : (b ++ more).take (k + 1) = b.take (k + 1) := List.take_append_of_le_length long
      rw [← same, ← shorter, grown, ← voted, List.take_append_of_le_length within]
    · left
      have known : w.KnownBy x w.decided.length := .inr ⟨y, _, mark, after, le_rfl⟩
      obtain ⟨rest, voted⟩ := valid.knownBy_prefix_led known started
      rw [List.take_length] at voted
      rw [← voted, List.take_append_of_le_length within]

/-- The decided prefix is safe as to every view that has started. -/
theorem covers_decided {x k j : Nat} (started : w.base x ≠ none) (inside : k < j)
    (within : j ≤ w.decided.length) : w.Covers quorums (w.decided.take j) x k := by
  by_cases held : k < (w.led x).length
  · refine (valid.led_agrees (inside.trans_le within) held).imp (fun agrees => ⟨held, ?_⟩) id
    rw [agrees, List.take_take, Nat.min_eq_left inside]
  · -- The view that decided came later, and what it started from is safe.
    rcases valid.known with empty | ⟨y, mark⟩
    · simp [empty] at within
      omega
    · have chosen := (valid.marked y _ mark).2
      rw [List.take_length] at chosen
      rcases Nat.lt_or_ge x y with before | after
      · obtain ⟨b, isBase⟩ := valid.started_of_chosen chosen (by omega)
        rcases valid.complete y b isBase x before k with ⟨inLed, _⟩ | blocked
        · exact absurd inLed held
        · exact .inr blocked
      · have known : w.KnownBy x w.decided.length := .inr ⟨y, _, mark, after, le_rfl⟩
        have := (valid.knownBy_prefix_led known started).length_le
        rw [List.take_length] at this
        omega

/-- A log stays safe when a stretch of its start gives way to the decided prefix. -/
theorem covers_graft {L : List E} {x k j : Nat} (covers : w.Covers quorums L x k)
    (within : j ≤ w.decided.length) :
    w.Covers quorums (w.decided.take j ++ L.drop j) x k := by
  rcases covers with ⟨held, same⟩ | blocked
  · have taken : (w.decided.take j).length = j := by simp [within]
    rcases Nat.lt_or_ge k j with inside | beyond
    · refine (valid.led_agrees (inside.trans_le within) held).imp (fun agrees => ⟨held, ?_⟩) id
      rw [List.take_append_of_le_length (by omega), List.take_take, Nat.min_eq_left (by omega),
        agrees]
    · -- The first `j` entries of the view's log are the decided ones, or it is blocked.
      have agrees : (w.led x).take j = w.decided.take j ∨ w.Blocked quorums x k := by
        cases j with
        | zero => simp
        | succ j =>
            refine (valid.led_agrees (k := j) (by omega) (by omega)).imp id ?_
            rintro ⟨Q, isQuorum, left⟩
            exact ⟨Q, isQuorum, fun R mem => ⟨(left R mem).1, (left R mem).2.trans (by omega)⟩⟩
      refine agrees.imp (fun agrees => ⟨held, ?_⟩) id
      have start : L.take j = (w.led x).take j := by
        have := congrArg (List.take j) same
        rwa [List.take_take, List.take_take, Nat.min_eq_left (by omega)] at this
      rw [← agrees, ← start, List.take_append_drop, same]
  · exact .inr blocked

theorem complete_graft {L : List E} {v j : Nat} (complete : w.Complete quorums L v)
    (within : j ≤ w.decided.length) :
    w.Complete quorums (w.decided.take j ++ L.drop j) v :=
  fun x before k => valid.covers_graft (complete x before k) within

end Valid

/-- A log keeps covering what it covered when it grows. -/
theorem Matches.longer {w : World ι E} {L L' : List E} {x k : Nat} (here : w.Matches L x k)
    (grown : L <+: L') : w.Matches L' x k := by
  obtain ⟨held, same⟩ := here
  have long : k + 1 ≤ L.length := by
    have := congrArg List.length same
    simp only [List.length_take] at this
    omega
  obtain ⟨rest, rfl⟩ := grown
  exact ⟨held, by rw [List.take_append_of_le_length long, same]⟩

theorem Covers.longer {w : World ι E} {L L' : List E} {x k : Nat}
    (here : w.Covers quorums L x k) (grown : L <+: L') : w.Covers quorums L' x k :=
  here.imp (fun here => here.longer grown) id

theorem Complete.longer {w : World ι E} {L L' : List E} {v : Nat}
    (here : w.Complete quorums L v) (grown : L <+: L') : w.Complete quorums L' v :=
  fun x before k => (here x before k).longer grown

/-- A prefix of a view's log matches it. -/
theorem matches_longer {w : World ι E} {L : List E} {x k : Nat} (held : L <+: w.led x)
    (within : k < L.length) : w.Matches L x k := by
  obtain ⟨rest, grown⟩ := held
  refine ⟨?_, ?_⟩
  · rw [← grown, List.length_append]
    omega
  · rw [← grown, List.take_append_of_le_length within]

end World

end Consensus
