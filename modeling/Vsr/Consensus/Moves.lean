import Vsr.Consensus.World

/-!
# How a world moves on

The five ways a world changes: a member moves to a later view, votes for more of
the leader's log, a leader's log grows, a view starts, and a prefix is decided.
Each leads to a later world and keeps `Valid`.
-/

set_option autoImplicit false

namespace Consensus.World

variable {ι E : Type} {quorums : QuorumSystem ι}

/-- `R` moves to view `v`. -/
def raise [DecidableEq ι] (w : World ι E) (R : ι) (v : Nat) : World ι E :=
  { w with view := Function.update w.view R v }

/-- `R` votes for the first `k` entries of the log of view `x`. -/
def vote [DecidableEq ι] (w : World ι E) (R : ι) (x k : Nat) : World ι E :=
  { w with votes := Function.update w.votes R (Function.update (w.votes R) x k) }

/-- The leader's log of view `x` grows to `L`. -/
def lead (w : World ι E) (x : Nat) (L : List E) : World ι E :=
  { w with led := Function.update w.led x L }

/-- View `x` starts from `L`. -/
def start (w : World ι E) (x : Nat) (L : List E) : World ι E :=
  { w with led := Function.update w.led x L, base := Function.update w.base x (some L) }

/-- View `y` decides `L`, which may be a part of what is decided already. -/
def decide (w : World ι E) (y : Nat) (L : List E) : World ι E :=
  { w with
    decided := if w.decided.length ≤ L.length then L else w.decided
    marks := insert (y, L.length) w.marks }

section Raise
variable [DecidableEq ι] {w : World ι E} {R : ι} {v : Nat} (later : w.view R ≤ v)
include later

theorem raise_le : Le w (w.raise R v) where
  view S := by
    rcases eq_or_ne S R with rfl | other
    · simpa [raise] using later
    · simp [raise, other]
  votes _ _ := le_rfl
  frozen _ _ _ := rfl
  led _ := List.prefix_rfl
  base _ _ started := started
  decided := List.prefix_rfl
  marks _ mem := mem

theorem Valid.raise (valid : w.Valid quorums) : (w.raise R v).Valid quorums where
  complete x b started := (valid.complete x b started).mono (raise_le later)
  grows := valid.grows
  unstarted := valid.unstarted
  votes_le := valid.votes_le
  ahead S x beyond := valid.ahead S x (((raise_le later).view S).trans_lt beyond)
  marked := valid.marked
  known := valid.known
  reached x pos started := by
    obtain ⟨Q, isQuorum, there⟩ := valid.reached x pos started
    exact ⟨Q, isQuorum, fun S mem => (there S mem).trans ((raise_le later).view S)⟩

end Raise

section Vote
variable [DecidableEq ι] {w : World ι E} {R : ι} {x k : Nat} (more : w.votes R x ≤ k) (current : w.view R = x)
include more current

theorem vote_le : Le w (w.vote R x k) where
  view _ := le_rfl
  votes S y := by
    rcases eq_or_ne S R with rfl | other
    · rcases eq_or_ne y x with rfl | elsewhere
      · simpa [vote] using more
      · simp [vote, elsewhere]
    · simp [vote, other]
  frozen S y left := by
    rcases eq_or_ne S R with rfl | other
    · have elsewhere : y ≠ x := by omega
      simp [vote, elsewhere]
    · simp [vote, other]
  led _ := List.prefix_rfl
  base _ _ started := started
  decided := List.prefix_rfl
  marks _ mem := mem

theorem Valid.vote (valid : w.Valid quorums) (held : k ≤ (w.led x).length) :
    (w.vote R x k).Valid quorums where
  complete y b started := (valid.complete y b started).mono (vote_le more current)
  grows := valid.grows
  unstarted := valid.unstarted
  votes_le S y := by
    rcases eq_or_ne S R with rfl | other
    · rcases eq_or_ne y x with rfl | elsewhere
      · simpa [World.vote] using held
      · simpa [World.vote, elsewhere] using valid.votes_le S y
    · simpa [World.vote, other] using valid.votes_le S y
  ahead S y beyond := by
    have before := valid.ahead S y beyond
    rcases eq_or_ne S R with rfl | other
    · have elsewhere : y ≠ x := by
        rintro rfl
        exact absurd current (Nat.ne_of_lt beyond)
      simpa [World.vote, elsewhere] using before
    · simpa [World.vote, other] using before
  marked y m mark :=
    ⟨(valid.marked y m mark).1, (valid.marked y m mark).2.mono (vote_le more current)⟩
  known := valid.known
  reached := valid.reached

end Vote

section Lead
variable {w : World ι E} {x : Nat} {L : List E} (grown : w.led x <+: L)
include grown

theorem lead_le : Le w (w.lead x L) where
  view _ := le_rfl
  votes _ _ := le_rfl
  frozen _ _ _ := rfl
  led y := by
    rcases eq_or_ne y x with rfl | elsewhere
    · simpa [lead] using grown
    · simp [lead, elsewhere]
  base _ _ started := started
  decided := List.prefix_rfl
  marks _ mem := mem

theorem Valid.lead (valid : w.Valid quorums) (started : w.base x ≠ none) :
    (w.lead x L).Valid quorums where
  complete y b isBase := (valid.complete y b isBase).mono (lead_le grown)
  grows y b isBase := (valid.grows y b isBase).trans ((lead_le grown).led y)
  unstarted y unstarted := by
    have elsewhere : y ≠ x := by
      rintro rfl
      exact started unstarted
    simpa [World.lead, elsewhere] using valid.unstarted y unstarted
  votes_le S y := (valid.votes_le S y).trans ((lead_le grown).led y).length_le
  ahead := valid.ahead
  marked y m mark := ⟨(valid.marked y m mark).1, (valid.marked y m mark).2.mono (lead_le grown)⟩
  known := valid.known
  reached := valid.reached

end Lead

section Start
variable {w : World ι E} {x : Nat} {L : List E} (valid : w.Valid quorums)
  (unstarted : w.base x = none)
include valid unstarted

theorem start_le : Le w (w.start x L) where
  view _ := le_rfl
  votes _ _ := le_rfl
  frozen _ _ _ := rfl
  led y := by
    rcases eq_or_ne y x with rfl | elsewhere
    · rw [valid.unstarted y unstarted]
      exact List.nil_prefix
    · simp [start, elsewhere]
  base y b isBase := by
    have elsewhere : y ≠ x := by
      rintro rfl
      simp [unstarted] at isBase
    simpa [start, elsewhere] using isBase
  decided := List.prefix_rfl
  marks _ mem := mem

theorem Valid.start (complete : w.Complete quorums L x)
    (reached : ∃ Q, quorums.IsQuorum Q ∧ ∀ R ∈ Q, x ≤ w.view R) :
    (w.start x L).Valid quorums where
  complete y b isBase := by
    refine Complete.mono (start_le valid unstarted) ?_
    rcases eq_or_ne y x with rfl | elsewhere
    · have same : L = b := by simpa [World.start] using isBase
      rwa [← same]
    · exact valid.complete y b (by simpa [World.start, elsewhere] using isBase)
  grows y b isBase := by
    rcases eq_or_ne y x with rfl | elsewhere
    · have same : L = b := by simpa [World.start] using isBase
      simp [World.start, same]
    · simpa [World.start, elsewhere] using
        valid.grows y b (by simpa [World.start, elsewhere] using isBase)
  unstarted y notStarted := by
    rcases eq_or_ne y x with rfl | elsewhere
    · simp [World.start] at notStarted
    · simpa [World.start, elsewhere] using
        valid.unstarted y (by simpa [World.start, elsewhere] using notStarted)
  votes_le S y :=
    (valid.votes_le S y).trans ((start_le valid unstarted).led y).length_le
  ahead := valid.ahead
  marked y m mark :=
    ⟨(valid.marked y m mark).1, (valid.marked y m mark).2.mono (start_le valid unstarted)⟩
  known := valid.known
  reached y pos started := by
    rcases eq_or_ne y x with rfl | elsewhere
    · exact reached
    · exact valid.reached y pos (by simpa [World.start, elsewhere] using started)

end Start

/-! ## Deciding -/

/-- What any view chooses extends the decided prefix, or is a part of it. -/
theorem Chosen.comparable {w : World ι E} (valid : w.Valid quorums) {y : Nat} {L : List E}
    (chosen : w.Chosen quorums y L) : L <+: w.decided ∨ w.decided <+: L := by
  rcases valid.known with empty | ⟨z, mark⟩
  · rw [empty]
    exact .inr List.nil_prefix
  · have before := (valid.marked z _ mark).2
    rw [List.take_length] at before
    -- The log of the later of the two views holds both.
    have meet : ∀ {P P' : List E} {a b : Nat}, a < b → w.Chosen quorums a P →
        w.Chosen quorums b P' → P <+: P' ∨ P' <+: P := by
      intro P P' a b earlier first second
      rcases Nat.eq_zero_or_pos P'.length with zero | pos
      · rw [List.length_eq_zero_iff.mp zero]
        exact .inr List.nil_prefix
      · obtain ⟨base, isBase⟩ := valid.started_of_chosen second pos
        have held := (first.prefix_of_complete (valid.complete b base isBase) earlier).trans
          (valid.grows b base isBase)
        exact List.prefix_or_prefix_of_prefix held second.1
    rcases Nat.lt_trichotomy y z with earlier | rfl | later
    · exact meet earlier chosen before
    · exact List.prefix_or_prefix_of_prefix chosen.1 before.1
    · exact (meet later before chosen).symm

section Decide
variable {w : World ι E} {y : Nat} {L : List E}
  (comparable : L <+: w.decided ∨ w.decided <+: L)
include comparable

theorem decided_decide : w.decided <+: (w.decide y L).decided ∧ L <+: (w.decide y L).decided := by
  unfold decide
  dsimp only
  split
  · next short =>
    refine ⟨?_, List.prefix_rfl⟩
    rcases comparable with shorter | longer
    · rw [shorter.eq_of_length_le short]
    · exact longer
  · next long =>
    refine ⟨List.prefix_rfl, ?_⟩
    rcases comparable with shorter | longer
    · exact shorter
    · exact absurd longer.length_le long

theorem decide_le : Le w (w.decide y L) where
  view _ := le_rfl
  votes _ _ := le_rfl
  frozen _ _ _ := rfl
  led _ := List.prefix_rfl
  base _ _ started := started
  decided := (decided_decide comparable).1
  marks _ mem := Set.mem_insert_of_mem _ mem

theorem Valid.decide (valid : w.Valid quorums) (chosen : w.Chosen quorums y L) :
    (w.decide y L).Valid quorums where
  complete := valid.complete
  grows := valid.grows
  unstarted := valid.unstarted
  votes_le := valid.votes_le
  ahead := valid.ahead
  marked z m mark := by
    rcases mark with here | mark
    · obtain ⟨rfl, rfl⟩ := Prod.mk.inj here
      have held := (decided_decide (y := z) comparable).2
      refine ⟨held.length_le, ?_⟩
      rw [← List.prefix_iff_eq_take.mp held]
      exact chosen.mono (decide_le comparable)
    · obtain ⟨within, before⟩ := valid.marked z m mark
      refine ⟨within.trans (decide_le comparable).length_decided, ?_⟩
      rw [(decide_le comparable).take_decided within]
      exact before.mono (decide_le comparable)
  known := by
    by_cases short : w.decided.length ≤ L.length
    · exact .inr ⟨y, by simp [World.decide, short]⟩
    · rcases valid.known with empty | ⟨z, mark⟩
      · simp [empty] at short
      · exact .inr ⟨z, by simp [World.decide, short, mark]⟩
  reached := valid.reached

end Decide

/-! ## What a member knows -/

/-- What holds of the log `L` of a member whose last normal view is `u`: it is
safe as to the views before, and in `u` as far as it goes and as far as the
member has voted; in later views the member has not voted. -/
structure Safe (quorums : QuorumSystem ι) (w : World ι E) (R : ι) (u : Nat) (L : List E) :
    Prop where
  started : w.base u ≠ none
  complete : w.Complete quorums L u
  covers : ∀ k < max L.length (w.votes R u), w.Covers quorums L u k
  silent : ∀ x, u < x → w.votes R x = 0

/-- What a member that wants view `v` reports of its log. -/
structure Reported (quorums : QuorumSystem ι) (w : World ι E) (R : ι) (v u : Nat) (L : List E) :
    Prop where
  before : u < v
  moved : v ≤ w.view R
  complete : w.Complete quorums L u
  covers : ∀ k < max L.length (w.votes R u), w.Covers quorums L u k
  silent : ∀ x, u < x → x < v → w.votes R x = 0

theorem Safe.report {w : World ι E} {R : ι} {u v : Nat} {L : List E} (safe : w.Safe quorums R u L)
    (before : u < v) (moved : v ≤ w.view R) : w.Reported quorums R v u L where
  before := before
  moved := moved
  complete := safe.complete
  covers := safe.covers
  silent x after _ := safe.silent x after

/-- A member that does nothing itself stays safe. -/
theorem Safe.mono {w w' : World ι E} (later : Le w w') {R : ι} (quiet : w'.votes R = w.votes R)
    {u : Nat} {L : List E} (safe : w.Safe quorums R u L) : w'.Safe quorums R u L where
  started := later.started safe.started
  complete := safe.complete.mono later
  covers k within := (safe.covers k (by rwa [quiet] at within)).mono later
  silent x after := by
    rw [quiet]
    exact safe.silent x after

theorem Reported.mono {w w' : World ι E} (later : Le w w') {R : ι} {u v : Nat} {L : List E}
    (reported : w.Reported quorums R v u L) : w'.Reported quorums R v u L where
  before := reported.before
  moved := reported.moved.trans (later.view R)
  complete := reported.complete.mono later
  covers k within := by
    rw [later.frozen R u (reported.before.trans_le reported.moved)] at within
    exact (reported.covers k within).mono later
  silent x after before := by
    rw [later.frozen R x (before.trans_le reported.moved)]
    exact reported.silent x after before

/-- A log that is safe up to view `v` is safe for a member that has not been
normal since `u < v`. -/
theorem Safe.of_complete {w : World ι E} {R : ι} {u v : Nat} {L L' : List E}
    (safe : w.Safe quorums R u L') (complete : w.Complete quorums L v) (before : u < v) :
    w.Safe quorums R u L where
  started := safe.started
  complete x earlier k := complete x (earlier.trans before) k
  covers k _ := complete u before k
  silent := safe.silent

/-- A member stays safe when a stretch of its log gives way to the decided prefix. -/
theorem Safe.graft {w : World ι E} (valid : w.Valid quorums) {R : ι} {u j : Nat} {L : List E}
    (safe : w.Safe quorums R u L) (within : j ≤ w.decided.length) :
    w.Safe quorums R u (w.decided.take j ++ L.drop j) where
  started := safe.started
  complete := valid.complete_graft safe.complete within
  covers k inside := by
    by_cases before : k < max L.length (w.votes R u)
    · exact valid.covers_graft (safe.covers k before) within
    · -- Beyond the old log there is nothing but the decided prefix.
      have short : L.length ≤ k := by omega
      have long : k < j := by
        simp only [List.length_append, List.length_take, List.length_drop] at inside
        omega
      exact (valid.covers_decided safe.started long within).longer (List.prefix_append _ _)
  silent := safe.silent

/-- A member whose log is the log of its view, as far as it goes and as far as it
has voted, is safe. -/
theorem Safe.of_led {w : World ι E} (valid : w.Valid quorums) {R : ι} {u : Nat} {b L : List E}
    (started : w.base u = some b) (holds : b <+: L) (held : L <+: w.led u)
    (voted : w.votes R u ≤ L.length) (silent : ∀ x, u < x → w.votes R x = 0) :
    w.Safe quorums R u L where
  started := by simp [started]
  complete := (valid.complete u b started).longer holds
  covers k within := .inl (matches_longer held (by omega))
  silent := silent

/-! ## Choosing a log -/

/-- Whether `(u', L')` ranks at least as high as `(u, L)`: by the last normal
view, then by the length of the log. -/
def RankLe (u : Nat) (L : List E) (u' : Nat) (L' : List E) : Prop :=
  u < u' ∨ (u = u' ∧ L.length ≤ L'.length)

/-- A view may start from the highest ranking log a quorum reports. -/
theorem complete_of_reports {w : World ι E} (valid : w.Valid quorums) {v : Nat} {Q : Finset ι}
    (isQuorum : quorums.IsQuorum Q) {lastView : ι → Nat} {log : ι → List E}
    (reported : ∀ R ∈ Q, w.Reported quorums R v (lastView R) (log R)) {best : ι} (mem : best ∈ Q)
    (highest : ∀ R ∈ Q, RankLe (lastView R) (log R) (lastView best) (log best)) :
    w.Complete quorums (log best) v := by
  intro x before k
  have gone : ∀ R ∈ Q, x < w.view R := fun R memR => before.trans_le (reported R memR).moved
  rcases Nat.lt_trichotomy x (lastView best) with earlier | rfl | later
  · exact (reported best mem).complete x earlier k
  · by_cases inside : k < (log best).length
    · exact (reported best mem).covers k (by omega)
    · by_cases blocked : w.Blocked quorums (lastView best) k
      · exact .inr blocked
      · -- Whoever voted for more would report a longer log.
        refine .inr ⟨Q, isQuorum, fun R memR => ⟨gone R memR, ?_⟩⟩
        rcases highest R memR with lower | ⟨same, shorter⟩
        · rw [(reported R memR).silent _ lower before]
          omega
        · by_contra more
          have covers := (reported R memR).covers k (by rw [same]; omega)
          rw [same] at covers
          rcases covers with ⟨_, agree⟩ | isBlocked
          · have := congrArg List.length agree
            have held := valid.votes_le R (lastView best)
            simp only [List.length_take] at this
            omega
          · exact blocked isBlocked
  · refine .inr ⟨Q, isQuorum, fun R memR => ⟨gone R memR, ?_⟩⟩
    have last : lastView R < x := by
      rcases highest R memR with lower | ⟨same, _⟩ <;> omega
    rw [(reported R memR).silent x last before]
    omega

end Consensus.World
