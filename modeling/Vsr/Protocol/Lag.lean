import Vsr.Protocol.Trails

/-!
# How far a disk may lag behind

A replica executes only what its handed-back writes hold as memory does.  So
while nothing of a later view has been sent, the ops it executes were known
committed in the view its disk is in.
-/

set_option autoImplicit false

namespace Vsr

open Consensus (World)

variable {Op Query Chunk : Type}

/-! ## A replica as it stands -/

/-- There is a world in which `s` is what `R` is now; if it is recovering, what was
decided when that began is what it was in that world. -/
def Live (config : Config) (sent : Nat → Set (Nat × Message Op Query Chunk)) (g : Ghost Op) (R : Nat)
    (s : Speaker Op Query Chunk) : Prop :=
  ∃ w began, w.decided = g.decided ∧ w.marks = g.marks ∧ w.Valid config.quorums ∧
    (∀ envelope ∈ netOf config sent, MessageOk config w (netOf config sent) began envelope) ∧
    (s.peer.status = .recovering → (g.floor R).2 ⊆ (began R s.peer.recoveryNonce).marks) ∧
    SpeakerOk config w began (netOf config sent) R s

/-- How a step of `R` takes it and the ghost on. -/
structure Ghost.Follows (config : Config) (R : Nat) (g g' : Ghost Op) (p p' : Peer Op) : Prop where
  le : g.Le g'
  floor : g'.floor = g.floor
  marked : Marked p p' g g'
  earlier : Earlier config R p.toStanding p'.toStanding

section Trails
variable {config : Config} {sent : Nat → Set (Nat × Message Op Query Chunk)}
  {trails : Nat → Trail Op Query Chunk} {g : Ghost Op}

theorem TrailsOk.live_head (ok : TrailsOk config sent trails g) {R : Nat}
    (inside : R < config.replicas.length) {s : Speaker Op Query Chunk} {older : Trail Op Query Chunk}
    (here : trails R = s :: older) : Live config sent g R s := by
  have nonempty : Nonempty (Speaker Op Query Chunk) := ⟨s⟩
  obtain ⟨system, olders, choice, isTrail⟩ := ok.newest
  have isHead : system R = s := (List.cons.inj ((isTrail R inside).symm.trans here)).1
  obtain ⟨w, began, isDecided, isMarks, isOk, _, floor, _⟩ := ok.worlds system olders choice
  have below := floor R inside
  rw [isHead] at below
  exact ⟨w, began, isDecided, isMarks, isOk.valid, fun _ isSent => isOk.message isSent,
    fun recovering => (below recovering).2, isHead ▸ isOk.speakers R inside⟩

/-- The states of a trail are in order. -/
theorem TrailsOk.earlier_head (ok : TrailsOk config sent trails g) {R : Nat}
    (inside : R < config.replicas.length) {s s' : Speaker Op Query Chunk}
    {older rest : Trail Op Query Chunk} (here : trails R = s' :: older)
    (isSuffix : (s :: rest) <:+ trails R) :
    Earlier config R s.peer.toStanding s'.peer.toStanding := by
  have pairwise := ok.earlier R inside
  rw [here] at pairwise isSuffix
  rcases List.suffix_cons_iff.mp isSuffix with same | isSuffix
  · rw [(List.cons.inj same).1]
    exact .same rfl rfl rfl le_rfl
  · exact (List.pairwise_cons.mp pairwise).1 s (isSuffix.subset List.mem_cons_self)

/-- What every step keeps, several steps keep. -/
theorem TrailsOk.steps_keep (ok : TrailsOk config sent trails g) {R : Nat}
    (inside : R < config.replicas.length) {s s' : Speaker Op Query Chunk}
    {older : Trail Op Query Chunk} (here : trails R = s :: older) {offered : LogEntry Op → Prop} {holds : Nat → Nat → Prop}
    (steps : Steps (hears (netOf config sent) R offered holds) s s')
    {P : Ghost Op → Speaker Op Query Chunk → Prop} (first : P g s)
    (keep : ∀ {g₁ g₂ : Ghost Op} {s₁ s₂ : Speaker Op Query Chunk},
      g₁.Follows config R g₂ s₁.peer s₂.peer →
      Live config sent g₁ R s₁ → Live config sent g₂ R s₂ →
      Step (hears (netOf config sent) R offered holds) s₁ s₂ → P g₁ s₁ → P g₂ s₂) :
    ∃ g' older', g.Le g' ∧ g'.floor = g.floor ∧ g'.Also = g.Also ∧
      (s :: older) <:+ (s' :: older') ∧ P g' s' ∧
      TrailsOk config sent (Function.update trails R (s' :: older')) g' := by
  induction steps with
  | refl =>
      refine ⟨g, older, .refl g, rfl, rfl, List.suffix_rfl, first, ?_⟩
      rw [← here, Function.update_eq_self]
      exact ok
  | @tail s₁ s₂ _ step ih =>
      obtain ⟨g₁, older₁, le₁, floor₁, also₁, isSuffix, holds₁, ok₁⟩ := ih
      have before := ok₁.live_head inside (Function.update_self ..)
      obtain ⟨g₂, le₂, floor₂, also₂, marked, ok₂⟩ :=
        ok₁.step inside (Function.update_self ..) step
      rw [Function.update_idem] at ok₂
      have after := ok₂.live_head inside (Function.update_self ..)
      have isTrail : Function.update trails R (s₂ :: s₁ :: older₁) R = s₂ :: s₁ :: older₁ :=
        Function.update_self ..
      have onTrail : (s₁ :: older₁) <:+ Function.update trails R (s₂ :: s₁ :: older₁) R := by
        rw [isTrail]
        exact List.suffix_cons _ _
      have earlier := ok₂.earlier_head inside isTrail onTrail
      exact ⟨g₂, _, le₁.trans le₂, floor₂.trans floor₁, also₂.trans also₁,
        isSuffix.trans (List.suffix_cons _ _),
        keep ⟨le₂, floor₂, marked, earlier⟩ before after step holds₁, ok₂⟩

end Trails

/-! ## What has changed since the last write -/

/-- The entry at `opNumber` is as it was at the last write. -/
def Peer.Unchanged (p : Peer Op) (opNumber : Nat) : Prop :=
  ∀ changed, p.logChangedFrom = some changed → opNumber < changed

/-- What the writes handed back hold as memory does has not changed. -/
theorem Peer.unchanged_durable {p : Peer Op} {durable opNumber : Nat}
    (isDurable : p.durableOp = some durable) (within : opNumber ≤ durable) :
    opNumber ≤ p.durable ∧ p.Unchanged opNumber := by
  unfold WriteState.durableOp at isDurable
  cases isChanged : p.logChangedFrom with
  | none =>
      rw [isChanged] at isDurable
      cases isDurable
      exact ⟨within, fun changed at_ => by cases isChanged.symm.trans at_⟩
  | some first =>
      rw [isChanged] at isDurable
      obtain ⟨before, sub, isMin⟩ := Option.bind_eq_some_iff.mp isDurable
      obtain ⟨pos, rfl⟩ := checkedSub_eq_some.mp sub
      cases isMin
      refine ⟨by omega, fun changed at_ => ?_⟩
      cases isChanged.symm.trans at_
      omega

theorem Peer.Executes.unchanged {p : Peer Op} {commitNumber applied : Nat}
    (executes : p.Executes commitNumber applied) :
    applied = p.applied ∨ (applied ≤ max p.commitNumber commitNumber ∧ applied ≤ p.durable ∧
      p.Unchanged applied) := by
  rcases executes with same | ⟨durable, isDurable, _, committed, within, _⟩
  · exact .inl same
  · exact .inr ⟨committed, Peer.unchanged_durable isDurable within⟩

/-- A mark takes nothing back. -/
theorem unchanged_mark {p p' : Peer Op} {first : Nat}
    (marked : p'.toWriteState = p.toWriteState.markLogChanged first) {opNumber : Nat}
    (unchanged : p'.Unchanged opNumber) : p.Unchanged opNumber ∧ opNumber < first := by
  have isMarked : p'.logChangedFrom = (p.toWriteState.markLogChanged first).logChangedFrom := by
    rw [marked]
  cases before : p.logChangedFrom with
  | none =>
      have := unchanged first (by rw [isMarked]; simp [WriteState.markLogChanged, before])
      exact ⟨fun changed at_ => (by cases before.symm.trans at_), this⟩
  | some earlier =>
      have := unchanged (min earlier first) (by
        rw [isMarked]
        simp [WriteState.markLogChanged, before])
      refine ⟨fun changed at_ => ?_, by omega⟩
      cases before.symm.trans at_
      omega

/-! ## Lagging -/

/-- Of the entries a write may hold as memory does, nothing beyond what was known
committed in view `v` is committed or executed. -/
structure Lag (g : Ghost Op) (v : Nat) (Within : Nat → Prop) (p : Peer Op) : Prop where
  applied : g.Known v p.applied
  committed : ∀ m, Within m → m ≤ p.commitNumber → p.Unchanged m → g.Known v m
  beyond : p.inView → v < p.viewNumber → ∀ m, Within m → p.Unchanged m → g.Known v m

section Lag
variable {g g' : Ghost Op} {v : Nat} {Within : Nat → Prop} {p p' : Peer Op}

theorem Lag.mono (le : g.Le g') (lag : Lag g v Within p) : Lag g' v Within p where
  applied := lag.applied.mono le
  committed m within committed unchanged := (lag.committed m within committed unchanged).mono le
  beyond inView later m within unchanged := (lag.beyond inView later m within unchanged).mono le

/-- Nothing is committed. -/
theorem Lag.stay (lag : Lag g v Within p) (commit : p'.commitNumber = p.commitNumber)
    (changed : ∀ m, p'.Unchanged m → p.Unchanged m) (applied : p'.applied = p.applied)
    (stays : p'.inView → p.inView ∧ p'.viewNumber = p.viewNumber) : Lag g v Within p' where
  applied := applied ▸ lag.applied
  committed m within committed unchanged :=
    lag.committed m within (commit ▸ committed) (changed m unchanged)
  beyond inView later m within unchanged :=
    lag.beyond (stays inView).1 ((stays inView).2 ▸ later) m within (changed m unchanged)

/-- More is committed in a later view, but nothing a write holds as memory does
has changed. -/
theorem Lag.raise (lag : Lag g v Within p) (inView : p.inView) (later : v < p.viewNumber)
    (changed : ∀ m, p'.Unchanged m → p.Unchanged m)
    (applied : p'.applied = p.applied ∨ (Within p'.applied ∧ p'.Unchanged p'.applied)) :
    Lag g v Within p' where
  applied := by
    rcases applied with same | ⟨within, unchanged⟩
    · exact same ▸ lag.applied
    · exact lag.beyond inView later _ within (changed _ unchanged)
  committed m within _ unchanged := lag.beyond inView later m within (changed m unchanged)
  beyond _ _ m within unchanged := lag.beyond inView later m within (changed m unchanged)

/-- A log is taken over from the commit number on. -/
theorem Lag.enter (lag : Lag g v Within p)
    (changed : ∀ m, p'.Unchanged m → p.Unchanged m ∧ m ≤ p.commitNumber)
    (applied : p'.applied = p.applied ∨ (Within p'.applied ∧ p'.Unchanged p'.applied)) :
    Lag g v Within p' where
  applied := by
    rcases applied with same | ⟨within, unchanged⟩
    · exact same ▸ lag.applied
    · exact lag.committed _ within (changed _ unchanged).2 (changed _ unchanged).1
  committed m within _ unchanged :=
    lag.committed m within (changed m unchanged).2 (changed m unchanged).1
  beyond _ _ m within unchanged :=
    lag.committed m within (changed m unchanged).2 (changed m unchanged).1

variable {config : Config} {sent : Nat → Set (Nat × Message Op Query Chunk)} {R : Nat}
  {said : Set (Nat × Message Op Query Chunk)} {offered : LogEntry Op → Prop} {holds : Nat → Nat → Prop}

/-- In the view of the disk there is no lag. -/
theorem Live.lag (live : Live config sent g R ⟨p, said⟩) (awake : p.status ≠ .recovering) :
    Lag g p.viewNumber Within p := by
  obtain ⟨w, began, _, isMarks, _, _, _, speaker⟩ := live
  have known : g.Known p.viewNumber p.commitNumber :=
    (Ghost.known_iff isMarks).mp (speaker.log.known awake)
  exact ⟨known.of_le le_rfl speaker.log.applied, fun m _ committed _ => known.of_le le_rfl committed,
    fun _ later => absurd later (lt_irrefl _)⟩

/-- An act keeps the lag, unless the log of a later view has been asked for. -/
theorem Lag.act (lag : Lag g v Within p) (le : g.Le g') (live : Live config sent g R ⟨p, said⟩)
    (live' : Live config sent g' R ⟨p', said⟩) (awake : p.status ≠ .recovering)
    (reached : v ≤ p.viewNumber) (within : ∀ m ≤ p.durable, Within m)
    (unasked : ∀ receiver u opNumber,
      (receiver, .getState R u opNumber) ∈ netOf config sent → u ≤ v)
    (act : Act (hears (netOf config sent) R offered holds) p p') : Lag g' v Within p' := by
  have awake' : p'.status ≠ .recovering := fun recovering => awake (act.asleep recovering).1
  obtain ⟨w, began, isDecided, isMarks, valid, messages, _, speaker⟩ := id live
  have views : p.viewNumber ≤ p'.viewNumber := act.views fun u state answered status => by
    refine (speaker.answered_ok messages ?_ answered).1
    rcases status with recovering | ⟨f, isFetch, resume⟩
    · exact recovering
    · exact (speaker.fetch.recovery f u state isFetch resume).1
  rcases (reached.trans views).eq_or_lt with here | later
  · rw [here]
    exact live'.lag awake'
  replace lag := lag.mono le
  have executed : ∀ {q : Peer Op} {commitNumber applied : Nat}, q.Executes commitNumber applied →
      q.durable = p.durable →
      applied = q.applied ∨ (Within applied ∧ q.Unchanged applied) := by
    intro q commitNumber applied executes same
    refine executes.unchanged.imp id fun ⟨_, durable, unchanged⟩ =>
      ⟨within _ (same ▸ durable), unchanged⟩
  -- No checkpoint was restored in a view later than `v`.
  have notFetched : ∀ {q : Peer Op} {segment : LogSegment Op} {commitNumber : Nat},
      p.AtCheckpoint q (.newState p.viewNumber segment commitNumber) → v < p.viewNumber → q = p := by
    rintro q segment commitNumber (same | ⟨_, _, f, isFetch, resume⟩) later
    · exact same
    · obtain ⟨_, _, ⟨_, receiver, opNumber, asked⟩, _⟩ :=
        speaker.fetch.newState f _ segment commitNumber isFetch resume
      exact absurd (unasked receiver _ opNumber asked) (Nat.not_le.mpr later)
  have merged : ∀ {q : Peer Op} {start : Nat}, start ≤ p.commitNumber →
      q.toWriteState = p.toWriteState.markLogChanged (p.keepUpTo start + 1) →
      ∀ m, q.Unchanged m → p.Unchanged m ∧ m ≤ p.commitNumber := by
    intro q start reach marked m unchanged
    obtain ⟨before, less⟩ := unchanged_mark marked unchanged
    have : p.keepUpTo start = p.commitNumber := max_eq_right reach
    exact ⟨before, by omega⟩
  cases act with
  | leave u status later => exact lag.stay rfl (fun _ => id) rfl (by rintro (h | h) <;> cases h)
  | catchUp u status later started =>
      exact lag.stay rfl (fun _ => id) rfl (by rintro (h | h) <;> cases h)
  | fallBehind status backup => exact lag.stay rfl (fun _ => id) rfl fun _ => ⟨.inl status, rfl⟩
  | prepare entry | accept entry =>
      exact lag.stay rfl (fun _ unchanged => (unchanged_mark rfl unchanged).1) rfl
        fun inView => ⟨inView, rfl⟩
  | commit commitNumber applied status backup told held executes =>
      exact lag.raise (.inl status) later (fun _ => id) (executed executes rfl)
  | decide commitNumber applied status primary quorum executes =>
      exact lag.raise (.inl status) later (fun _ => id) (executed executes rfl)
  | execute applied executes =>
      refine ⟨?_, lag.committed, lag.beyond⟩
      rcases executes.unchanged with same | ⟨committed, durable, unchanged⟩
      · exact same ▸ lag.applied
      · exact lag.committed _ (within _ durable) (by simpa using committed) unchanged
  | begin bestId best commitNumber applied status primary quorum isBest reach mergeable reported
      executes =>
      exact lag.enter (merged reach rfl) (executed executes rfl)
  | follow u segment told commitNumber applied status later heard reach mergeable isTold executes =>
      exact lag.enter (merged reach rfl) (executed executes rfl)
  | join segment commitNumber applied status asked follower isSent fetched reach mergeable executes =>
      have same := notFetched fetched (by
        rcases fetched with rfl | ⟨_, rfl, _⟩ <;> exact later)
      subst same
      exact lag.enter (merged reach rfl) (executed executes rfl)
  | adopt segment commitNumber status asked primary isSent fetched reach mergeable =>
      have same := notFetched fetched (by
        rcases fetched with rfl | ⟨_, rfl, _⟩ <;> exact later)
      subst same
      exact lag.enter (merged reach rfl) (.inl rfl)
  | extend segment commitNumber applied status isSent fetched reach further mergeable executes =>
      have isLater : v < p.viewNumber := by
        rcases fetched with rfl | ⟨_, rfl, _⟩ <;> exact later
      have same := notFetched fetched isLater
      subst same
      exact lag.raise (.inr status) isLater
        (fun m unchanged => (unchanged_mark rfl unchanged).1) (executed executes rfl)
  | strand u segment commitNumber resumes left =>
      obtain ⟨f, isFetch, resume⟩ := resumes
      exact absurd (speaker.fetch.newState f u segment commitNumber isFetch resume).1 left
  | comeBack u segment commitNumber applied status =>
      rcases status with recovering | ⟨f, isFetch, resume⟩
      · exact absurd recovering awake
      · exact absurd (speaker.fetch.recovery f u _ isFetch resume).1 awake
  | _ => exact lag.stay rfl (fun _ => id) rfl fun inView => ⟨inView, rfl⟩

end Lag

end Vsr
