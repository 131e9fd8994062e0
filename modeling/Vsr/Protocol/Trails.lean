import Vsr.Protocol.Reborn
import Mathlib.Data.List.Infix

/-!
# Taking replicas back

A crash takes a replica back to an earlier state, but only behind steps of which
nothing has been sent.  So the invariant is stated for every choice, for each
replica, of a state of its trail by which it had said everything it has sent:
each such cluster has a world, and all of them have decided the same.
-/

set_option autoImplicit false

namespace Vsr

open Consensus (World QuorumSystem)
open Std (ExtTreeMap)

variable {Op Query Chunk : Type}

/-- What a replica was at the steps it has taken, newest first. -/
abbrev Trail (Op Query Chunk : Type) := List (Speaker Op Query Chunk)

/-- `s` may come before `s'` on the trail of `R`. -/
structure Earlier (config : Config) (R : Nat) (s s' : Standing Op) : Prop where
  views : s.viewNumber ≤ s'.viewNumber
  asleep : s.status = .recovering → s'.viewNumber = s.viewNumber →
    s'.status = .recovering ∨ R ≠ config.primaryId s.viewNumber
  awake : s'.status = .recovering → s.status = .recovering
  /-- In a view that has started, the log grows. -/
  grows : s.status ≠ .recovering → s.lastNormalView = s.viewNumber →
    s'.viewNumber = s.viewNumber →
    s'.lastNormalView = s'.viewNumber ∧ s.opNumber ≤ s'.opNumber

/-- What a replica was stays true of the world: it held logs of the views it was
in, had voted for them, and still covers whatever it had voted for. -/
def HistoryOk (config : Config) (w : LogWorld Op) (R : Nat) : Trail Op Query Chunk → Prop
  | [] => True
  | s :: older =>
      (s.peer.inView → HeldIn w s.peer.viewNumber (s.peer.whole w.decided) ∧
        (s.peer.whole w.decided).length ≤ w.votes R s.peer.viewNumber) ∧
      s.peer.logStart ≤ w.decided.length ∧
      (s.peer.status ≠ .recovering → ∀ before ∈ s :: older, before.peer.inView →
        ∀ k < (before.peer.whole w.decided).length,
          w.Covers config.quorums (s.peer.whole w.decided) before.peer.viewNumber k) ∧
      HistoryOk config w R older

section History
variable {config : Config} {w w' : LogWorld Op} {R : Nat}

theorem HistoryOk.logStart_le {trail : Trail Op Query Chunk} (ok : HistoryOk config w R trail) :
    ∀ s ∈ trail, s.peer.logStart ≤ w.decided.length := by
  induction trail with
  | nil => simp
  | cons first older ih =>
      obtain ⟨_, short, _, rest⟩ := ok
      intro s mem
      rcases List.mem_cons.mp mem with rfl | mem
      · exact short
      · exact ih rest s mem

theorem HistoryOk.mono (later : w.Le w') {trail : Trail Op Query Chunk}
    (ok : HistoryOk config w R trail) : HistoryOk config w' R trail := by
  induction trail with
  | nil => trivial
  | cons first older ih =>
      have short := ok.logStart_le
      obtain ⟨held, within, covers, rest⟩ := ok
      have same : first.peer.whole w'.decided = first.peer.whole w.decided :=
        Standing.whole_later later within
      refine ⟨fun inView => ?_, within.trans later.length_decided, fun awake before mem inView k => ?_,
        ih rest⟩
      · rw [same]
        exact ⟨(held inView).1.mono later, (held inView).2.trans (later.votes _ _)⟩
      · rw [same, Standing.whole_later later (short before mem)]
        exact fun inside => (covers awake before mem inView k inside).mono later

theorem HistoryOk.held {trail : Trail Op Query Chunk} (ok : HistoryOk config w R trail) :
    ∀ s ∈ trail, s.peer.inView → HeldIn w s.peer.viewNumber (s.peer.whole w.decided) ∧
      (s.peer.whole w.decided).length ≤ w.votes R s.peer.viewNumber := by
  induction trail with
  | nil => simp
  | cons first older ih =>
      obtain ⟨held, _, _, rest⟩ := ok
      intro s mem
      rcases List.mem_cons.mp mem with rfl | mem
      · exact held
      · exact ih rest s mem

theorem HistoryOk.suffix {trail older : Trail Op Query Chunk} (isSuffix : older <:+ trail)
    (ok : HistoryOk config w R trail) : HistoryOk config w R older := by
  induction trail with
  | nil =>
      rw [List.suffix_nil.mp isSuffix]
      trivial
  | cons first rest ih =>
      rcases List.suffix_cons_iff.mp isSuffix with rfl | isSuffix
      · exact ok
      · exact ih isSuffix ok.2.2.2

/-- A peer covers whatever it has voted for. -/
theorem SpeakerOk.covers {began : Nat → Nat → LogWorld Op}
    {net : Set (Nat × Message Op Query Chunk)} {s : Speaker Op Query Chunk}
    (speaker : SpeakerOk config w began net R s) (awake : s.peer.status ≠ .recovering) {y k : Nat}
    (voted : k < w.votes R y) : w.Covers config.quorums (s.peer.whole w.decided) y k := by
  have safe := speaker.view.safe awake
  rcases Nat.lt_trichotomy y s.peer.lastNormalView with before | rfl | after
  · exact safe.complete y before k
  · exact safe.covers k (by omega)
  · rw [safe.silent y after] at voted
    omega

/-- The newest state of a trail. -/
theorem HistoryOk.cons {began : Nat → Nat → LogWorld Op}
    {net : Set (Nat × Message Op Query Chunk)} {s : Speaker Op Query Chunk}
    {older : Trail Op Query Chunk} (speaker : SpeakerOk config w began net R s)
    (ok : HistoryOk config w R older) : HistoryOk config w R (s :: older) := by
  have held : s.peer.inView → HeldIn w s.peer.viewNumber (s.peer.whole w.decided) ∧
      (s.peer.whole w.decided).length ≤ w.votes R s.peer.viewNumber :=
    fun inView => ⟨(speaker.view.member inView).1, (speaker.view.member inView).2.ge⟩
  refine ⟨held, speaker.log.start_le, fun awake before mem inView k inside => ?_, ok⟩
  refine speaker.covers awake (inside.trans_le ?_)
  rcases List.mem_cons.mp mem with rfl | mem
  · exact (held inView).2
  · exact (ok.held before mem inView).2

end History

/-! ## The invariant over all choices -/

/-- Everything that was sent. -/
def netOf (config : Config) (sent : Nat → Set (Nat × Message Op Query Chunk)) :
    Set (Nat × Message Op Query Chunk) :=
  { envelope | ∃ R < config.replicas.length, envelope ∈ sent R }

/-- A choice of a state to take each replica back to, with the trail before it: by
then the replica had said all it has sent. -/
structure Choice (config : Config) (sent : Nat → Set (Nat × Message Op Query Chunk))
    (trails : Nat → Trail Op Query Chunk) (system : Nat → Speaker Op Query Chunk)
    (older : Nat → Trail Op Query Chunk) : Prop where
  onTrail : ∀ R < config.replicas.length, (system R :: older R) <:+ trails R
  said : ∀ R < config.replicas.length, ∀ envelope ∈ sent R, envelope.2.stamp ≠ none →
    envelope ∈ (system R).said

/-- What the invariant is relative to: what is decided, in which views, how much
of that was decided when each replica began to recover, and something else that
holds of the world and of every later one. -/
structure Ghost (Op : Type) where
  decided : List (LogEntry Op)
  marks : Set (Nat × Nat)
  floor : Nat → List (LogEntry Op) × Set (Nat × Nat)
  Also : LogWorld Op → Prop
  mono : ∀ {w w' : LogWorld Op}, w.Le w' → Also w → Also w'

/-- More is decided. -/
structure Ghost.Le (g g' : Ghost Op) : Prop where
  decided : g.decided <+: g'.decided
  marks : g.marks ⊆ g'.marks

theorem Ghost.Le.refl (g : Ghost Op) : g.Le g := ⟨List.prefix_rfl, fun _ mem => mem⟩

theorem Ghost.Le.trans {g g' g'' : Ghost Op} (first : g.Le g') (second : g'.Le g'') : g.Le g'' :=
  ⟨first.decided.trans second.decided, fun _ mem => second.marks (first.marks mem)⟩

/-- There is a world for the chosen states. -/
def HasWorld (config : Config) (sent : Nat → Set (Nat × Message Op Query Chunk)) (g : Ghost Op)
    (system : Nat → Speaker Op Query Chunk) (older : Nat → Trail Op Query Chunk) : Prop :=
  ∃ w began, w.decided = g.decided ∧ w.marks = g.marks ∧
    SystemOk config w began (netOf config sent) system ∧
    (∀ R < config.replicas.length, HistoryOk config w R (system R :: older R)) ∧
    (∀ R < config.replicas.length, (system R).peer.status = .recovering →
      (g.floor R).1 <+: (began R (system R).peer.recoveryNonce).decided ∧
        (g.floor R).2 ⊆ (began R (system R).peer.recoveryNonce).marks) ∧
    g.Also w

/-- A step says one thing at most, which is true of the state it leads to. -/
def Follows (s s' : Speaker Op Query Chunk) : Prop :=
  s'.said = s.said ∨ ∃ i envelope, s'.said = insert envelope s.said ∧ Says i s'.peer envelope

/-- A trail goes back to a state in which everything said was sent. -/
def Rooted (sent : Set (Nat × Message Op Query Chunk)) : Trail Op Query Chunk → Prop
  | [] => True
  | [s] => (∀ envelope ∈ s.said, envelope.2.stamp ≠ none → envelope ∈ sent) ∧
      (s.peer.status ≠ .recovering → s.peer.viewNumber = 0)
  | s' :: s :: older => Follows s s' ∧ Rooted sent (s :: older)

theorem Follows.subset {s s' : Speaker Op Query Chunk} (follows : Follows s s') :
    s.said ⊆ s'.said := by
  rcases follows with same | ⟨_, envelope, same, _⟩
  · exact same.ge
  · rw [same]
    exact Set.subset_insert _ _

theorem Rooted.mono {sent sent' : Set (Nat × Message Op Query Chunk)} (more : sent ⊆ sent')
    {trail : Trail Op Query Chunk} (rooted : Rooted sent trail) : Rooted sent' trail := by
  induction trail with
  | nil => trivial
  | cons s older ih =>
      cases older with
      | nil => exact ⟨fun envelope mem stamped => more (rooted.1 envelope mem stamped), rooted.2⟩
      | cons before rest => exact ⟨rooted.1, ih rooted.2⟩

theorem Rooted.suffix {sent : Set (Nat × Message Op Query Chunk)}
    {trail older : Trail Op Query Chunk} (isSuffix : older <:+ trail) (rooted : Rooted sent trail) :
    Rooted sent older := by
  induction trail with
  | nil =>
      rw [List.suffix_nil.mp isSuffix]
      trivial
  | cons s rest ih =>
      rcases List.suffix_cons_iff.mp isSuffix with rfl | isSuffix
      · exact rooted
      · cases rest with
        | nil =>
            rw [List.suffix_nil.mp isSuffix]
            trivial
        | cons before rest => exact ih isSuffix rooted.2

theorem Says.stamp {i : Inputs Op Query Chunk} {p : Peer Op}
    {envelope : Nat × Message Op Query Chunk} (truthful : Says i p envelope) {v : Nat}
    (isStamp : envelope.2.stamp = some v) : v = p.viewNumber := by
  obtain ⟨receiver, message⟩ := envelope
  cases message with
  | register | request | query => exact truthful.elim
  | getChunk | newChunk => cases isStamp
  | confirmView | confirmViewOk | prepare | prepareOk | commit | getState | newState
  | startViewChange | doViewChange | startView | recovery | recoveryResponse =>
      cases isStamp
      simp only [Says] at truthful
      tauto

/-- Where a trail first had said all that was sent, the last thing it said was
sent, or nothing was said that was not. -/
theorem Rooted.first {sent : Set (Nat × Message Op Query Chunk)} {s : Speaker Op Query Chunk}
    {older : Trail Op Query Chunk} (rooted : Rooted sent (s :: older))
    (said : ∀ envelope ∈ sent, envelope.2.stamp ≠ none → envelope ∈ s.said) :
    ∃ s₀ older₀, (s₀ :: older₀) <:+ (s :: older) ∧
      (∀ envelope ∈ sent, envelope.2.stamp ≠ none → envelope ∈ s₀.said) ∧
      (((∀ envelope ∈ s₀.said, envelope.2.stamp ≠ none → envelope ∈ sent) ∧
        (s₀.peer.status ≠ .recovering → s₀.peer.viewNumber = 0)) ∨
        ∃ envelope ∈ sent, envelope.2.stamp = some s₀.peer.viewNumber) := by
  induction older generalizing s with
  | nil => exact ⟨s, [], List.suffix_rfl, said, .inl rooted⟩
  | cons before rest ih =>
      by_cases all : ∀ envelope ∈ sent, envelope.2.stamp ≠ none → envelope ∈ before.said
      · obtain ⟨s₀, older₀, isSuffix, found⟩ := ih rooted.2 all
        exact ⟨s₀, older₀, isSuffix.trans (List.suffix_cons _ _), found⟩
      · push Not at all
        obtain ⟨envelope, isSent, stamped, unsaid⟩ := all
        refine ⟨s, before :: rest, List.suffix_rfl, said, .inr ⟨envelope, isSent, ?_⟩⟩
        obtain ⟨v, isStamp⟩ := Option.ne_none_iff_exists'.mp stamped
        have mem := said envelope isSent stamped
        rcases rooted.1 with same | ⟨i, new, same, truthful⟩
        · rw [same] at mem
          exact absurd mem unsaid
        · rw [same] at mem
          rcases mem with rfl | mem
          · rw [isStamp, truthful.stamp isStamp]
          · exact absurd mem unsaid

/-- What was said on a trail was sent before it, or true when it was said. -/
theorem Rooted.truth {sent : Set (Nat × Message Op Query Chunk)} {s : Speaker Op Query Chunk}
    {older : Trail Op Query Chunk} (rooted : Rooted sent (s :: older))
    {envelope : Nat × Message Op Query Chunk} (mem : envelope ∈ s.said) :
    (∃ first, [first] <:+ (s :: older) ∧ envelope ∈ first.said) ∨
      ∃ before ∈ s :: older, ∃ i, Says i before.peer envelope := by
  induction older generalizing s with
  | nil => exact .inl ⟨s, List.suffix_rfl, mem⟩
  | cons before rest ih =>
      have earlier : envelope ∈ before.said → (∃ first, [first] <:+ (s :: before :: rest) ∧
          envelope ∈ first.said) ∨ ∃ at_ ∈ s :: before :: rest, ∃ i, Says i at_.peer envelope := by
        intro mem
        rcases ih rooted.2 mem with ⟨first, isSuffix, mem⟩ | ⟨at_, onTrail, truthful⟩
        · exact .inl ⟨first, isSuffix.trans (List.suffix_cons _ _), mem⟩
        · exact .inr ⟨at_, List.mem_cons_of_mem _ onTrail, truthful⟩
      rcases rooted.1 with same | ⟨i, new, same, truthful⟩
      · exact earlier (same ▸ mem)
      · rw [same] at mem
        rcases mem with rfl | mem
        · exact .inr ⟨s, List.mem_cons_self, i, truthful⟩
        · exact earlier mem

/-- What holds of the trails of a cluster. -/
structure TrailsOk (config : Config) (sent : Nat → Set (Nat × Message Op Query Chunk))
    (trails : Nat → Trail Op Query Chunk) (g : Ghost Op) : Prop where
  live : ∀ R < config.replicas.length, ∃ s older, trails R = s :: older ∧
    ∀ envelope ∈ sent R, envelope.2.stamp ≠ none → envelope ∈ s.said
  earlier : ∀ R < config.replicas.length,
    (trails R).Pairwise fun newer older => Earlier config R older.peer.toStanding newer.peer.toStanding
  rooted : ∀ R < config.replicas.length, Rooted (sent R) (trails R)
  worlds : ∀ system older, Choice config sent trails system older →
    HasWorld config sent g system older

theorem Earlier.trans {config : Config} {R : Nat} {s s' s'' : Standing Op}
    (first : Earlier config R s s') (second : Earlier config R s' s'') : Earlier config R s s'' := by
  have between : s''.viewNumber = s.viewNumber → s'.viewNumber = s.viewNumber := by
    have := first.views
    have := second.views
    omega
  refine ⟨first.views.trans second.views, fun recovering same => ?_,
    fun recovering => first.awake (second.awake recovering), fun awake started same => ?_⟩
  · rcases first.asleep recovering (between same) with still | backup
    · rw [← between same]
      exact second.asleep still (same.trans (between same).symm)
    · exact .inr backup
  · obtain ⟨started', more⟩ := first.grows awake started (between same)
    obtain ⟨started'', further⟩ := second.grows (fun recovering => awake (first.awake recovering))
      started' (same.trans (between same).symm)
    exact ⟨started'', more.trans further⟩

/-- Nothing but what is said changes, or what does not bear on the log. -/
theorem Earlier.same {config : Config} {R : Nat} {s s' : Standing Op} (status : s'.status = s.status)
    (view : s'.viewNumber = s.viewNumber) (normal : s'.lastNormalView = s.lastNormalView)
    (more : s.opNumber ≤ s'.opNumber) : Earlier config R s s' where
  views := view.ge
  asleep recovering _ := .inl (status.trans recovering)
  awake recovering := status.symm.trans recovering
  grows _ started _ := ⟨normal.trans (started.trans view.symm), more⟩

theorem Act.views {i : Inputs Op Query Chunk} {p p' : Peer Op} (act : Act i p p')
    (answered : ∀ v state, p.Answered v state → p.status = .recovering ∨
      p.Resumes (.recoveryResponse v state) → p.viewNumber ≤ v) :
    p.viewNumber ≤ p'.viewNumber := by
  have restored : ∀ {q : Peer Op} {resume : Resume Op}, p.AtCheckpoint q resume →
      q.viewNumber = p.viewNumber := by
    rintro q resume (rfl | ⟨_, rfl, _⟩) <;> rfl
  cases act with
  | leave v status later => exact later.le
  | catchUp v status later started =>
      show p.viewNumber ≤ v
      omega
  | follow v segment told commitNumber applied status later =>
      show p.viewNumber ≤ v
      omega
  | join segment commitNumber applied status asked follower sent fetched =>
      exact (restored fetched).ge
  | adopt segment commitNumber status asked primary sent fetched => exact (restored fetched).ge
  | extend segment commitNumber applied status sent fetched => exact (restored fetched).ge
  | comeBack v segment commitNumber applied status isAnswer => exact answered v _ isAnswer status
  | _ => exact le_rfl

/-- No act starts a recovery. -/
theorem Act.asleep {i : Inputs Op Query Chunk} {p p' : Peer Op} (act : Act i p p')
    (recovering : p'.status = .recovering) :
    p.status = .recovering ∧ p'.recoveryNonce = p.recoveryNonce := by
  have restored : ∀ {q : Peer Op} {resume : Resume Op}, p.AtCheckpoint q resume →
      q.status = p.status ∧ q.recoveryNonce = p.recoveryNonce := by
    rintro q resume (rfl | ⟨_, rfl, _⟩) <;> exact ⟨rfl, rfl⟩
  cases act with
  | leave | catchUp | fallBehind | begin | follow | join | extend | comeBack => cases recovering
  | adopt segment commitNumber status asked primary sent fetched =>
      obtain ⟨same, nonce⟩ := restored fetched
      exact ⟨same.symm.trans recovering, nonce⟩
  | _ => exact ⟨recovering, rfl⟩

theorem Act.normal {i : Inputs Op Query Chunk} {p p' : Peer Op} (act : Act i p p') :
    p'.lastNormalView = p.lastNormalView ∨ p'.lastNormalView = p'.viewNumber := by
  have restored : ∀ {q : Peer Op} {resume : Resume Op}, p.AtCheckpoint q resume →
      q.lastNormalView = p.lastNormalView := by
    rintro q resume (rfl | ⟨_, rfl, _⟩) <;> rfl
  cases act with
  | begin | follow | join | comeBack => exact .inr rfl
  | adopt segment commitNumber status asked primary sent fetched =>
      have := restored fetched
      exact .inl this
  | extend segment commitNumber applied status sent fetched =>
      have := restored fetched
      exact .inl this
  | _ => exact .inl rfl

/-- A peer whose last normal view is the one it is in is in it. -/
theorem SpeakerOk.inView {config : Config} {w : LogWorld Op} {began : Nat → Nat → LogWorld Op}
    {net : Set (Nat × Message Op Query Chunk)} {R : Nat} {p : Peer Op}
    {said : Set (Nat × Message Op Query Chunk)} (speaker : SpeakerOk config w began net R ⟨p, said⟩)
    (awake : p.status ≠ .recovering) (started : p.lastNormalView = p.viewNumber) : p.inView := by
  cases status : p.status with
  | normal => exact .inl status
  | stateTransfer => exact .inr status
  | recovering => exact absurd status awake
  | viewChange => exact absurd started (speaker.view.changing status).ne

theorem SpeakerOk.earlier {config : Config} {w w' : LogWorld Op} {began : Nat → Nat → LogWorld Op}
    {net : Set (Nat × Message Op Query Chunk)} {R : Nat} {p p' : Peer Op}
    {said : Set (Nat × Message Op Query Chunk)} {offered : LogEntry Op → Prop} {holds : Nat → Nat → Prop}
    (speaker : SpeakerOk config w began net R ⟨p, said⟩)
    (messages : ∀ envelope ∈ net, MessageOk config w net began envelope)
    (act : Act (hears net R offered holds) p p') (later : w.Le w')
    (speaker' : SpeakerOk config w' began net R ⟨p', said⟩) :
    Earlier config R p.toStanding p'.toStanding := by
  have asleep : ∀ {v state}, p.status = .recovering ∨ p.Resumes (.recoveryResponse v state) →
      p.status = .recovering := by
    rintro v state (recovering | ⟨f, isFetch, resume⟩)
    · exact recovering
    · exact (speaker.fetch.recovery f v state isFetch resume).1
  refine ⟨act.views fun v state answered status =>
    (speaker.answered_ok messages (asleep status) answered).1, fun recovering same => ?_,
    fun recovering => (act.asleep recovering).1, fun awake started same => ?_⟩
  rotate_left
  · have awake' : p'.status ≠ .recovering := fun recovering => awake (act.asleep recovering).1
    have inView := speaker.inView awake started
    have started' : p'.lastNormalView = p'.viewNumber := by
      rcases act.normal with kept | entered
      · exact kept.trans (started.trans same.symm)
      · exact entered
    have member := (speaker.view.member inView).2
    have member' := (speaker'.view.member (speaker'.inView awake' started')).2
    rw [speaker.log.length_whole] at member
    rw [speaker'.log.length_whole] at member'
    refine ⟨started', ?_⟩
    calc p.opNumber = w.votes R p.viewNumber := member.symm
      _ ≤ w'.votes R p.viewNumber := later.votes R p.viewNumber
      _ = p'.opNumber := by rw [← member', same]
  have contra : ∀ {status : Status}, p.status = status → status ≠ .recovering → False :=
    fun isStatus other => other (isStatus.symm.trans recovering)
  cases act with
  | leave v status => exact absurd recovering status
  | catchUp v status => exact absurd recovering status
  | fallBehind status => exact (contra status (by simp)).elim
  | begin bestId best commitNumber applied status => exact absurd recovering status.2
  | follow v segment told commitNumber applied status => exact absurd recovering status
  | join segment commitNumber applied status => exact (contra status (by simp)).elim
  | adopt segment commitNumber status => exact (contra status (by simp)).elim
  | extend segment commitNumber applied status => exact (contra status (by simp)).elim
  | comeBack v segment commitNumber applied status answered =>
      have backup := (speaker.answered_ok messages recovering answered).2.1
      exact .inr (same ▸ backup)
  | _ => exact .inl recovering

/-! ## The newest states -/

section Trails
variable {config : Config} {sent : Nat → Set (Nat × Message Op Query Chunk)}
  {trails : Nat → Trail Op Query Chunk} {g : Ghost Op}

/-- No replica is taken back. -/
theorem TrailsOk.newest (ok : TrailsOk config sent trails g) [Nonempty (Speaker Op Query Chunk)] :
    ∃ system older, Choice config sent trails system older ∧
      ∀ R < config.replicas.length, trails R = system R :: older R := by
  classical
  choose! system older isTrail said using ok.live
  refine ⟨system, older, ⟨fun R inside => ?_, said⟩, isTrail⟩
  rw [isTrail R inside]

/-- A trail that is one step longer. -/
theorem TrailsOk.push (ok : TrailsOk config sent trails g) {R : Nat}
    {s s' : Speaker Op Query Chunk} {older : Trail Op Query Chunk}
    (here : trails R = s :: older) {g' : Ghost Op}
    (earlier : Earlier config R s.peer.toStanding s'.peer.toStanding) (follows : Follows s s')
    (stays : ∀ system olders, Choice config sent trails system olders →
      HasWorld config sent g' system olders)
    (moves : ∀ system olders, Choice config sent trails system olders → system R = s →
      olders R = older → HasWorld config sent g' (Function.update system R s')
        (Function.update olders R (s :: older))) :
    TrailsOk config sent (Function.update trails R (s' :: s :: older)) g' where
  live S inside := by
    rcases eq_or_ne S R with rfl | other
    · obtain ⟨first, rest, isTrail, said⟩ := ok.live S inside
      obtain ⟨rfl, rfl⟩ := List.cons.inj (here.symm.trans isTrail)
      refine ⟨s', s :: older, by rw [Function.update_self], fun envelope isSent stamped => ?_⟩
      exact follows.subset (said envelope isSent stamped)
    · rw [Function.update_of_ne other]
      exact ok.live S inside
  rooted S inside := by
    rcases eq_or_ne S R with rfl | other
    · rw [Function.update_self]
      refine ⟨follows, ?_⟩
      rw [← here]
      exact ok.rooted S inside
    · rw [Function.update_of_ne other]
      exact ok.rooted S inside
  earlier S inside := by
    rcases eq_or_ne S R with rfl | other
    · rw [Function.update_self]
      have before := ok.earlier S inside
      rw [here] at before
      refine List.pairwise_cons.mpr ⟨fun x mem => ?_, before⟩
      rcases List.mem_cons.mp mem with rfl | mem
      · exact earlier
      · exact ((List.pairwise_cons.mp before).1 x mem).trans earlier
    · rw [Function.update_of_ne other]
      exact ok.earlier S inside
  worlds system olders choice := by
    by_cases inside : R < config.replicas.length
    · have onTrail := choice.onTrail R inside
      rw [Function.update_self] at onTrail
      have elsewhere : ∀ S < config.replicas.length, S ≠ R →
          (system S :: olders S) <:+ trails S := by
        intro S insideS other
        have := choice.onTrail S insideS
        rwa [Function.update_of_ne other] at this
      rcases List.suffix_cons_iff.mp onTrail with isNew | isOld
      · obtain ⟨isHead, isTail⟩ := List.cons.inj isNew
        have before : Choice config sent trails (Function.update system R s)
            (Function.update olders R older) := by
          refine ⟨fun S insideS => ?_, fun S insideS envelope isSent stamped => ?_⟩
          · rcases eq_or_ne S R with rfl | other
            · rw [Function.update_self, Function.update_self, here]
            · rw [Function.update_of_ne other, Function.update_of_ne other]
              exact elsewhere S insideS other
          · rcases eq_or_ne S R with rfl | other
            · rw [Function.update_self]
              obtain ⟨first, rest, isTrail, said⟩ := ok.live S inside
              obtain ⟨rfl, rfl⟩ := List.cons.inj (here.symm.trans isTrail)
              exact said envelope isSent stamped
            · rw [Function.update_of_ne other]
              exact choice.said S insideS envelope isSent stamped
        have := moves _ _ before (Function.update_self ..) (Function.update_self ..)
        rw [Function.update_idem, Function.update_idem, ← isHead, ← isTail,
          Function.update_eq_self, Function.update_eq_self] at this
        exact this
      · refine stays system olders ⟨fun S insideS => ?_, choice.said⟩
        rcases eq_or_ne S R with rfl | other
        · rw [here]
          exact isOld
        · exact elsewhere S insideS other
    · refine stays system olders ⟨fun S insideS => ?_, choice.said⟩
      have other : S ≠ R := by
        rintro rfl
        exact inside insideS
      have := choice.onTrail S insideS
      rwa [Function.update_of_ne other] at this

/-! ## Steps -/

/-- The world of a cluster in which `R` has moved. -/
theorem HasWorld.moved {w w' : LogWorld Op} {began : Nat → Nat → LogWorld Op} {R : Nat}
    {s' : Speaker Op Query Chunk} {system : Nat → Speaker Op Query Chunk}
    {olders : Nat → Trail Op Query Chunk} (isDecided : w.decided = g.decided)
    (isMarks : w.marks = g.marks)
    (history : ∀ S < config.replicas.length, HistoryOk config w S (system S :: olders S))
    (floor : ∀ S < config.replicas.length, (system S).peer.status = .recovering →
      (g.floor S).1 <+: (began S (system S).peer.recoveryNonce).decided ∧
        (g.floor S).2 ⊆ (began S (system S).peer.recoveryNonce).marks)
    (also : g.Also w) (inside : R < config.replicas.length) (alone : Alone config R w w')
    (ok : SystemOk config w' began (netOf config sent) (Function.update system R s'))
    (asleep : s'.peer.status = .recovering → (system R).peer.status = .recovering ∧
      s'.peer.recoveryNonce = (system R).peer.recoveryNonce) :
    HasWorld config sent g (Function.update system R s')
      (Function.update olders R (system R :: olders R)) := by
  refine ⟨w', began, alone.decided.trans isDecided, alone.marks.trans isMarks, ok, fun S insideS => ?_,
    fun S insideS => ?_, g.mono alone.later also⟩
  · have before := (history S insideS).mono alone.later
    rcases eq_or_ne S R with rfl | other
    · rw [Function.update_self, Function.update_self]
      have speaker := ok.speakers S inside
      rw [Function.update_self] at speaker
      exact .cons speaker before
    · rw [Function.update_of_ne other, Function.update_of_ne other]
      exact before
  · rcases eq_or_ne S R with rfl | other
    · rw [Function.update_self]
      intro recovering
      obtain ⟨before, nonce⟩ := asleep recovering
      rw [nonce]
      exact floor S inside before
    · rw [Function.update_of_ne other]
      exact floor S insideS

theorem TrailsOk.say (ok : TrailsOk config sent trails g) {R : Nat}
    (inside : R < config.replicas.length) {s : Speaker Op Query Chunk}
    {older : Trail Op Query Chunk} (here : trails R = s :: older) {offered : LogEntry Op → Prop} {holds : Nat → Nat → Prop}
    {envelope : Nat × Message Op Query Chunk}
    (truthful : Says (hears (netOf config sent) R offered holds) s.peer envelope) :
    TrailsOk config sent
      (Function.update trails R (⟨s.peer, insert envelope s.said⟩ :: s :: older)) g := by
  refine ok.push here (.same rfl rfl rfl le_rfl) (.inr ⟨_, envelope, rfl, truthful⟩) ok.worlds
    fun system olders choice isHead isTail => ?_
  obtain ⟨w, began, isDecided, isMarks, isOk, history, floor, also⟩ := ok.worlds system olders choice
  have said := isOk.say inside isHead truthful
  have := HasWorld.moved isDecided isMarks history floor also inside (.refl config R w) said
    (fun recovering => by rw [isHead]; exact ⟨recovering, rfl⟩)
  rwa [isHead, isTail] at this

/-- A replica acts, without deciding anything. -/
theorem TrailsOk.act (ok : TrailsOk config sent trails g) {R : Nat}
    (inside : R < config.replicas.length) {s : Speaker Op Query Chunk}
    {older : Trail Op Query Chunk} (here : trails R = s :: older) {offered : LogEntry Op → Prop} {holds : Nat → Nat → Prop}
    {p' : Peer Op} (act : Act (hears (netOf config sent) R offered holds) s.peer p')
    (quiet : ∀ k, ¬Decides s.peer p' k) :
    TrailsOk config sent (Function.update trails R (⟨p', s.said⟩ :: s :: older)) g := by
  have nonempty : Nonempty (Speaker Op Query Chunk) := ⟨s⟩
  obtain ⟨live, rest, isChoice, isTrail⟩ := ok.newest
  have isLive : live R = s := (List.cons.inj ((isTrail R inside).symm.trans here)).1
  obtain ⟨_, _, _, _, liveOk, _⟩ := ok.worlds live rest isChoice
  obtain ⟨_, later, actedOk⟩ := liveOk.act inside isLive act quiet
  have actedSpeaker := actedOk.speakers R inside
  rw [Function.update_self] at actedSpeaker
  have earlier := (liveOk.speaker inside isLive).earlier
    (fun _ isSent => liveOk.message isSent) act later.later actedSpeaker
  refine ok.push here earlier (.inl rfl) ok.worlds
    fun system olders choice isHead isTail => ?_
  obtain ⟨w, began, isDecided, isMarks, isOk, history, floor, also⟩ := ok.worlds system olders choice
  obtain ⟨w', alone, acted⟩ := isOk.act inside isHead act quiet
  have := HasWorld.moved isDecided isMarks history floor also inside alone acted
    (fun recovering => by rw [isHead]; exact act.asleep recovering)
  rwa [isHead, isTail] at this

/-- What is decided once the peer has committed up to `k`. -/
def Ghost.commit (g : Ghost Op) (p : Peer Op) (k : Nat) : Ghost Op :=
  let L := (p.whole g.decided).take k
  { g with
    decided := if g.decided.length ≤ L.length then L else g.decided
    marks := insert (p.viewNumber, L.length) g.marks }

/-- The primary of a view commits what a quorum has acknowledged. -/
theorem TrailsOk.commit (ok : TrailsOk config sent trails g) {R : Nat}
    (inside : R < config.replicas.length) {s : Speaker Op Query Chunk}
    {older : Trail Op Query Chunk} (here : trails R = s :: older) {p' : Peer Op} {k : Nat}
    (decides : Decides s.peer p' k) :
    TrailsOk config sent (Function.update trails R (⟨p', s.said⟩ :: s :: older))
      (g.commit s.peer k) ∧ g.Le (g.commit s.peer k) := by
  have nonempty : Nonempty (Speaker Op Query Chunk) := ⟨s⟩
  obtain ⟨live, rest, isChoice, isTrail⟩ := ok.newest
  obtain ⟨isLive, isRest⟩ := List.cons.inj ((isTrail R inside).symm.trans here)
  obtain ⟨w₀, _, isDecided₀, _, liveOk, history₀, _⟩ := ok.worlds live rest isChoice
  have speaker := liveOk.speaker inside isLive
  obtain ⟨status, isPrimary, quorum, applied, executes, isRaise⟩ := id decides
  have primary := speaker.isPrimary_iff.mp isPrimary
  rw [show s.peer.config = config from speaker.config_eq] at quorum
  -- Wherever the primary is taken back to, its log goes on to the one it has.
  have chosen : ∀ {system olders w began}, Choice config sent trails system olders →
      w.decided = g.decided → SystemOk config w began (netOf config sent) system →
      w.Chosen config.quorums s.peer.viewNumber ((s.peer.whole g.decided).take k) := by
    intro system olders w began choice isDecided isOk
    refine (isOk.chosen inside primary speaker.acks.each (fun S m found pos =>
      (speaker.acks.backed status primary S m found pos).imp And.left id) quorum
      (L := s.peer.whole g.decided) ?_).1
    have mem : system R ∈ s :: older := by
      have := (choice.onTrail R inside).subset List.mem_cons_self
      rwa [here] at this
    have earlier : Earlier config R (system R).peer.toStanding s.peer.toStanding := by
      rcases List.mem_cons.mp mem with same | mem
      · rw [same]
        exact .same rfl rfl rfl le_rfl
      · have pairwise := ok.earlier R inside
        rw [here] at pairwise
        exact (List.pairwise_cons.mp pairwise).1 _ mem
    rcases earlier.views.lt_or_eq with before | same
    · exact .inl before
    · refine .inr ⟨same, ?_⟩
      cases isStatus : (system R).peer.status with
      | viewChange => exact .inl rfl
      | recovering =>
          rcases earlier.asleep isStatus same.symm with recovering | backup
          · cases status.symm.trans recovering
          · exact absurd primary (same ▸ backup)
      | normal | stateTransfer =>
          refine .inr ⟨by simp, ?_⟩
          have inView : (system R).peer.inView := by
            simp [Peer.inView, isStatus]
          have history := history₀ R inside
          rw [isLive, isRest] at history
          obtain ⟨⟨_, _, _, isPrefix⟩, _⟩ := history.held (system R) mem inView
          rw [same, ← show s.peer.whole w₀.decided = _ from speaker.view.leads status primary,
            isDecided₀] at isPrefix
          rw [isDecided]
          exact isPrefix
  have world : ∀ system olders, Choice config sent trails system olders →
      HasWorld config sent (g.commit s.peer k) system olders ∧ g.Le (g.commit s.peer k) := by
    intro system olders choice
    obtain ⟨w, began, isDecided, isMarks, isOk, history, floor, also⟩ :=
      ok.worlds system olders choice
    have isChosen := chosen choice isDecided isOk
    have later := World.decide_le (y := s.peer.viewNumber) (isChosen.comparable isOk.valid)
    have decided : (w.decide s.peer.viewNumber ((s.peer.whole g.decided).take k)).decided =
        (g.commit s.peer k).decided := by
      simp [World.decide, Ghost.commit, isDecided]
    have marks : (w.decide s.peer.viewNumber ((s.peer.whole g.decided).take k)).marks =
        (g.commit s.peer k).marks := by
      simp [World.decide, Ghost.commit, isMarks]
    refine ⟨⟨_, began, decided, marks, isOk.mark isChosen, fun S insideS =>
      (history S insideS).mono later, floor, g.mono later also⟩, ?_, ?_⟩
    · rw [← isDecided, ← decided]
      exact later.decided
    · rw [← isMarks, ← marks]
      exact later.marks
  refine ⟨ok.push here ?_ (.inl rfl)
    (fun system olders choice => (world system olders choice).1)
    fun system olders choice isHead isTail => ?_, (world live rest isChoice).2⟩
  · rw [isRaise]
    exact .same rfl rfl rfl le_rfl
  · obtain ⟨w, began, isDecided, isMarks, isOk, history, floor, also⟩ :=
      ok.worlds system olders choice
    have isChosen := chosen choice isDecided isOk
    have later := World.decide_le (y := s.peer.viewNumber) (isChosen.comparable isOk.valid)
    have moved := isOk.decide inside isHead decides
    rw [isDecided] at moved
    have marked := isOk.mark isChosen
    have : HasWorld config sent (g.commit s.peer k) (Function.update system R ⟨p', s.said⟩)
        (Function.update olders R (system R :: olders R)) := HasWorld.moved
      (by simp [World.decide, Ghost.commit, isDecided]) (by simp [World.decide, Ghost.commit, isMarks])
      (fun S insideS => (history S insideS).mono later) floor (g.mono later also) inside
      (.refl config R _) moved (fun recovering => by
        rw [isRaise] at recovering
        cases status.symm.trans recovering)
    rwa [isHead, isTail] at this

/-- What is marked by the step from `p` to `p'` is what it decides. -/
def Marked (p p' : Peer Op) (g g' : Ghost Op) : Prop :=
  ∀ y j, (y, j) ∈ g'.marks → (y, j) ∈ g.marks ∨
    (y = p.viewNumber ∧ ∃ k, j ≤ k ∧ Decides p p' k)

/-- One step of a replica. -/
theorem TrailsOk.step (ok : TrailsOk config sent trails g) {R : Nat}
    (inside : R < config.replicas.length) {s s' : Speaker Op Query Chunk}
    {older : Trail Op Query Chunk} (here : trails R = s :: older) {offered : LogEntry Op → Prop} {holds : Nat → Nat → Prop}
    (step : Step (hears (netOf config sent) R offered holds) s s') :
    ∃ g', g.Le g' ∧ g'.floor = g.floor ∧ g'.Also = g.Also ∧ Marked s.peer s'.peer g g' ∧
      TrailsOk config sent (Function.update trails R (s' :: s :: older)) g' := by
  cases step with
  | act does =>
      rename_i p'
      by_cases quiet : ∀ k, ¬Decides s.peer p' k
      · exact ⟨g, .refl g, rfl, rfl, fun _ _ mem => .inl mem, ok.act inside here does quiet⟩
      · push Not at quiet
        obtain ⟨k, decides⟩ := quiet
        obtain ⟨pushed, le⟩ := ok.commit inside here decides
        refine ⟨g.commit s.peer k, le, rfl, rfl, fun y j mem => ?_, pushed⟩
        rcases Set.mem_insert_iff.mp mem with new | mem
        · obtain ⟨rfl, rfl⟩ := Prod.mk.inj new
          exact .inr ⟨rfl, k, List.length_take_le k _, decides⟩
        · exact .inl mem
  | say envelope truthful =>
      exact ⟨g, .refl g, rfl, rfl, fun _ _ mem => .inl mem, ok.say inside here truthful⟩

theorem Step.said {i : Inputs Op Query Chunk} {s s' : Speaker Op Query Chunk} (step : Step i s s') :
    s.said ⊆ s'.said := by
  cases step with
  | act => exact fun _ mem => mem
  | say envelope => exact Set.subset_insert _ _

theorem Steps.said {i : Inputs Op Query Chunk} {s s' : Speaker Op Query Chunk}
    (steps : Steps i s s') : s.said ⊆ s'.said := by
  induction steps with
  | refl => exact fun _ mem => mem
  | tail _ step ih => exact ih.trans step.said

/-- Several steps of a replica. -/
theorem TrailsOk.steps (ok : TrailsOk config sent trails g) {R : Nat}
    (inside : R < config.replicas.length) {s s' : Speaker Op Query Chunk}
    {older : Trail Op Query Chunk} (here : trails R = s :: older) {offered : LogEntry Op → Prop} {holds : Nat → Nat → Prop}
    (steps : Steps (hears (netOf config sent) R offered holds) s s') :
    ∃ g' older', g.Le g' ∧ g'.floor = g.floor ∧ g'.Also = g.Also ∧
      (s :: older) <:+ (s' :: older') ∧
      TrailsOk config sent (Function.update trails R (s' :: older')) g' := by
  induction steps with
  | refl =>
      refine ⟨g, older, .refl g, rfl, rfl, List.suffix_rfl, ?_⟩
      rw [← here, Function.update_eq_self]
      exact ok
  | tail _ step ih =>
      obtain ⟨g₁, older₁, le₁, floor₁, also₁, isSuffix, ok₁⟩ := ih
      obtain ⟨g₂, le₂, floor₂, also₂, _, ok₂⟩ :=
        ok₁.step inside (Function.update_self ..) step
      rw [Function.update_idem] at ok₂
      exact ⟨g₂, _, le₁.trans le₂, floor₂.trans floor₁, also₂.trans also₁,
        isSuffix.trans (List.suffix_cons _ _), ok₂⟩

/-! ## Sending -/

theorem netOf_mono {sent sent' : Nat → Set (Nat × Message Op Query Chunk)}
    (more : ∀ R, sent R ⊆ sent' R) : netOf config sent ⊆ netOf config sent' := by
  rintro envelope ⟨R, inside, mem⟩
  exact ⟨R, inside, more R mem⟩

/-- A replica sends what it has said. -/
theorem TrailsOk.send (ok : TrailsOk config sent trails g)
    {sent' : Nat → Set (Nat × Message Op Query Chunk)} (more : ∀ R, sent R ⊆ sent' R)
    (said : ∀ R < config.replicas.length, ∃ s older, trails R = s :: older ∧
      ∀ envelope ∈ sent' R, envelope.2.stamp ≠ none → envelope ∈ s.said) :
    TrailsOk config sent' trails g where
  live := said
  rooted R inside := (ok.rooted R inside).mono (more R)
  earlier := ok.earlier
  worlds system older choice := by
    have before : Choice config sent trails system older :=
      ⟨choice.onTrail, fun R inside envelope mem => choice.said R inside envelope (more R mem)⟩
    obtain ⟨w, began, isDecided, isMarks, isOk, history, floor, also⟩ :=
      ok.worlds system older before
    refine ⟨w, began, isDecided, isMarks, isOk.send (netOf_mono more) ?_, history, floor, also⟩
    rintro envelope ⟨R, inside, mem⟩ stamped
    exact ⟨R, inside, choice.said R inside envelope mem stamped⟩

/-! ## Coming back -/

/-- A crash takes a replica back on its trail. -/
theorem TrailsOk.cut (ok : TrailsOk config sent trails g) {R : Nat} {s : Speaker Op Query Chunk}
    {older : Trail Op Query Chunk} (onTrail : (s :: older) <:+ trails R)
    (said : ∀ envelope ∈ sent R, envelope.2.stamp ≠ none → envelope ∈ s.said) :
    TrailsOk config sent (Function.update trails R (s :: older)) g where
  live S inside := by
    rcases eq_or_ne S R with rfl | other
    · exact ⟨s, older, Function.update_self .., said⟩
    · rw [Function.update_of_ne other]
      exact ok.live S inside
  earlier S inside := by
    rcases eq_or_ne S R with rfl | other
    · rw [Function.update_self]
      exact (ok.earlier S inside).sublist onTrail.sublist
    · rw [Function.update_of_ne other]
      exact ok.earlier S inside
  rooted S inside := by
    rcases eq_or_ne S R with rfl | other
    · rw [Function.update_self]
      exact (ok.rooted S inside).suffix onTrail
    · rw [Function.update_of_ne other]
      exact ok.rooted S inside
  worlds system olders choice := by
    refine ok.worlds system olders ⟨fun S inside => ?_, choice.said⟩
    have := choice.onTrail S inside
    rcases eq_or_ne S R with rfl | other
    · rw [Function.update_self] at this
      exact this.trans onTrail
    · rwa [Function.update_of_ne other] at this

/-- What is decided in views up to `v`. -/
def Ghost.Known (g : Ghost Op) (v k : Nat) : Prop :=
  k = 0 ∨ ∃ y m, (y, m) ∈ g.marks ∧ y ≤ v ∧ k ≤ m

theorem Ghost.known_iff {w : LogWorld Op} (isMarks : w.marks = g.marks) {v k : Nat} :
    w.KnownBy v k ↔ g.Known v k := by
  unfold World.KnownBy Ghost.Known
  rw [isMarks]

theorem Ghost.Known.mono {g' : Ghost Op} (le : g.Le g') {v k : Nat} (known : g.Known v k) :
    g'.Known v k := by
  rcases known with zero | ⟨y, m, mark, before, within⟩
  · exact .inl zero
  · exact .inr ⟨y, m, le.marks mark, before, within⟩

theorem Ghost.Known.of_le {v v' k k' : Nat} (known : g.Known v k) (views : v ≤ v')
    (lengths : k' ≤ k) : g.Known v' k' := by
  rcases known with zero | ⟨y, m, mark, before, within⟩
  · exact .inl (by omega)
  · exact .inr ⟨y, m, mark, before.trans views, lengths.trans within⟩

/-- What a disk holds of what is decided. -/
structure Ghost.DiskOk (g : Ghost Op) (state : PersistentState Op)
    (whole : List (LogEntry Op)) : Prop where
  start : state.logStart ≤ state.commitNumber
  known : g.Known state.viewNumber state.commitNumber
  within : state.commitNumber ≤ whole.length
  agrees : whole.take state.commitNumber = g.decided.take state.commitNumber

/-- A replica comes back with the state its disk holds, that of the newest state
of its trail. -/
theorem TrailsOk.restart (ok : TrailsOk config sent trails g) {R : Nat}
    (inside : R < config.replicas.length) {s : Speaker Op Query Chunk}
    {older : Trail Op Query Chunk} (here : trails R = s :: older) {state : PersistentState Op}
    (same : { s.peer.persistentState with commitNumber := state.commitNumber } = state)
    (kept : state.recovering = false) (disk : g.DiskOk state (s.peer.whole g.decided))
    {applied executed nonce : Nat} (reached : state.logStart ≤ applied)
    (known : g.Known state.viewNumber applied)
    (bounds : executed = applied ∨ (applied ≤ executed ∧
      executed ≤ (Peer.reborn R config applied state nonce).commitNumber))
    {p' : Peer Op}
    (takesUp : Peer.TakesUp { Peer.reborn R config applied state nonce with applied := executed }
      state p') :
    TrailsOk config sent (Function.update trails R (⟨p', s.said⟩ :: s :: older)) g := by
  have awake : s.peer.status ≠ .recovering := by
    have : decide (s.peer.status = .recovering) = false := (congrArg (·.recovering) same).trans kept
    simpa using this
  have view : state.viewNumber = s.peer.viewNumber := (congrArg (·.viewNumber) same).symm
  have stays : p'.status ≠ .recovering := by
    rcases takesUp with ⟨_, rfl⟩ | ⟨_, _, rfl⟩ | ⟨_, _, rfl⟩
    · simp [Peer.turnTo]
    · simp [Peer.turnTo]
    · simp [Peer.reborn, kept]
  refine ok.push here ⟨?_, fun recovering => absurd recovering awake,
    fun recovering => absurd recovering stays, fun _ started isSame => ?_⟩ (.inl rfl) ok.worlds
    fun system olders choice isHead isTail => ?_
  · have isView : state.viewNumber ≤ p'.viewNumber := by
      rcases takesUp with ⟨_, rfl⟩ | ⟨_, _, rfl⟩ | ⟨_, _, rfl⟩
      · exact le_rfl
      · exact Nat.le_succ _
      · exact le_rfl
    exact view ▸ isView
  · have normal : state.lastNormalView = s.peer.lastNormalView :=
      (congrArg (·.lastNormalView) same).symm
    have long : s.peer.opNumber = state.logStart + state.log.length := by
      rw [← same]
      rfl
    rw [← view] at isSame
    rcases takesUp with ⟨left, _⟩ | ⟨_, _, rfl⟩ | ⟨_, _, rfl⟩
    · omega
    · exact absurd isSame (Nat.succ_ne_self _)
    · refine ⟨?_, ?_⟩
      · show (Peer.reborn R config applied state nonce).lastNormalView =
          (Peer.reborn R config applied state nonce).viewNumber
        simp only [Peer.reborn, kept]
        simp only [Bool.false_eq_true, ↓reduceIte]
        omega
      · show s.peer.opNumber ≤ (Peer.reborn R config applied state nonce).opNumber
        rw [long]
        by_cases ahead : state.commitNumber < applied
        · simp only [Peer.reborn, kept, ahead, Standing.opNumber]
          simp only [Bool.false_or, decide_true, Bool.false_eq_true, ↓reduceIte, List.length_drop]
          omega
        · simp [Peer.reborn, kept, ahead, Standing.opNumber]
  · obtain ⟨w, began, isDecided, isMarks, isOk, history, floor, also⟩ :=
      ok.worlds system olders choice
    have speaker := isOk.speaker inside isHead
    have diskOk : DiskOk w state (s.peer.whole w.decided) := by
      rw [isDecided]
      exact ⟨disk.start, (Ghost.known_iff isMarks).mpr disk.known, disk.within, by
        rw [disk.agrees, isDecided]⟩
    obtain ⟨w', alone, valid, fits⟩ := fits_restart speaker isOk.valid same kept diskOk reached
      ((Ghost.known_iff isMarks).mpr known) bounds takesUp
    have updated := isOk.update alone valid (by rw [isHead]) fits
    have := HasWorld.moved isDecided isMarks history floor also inside alone updated
      (fun recovering => absurd recovering stays)
    rwa [isHead, isTail] at this

/-- A replica that was still recovering starts a new recovery. -/
theorem TrailsOk.recoverAgain (ok : TrailsOk config sent trails g) {R nonce : Nat}
    (inside : R < config.replicas.length) {s : Speaker Op Query Chunk}
    {older : Trail Op Query Chunk} (here : trails R = s :: older) {p' : Peer Op}
    (recovering : s.peer.status = .recovering) (blank : Blank config R nonce p')
    (view : p'.viewNumber = s.peer.viewNumber)
    (fresh : ∀ receiver asked, (receiver, .recovery R nonce asked) ∉ netOf config sent)
    (unsaid : ∀ receiver asked, (receiver, .recovery R nonce asked) ∉ s.said)
    (known : ∃ v, g.Known v p'.commitNumber) :
    TrailsOk config sent (Function.update trails R (⟨p', s.said⟩ :: s :: older)) g := by
  refine ok.push here ⟨view.ge, fun _ _ => .inl blank.status, fun _ => recovering,
    fun awake => absurd recovering awake⟩ (.inl rfl) ok.worlds
    fun system olders choice isHead isTail => ?_
  obtain ⟨w, began, isDecided, isMarks, isOk, history, floor, also⟩ := ok.worlds system olders choice
  have speaker := isOk.speaker inside isHead
  obtain ⟨before, _, _, left, _⟩ := speaker.recovery.began recovering
  have recovered := isOk.recover (p := p') inside blank (show s.said ⊆ _ by rw [isHead])
    (fun envelope isSent stamped => by
      obtain ⟨S, insideS, mem⟩ := isOk.said envelope isSent stamped
      rcases eq_or_ne S R with rfl | other
      · rw [isHead] at mem
        exact .inl mem
      · exact .inr ⟨S, insideS, other, mem⟩) fresh unsaid (by rw [view]; exact left)
    (by rw [view]; exact speaker.said.stamped) (speaker.said.spoken recovering) (by
      obtain ⟨v, known⟩ := known
      exact ⟨v, (Ghost.known_iff isMarks).mpr known⟩)
  refine ⟨w, _, isDecided, isMarks, recovered, fun S insideS => ?_, fun S insideS => ?_, also⟩
  · rcases eq_or_ne S R with rfl | other
    · rw [Function.update_self, Function.update_self]
      have recoveredSpeaker := recovered.speakers S inside
      rw [Function.update_self] at recoveredSpeaker
      have := history S inside
      rw [isHead, isTail] at this
      exact .cons recoveredSpeaker this
    · rw [Function.update_of_ne other, Function.update_of_ne other]
      exact history S insideS
  · rcases eq_or_ne S R with rfl | other
    · rw [Function.update_self]
      intro _
      have lower := floor S inside
      rw [isHead] at lower
      obtain ⟨decided, marks⟩ := lower recovering
      rw [show (⟨p', s.said⟩ : Speaker Op Query Chunk).peer.recoveryNonce = nonce from blank.isNonce]
      unfold beginning
      rw [Function.update_self, Function.update_self]
      exact ⟨decided.trans before.decided, marks.trans before.marks⟩
    · rw [Function.update_of_ne other, beginning_other (.inl other)]
      exact floor S insideS

/-- The messages of protocol among those sent. -/
def stampedOf (sent : Set (Nat × Message Op Query Chunk)) : Set (Nat × Message Op Query Chunk) :=
  { envelope ∈ sent | envelope.2.stamp ≠ none }

/-- What is decided when `R` begins to recover, and the logs it had held. -/
def Ghost.begin (g : Ghost Op) (R : Nat) (trail : Trail Op Query Chunk) : Ghost Op where
  decided := g.decided
  marks := g.marks
  floor := Function.update g.floor R (g.decided, g.marks)
  Also w := g.Also w ∧ ∀ s ∈ trail, s.peer.inView →
    HeldIn w s.peer.viewNumber (s.peer.whole g.decided)
  mono later := And.imp (g.mono later) fun held s mem inView => (held s mem inView).mono later

/-- A replica that lost its disk comes back with a view it has not gone beyond in
anything it sent, and starts a recovery. -/
theorem TrailsOk.lose (ok : TrailsOk config sent trails g) {R nonce : Nat}
    (inside : R < config.replicas.length) {p' : Peer Op} (blank : Blank config R nonce p')
    (view : ∀ envelope ∈ sent R, ∀ v, envelope.2.stamp = some v → v ≤ p'.viewNumber)
    (fresh : ∀ receiver asked, (receiver, .recovery R nonce asked) ∉ netOf config sent)
    (zero : p'.commitNumber = 0) :
    ∃ s₀ older₀, (s₀ :: older₀) <:+ trails R ∧
      (∀ envelope ∈ sent R, envelope.2.stamp ≠ none → envelope ∈ s₀.said) ∧
      TrailsOk config sent (Function.update trails R [⟨p', stampedOf (sent R)⟩])
        (g.begin R (s₀ :: older₀)) := by
  -- Take the replica back to where it first had said all it has sent.
  obtain ⟨s, rest, isTrail, said⟩ := ok.live R inside
  have rooted := ok.rooted R inside
  rw [isTrail] at rooted
  obtain ⟨s₀, older₀, isSuffix, said₀, last⟩ := rooted.first said
  refine ⟨s₀, older₀, isTrail ▸ isSuffix, said₀, ?_, ?_, ?_, ?_⟩
  · intro S insideS
    rcases eq_or_ne S R with rfl | other
    · refine ⟨_, [], Function.update_self .., fun envelope isSent stamped => ⟨isSent, stamped⟩⟩
    · rw [Function.update_of_ne other]
      exact ok.live S insideS
  · intro S insideS
    rcases eq_or_ne S R with rfl | other
    · rw [Function.update_self]
      exact List.pairwise_singleton _ _
    · rw [Function.update_of_ne other]
      exact ok.earlier S insideS
  · intro S insideS
    rcases eq_or_ne S R with rfl | other
    · rw [Function.update_self]
      exact ⟨fun envelope mem _ => mem.1, fun awake => absurd blank.status awake⟩
    · rw [Function.update_of_ne other]
      exact ok.rooted S insideS
  intro system olders choice
  have isNew := choice.onTrail R inside
  rw [Function.update_self] at isNew
  obtain ⟨isHead, isTail⟩ : system R = ⟨p', stampedOf (sent R)⟩ ∧ olders R = [] := by
    rcases List.suffix_cons_iff.mp isNew with isNew | isNone
    · exact List.cons.inj isNew
    · cases List.suffix_nil.mp isNone
  have before : Choice config sent trails (Function.update system R s₀)
      (Function.update olders R older₀) := by
    refine ⟨fun S insideS => ?_, fun S insideS envelope isSent stamped => ?_⟩
    · rcases eq_or_ne S R with rfl | other
      · rw [Function.update_self, Function.update_self, isTrail]
        exact isSuffix
      · rw [Function.update_of_ne other, Function.update_of_ne other]
        have := choice.onTrail S insideS
        rwa [Function.update_of_ne other] at this
    · rcases eq_or_ne S R with rfl | other
      · rw [Function.update_self]
        exact said₀ envelope isSent stamped
      · rw [Function.update_of_ne other]
        exact choice.said S insideS envelope isSent stamped
  obtain ⟨w, began, isDecided, isMarks, isOk, history, floor, also⟩ := ok.worlds _ _ before
  have isFirst : Function.update system R s₀ R = s₀ := Function.update_self ..
  have speaker := isOk.speaker inside isFirst
  have spoken : w.view R = 0 ∨ ∃ envelope ∈ stampedOf (sent R), ∃ v,
      envelope.2.stamp = some v ∧ w.view R ≤ v := by
    by_cases recovering : s₀.peer.status = .recovering
    · rcases last with ⟨allSent, _⟩ | ⟨envelope, isSent, stamp⟩
      · refine (speaker.said.spoken recovering).imp id ?_
        rintro ⟨envelope, mem, v, stamp, le⟩
        have stamped : envelope.2.stamp ≠ none := by simp [stamp]
        exact ⟨envelope, ⟨allSent envelope mem stamped, stamped⟩, v, stamp, le⟩
      · exact .inr ⟨envelope, ⟨isSent, by simp [stamp]⟩, _, stamp,
          (speaker.recovery.began recovering).2.2.2.1⟩
    · have here : w.view R = s₀.peer.viewNumber := speaker.view.here recovering
      rcases last with ⟨_, isZero⟩ | ⟨envelope, isSent, stamp⟩
      · exact .inl (here.trans (isZero recovering))
      · exact .inr ⟨envelope, ⟨isSent, by simp [stamp]⟩, _, stamp, here.le⟩
  have recovered := isOk.recover (p := p') inside blank
    (show stampedOf (sent R) ⊆ _ by
      rw [isFirst]
      exact fun envelope mem => said₀ envelope mem.1 mem.2)
    (fun envelope isSent stamped => by
      obtain ⟨S, insideS, mem⟩ := isSent
      rcases eq_or_ne S R with rfl | other
      · exact .inl ⟨mem, stamped⟩
      · exact .inr ⟨S, insideS, other, before.said S insideS envelope mem stamped⟩)
    fresh (fun receiver asked mem => fresh receiver asked ⟨R, inside, mem.1⟩)
    (by
      rcases spoken with isZero | ⟨envelope, mem, v, stamp, le⟩
      · omega
      · exact le.trans (view envelope mem.1 v stamp))
    (fun envelope mem => view envelope mem.1) spoken ⟨0, .inl zero⟩
  rw [Function.update_idem, ← isHead, Function.update_eq_self] at recovered
  refine ⟨w, _, isDecided, isMarks, recovered, fun S insideS => ?_, fun S insideS => ?_, also,
    fun before mem inView => ?_⟩
  · rcases eq_or_ne S R with rfl | other
    · rw [isTail]
      exact .cons (recovered.speakers S inside) trivial
    · have := history S insideS
      rwa [Function.update_of_ne other, Function.update_of_ne other] at this
  · rcases eq_or_ne S R with rfl | other
    · intro _
      have isNonce : (system S).peer.recoveryNonce = nonce := by
        rw [isHead]
        exact blank.isNonce
      rw [isNonce]
      unfold beginning
      rw [Function.update_self, Function.update_self]
      simp only [Ghost.begin, Function.update_self]
      exact ⟨isDecided ▸ List.prefix_rfl, isMarks ▸ fun _ mem => mem⟩
    · rw [beginning_other (.inl other)]
      simp only [Ghost.begin, Function.update_of_ne other]
      have := floor S insideS
      rwa [Function.update_of_ne other] at this
  · have held := history R inside
    rw [Function.update_self, Function.update_self] at held
    rw [← isDecided]
    exact (held.held before mem inView).1

end Trails

end Vsr
