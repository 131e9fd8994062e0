import Vsr.Protocol.Lag

/-!
# What decisions rest on

The primary counts acknowledgements it was sent, and its own for what its writes
hold.  Whatever it decides, a quorum of these backs.
-/

set_option autoImplicit false

namespace Vsr

variable {Op Query Chunk : Type} {config : Config} {net net' : Set (Nat × Message Op Query Chunk)}
  {R : Nat} {own : Nat → Nat → Prop} {g g' g'' : Ghost Op} {p p' : Peer Op}

/-- `S` has acknowledged the ops of view `v` up to `k`. -/
def Acknowledged (net : Set (Nat × Message Op Query Chunk)) (S v k : Nat) : Prop :=
  ∃ receiver opNumber, k ≤ opNumber ∧ (receiver, .prepareOk v opNumber S) ∈ net

theorem Acknowledged.mono (more : net ⊆ net') {S v k : Nat} (acked : Acknowledged net S v k) :
    Acknowledged net' S v k := by
  obtain ⟨receiver, opNumber, within, sent⟩ := acked
  exact ⟨receiver, opNumber, within, more sent⟩

/-- What the primary of a view has counted for itself, its writes hold, or it has
acknowledged. -/
def OwnAcks (net : Set (Nat × Message Op Query Chunk)) (R : Nat) (own : Nat → Nat → Prop)
    (p : Peer Op) : Prop :=
  p.inView → p.isPrimary → ∀ k, p.acked[R]? = some k → 0 < k →
    own p.viewNumber k ∨ Acknowledged net R p.viewNumber k

/-- Whatever is marked in `g'` and not in `g` was acknowledged by a quorum. -/
def Accounts (config : Config) (net : Set (Nat × Message Op Query Chunk)) (R : Nat)
    (own : Nat → Nat → Prop) (g g' : Ghost Op) : Prop :=
  ∀ y j, (y, j) ∈ g'.marks → (y, j) ∈ g.marks ∨
    ∃ (acked : List Nat) (k : Nat), j ≤ k ∧ acked.length = config.replicas.length ∧
      config.quorum ≤ (acked.filter fun mark => decide (k ≤ mark)).length ∧
      ∀ S m, acked[S]? = some m → 0 < m → (S = R ∧ own y m) ∨ Acknowledged net S y m

theorem Accounts.refl : Accounts config net R own g g := fun _ _ mem => .inl mem

theorem Accounts.trans (first : Accounts config net R own g g')
    (second : Accounts config net R own g' g'') : Accounts config net R own g g'' := by
  intro y j mem
  rcases second y j mem with before | new
  · exact first y j before
  · exact .inr new

/-- A peer that enters a view has counted nothing. -/
theorem ownAcks_zero (zero : ∀ k ∈ p.acked, k = 0) : OwnAcks net R own p := by
  intro _ _ k counted pos
  have := zero k (List.mem_of_getElem? counted)
  omega

theorem ownAcks_enterNormal : OwnAcks net R own p.enterNormal := by
  apply ownAcks_zero
  intro k mem
  obtain ⟨_, _, rfl⟩ := List.mem_map.mp mem
  rfl

theorem OwnAcks.mono (more : net ⊆ net') (acks : OwnAcks net R own p) : OwnAcks net' R own p :=
  fun inView primary k counted pos => (acks inView primary k counted pos).imp_right (.mono more)

/-- Nothing the count rests on has changed. -/
theorem OwnAcks.same (acks : OwnAcks net R own p) (status : p'.inView → p.inView)
    (view : p'.viewNumber = p.viewNumber) (acked : p'.acked = p.acked) (config : p'.config = p.config)
    (selfId : p'.selfId = p.selfId) : OwnAcks net R own p' := by
  intro inView primary k counted pos
  rw [view]
  refine acks (status inView) ?_ k (acked ▸ counted) pos
  unfold Peer.isPrimary Peer.primaryId at primary ⊢
  rwa [selfId, config, view] at primary

theorem OwnAcks.act {offered : LogEntry Op → Prop} (acks : OwnAcks net R own p)
    (isSelf : p.selfId = R) (act : Act (hears net R offered own) p p') : OwnAcks net R own p' := by
  have restored : ∀ {q : Peer Op} {resume : Resume Op}, p.AtCheckpoint q resume →
      q.status = p.status ∧ q.viewNumber = p.viewNumber ∧ q.acked = p.acked ∧
        q.config = p.config ∧ q.selfId = p.selfId := by
    rintro q resume (rfl | ⟨_, rfl, _⟩) <;> exact ⟨rfl, rfl, rfl, rfl, rfl⟩
  cases act with
  | leave | catchUp => exact fun inView => absurd inView (by simp [Peer.inView, Peer.turnTo])
  | fallBehind status => exact acks.same (fun _ => .inl status) rfl rfl rfl rfl
  | begin | follow | join | comeBack => exact ownAcks_enterNormal
  | count replicaId opNumber status primary held more heard =>
      intro inView isPrimary k counted pos
      by_cases isOwn : replicaId = R
      · subst isOwn
        have isNew : k = opNumber := by
          obtain ⟨within, same⟩ := List.getElem?_eq_some_iff.mp counted
          simpa using same.symm
        subst isNew
        rcases heard with ⟨_, holds⟩ | ⟨opNumber, heard, within⟩
        · exact .inl holds
        · exact .inr ⟨_, opNumber, within, heard rfl⟩
      · rw [List.getElem?_set_ne isOwn] at counted
        exact acks (.inl status) primary k counted pos
  | adopt segment commitNumber status asked primary sent fetched =>
      obtain ⟨same, view, acked, isConfig, selfId⟩ := restored fetched
      exact acks.same (fun inView => by rwa [Peer.inView, ← same]) view acked isConfig selfId
  | extend segment commitNumber applied status sent fetched =>
      obtain ⟨_, view, acked, isConfig, selfId⟩ := restored fetched
      exact acks.same (fun _ => .inr status) view acked isConfig selfId
  | _ => exact acks.same id rfl rfl rfl rfl

/-! ## Coming back from a recovery -/

/-- The peer is no earlier than the views that decided `marks`, and reaches as far
as what its own view decided. -/
def Caught (marks : Set (Nat × Nat)) (p : Standing Op) : Prop :=
  ∀ y k, (y, k) ∈ marks → 0 < k → y ≤ p.viewNumber ∧
    (y = p.viewNumber → p.lastNormalView = p.viewNumber ∧ k ≤ p.opNumber)

theorem Caught.later {marks : Set (Nat × Nat)} {s s' : Standing Op} (caught : Caught marks s)
    (awake : s.status ≠ .recovering) (earlier : Earlier config R s s') : Caught marks s' := by
  intro y k mark pos
  obtain ⟨before, here⟩ := caught y k mark pos
  refine ⟨before.trans earlier.views, fun same => ?_⟩
  have views := earlier.views
  have stays : s'.viewNumber = s.viewNumber := by omega
  obtain ⟨started, reaches⟩ := here (same.trans stays)
  obtain ⟨started', longer⟩ := earlier.grows awake started stays
  exact ⟨started', reaches.trans longer⟩

/-- A merge reaches at least as far as the segment. -/
theorem Peer.Mergeable.reach {start : Nat} {entries : List (LogEntry Op)}
    (mergeable : p.Mergeable start entries) :
    start + entries.length ≤ (p.merge start entries).opNumber := by
  obtain ⟨within, held, _⟩ := mergeable
  unfold Standing.opNumber at within ⊢
  have keeps : start ≤ p.keepUpTo start := Nat.le_max_left _ _
  simp only [Peer.merge, Standing.merged, List.length_append, List.length_take, List.length_drop]
  omega

/-- A peer that comes back has caught up with what was decided when its recovery
began. -/
theorem SpeakerOk.caught {w : LogWorld Op} {began : Nat → Nat → LogWorld Op}
    {said : Set (Nat × Message Op Query Chunk)} {offered : LogEntry Op → Prop}
    (speaker : SpeakerOk config w began net R ⟨p, said⟩)
    (messages : ∀ envelope ∈ net, MessageOk config w net began envelope)
    (act : Act (hears net R offered own) p p') (recovering : p.status = .recovering)
    (awake : p'.status ≠ .recovering) : Caught (began R p.recoveryNonce).marks p'.toStanding := by
  have contra : ∀ {status : Status}, p.status = status → status ≠ .recovering → False :=
    fun isStatus other => other (isStatus.symm.trans recovering)
  cases act with
  | comeBack v segment commitNumber applied status answered fetched reach mergeable executes =>
      obtain ⟨view, _, told, seen⟩ := speaker.answered_ok messages recovering answered
      obtain ⟨L, carries, _, grown⟩ := told
      obtain ⟨_, before, _⟩ := speaker.recovery.began recovering
      intro y k mark pos
      refine ⟨seen y k mark pos, fun same => ⟨rfl, ?_⟩⟩
      obtain ⟨within, chosen⟩ := before.marked y k mark
      have isView : y = v := same
      rw [isView] at chosen
      have long := (chosen.1.trans grown).length_le
      rw [List.length_take, Nat.min_eq_left within] at long
      have start : segment.start ≤ L.length := carries.start
      have entries : segment.entries = L.drop segment.start := carries.entries
      have reaches := mergeable.reach
      rw [entries, List.length_drop] at reaches
      refine long.trans (le_trans ?_ (entries ▸ reaches))
      omega
  | leave v status => exact absurd recovering status
  | catchUp v status => exact absurd recovering status
  | fallBehind status => exact (contra status (by simp)).elim
  | begin bestId best commitNumber applied status => exact absurd recovering status.2
  | follow v segment told commitNumber applied status => exact absurd recovering status
  | join segment commitNumber applied status => exact (contra status (by simp)).elim
  | adopt segment commitNumber status => exact (contra status (by simp)).elim
  | extend segment commitNumber applied status => exact (contra status (by simp)).elim
  | _ => exact absurd recovering awake

/-- What a peer that was `p₀` has counted, and what has been marked since `g₀`, is
backed; and if it was recovering and is not any more, it has caught up. -/
structure Backed (config : Config) (net : Set (Nat × Message Op Query Chunk)) (R : Nat)
    (own : Nat → Nat → Prop) (p₀ : Peer Op) (g₀ g : Ghost Op) (p : Peer Op) : Prop where
  acks : OwnAcks net R own p
  marks : Accounts config net R own g₀ g
  caught : p₀.status = .recovering → p.status ≠ .recovering → Caught (g.floor R).2 p.toStanding

theorem Backed.refl {p₀ : Peer Op} (acks : OwnAcks net R own p)
    (still : p₀.status = .recovering → p.status = .recovering) : Backed config net R own p₀ g g p :=
  ⟨acks, .refl, fun asleep awake => absurd (still asleep) awake⟩

theorem Backed.step {sent : Nat → Set (Nat × Message Op Query Chunk)} {g₀ : Ghost Op} {p₀ : Peer Op}
    {s s' : Speaker Op Query Chunk} {offered : LogEntry Op → Prop}
    (backed : Backed config (netOf config sent) R own p₀ g₀ g s.peer)
    (live : Live config sent g R s) (follows : g.Follows config R g' s.peer s'.peer)
    (step : Step (hears (netOf config sent) R offered own) s s') :
    Backed config (netOf config sent) R own p₀ g₀ g' s'.peer := by
  obtain ⟨w, began, _, _, _, messages, floor, speaker⟩ := live
  refine ⟨?_, backed.marks.trans fun y j mem => ?_, fun asleep awake => ?_⟩
  · cases step with
    | act does => exact backed.acks.act speaker.selfId_eq does
    | say => exact backed.acks
  · rcases follows.marked y j mem with before | ⟨rfl, k, within, status, isPrimary, quorum, _⟩
    · exact .inl before
    · have primary := speaker.isPrimary_iff.mp isPrimary
      rw [show s.peer.config = config from speaker.config_eq] at quorum
      refine .inr ⟨s.peer.acked, k, within, speaker.acks.each, quorum, fun S m counted pos => ?_⟩
      rcases speaker.acks.backed status primary S m counted pos with ⟨rfl, _⟩ | acknowledged
      · exact (backed.acks (.inl status) isPrimary m counted pos).imp_left fun holds => ⟨rfl, holds⟩
      · exact .inr acknowledged
  · rw [follows.floor]
    by_cases still : s.peer.status = .recovering
    · cases step with
      | act does =>
          have caught := speaker.caught messages does still awake
          exact fun y k mark pos => caught y k (floor still mark) pos
      | say => exact absurd still awake
    · exact (backed.caught asleep still).later still follows.earlier

end Vsr
