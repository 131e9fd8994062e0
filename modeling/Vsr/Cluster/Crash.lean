import Vsr.Cluster.Advance

/-!
# Crashes keep what holds

A replica that restarts from its disk goes on from a state of its trail; one that
lost its disk, or was recovering, begins a recovery.
-/

set_option autoImplicit false

namespace Vsr

variable {SM : Type} [StateMachine SM]

theorem NoncesOk.weaken {Op Query Chunk : Type} {R : Nat} {nonces nonces' : List Nat}
    {s : Speaker Op Query Chunk} (ok : NoncesOk R nonces s) (more : nonces ⊆ nonces') :
    NoncesOk R nonces' s :=
  ⟨fun recovering => more (ok.1 recovering),
    fun receiver nonce asked mem => more (ok.2 receiver nonce asked mem)⟩

/-- What a peer that comes back holds as committed was known in the view of its
disk. -/
theorem reborn_known {Op : Type} {g : Ghost Op} {R nonce applied : Nat} {config : Config}
    {state : PersistentState Op} (kept : state.recovering = false)
    (disk : g.Known state.viewNumber state.commitNumber) (known : g.Known state.viewNumber applied) :
    g.Known state.viewNumber (Peer.reborn R config applied state nonce).commitNumber := by
  unfold Peer.reborn
  by_cases ahead : state.commitNumber < applied
  · simpa [kept, ahead] using known
  · simpa [kept, ahead] using disk

theorem Peer.TakesUp.standing {Op : Type} {p p' : Peer Op} {state : PersistentState Op}
    (takesUp : p.TakesUp state p') (view : p.viewNumber = state.viewNumber)
    (awake : p.status ≠ .recovering) :
    p'.commitNumber = p.commitNumber ∧ p'.applied = p.applied ∧ p'.status ≠ .recovering ∧
      state.viewNumber ≤ p'.viewNumber ∧ (p'.inView → p'.viewNumber = state.viewNumber) := by
  rcases takesUp with ⟨_, rfl⟩ | ⟨_, _, rfl⟩ | ⟨_, _, rfl⟩
  · refine ⟨rfl, rfl, by simp [Peer.turnTo], le_rfl, fun _ => rfl⟩
  · refine ⟨rfl, rfl, by simp [Peer.turnTo], Nat.le_succ _, ?_⟩
    rintro (status | status) <;> cases status
  · exact ⟨rfl, rfl, awake, view.ge, fun _ => view⟩

/-- A peer that was recovering when it crashed, and comes back with a new nonce. -/
theorem blank_reborn {Op : Type} {R nonce applied : Nat} {config : Config}
    {state : PersistentState Op} (recovering : state.recovering = true) :
    Blank config R nonce (Peer.reborn R config applied state nonce) := by
  unfold Peer.reborn
  constructor <;> simp [recovering]

section Crash
variable {config : Config} {sent : Nat → Set (Envelope SM)} {trails : Nat → TrailFor SM}
  {g : Ghost (Input SM)} {R : Nat} {n : Node SM}
  (ok : NodeOk R g (trails R) n) (trailsOk : TrailsOk config sent trails g)
  (inside : R < config.replicas.length) (isSent : sent R = { envelope | envelope ∈ n.sent })
include ok trailsOk inside isSent

omit isSent in
theorem NodeOk.live : ∃ said, Live config sent g R ⟨n.replica.peer, said⟩ := by
  obtain ⟨s, older, isTrail, isNow, _⟩ := ok.head
  exact ⟨s.said, isNow.peer ▸ trailsOk.live_head inside isTrail⟩

omit isSent in
theorem NodeOk.identity : n.replica.config = config ∧ n.replica.selfId = R := by
  obtain ⟨said, w, began, _, _, _, _, _, speaker⟩ := ok.live trailsOk inside
  exact ⟨speaker.config_eq, speaker.selfId_eq⟩

omit isSent in
/-- A nonce that was not used is in no message. -/
theorem NodeOk.unused {nonce : Nat} (fresh : nonce ∉ n.nonces) (receiver asked : Nat) :
    (receiver, .recovery R nonce asked) ∉ netOf config sent := by
  intro isSent
  obtain ⟨s, older, isTrail, isNow, _, _, nonces⟩ := ok.head
  have nonempty : Nonempty (SpeakerFor SM) := ⟨s⟩
  obtain ⟨system, olders, choice, isNewest⟩ := trailsOk.newest
  obtain ⟨w, began, _, _, isOk, _⟩ := trailsOk.worlds system olders choice
  obtain ⟨S, insideS, mem⟩ := isOk.said _ isSent (by simp [Message.stamp])
  have isAuthor : R = S := (isOk.speakers S insideS).said.authored _ mem R rfl
  subst isAuthor
  have isHead : system R = s := (List.cons.inj ((isNewest R inside).symm.trans isTrail)).1
  rw [isHead] at mem
  exact fresh (nonces.2 receiver nonce asked mem)

omit isSent in
/-- What a replica holds as committed is known committed. -/
theorem NodeOk.known : ∃ v, g.Known v n.replica.commitNumber := by
  obtain ⟨said, w, began, _, isMarks, _, _, _, speaker⟩ := ok.live trailsOk inside
  by_cases recovering : n.replica.status = .recovering
  · obtain ⟨before, _, _, _, v, known⟩ := speaker.recovery.began recovering
    exact ⟨v, (Ghost.known_iff isMarks).mp (known.mono before)⟩
  · exact ⟨_, (Ghost.known_iff isMarks).mp (speaker.log.known recovering)⟩

variable {newer older : List (Moment SM)} {back : Moment SM} {machine : SM} {nonce : Nat}
  {r : Replica SM} (split : n.moments = newer ++ back :: older) (persisted : back.Persisted n.disk)
  (allSaid : n.sent ⊆ back.said) (allReplied : n.yielded ⊆ back.replied)
  (run : Replica.restart R config machine n.kept n.disk nonce = some r)
include split persisted allSaid allReplied run

theorem NodeOk.restarted (kept : n.disk.recovering = false) (own : Nat → Nat → Prop) :
    ∃ g' trail', g.Le g' ∧ g'.floor = g.floor ∧ g'.Also = g.Also ∧
      TrailsOk config sent (Function.update trails R trail') g' ∧
      NodeOk R g' trail' (n.resume back older r nonce) ∧
      Backed config (netOf config sent) R own n.replica.peer g g' r.peer ∧ SameRoot (trails R) trail' := by
  obtain ⟨s, past, isTrail, isNow, traces, _, nonces⟩ := ok.head
  have allTraces := ok.traces
  rw [split] at allTraces
  obtain ⟨sb, rest, isSuffix, isBack, backTraces⟩ := allTraces.back
  have onRoot := isSuffix
  have recoverable : n.Recoverable n.disk :=
    ⟨back, by rw [split]; exact List.mem_append_right _ List.mem_cons_self, persisted, allSaid⟩
  obtain ⟨before, _, unasked⟩ := ok.looking_back trailsOk inside isSent kept recoverable
  have disk := ok.disk.disk kept
  have known : g.Known n.disk.viewNumber n.kept :=
    (ok.disk.lags kept recoverable).applied.of_le le_rfl ok.kept
  have same : { sb.peer.persistentState with commitNumber := n.disk.commitNumber } = n.disk := by
    rw [isBack.peer]
    exact persisted
  have isWhole : sb.peer.whole g.decided = n.disk.whole g.decided := by
    conv_rhs => rw [← same]
    rfl
  have allSent : ∀ envelope ∈ sent R, envelope.2.stamp ≠ none → envelope ∈ sb.said := by
    intro envelope mem stamped
    rw [isSent] at mem
    exact isBack.said envelope (allSaid mem) stamped
  have cut := trailsOk.cut isSuffix allSent
  obtain ⟨base, executed, quiet, runs, bounds, takesUp⟩ := Replica.restart_runs
    (i := hears (netOf config sent) R (fun _ => True) own) run kept
  have restarted := cut.restart inside (Function.update_self ..) same kept (isWhole ▸ disk)
    ok.disk.start known bounds takesUp
  rw [Function.update_idem] at restarted
  obtain ⟨isCommit, isApplied, awake, views, inView⟩ := takesUp.standing rfl (by
    simp [Peer.reborn, kept])
  have baseKnown : g.Known n.disk.viewNumber base.peer.commitNumber := by
    rw [isCommit]
    exact show g.Known n.disk.viewNumber (Peer.reborn R config n.kept n.disk nonce).commitNumber from
      reborn_known kept disk.known known
  have live := restarted.live_head inside (Function.update_self ..)
  have lag : Lag g n.disk.viewNumber (· ≤ base.peer.durable) base.peer := by
    obtain ⟨w, began, _, _, _, _, _, speaker⟩ := live
    exact ⟨baseKnown.of_le le_rfl speaker.log.applied,
      fun m _ committed _ => baseKnown.of_le le_rfl committed,
      fun isIn later => absurd later (inView isIn).le.not_gt⟩
  have rooted := trailsOk.rooted R inside
  rw [isTrail] at rooted isSuffix
  have unsaid : ∀ receiver nonce asked, (receiver, .recovery R nonce asked) ∈ sb.said →
      nonce ∈ n.nonces := fun receiver nonce asked mem =>
    nonces.2 receiver nonce asked (rooted.said_subset isSuffix mem)
  obtain ⟨said', steps, queued'⟩ := runs sb.said (by simp [quiet])
  have acks : OwnAcks (netOf config sent) R own base.peer := by
    apply ownAcks_zero
    have none : ∀ k ∈ (Peer.reborn R config n.kept n.disk nonce).acked, k = 0 :=
      fun k mem => List.eq_of_mem_replicate mem
    rcases takesUp with ⟨_, same⟩ | ⟨_, _, same⟩ | ⟨_, _, same⟩
    all_goals
      rw [same]
      exact none
  obtain ⟨g', older', le, floor, also, longer, ⟨nonces', keeps, backed⟩, trailsOk'⟩ :=
    restarted.steps_keep inside (Function.update_self ..) steps
      (P := fun g' s' => NoncesOk R n.nonces s' ∧
        KeepsLag R (netOf config sent) g base.peer g' s'.peer ∧
        Backed config (netOf config sent) R own n.replica.peer g g' s'.peer)
      ⟨⟨fun recovering => absurd recovering awake, unsaid⟩,
        fun v Within awake reached within unasked lag => ⟨lag, reached, awake, rfl⟩,
        .refl acks fun recovering => absurd recovering before⟩
      fun follows live live' step holds => ⟨holds.1.step step,
        holds.2.1.step follows.le live live' step, holds.2.2.step live follows step⟩
  rw [Function.update_idem] at trailsOk'
  have live' := trailsOk'.live_head inside (Function.update_self ..)
  obtain ⟨w, began, _, _, _, _, _, speaker⟩ := id live'
  obtain ⟨w₀, began₀, _, _, _, _, _, speaker₀⟩ := id live
  have onTrail : (sb :: rest) <:+ older' := by
    rcases List.suffix_cons_iff.mp longer with isSame | longer
    · rw [← (List.cons.inj isSame).2]
    · exact (List.suffix_cons _ _).trans longer
  refine ⟨g', ⟨r.peer, said'⟩ :: older', le, floor, also, trailsOk', ?_, backed,
    .of_suffix onRoot (onTrail.trans (List.suffix_cons _ _))⟩
  have inv : Owner.Inv ⟨r, n.disk, none⟩ :=
    Owner.inv_step ok.inv (.crash machine n.kept nonce ok.disk.start (by
      obtain ⟨isConfig, isId⟩ := ok.identity trailsOk inside
      rw [isConfig, isId]
      exact run))
  have keptLe : n.kept ≤ r.applied := by
    have := (moves_applied_le runs.moves ⟨speaker₀.log.start, speaker₀.log.applied⟩).1
    rw [isApplied] at this
    refine le_trans ?_ this
    show n.kept ≤ executed
    omega
  have keepsLag := keeps n.disk.viewNumber (· ≤ base.peer.durable) awake views (fun _ => id)
    unasked lag
  refine
    { inv := inv
      head := ⟨_, older', rfl, ⟨rfl, fun envelope mem stamped => ?_⟩, backTraces.further onTrail,
        queued', nonces'.weaken (List.subset_cons_self _ _)⟩
      queued := fun envelope mem => List.mem_append_right _ mem
      replies := fun reply mem => List.mem_append_right _ mem
      sent := fun envelope mem => List.mem_append_left _ (allSaid mem)
      yielded := fun reply mem => List.mem_append_left _ (allReplied mem)
      start := le_max_right _ _
      kept := max_le keptLe speaker.log.start
      disk := ⟨fun _ => disk.mono le, ok.disk.start.trans (le_max_left _ _), fun _ _ => ?_⟩
      target := fun state isTarget => ?_ }
  · rcases List.mem_append.mp mem with mem | mem
    · exact Steps.said steps (isBack.said envelope mem stamped)
    · exact queued' envelope mem
  · rw [show (n.resume back older r nonce).replica.durable = base.peer.durable from keepsLag.2.2.2]
    exact keepsLag.1
  · cases isTarget

theorem NodeOk.restarted_recovering (recovering : n.disk.recovering = true)
    (fresh : nonce ∉ n.nonces) (own : Nat → Nat → Prop) :
    ∃ g' trail', g.Le g' ∧ g'.floor = g.floor ∧ g'.Also = g.Also ∧
      TrailsOk config sent (Function.update trails R trail') g' ∧
      NodeOk R g' trail' (n.resume back older r nonce) ∧
      Backed config (netOf config sent) R own n.replica.peer g g' r.peer ∧ SameRoot (trails R) trail' := by
  obtain ⟨s, past, isTrail, isNow, traces, _, nonces⟩ := ok.head
  have allTraces := ok.traces
  rw [split] at allTraces
  obtain ⟨sb, rest, isSuffix, isBack, backTraces⟩ := allTraces.back
  have onRoot := isSuffix
  have allSent : ∀ envelope ∈ sent R, envelope.2.stamp ≠ none → envelope ∈ sb.said := by
    intro envelope mem stamped
    rw [isSent] at mem
    exact isBack.said envelope (allSaid mem) stamped
  have cut := trailsOk.cut isSuffix allSent
  have rooted := trailsOk.rooted R inside
  rw [isTrail] at rooted isSuffix
  have unsaid : ∀ receiver nonce asked, (receiver, .recovery R nonce asked) ∈ sb.said →
      nonce ∈ n.nonces := fun receiver nonce asked mem =>
    nonces.2 receiver nonce asked (rooted.said_subset isSuffix mem)
  have asleep : sb.peer.status = .recovering := by
    have : decide (back.replica.status = .recovering) = true :=
      (congrArg (·.recovering) persisted).trans recovering
    rw [isBack.peer]
    exact of_decide_eq_true this
  have view : n.disk.viewNumber = sb.peer.viewNumber := by
    rw [isBack.peer]
    exact (congrArg (·.viewNumber) persisted).symm
  obtain ⟨peer, truthful⟩ := Replica.restart_recovering
    (i := hears (netOf config sent) R (fun _ => True) own) run recovering
  obtain ⟨v, known⟩ := ok.known trailsOk inside
  have order := ok.inv.ordered
  have blank : Blank config R nonce (Peer.reborn R config n.kept n.disk nonce) :=
    blank_reborn recovering
  have again := cut.recoverAgain inside (Function.update_self ..) asleep blank view
    (ok.unused trailsOk inside fresh)
    (fun receiver asked mem => fresh (unsaid receiver nonce asked mem))
    ⟨v, known.of_le le_rfl (by
      have isKept : (Peer.reborn R config n.kept n.disk nonce).commitNumber = n.kept := by
        simp [Peer.reborn, recovering]
      rw [isKept]
      exact ok.kept.trans order.applied)⟩
  rw [Function.update_idem] at again
  obtain ⟨said', steps, queued'⟩ := steps_say sb.said r.queued truthful
  have acks : OwnAcks (netOf config sent) R own (Peer.reborn R config n.kept n.disk nonce) :=
    ownAcks_zero fun k mem => List.eq_of_mem_replicate mem
  obtain ⟨g', older', le, floor, also, longer, ⟨nonces', backed⟩, trailsOk'⟩ :=
    again.steps_keep inside (Function.update_self ..) steps
      (P := fun g' s' => NoncesOk R (nonce :: n.nonces) s' ∧
        Backed config (netOf config sent) R own n.replica.peer g g' s'.peer)
      ⟨⟨fun _ => by rw [blank.isNonce]; exact List.mem_cons_self,
        fun receiver nonce asked mem => List.mem_cons_of_mem _ (unsaid receiver nonce asked mem)⟩,
        .refl acks fun _ => blank.status⟩
      fun follows live live' step holds => ⟨holds.1.step step, holds.2.step live follows step⟩
  rw [Function.update_idem] at trailsOk'
  have onTrail : (sb :: rest) <:+ older' := by
    rcases List.suffix_cons_iff.mp longer with isSame | longer
    · rw [← (List.cons.inj isSame).2]
    · exact (List.suffix_cons _ _).trans longer
  refine ⟨g', _ :: older', le, floor, also, trailsOk', ?_, peer.symm ▸ backed,
    .of_suffix onRoot (onTrail.trans (List.suffix_cons _ _))⟩
  have inv : Owner.Inv ⟨r, n.disk, none⟩ :=
    Owner.inv_step ok.inv (.crash machine n.kept nonce ok.disk.start (by
      obtain ⟨isConfig, isId⟩ := ok.identity trailsOk inside
      rw [isConfig, isId]
      exact run))
  have applied : r.applied = n.kept := congrArg (·.applied) peer
  have logStart : r.logStart = n.kept := by
    refine (congrArg (·.logStart) peer).trans ?_
    simp [Peer.reborn, recovering]
  refine
    { inv := inv
      head := ⟨_, older', rfl, ⟨peer.symm, fun envelope mem stamped => ?_⟩,
        backTraces.further onTrail, queued', nonces'⟩
      queued := fun envelope mem => List.mem_append_right _ mem
      replies := fun reply mem => List.mem_append_right _ mem
      sent := fun envelope mem => List.mem_append_left _ (allSaid mem)
      yielded := fun reply mem => List.mem_append_left _ (allReplied mem)
      start := le_max_right _ _
      kept := max_le applied.ge (logStart.trans applied.symm).le
      disk := ⟨fun kept => ?_, ok.disk.start.trans (le_max_left _ _), fun kept => ?_⟩
      target := fun state isTarget => ?_ }
  · rcases List.mem_append.mp mem with mem | mem
    · exact Steps.said steps (isBack.said envelope mem stamped)
    · exact queued' envelope mem
  · cases recovering.symm.trans kept
  · cases recovering.symm.trans kept
  · cases isTarget

end Crash

end Vsr
