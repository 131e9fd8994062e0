import Vsr.Cluster.Invariant

/-!
# Calls keep what holds

A call of the owner, a write taken or handed back, and a drain.
-/

set_option autoImplicit false

namespace Vsr

open Relation (ReflTransGen)

variable {SM : Type} [StateMachine SM]

theorem LogMove.applied_le {Op : Type} {p p' : Peer Op} (move : LogMove p p') (order : p.Ordered) :
    p.applied ≤ p'.applied := by
  cases move with
  | stay log logStart writes applied => exact applied
  | restore opNumber beyond => exact (order.applied.trans beyond.le)
  | _ => exact le_rfl

theorem moves_applied_le {Op : Type} {p p' : Peer Op} (moves : ReflTransGen LogMove p p')
    (order : p.Ordered) : p.applied ≤ p'.applied ∧ p'.Ordered := by
  induction moves with
  | refl => exact ⟨le_rfl, order⟩
  | tail _ move ih => exact ⟨ih.1.trans (move.applied_le ih.2), move.ordered ih.2⟩

theorem Owner.Inv.ordered {o : Owner SM} (inv : Owner.Inv o) : o.replica.peer.Ordered := by
  cases isOut : o.out with
  | none => exact (inv.between isOut).ordered
  | some out =>
      obtain ⟨_, _, sound, _⟩ := inv.during out.1 out.2 isOut
      exact sound.ordered

section Advance
variable {config : Config} {sent : Nat → Set (Envelope SM)} {trails : Nat → TrailFor SM}
  {g : Ghost (Input SM)} {R : Nat} {n : Node SM}

/-- The copy as it stands once the replica has gone on. -/
theorem Copy.goes_on {g' : Ghost (Input SM)} {n' : Node SM} {p p' : Peer (Input SM)}
    {said : Set (Envelope SM)} {Within : Nat → Prop} {state : PersistentState (Input SM)}
    (copy : Copy g n p Within state) (le : g.Le g') (past : n'.past = n.moments)
    (more : n.sent ⊆ n'.sent) (kept : n.kept ≤ n'.kept) (isPeer : n'.replica.peer = p')
    (live : Live config sent g' R ⟨p', said⟩)
    (lag : state.recovering = false → n.Recoverable state → Lag g state.viewNumber Within p →
      Lag g' state.viewNumber Within p') : Copy g' n' p' Within state where
  disk recovering := (copy.disk recovering).mono le
  start := copy.start.trans kept
  lags recovering recoverable := by
    obtain ⟨b, isMoment, persisted, allSaid⟩ := recoverable
    rcases List.mem_cons.mp isMoment with rfl | isMoment
    · -- The disk holds the state the replica is in now.
      have view : state.viewNumber = p'.viewNumber := by
        rw [← isPeer]
        exact (congrArg (·.viewNumber) persisted).symm
      have awake : p'.status ≠ .recovering := by
        have : decide (n'.replica.status = .recovering) = false :=
          (congrArg (·.recovering) persisted).trans recovering
        rw [← isPeer]
        exact of_decide_eq_false this
      rw [view]
      exact live.lag awake
    · rw [past] at isMoment
      have before : n.Recoverable state :=
        ⟨b, isMoment, persisted, fun _ mem => allSaid (more mem)⟩
      exact lag recovering before (copy.lags recovering before)

theorem NodeOk.advanced (ok : NodeOk R g (trails R) n) (trailsOk : TrailsOk config sent trails g)
    (inside : R < config.replicas.length) (isSent : sent R = { envelope | envelope ∈ n.sent })
    {offered : EntryFor SM → Prop} {own : Nat → Nat → Prop} {r₀ r : Replica SM}
    (writes : r₀.peer = { n.replica.peer with toWriteState := r₀.toWriteState })
    (unsent : ∀ envelope ∈ r₀.queued, envelope ∈ n.replica.queued)
    (runs : Replica.Runs (hears (netOf config sent) R offered own) r₀ r)
    (acks : OwnAcks (netOf config sent) R own r₀.peer)
    {out : Option (LogWrite (Input SM) × Bool)} {sent' : List (Envelope SM)}
    {yielded : List (Reply (Output SM))} (inv : Owner.Inv ⟨r, n.disk, out⟩)
    (more : n.sent ⊆ sent') (drained : sent' ⊆ n.said) (yields : yielded ⊆ n.replied)
    (disk : Copy g n r₀.peer (· ≤ r₀.durable) n.disk)
    (target : ∀ state, Owner.target ⟨r, n.disk, out⟩ = some state →
      Copy g n r₀.peer (fun _ => True) state) :
    ∃ g' trail', g.Le g' ∧ g'.floor = g.floor ∧ g'.Also = g.Also ∧ trails R <:+ trail' ∧
      TrailsOk config (Function.update sent R { envelope | envelope ∈ sent' })
        (Function.update trails R trail') g' ∧
      NodeOk R g' trail' { n.advance r with out := out, sent := sent', yielded := yielded } ∧
      Backed config (netOf config sent) R own n.replica.peer g g' r.peer := by
  obtain ⟨s, older, isTrail, isNow, traces, queued, nonces⟩ := ok.head
  have isPeer : s.peer = n.replica.peer := isNow.peer
  have start : (⟨{ s.peer with toWriteState := r₀.toWriteState }, s.said⟩ : SpeakerFor SM) =
      ⟨r₀.peer, s.said⟩ := by
    rw [writes, isPeer]
  have paced := trailsOk.setWrites inside isTrail r₀.toWriteState
  rw [start] at paced
  have nonce : r₀.peer.status = .recovering → r₀.peer.recoveryNonce ∈ n.nonces := by
    rw [writes, ← isPeer]
    exact nonces.1
  have status : r₀.peer.status = n.replica.peer.status := by
    rw [writes]
  obtain ⟨said', steps, queued'⟩ := runs s.said fun envelope mem => queued envelope (unsent envelope mem)
  obtain ⟨g', older', le, floor, also, isSuffix, ⟨nonces', keeps, backed⟩, trailsOk'⟩ :=
    paced.steps_keep inside (Function.update_self ..) steps
      (P := fun g' s' => NoncesOk R n.nonces s' ∧
        KeepsLag R (netOf config sent) g r₀.peer g' s'.peer ∧
        Backed config (netOf config sent) R own n.replica.peer g g' s'.peer)
      ⟨⟨nonce, nonces.2⟩,
        fun v Within awake reached within unasked lag => ⟨lag, reached, awake, rfl⟩,
        .refl acks fun recovering => status.trans recovering⟩
      fun follows live live' step holds => ⟨holds.1.step step,
        holds.2.1.step follows.le live live' step, holds.2.2.step live follows step⟩
  rw [Function.update_idem] at trailsOk'
  have saidSubset := Steps.said steps
  have live' := trailsOk'.live_head inside (Function.update_self ..)
  obtain ⟨w, began, _, _, _, _, _, speaker⟩ := id live'
  have longer : (s :: older) <:+ older' := by
    rcases List.suffix_cons_iff.mp isSuffix with same | longer
    · rw [← (List.cons.inj same).2]
    · exact (List.suffix_cons _ _).trans longer
  have ordered : r₀.peer.Ordered := by
    rw [writes]
    exact ⟨ok.inv.ordered.start, ok.inv.ordered.applied⟩
  have appliedLe : n.replica.applied ≤ r.applied := by
    have := (moves_applied_le runs.moves ordered).1
    rw [writes] at this
    exact this
  have lags : ∀ {Within : Nat → Prop} {state : PersistentState (Input SM)},
      (∀ m ≤ r₀.durable, Within m) → state.recovering = false → n.Recoverable state →
      Lag g state.viewNumber Within r₀.peer → Lag g' state.viewNumber Within r.peer := by
    intro Within state within recovering recoverable lag
    obtain ⟨awake, reached, unasked⟩ :=
      ok.looking_back trailsOk inside isSent recovering recoverable
    refine (keeps state.viewNumber Within ?_ ?_ within unasked lag).1
    · rw [writes]
      exact awake
    · rw [writes]
      exact reached
  refine ⟨g', ⟨r.peer, said'⟩ :: older', le, floor, also, ?_, ?_, ?_, backed⟩
  · rw [isTrail]
    exact longer.trans (List.suffix_cons _ _)
  · refine trailsOk'.send (fun S envelope mem => ?_) fun S insideS => ?_
    · rcases eq_or_ne S R with rfl | other
      · rw [Function.update_self]
        rw [isSent] at mem
        exact more mem
      · rwa [Function.update_of_ne other]
    · rcases eq_or_ne S R with rfl | other
      · refine ⟨_, _, Function.update_self .., fun envelope mem stamped => ?_⟩
        rw [Function.update_self] at mem
        exact saidSubset (isNow.said envelope (drained mem) stamped)
      · rw [Function.update_of_ne other, Function.update_of_ne other]
        exact trailsOk.live S insideS
  · refine
      { inv := inv
        head := ⟨_, older', rfl, ⟨rfl, fun envelope mem stamped => ?_⟩,
          (Traces.hit isNow traces).further longer, queued', nonces'⟩
        queued := fun envelope mem => List.mem_append_right _ mem
        replies := fun reply mem => List.mem_append_right _ mem
        sent := fun envelope mem => List.mem_append_left _ (drained mem)
        yielded := fun reply mem => List.mem_append_left _ (yields mem)
        start := le_max_right _ _
        kept := max_le (ok.kept.trans appliedLe) speaker.log.start
        disk := ?_
        target := fun state isTarget => ?_ }
    · rcases List.mem_append.mp mem with mem | mem
      · exact saidSubset (isNow.said envelope mem stamped)
      · exact queued' envelope mem
    · have durable : r.durable = r₀.durable := moves_durable runs.moves
      show Copy g' _ r.peer (· ≤ r.durable) n.disk
      rw [durable]
      exact disk.goes_on le rfl more (le_max_left _ _) rfl live'
        (lags fun m within => within)
    · exact (target state isTarget).goes_on le rfl more (le_max_left _ _) rfl live'
        (lags fun _ _ => trivial)

/-! ## Writes -/

/-- The pace of the writes is nothing to what a replica is. -/
theorem Live.setWrites {p : Peer (Input SM)} {said : Set (Envelope SM)}
    (live : Live config sent g R ⟨p, said⟩) (writes : WriteState) :
    Live config sent g R ⟨{ p with toWriteState := writes }, said⟩ := by
  obtain ⟨w, began, isDecided, isMarks, valid, messages, floor, speaker⟩ := live
  exact ⟨w, began, isDecided, isMarks, valid, messages, floor, speaker.config_eq, speaker.selfId_eq,
    speaker.log, speaker.view, speaker.acks, speaker.change, speaker.fetch, speaker.recovery,
    speaker.serving, speaker.said⟩

/-- What a replica would write now. -/
theorem Live.diskOk {p : Peer (Input SM)} {said : Set (Envelope SM)}
    (live : Live config sent g R ⟨p, said⟩) (awake : p.status ≠ .recovering) :
    g.DiskOk p.persistentState (p.persistentState.whole g.decided) := by
  obtain ⟨w, began, isDecided, isMarks, _, _, _, speaker⟩ := live
  have log := speaker.log
  refine ⟨log.start.trans log.applied, (Ghost.known_iff isMarks).mp (log.known awake), ?_, ?_⟩
  · show p.commitNumber ≤ (p.whole g.decided).length
    rw [← isDecided, log.length_whole]
    exact log.committed
  · show (p.whole g.decided).take p.commitNumber = g.decided.take p.commitNumber
    rw [← isDecided]
    exact log.agrees

theorem Lag.weaken {v : Nat} {Within Within' : Nat → Prop} {p : Peer (Input SM)}
    (lag : Lag g v Within p) (less : ∀ m, Within' m → Within m) : Lag g v Within' p where
  applied := lag.applied
  committed m within := lag.committed m (less m within)
  beyond inView later m within := lag.beyond inView later m (less m within)

/-- A write taken holds the log as memory does up to where it had changed. -/
theorem Lag.take {v durable : Nat} {p p' : Peer (Input SM)}
    (lag : Lag g v (· ≤ p.durable) p) (standing : p'.toStanding = p.toStanding)
    (isDurable : p.durableOp = some durable) (same : p'.durable = durable) :
    Lag g v (· ≤ p'.durable) p' := by
  have known : ∀ m ≤ p'.durable, m ≤ p.durable ∧ p.Unchanged m := by
    intro m within
    rw [same] at within
    exact Peer.unchanged_durable isDurable within
  have applied : p'.applied = p.applied := by rw [standing]
  have commit : p'.commitNumber = p.commitNumber := by rw [standing]
  have view : p'.viewNumber = p.viewNumber := by rw [standing]
  have inView : p'.inView → p.inView := by
    unfold Peer.inView
    rw [standing]
    exact id
  exact
    { applied := applied ▸ lag.applied
      committed := fun m within committed _ =>
        lag.committed m (known m within).1 (commit ▸ committed) (known m within).2
      beyond := fun isIn later m within _ =>
        lag.beyond (inView isIn) (view ▸ later) m (known m within).1 (known m within).2 }

/-- Handing a write back changes nothing in memory. -/
theorem Lag.handBack {v : Nat} {Within : Nat → Prop} {p p' : Peer (Input SM)}
    (lag : Lag g v Within p) (standing : p'.toStanding = p.toStanding)
    (changed : p'.logChangedFrom = p.logChangedFrom) : Lag g v Within p' := by
  have inView : p'.inView → p.inView := by
    unfold Peer.inView
    rw [standing]
    exact id
  have unchanged : ∀ {m : Nat}, p'.Unchanged m → p.Unchanged m := by
    unfold Peer.Unchanged
    rw [changed]
    exact id
  exact
    { applied := by rw [standing]; exact lag.applied
      committed := fun m within committed same =>
        lag.committed m within (by rwa [standing] at committed) (unchanged same)
      beyond := fun isIn later m within same =>
        lag.beyond (inView isIn) (by rwa [standing] at later) m within (unchanged same) }

end Advance

end Vsr
