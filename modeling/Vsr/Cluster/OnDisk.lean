import Vsr.Cluster.Memory

/-!
# What is on disk

The disk of a node holds a state the node was in, by which it had queued every
message that has left and promises something.  The write that is out holds a
later one.
-/

set_option autoImplicit false

namespace Vsr

variable {SM : Type} [StateMachine SM]

namespace Node

/-- The write that is out was taken in the state `t`, no earlier than what is on
disk, and the messages that wait for it had been queued by then. -/
structure Taken (n : Node SM) (saved : List (Moment SM)) (t : Moment SM) (rest : List (Moment SM)) :
    Prop where
  remembered : (t :: rest) <:+ n.moments
  later : saved <:+ (t :: rest)
  target : n.target = some t.replica.persistentState
  waiting : ∀ envelope ∈ n.replica.outboxWaiting, envelope.2.early = false → envelope ∈ t.said
  outstanding : ∀ out, n.replica.outstanding = some out →
    out.opNumber = t.replica.opNumber ∧ out.lastNormalView = t.replica.lastNormalView

/-- The disk holds the state `d`, and what has left since promises nothing. -/
structure Saved (n : Node SM) (d : Moment SM) (older : List (Moment SM)) : Prop where
  remembered : (d :: older) <:+ n.moments
  persisted : d.Persisted n.disk
  left : ∀ envelope, envelope ∈ n.sent ∨ envelope ∈ n.replica.outboxReady →
    envelope.2.early = false → envelope ∈ d.said
  out : n.out ≠ none → ∃ t rest, n.Taken (d :: older) t rest

/-- What a call leaves of the messages that wait for a write, and of the write. -/
structure Stays (r r' : Replica SM) : Prop where
  waiting : r'.outboxWaiting = r.outboxWaiting
  ready : r'.outboxReady ⊆ r.outboxReady
  outstanding : r'.outstanding = r.outstanding

theorem Stays.handles {heard : MessageFor SM → Prop} {r r' : Replica SM}
    (handles : Replica.Handles heard r r') (settled : r.Settled)
    (runs : Replica.Runs Owner.anything r r') : Stays r r' where
  waiting := (handles.pledges settled).waiting
  ready := (handles.pledges settled).ready ▸ List.Subset.refl _
  outstanding := Owner.moves_outstanding runs.moves

section Saved
variable {n : Node SM} {d : Moment SM} {older : List (Moment SM)} (saved : n.Saved d older)
include saved

/-- A call of the replica, and what is drained in it. -/
theorem Saved.advanced {r : Replica SM} (stays : Stays n.replica r) {sent : List (Envelope SM)}
    {yielded : List (Reply (Output SM))}
    (left : ∀ envelope ∈ sent, envelope.2.early = false →
      envelope ∈ n.sent ∨ envelope ∈ n.replica.outboxReady) :
    { n.advance r with sent := sent, yielded := yielded }.Saved d older where
  remembered := saved.remembered.trans (List.suffix_cons _ _)
  persisted := saved.persisted
  left envelope mem late := by
    rcases mem with mem | mem
    · exact saved.left envelope (left envelope mem late) late
    · exact saved.left envelope (.inr (stays.ready mem)) late
  out isOut := by
    obtain ⟨t, rest, taken⟩ := saved.out isOut
    refine ⟨t, rest, taken.remembered.trans (List.suffix_cons _ _), taken.later, taken.target,
      fun envelope mem => taken.waiting envelope (stays.waiting ▸ mem), fun out isOutstanding => ?_⟩
    exact taken.outstanding out (stays.outstanding.symm.trans isOutstanding)

theorem Saved.takes (tracks : Tracks n.disk n.replica.peer) (queued : n.replica.queued ⊆ n.said)
    {r : Replica SM} {write : LogWrite (Input SM)}
    (run : n.replica.takeWrite = some (r, write)) :
    { n.advance r with out := some (write, false) }.Saved d older where
  remembered := saved.remembered.trans (List.suffix_cons _ _)
  persisted := saved.persisted
  left envelope mem late := by
    refine saved.left envelope (mem.imp id fun ready => ?_) late
    have same : r.outboxReady = n.replica.outboxReady := (Replica.takeWrite_outboxes run).2.2.2.1
    exact same ▸ ready
  out _ := by
    obtain ⟨_, _, waiting, _⟩ := Replica.takeWrite_outboxes run
    obtain ⟨_, durable, _, peer, _⟩ := Replica.takeWrite_cases run
    refine ⟨n.now, n.past, List.suffix_cons _ _, saved.remembered, takeWrite_apply run tracks,
      fun envelope mem _ => ?_, fun out isOut => ?_⟩
    · have outbox : envelope ∈ n.replica.outbox := waiting ▸ mem
      apply queued
      simp only [Replica.queued, List.mem_append]
      exact .inl (.inl (.inr outbox))
    · have isOutstanding : r.peer.outstanding = some out := isOut
      rw [peer] at isOutstanding
      cases isOutstanding
      exact ⟨rfl, rfl⟩

theorem Saved.taken {write : LogWrite (Input SM)} {landed : Bool}
    (isOut : n.out = some (write, landed)) : ∃ t rest, n.Taken (d :: older) t rest :=
  saved.out (by simp [isOut])

theorem Saved.lands (more : SaidMore n.moments) {write : LogWrite (Input SM)}
    {disk : PersistentState (Input SM)} (isOut : n.out = some (write, false))
    (run : n.disk.apply write = some disk) :
    ∃ t rest, (d :: older) <:+ (t :: rest) ∧
      { n with disk := disk, out := some (write, true) }.Saved t rest := by
  obtain ⟨t, rest, taken⟩ := saved.taken isOut
  have isTarget : n.target = some disk := by
    unfold Owner.target
    rw [isOut]
    exact run
  have isDisk : t.replica.persistentState = disk :=
    Option.some.inj (taken.target.symm.trans isTarget)
  refine ⟨t, rest, taken.later, taken.remembered, ?_, fun envelope mem late => ?_, fun _ => ?_⟩
  · show { t.replica.persistentState with commitNumber := disk.commitNumber } = disk
    rw [← isDisk]
  · exact more.older taken.remembered taken.later (saved.left envelope mem late)
  · refine ⟨t, rest, taken.remembered, List.suffix_rfl, ?_, taken.waiting, taken.outstanding⟩
    exact congrArg some isDisk.symm

omit saved in
/-- What is on disk once the write need not wait any more. -/
theorem Taken.persisted {saved : List (Moment SM)} {t : Moment SM} {rest : List (Moment SM)}
    (taken : n.Taken saved t rest) (inv : Owner.Inv n.toOwner) {write : LogWrite (Input SM)}
    {landed : Bool} (isOut : n.out = some (write, landed))
    (durable : landed = true ∨ write.sync = false) : t.Persisted n.disk := by
  obtain ⟨_, target, _, _, hasLanded, lands⟩ := inv.during write landed isOut
  have isTarget := taken.target
  unfold Owner.target at isTarget
  rw [isOut] at isTarget
  unfold Moment.Persisted
  cases landed with
  | true =>
      have isDisk : n.disk = t.replica.persistentState := Option.some.inj isTarget
      rw [isDisk]
  | false =>
      obtain ⟨applied, noSync⟩ := lands rfl
      have same := noSync (durable.resolve_left (by simp))
      have isState : target = t.replica.persistentState :=
        Option.some.inj (applied.symm.trans isTarget)
      rw [← isState, ← same]

/-- Once the write need not wait any more, the disk holds what it was taken of. -/
theorem Saved.settled (inv : Owner.Inv n.toOwner) (more : SaidMore n.moments)
    {write : LogWrite (Input SM)} {landed : Bool} (isOut : n.out = some (write, landed))
    (durable : landed = true ∨ write.sync = false) :
    ∃ t rest, n.Taken (d :: older) t rest ∧ n.Saved t rest := by
  obtain ⟨t, rest, taken⟩ := saved.taken isOut
  refine ⟨t, rest, taken, taken.remembered, taken.persisted inv isOut durable,
    fun envelope mem late => ?_, fun _ => ⟨t, rest, { taken with later := List.suffix_rfl }⟩⟩
  exact more.older taken.remembered taken.later (saved.left envelope mem late)

theorem Saved.handsBack (vouched : Owner.Vouched n.toOwner) (more : SaidMore n.moments)
    {r : Replica SM} {write : LogWrite (Input SM)} {landed : Bool}
    (isOut : n.out = some (write, landed)) (durable : landed = true ∨ write.sync = false)
    (run : n.replica.persisted write = some r) :
    ∃ t rest, (d :: older) <:+ (t :: rest) ∧ { n.advance r with out := none }.Saved t rest := by
  obtain ⟨t, rest, taken, settled⟩ := saved.settled vouched.inv more isOut durable
  refine ⟨t, rest, taken.later, taken.remembered.trans (List.suffix_cons _ _), settled.persisted,
    fun envelope mem late => ?_, fun isOut => ?_⟩
  · obtain ⟨outstanding, executed, _, _, moves, isExecuted⟩ := Replica.persisted_moves run
    have handles : Replica.Handles (fun _ => True) (n.replica.handedBack outstanding) executed :=
      .moves moves
    have pledges := handles.pledges vouched.settled
    rcases mem with mem | mem
    · exact settled.left envelope (.inl mem) late
    · have ready : envelope ∈ r.outboxReady := mem
      have released : r.outboxReady = executed.outboxReady ++ executed.outboxWaiting := by
        rw [isExecuted]
        rfl
      rw [released, pledges.ready, pledges.waiting] at ready
      rcases List.mem_append.mp ready with ready | waiting
      · exact settled.left envelope (.inr ready) late
      · exact taken.waiting envelope waiting late
  · exact absurd rfl isOut

end Saved

/-- A replica that is back holds what it comes back from. -/
theorem saved_resume {n : Node SM} {older : List (Moment SM)} {back : Moment SM}
    (persisted : back.Persisted n.disk) (allSaid : n.sent ⊆ back.said) {machine : SM} {nonce : Nat}
    {r : Replica SM}
    (run : Replica.restart n.replica.selfId n.replica.config machine n.kept n.disk nonce = some r) :
    (n.resume back older r nonce).Saved back older where
  remembered := List.suffix_cons _ _
  persisted := persisted
  left envelope mem _ := by
    obtain ⟨base, fresh⟩ := Owner.restart_fresh run
    rcases mem with mem | mem
    · exact allSaid mem
    · have ready : envelope ∈ r.outboxReady := mem
      rw [fresh.pledges.ready, fresh.ready] at ready
      cases ready
  out isOut := absurd rfl isOut

theorem saved_start {selfId : Nat} {config : Config} {machine : SM} {r : Replica SM}
    (run : Replica.new selfId config machine = some r) :
    (Node.start r).Saved (Node.start r).now [] where
  remembered := List.suffix_rfl
  persisted := by
    obtain ⟨_, rfl⟩ := Replica.new_eq run
    rfl
  left envelope mem _ := by
    obtain ⟨_, rfl⟩ := Replica.new_eq run
    rcases mem with mem | mem <;> cases mem
  out isOut := absurd rfl isOut

/-- What becomes of what is on disk: it stays, or what was written lands, or a
crash goes back to a state the disk holds. -/
theorem Step.saved {setting : Setting SM} {hears : MessageFor SM → Prop} {n n' : Node SM}
    (orderly : setting.orderly) (lossless : ¬setting.diskLoss) {R : Nat} {g : Ghost (Input SM)}
    {trail : TrailFor SM} (ok : NodeOk R g trail n) (vouched : Owner.Vouched n.toOwner)
    (more : SaidMore n.moments) {d : Moment SM} {older : List (Moment SM)}
    (saved : n.Saved d older) (step : Step setting hears n n') :
    ∃ d' older', n'.Saved d' older' ∧ ((d :: older) <:+ (d' :: older') ∨
      (d' :: older') <:+ n.moments ∧ d'.Persisted n.disk) := by
  have several := Owner.quorum_two (Owner.several_of_inv vouched.inv)
  have stays : ∀ {r : Replica SM}, Stays n.replica r →
      ∃ d' older', (n.advance r).Saved d' older' ∧ ((d :: older) <:+ (d' :: older') ∨
        (d' :: older') <:+ n.moments ∧ d'.Persisted n.disk) := fun stays =>
    ⟨d, older, saved.advanced stays fun _ mem _ => .inl mem, .inl List.suffix_rfl⟩
  cases step with
  | message message heard run =>
      have heeds : Owner.anything.heard message := trivial
      have handles := Replica.onMessage_handles run several heeds vouched.fetches
      exact stays (.handles handles vouched.settled
        (Replica.onMessage_runs run several trivial fun _ _ => trivial))
  | @idle r run =>
      have handles : Replica.Handles Owner.anything.heard n.replica r := Replica.onIdle_handles run
      exact stays (.handles handles vouched.settled (Replica.onIdle_runs run))
  | compact opNumber durable run =>
      rcases Replica.compact_effect run with rfl | ⟨_, _, _, _, _, rfl⟩
      · exact stays ⟨rfl, List.Subset.refl _, rfl⟩
      · exact stays ⟨rfl, List.Subset.refl _, rfl⟩
  | keep opNumber more applied =>
      refine ⟨d, older, ⟨saved.remembered, saved.persisted, saved.left, fun isOut => ?_⟩,
        .inl List.suffix_rfl⟩
      obtain ⟨t, rest, taken⟩ := saved.out isOut
      exact ⟨t, rest, taken.remembered, taken.later, taken.target, taken.waiting, taken.outstanding⟩
  | take free run =>
      exact ⟨d, older, saved.takes (ok.inv.between free).tracks ok.queued run, .inl List.suffix_rfl⟩
  | land isOut run =>
      obtain ⟨t, rest, later, landed⟩ := saved.lands more isOut run
      exact ⟨t, rest, landed, .inl later⟩
  | handBack isOut durable run =>
      obtain ⟨t, rest, later, back⟩ := saved.handsBack vouched more isOut durable run
      exact ⟨t, rest, back, .inl later⟩
  | drainBeforePersist =>
      have drains : Stays n.replica n.replica.drainMessagesBeforePersist.1 :=
        ⟨rfl, List.Subset.refl _, rfl⟩
      refine ⟨d, older, saved.advanced drains fun envelope mem late => ?_,
        .inl List.suffix_rfl⟩
      rcases List.mem_append.mp mem with mem | mem
      · exact .inl mem
      · cases late.symm.trans (vouched.early envelope mem)
  | drain =>
      have drains : Stays n.replica n.replica.drainMessages.1 := ⟨rfl, List.nil_subset _, rfl⟩
      refine ⟨d, older, saved.advanced drains fun envelope mem late => ?_,
        .inl List.suffix_rfl⟩
      rcases List.mem_append.mp mem with mem | mem
      · exact .inl mem
      · rcases List.mem_append.mp mem with mem | mem
        · cases late.symm.trans (vouched.early envelope mem)
        · exact .inr mem
  | drainReplies =>
      have drains : Stays n.replica n.replica.drainReplies.1 := ⟨rfl, List.Subset.refl _, rfl⟩
      exact ⟨d, older, saved.advanced drains fun _ mem _ => .inl mem, .inl List.suffix_rfl⟩
  | crash newer rest back split isOrderly machine comesBack nonce fresh run =>
      obtain ⟨persisted, allSaid, _⟩ := isOrderly orderly
      refine ⟨back, rest, saved_resume persisted allSaid run, .inr ⟨?_, persisted⟩⟩
      rw [split]
      exact List.suffix_append _ _
  | lose allowed => exact absurd allowed lossless

end Node

end Vsr
