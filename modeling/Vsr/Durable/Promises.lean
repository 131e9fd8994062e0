import Vsr.Durable.Owner
import Vsr.Replica.Effects

/-!
# What messages promise survives crashes

A message that promises something about the view its sender is in leaves only once
the disk backs it, and a replica that comes back from that disk keeps the promise.
-/

set_option autoImplicit false

namespace Vsr

open Relation (ReflTransGen)

namespace Message
variable {Op Query Chunk : Type}

/-- The view for which a message promises something about its sender. -/
def promises : Message Op Query Chunk → Option Nat
  | .prepareOk viewNumber _ _ => some viewNumber
  | .startViewChange viewNumber _ => some viewNumber
  | .doViewChange viewNumber _ _ _ _ => some viewNumber
  | .startView viewNumber _ _ => some viewNumber
  | .recoveryResponse viewNumber _ _ _ => some viewNumber
  | _ => none

/-- The view a message is a vote in. -/
def votes : Message Op Query Chunk → Option Nat
  | .prepareOk viewNumber _ _ => some viewNumber
  | .startViewChange viewNumber _ => some viewNumber
  | .doViewChange viewNumber _ _ _ _ => some viewNumber
  | _ => none

end Message

/-- A persisted state backs what a message promises. -/
def PersistentState.Backs {Op Query Chunk : Type} (state : PersistentState Op) :
    Message Op Query Chunk → Prop
  | .prepareOk viewNumber _ _ =>
      viewNumber ≤ state.viewNumber ∧ viewNumber ≤ state.lastNormalView ∧ state.recovering = false
  | .startViewChange viewNumber _ => viewNumber ≤ state.viewNumber
  | .doViewChange viewNumber _ _ _ _ => viewNumber ≤ state.viewNumber
  | .startView viewNumber _ _ =>
      viewNumber ≤ state.viewNumber ∧ viewNumber ≤ state.lastNormalView
  | .recoveryResponse viewNumber _ _ _ =>
      viewNumber ≤ state.viewNumber ∧ state.recovering = false
  | _ => True

theorem PersistentState.Backs.view {Op Query Chunk : Type} {state : PersistentState Op}
    {message : Message Op Query Chunk} (backs : state.Backs message) {viewNumber : Nat}
    (promises : message.promises = some viewNumber) : viewNumber ≤ state.viewNumber := by
  cases message <;> cases promises
  · exact backs.1
  · exact backs
  · exact backs
  · exact backs.1
  · exact backs.1

/-- A later state backs what an earlier one does. -/
theorem PersistentState.Backs.later {Op Query Chunk : Type} {state later : PersistentState Op}
    {message : Message Op Query Chunk} (backs : state.Backs message)
    (view : state.viewNumber ≤ later.viewNumber)
    (lastNormal : min state.viewNumber state.lastNormalView ≤ later.lastNormalView)
    (recovering : later.recovering = true → state.recovering = true) : later.Backs message := by
  have awake : state.recovering = false → later.recovering = false := by
    intro awake
    cases isLater : later.recovering with
    | false => rfl
    | true => cases awake.symm.trans (recovering isLater)
  cases message <;> simp only [Backs] at backs ⊢
  · exact ⟨backs.1.trans view, (le_min backs.1 backs.2.1).trans lastNormal, awake backs.2.2⟩
  · exact backs.trans view
  · exact backs.trans view
  · exact ⟨backs.1.trans view, (le_min backs.1 backs.2).trans lastNormal⟩
  · exact ⟨backs.1.trans view, awake backs.2⟩

namespace Replica

variable {SM : Type} [StateMachine SM] {heard : MessageFor SM → Prop} {r r' : Replica SM}

/-- In a view that has started, the replica has been normal. -/
def Settled (r : Replica SM) : Prop :=
  r.status = .normal ∨ r.status = .stateTransfer → r.viewNumber ≤ r.lastNormalView

/-- What a step may do to the promises of a replica: it moves on only, and queues
messages whose promises hold in the state it comes to, for views no earlier than
the one it was in. -/
structure Pledges (r r' : Replica SM) : Prop where
  view : r.viewNumber ≤ r'.viewNumber
  lastNormal : min r.viewNumber r.lastNormalView ≤ r'.lastNormalView
  recovering : r'.status = .recovering → r.status = .recovering
  outbox : ∃ kept new, r'.outbox = kept ++ new ∧ kept.Sublist r.outbox ∧
    ∀ envelope ∈ new, r'.persistentState.Backs envelope.2 ∧
      ∀ viewNumber, envelope.2.promises = some viewNumber → r.viewNumber ≤ viewNumber
  early : ∀ envelope ∈ r'.outboxEarly, envelope ∈ r.outboxEarly ∨ envelope.2.early = true
  waiting : r'.outboxWaiting = r.outboxWaiting
  ready : r'.outboxReady = r.outboxReady
  settled : r'.Settled

theorem Pledges.backs (pledges : Pledges r r') {message : MessageFor SM}
    (backs : r.persistentState.Backs message) : r'.persistentState.Backs message := by
  refine backs.later pledges.view pledges.lastNormal fun recovering => ?_
  exact decide_eq_true (pledges.recovering (of_decide_eq_true recovering))

theorem Pledges.trans {m : Replica SM} (first : Pledges r m) (second : Pledges m r') :
    Pledges r r' := by
  obtain ⟨kept, new, outbox, old, backed⟩ := first.outbox
  obtain ⟨kept', new', outbox', old', backed'⟩ := second.outbox
  rw [outbox] at old'
  obtain ⟨stays, added, isKept, fromKept, fromNew⟩ := List.sublist_append_iff.mp old'
  refine ⟨first.view.trans second.view, ?_, fun asleep => first.recovering (second.recovering asleep),
    ⟨stays, added ++ new', ?_, fromKept.trans old, fun envelope mem => ?_⟩,
    fun envelope mem => ?_, second.waiting.trans first.waiting, second.ready.trans first.ready, second.settled⟩
  · exact (le_min ((min_le_left _ _).trans first.view) first.lastNormal).trans second.lastNormal
  · rw [outbox', isKept, List.append_assoc]
  · rcases List.mem_append.mp mem with earlier | later
    · obtain ⟨backs, views⟩ := backed envelope (fromNew.subset earlier)
      exact ⟨second.backs backs, views⟩
    · obtain ⟨backs, views⟩ := backed' envelope later
      exact ⟨backs, fun viewNumber promises => first.view.trans (views viewNumber promises)⟩
  · rcases second.early envelope mem with old | new
    · exact first.early envelope old
    · exact .inr new

/-- Nothing that a promise rests on changes. -/
theorem Pledges.still (settled : r.Settled) (status : r'.status = r.status)
    (view : r'.viewNumber = r.viewNumber) (lastNormal : r'.lastNormalView = r.lastNormalView)
    (early : ∀ envelope ∈ r'.outboxEarly, envelope ∈ r.outboxEarly ∨ envelope.2.early = true)
    (outbox : r'.outbox = r.outbox) (waiting : r'.outboxWaiting = r.outboxWaiting)
    (ready : r'.outboxReady = r.outboxReady) : Pledges r r' where
  view := view.ge
  lastNormal := lastNormal ▸ min_le_right _ _
  recovering asleep := status.symm.trans asleep
  outbox := ⟨r'.outbox, [], (List.append_nil _).symm, outbox ▸ .refl _, nofun⟩
  early := early
  waiting := waiting
  ready := ready
  settled started := by
    rw [status] at started
    rw [view, lastNormal]
    exact settled started

theorem Pledges.refl (settled : r.Settled) : Pledges r r :=
  .still settled rfl rfl rfl (fun _ mem => .inl mem) rfl rfl rfl

/-- A message queued where its promise holds. -/
theorem Pledges.send (settled : r.Settled) (replicaId : Nat) {message : MessageFor SM}
    (backs : r.persistentState.Backs message)
    (views : ∀ viewNumber, message.promises = some viewNumber → r.viewNumber ≤ viewNumber) :
    Pledges r (r.send replicaId message) := by
  unfold Replica.send
  split
  · next early =>
    refine .still settled rfl rfl rfl (fun envelope mem => ?_) rfl rfl rfl
    rcases List.mem_append.mp mem with old | new
    · exact .inl old
    · rw [List.mem_singleton] at new
      subst new
      exact .inr early
  · refine ⟨le_rfl, min_le_right _ _, id, ⟨r.outbox, [(replicaId, message)], rfl, .refl _, ?_⟩,
      fun _ mem => .inl mem, rfl, rfl, settled⟩
    intro envelope mem
    rw [List.mem_singleton] at mem
    subst mem
    exact ⟨backs, views⟩

theorem Pledges.quiet (settled : r.Settled) (same : Quiet r r') : Pledges r r' := by
  refine .still settled ?_ ?_ ?_ (fun _ mem => .inl (same.early ▸ mem)) same.outbox same.waiting
    same.ready <;> rw [same.standing]

theorem Pledges.executed (settled : r.Settled) (executed : Executed r r') : Pledges r r' := by
  refine .still settled ?_ ?_ ?_ (fun _ mem => .inl (executed.early ▸ mem)) executed.outbox
    executed.waiting executed.ready <;> rw [executed.core]

theorem Pledges.queried (settled : r.Settled) (queried : Queried r r') : Pledges r r' := by
  refine .still settled ?_ ?_ ?_ queried.early queried.outbox queried.waiting queried.ready <;>
    rw [queried.core]

/-- Changes of view and status that start no view. -/
theorem Pledges.turn {viewNumber : Nat} (view : r'.viewNumber = viewNumber)
    (later : r.viewNumber ≤ viewNumber) (status : r'.status = .viewChange)
    (lastNormal : r'.lastNormalView = r.lastNormalView)
    (early : ∀ envelope ∈ r'.outboxEarly, envelope ∈ r.outboxEarly ∨ envelope.2.early = true)
    (outbox : r'.outbox = r.outbox) (waiting : r'.outboxWaiting = r.outboxWaiting) (ready : r'.outboxReady = r.outboxReady) :
    Pledges r r' where
  view := view ▸ later
  lastNormal := lastNormal ▸ min_le_right _ _
  recovering asleep := by cases status.symm.trans asleep
  outbox := ⟨r'.outbox, [], (List.append_nil _).symm, outbox ▸ .refl _, nofun⟩
  early := early
  waiting := waiting
  ready := ready
  settled started := by
    rw [status] at started
    rcases started with normal | transfer
    · cases normal
    · cases transfer

/-- What is true of a message where it is queued backs its promise. -/
theorem Honest.backs {message : MessageFor SM} (truthful : r.Honest message)
    (settled : r.Settled) : r.persistentState.Backs message ∧
      ∀ viewNumber, message.promises = some viewNumber → r.viewNumber ≤ viewNumber := by
  cases message with
  | prepareOk viewNumber opNumber replicaId =>
      obtain ⟨rfl, status⟩ := truthful
      refine ⟨⟨le_rfl, settled (.inl status), ?_⟩, ?_⟩
      · exact decide_eq_false (by rw [status]; decide)
      · rintro _ ⟨⟩
        exact le_rfl
  | startViewChange viewNumber replicaId =>
      cases truthful
      refine ⟨le_rfl, ?_⟩
      rintro _ ⟨⟩
      exact le_rfl
  | newState => exact truthful.elim
  | doViewChange => exact truthful.elim
  | startView => exact truthful.elim
  | recoveryResponse => exact truthful.elim
  | _ => exact ⟨trivial, nofun⟩

theorem Holds.backs {message : MessageFor SM} (holds : r.Holds message) (settled : r.Settled) :
    r.persistentState.Backs message ∧
      ∀ viewNumber, message.promises = some viewNumber → r.viewNumber ≤ viewNumber := by
  cases message with
  | newState => exact ⟨trivial, nofun⟩
  | doViewChange viewNumber replicaId lastNormalView segment commitNumber =>
      obtain ⟨rfl, _⟩ := holds
      refine ⟨le_rfl, ?_⟩
      rintro _ ⟨⟩
      exact le_rfl
  | startView viewNumber segment commitNumber =>
      obtain ⟨rfl, status, _⟩ := holds
      refine ⟨⟨le_rfl, settled (.inl status)⟩, ?_⟩
      rintro _ ⟨⟩
      exact le_rfl
  | recoveryResponse viewNumber nonce replicaId state =>
      obtain ⟨rfl, status, _⟩ := holds
      refine ⟨⟨le_rfl, decide_eq_false (by rw [status]; decide)⟩, ?_⟩
      rintro _ ⟨⟩
      exact le_rfl
  | _ => exact holds.elim

theorem Move.pledges (move : Move heard r r') (settled : r.Settled) : Pledges r r' := by
  cases move with
  | quiet same => exact .quiet settled same
  | send replicaId message truthful =>
      obtain ⟨backs, views⟩ := truthful.backs settled
      exact .send settled replicaId backs views
  | supersede =>
      refine ⟨le_rfl, min_le_right _ _, id, ⟨r.supersedeAcks.outbox, [], ?_, ?_, nofun⟩,
        fun _ mem => .inl mem, rfl, rfl, settled⟩
      · exact (List.append_nil _).symm
      · exact List.filter_sublist
  | append entry => exact .still settled rfl rfl rfl (fun _ mem => .inl mem) rfl rfl rfl
  | merge run =>
      have logged := mergeLog_logged run
      refine .still settled ?_ ?_ ?_ (fun _ mem => .inl (logged.outboxes ▸ mem)) ?_ ?_ ?_
      · rw [logged.core]; rfl
      · rw [logged.core]; rfl
      · rw [logged.core]; rfl
      all_goals rw [logged.outboxes]
  | commit run => exact .executed settled (commitUpTo_executed run)
  | count run =>
      obtain ⟨_, _, ⟨_, rfl⟩ | ⟨_, run⟩⟩ := registerAck_cases run
      · exact .quiet settled (.refl _)
      · have executed := commitUpTo_executed run
        refine .still settled ?_ ?_ ?_ (fun _ mem => .inl (executed.early ▸ mem)) executed.outbox
          executed.waiting executed.ready <;> rw [executed.core]
  | apply _ run => exact .executed settled (applyCommitted_executed run).1
  | @enter m viewNumber _ _ later outside run =>
      have executed := commitUpTo_executed run
      have view : m.viewNumber = viewNumber := by rw [executed.core]
      refine ⟨?_, ?_, nofun, ⟨m.outbox, [], (List.append_nil _).symm, ?_, nofun⟩,
        fun _ mem => .inl (executed.early ▸ mem), executed.waiting, executed.ready,
        fun _ => le_rfl⟩
      · exact later.trans view.ge
      · exact (min_le_left _ _).trans (later.trans view.ge)
      · rw [executed.outbox]
  | leave later =>
      refine .turn rfl ?_ rfl rfl (fun _ mem => .inl mem) rfl rfl rfl
      rcases later with later | ⟨same, _⟩
      · exact later.le
      · exact same.le
  | turn catchingUp later =>
      refine .turn rfl ?_ rfl rfl (fun _ mem => .inl mem) rfl rfl rfl
      rcases later with later | ⟨same, _⟩
      · exact later.le
      · exact same.le
  | transfer status =>
      refine ⟨le_rfl, min_le_right _ _, nofun, ⟨r.outbox, [], (List.append_nil _).symm, .refl _, nofun⟩,
        fun _ mem => .inl mem, rfl, rfl, fun _ => settled ?_⟩
      rcases status with ⟨normal, _⟩ | transfer
      · exact .inl normal
      · exact .inr transfer
  | rejoin status =>
      exact ⟨le_rfl, min_le_right _ _, nofun, ⟨r.outbox, [], (List.append_nil _).symm, .refl _, nofun⟩,
        fun _ mem => .inl mem, rfl, rfl, fun _ => settled (.inr status)⟩
  | refetch becomes => exact .still settled rfl rfl rfl (fun _ mem => .inl mem) rfl rfl rfl
  | stage => exact .still settled rfl rfl rfl (fun _ mem => .inl mem) rfl rfl rfl
  | rebuild run =>
      have same := rebuildPending_same run
      refine .still settled ?_ ?_ ?_ (fun _ mem => .inl (same.outboxes ▸ mem)) ?_ ?_ ?_
      · rw [same.core]
      · rw [same.core]
      · rw [same.core]
      all_goals rw [same.outboxes]
  | restore _ _ run =>
      obtain ⟨_, core, _, _, _, outboxes⟩ := restoreCheckpoint_effect run
      refine .still settled ?_ ?_ ?_ (fun _ mem => .inl (outboxes ▸ mem)) ?_ ?_ ?_
      · rw [core]; rfl
      · rw [core]; rfl
      · rw [core]; rfl
      all_goals rw [outboxes]
  | keep run =>
      rcases keepCheckpoint_effect run with ⟨rfl, _⟩ | ⟨_, _, _, _, rfl⟩
      · exact .refl settled
      · exact .still settled rfl rfl rfl (fun _ mem => .inl mem) rfl rfl rfl
  | release => exact .still settled rfl rfl rfl (fun _ mem => .inl mem) rfl rfl rfl
  | query run => exact .queried settled (onQuery_queried run)
  | confirm _ run => exact .queried settled (onConfirmViewOk_queried run)

theorem Tell.pledges (tell : Tell r r') (settled : r.Settled) : Pledges r r' := by
  cases tell with
  | quiet same => exact .quiet settled same
  | send replicaId message holds =>
      obtain ⟨backs, views⟩ := holds.backs settled
      exact .send settled replicaId backs views

theorem Handles.pledges (handles : Handles heard r r') (settled : r.Settled) : Pledges r r' :=
  handles.induct (.refl settled) (fun before move => before.trans (move.pledges before.settled))
    fun before tell => before.trans (tell.pledges before.settled)

end Replica

/-! ## Whole runs -/

namespace Replica

variable {SM : Type} [StateMachine SM] {heard : MessageFor SM → Prop} {r r' : Replica SM}

/-- The messages that wait for a write, or waited for one handed back. -/
def delayed (r : Replica SM) : List (Envelope SM) :=
  r.outbox ++ r.outboxWaiting ++ r.outboxReady

theorem mem_delayed {envelope : Envelope SM} : envelope ∈ r.delayed ↔
    envelope ∈ r.outbox ∨ envelope ∈ r.outboxWaiting ∨ envelope ∈ r.outboxReady := by
  simp only [delayed, List.mem_append, or_assoc]

/-- What a write taken does to the outboxes. -/
theorem takeWrite_outboxes {write : LogWrite (Input SM)} (run : r.takeWrite = some (r', write)) :
    r'.outboxEarly = r.outboxEarly ∧ r'.outbox = r.outboxWaiting ∧ r'.outboxWaiting = r.outbox ∧
      r'.outboxReady = r.outboxReady ∧ r'.toStanding = r.toStanding ∧ r'.fetch = r.fetch := by
  obtain ⟨_, run⟩ := require_eq_some.mp run
  obtain ⟨durable, _, run⟩ := Option.bind_eq_some_iff.mp run
  cases run
  exact ⟨rfl, rfl, rfl, rfl, rfl, rfl⟩

theorem sendRecovery_moves : Moves heard r r.sendRecovery := sendEach_moves trivial

/-- A replica restored has queued its recovery only. -/
theorem restored_quiet {selfId : Nat} {config : Config} {stateMachine : SM} {applied nonce : Nat}
    {state : PersistentState (Input SM)}
    (run : restored selfId config stateMachine applied state nonce = some r) :
    (∀ envelope ∈ r.outboxEarly, envelope.2.early = true) ∧
      (∀ envelope ∈ r.outbox, envelope.2.promises = none) ∧ r.outboxWaiting = [] ∧
      r.outboxReady = [] ∧ r.fetch = none := by
  obtain ⟨_, peer, quiet, recovers⟩ := restored_peer run
  have fetch : r.fetch = none := congrArg (·.fetch) peer
  cases isRecovering : state.recovering with
  | false =>
      have none := quiet isRecovering
      unfold queued at none
      simp only [List.append_eq_nil_iff] at none
      rw [none.1.1.1, none.1.1.2]
      exact ⟨nofun, nofun, none.1.2, none.2, fetch⟩
  | true =>
      rw [recovers isRecovering] at fetch ⊢
      set before := forgetful selfId config stateMachine state.viewNumber nonce with isBefore
      have handles : Handles (fun _ => True) before before.sendRecovery := .moves sendRecovery_moves
      have pledges : Pledges before before.sendRecovery := by
        refine handles.pledges ?_
        rintro (normal | transfer)
        · cases normal
        · cases transfer
      refine ⟨fun envelope mem => ?_, fun envelope mem => ?_, pledges.waiting, pledges.ready, fetch⟩
      · exact (pledges.early envelope mem).resolve_left (by intro old; cases old)
      have queued : envelope ∈ before.sendRecovery.queued := by
        simp only [queued, List.mem_append]
        exact .inl (.inl (.inr mem))
      rcases mem_queued_sendEach queued with old | ⟨_, _, rfl⟩
      · cases old
      · rfl

/-- What `restart` executes before it takes up a view queues nothing. -/
theorem Wakes.outboxes {made woken : Replica SM} {applied : Nat}
    {state : PersistentState (Input SM)} (wakes : Wakes made woken r applied state) :
    woken.outboxEarly = made.outboxEarly ∧ woken.outbox = made.outbox ∧
      woken.outboxWaiting = made.outboxWaiting ∧ woken.outboxReady = made.outboxReady := by
  obtain ⟨executed, execute, rebuild⟩ := wakes.executes
  have ran := (applyCommitted_executed execute).1
  have same := (rebuildPending_same rebuild).outboxes
  rw [same]
  exact ⟨ran.early, ran.outbox, ran.waiting, ran.ready⟩

end Replica

theorem PersistentState.backs_of_none {Op Query Chunk : Type} {state : PersistentState Op}
    {message : Message Op Query Chunk} (none : message.promises = none) : state.Backs message := by
  cases message <;> trivial

namespace Owner

variable {SM : Type} [StateMachine SM] {o o' : Owner SM}

/-- What the disk holds once the write that is out has landed. -/
def Target (o : Owner SM) (write : LogWrite (Input SM)) (landed : Bool)
    (target : PersistentState (Input SM)) : Prop :=
  (landed = true → o.disk = target) ∧ (landed = false → o.disk.apply write = some target)

/-- Every promise waits for the disk to back it. -/
structure Vouched (o : Owner SM) : Prop where
  inv : Inv o
  settled : o.replica.Settled
  fetches : o.replica.Fetches
  ahead : o.disk.viewNumber ≤ o.replica.viewNumber
  early : ∀ envelope ∈ o.replica.outboxEarly, envelope.2.early = true
  delayed : ∀ envelope ∈ o.replica.delayed, o.replica.persistentState.Backs envelope.2
  ready : ∀ envelope ∈ o.replica.outboxReady, o.disk.Backs envelope.2
  between : o.out = none → o.replica.outboxWaiting = []
  during : ∀ write landed target, o.out = some (write, landed) → o.Target write landed target →
    o.disk.viewNumber ≤ target.viewNumber ∧ target.viewNumber ≤ o.replica.viewNumber ∧
      ∀ envelope, envelope ∈ o.replica.outboxWaiting ∨ envelope ∈ o.replica.outboxReady →
        target.Backs envelope.2

/-- Messages queued with their promises keep what is delayed backed. -/
theorem backs_delayed {r r' : Replica SM} (pledges : Replica.Pledges r r')
    (delayed : ∀ envelope ∈ r.delayed, r.persistentState.Backs envelope.2) :
    ∀ envelope ∈ r'.delayed, r'.persistentState.Backs envelope.2 := by
  intro envelope mem
  obtain ⟨kept, new, outbox, old, backed⟩ := pledges.outbox
  rw [Replica.mem_delayed, outbox, pledges.waiting, pledges.ready, List.mem_append] at mem
  rcases mem with (mem | mem) | mem
  · exact pledges.backs (delayed envelope (Replica.mem_delayed.mpr (.inl (old.subset mem))))
  · exact (backed envelope mem).1
  · exact pledges.backs (delayed envelope (Replica.mem_delayed.mpr (.inr mem)))

/-- A step of the replica keeps the promises. -/
theorem Vouched.pledges (vouched : Vouched o) {r : Replica SM} (inv : Inv { o with replica := r })
    (pledges : Replica.Pledges o.replica r) (fetches : r.Fetches) :
    Vouched { o with replica := r } where
  inv := inv
  settled := pledges.settled
  fetches := fetches
  ahead := vouched.ahead.trans pledges.view
  early envelope mem := (pledges.early envelope mem).elim (vouched.early envelope) id
  delayed := backs_delayed pledges vouched.delayed
  ready envelope mem := by
    dsimp only at mem ⊢
    rw [pledges.ready] at mem
    exact vouched.ready envelope mem
  between none := pledges.waiting.trans (vouched.between none)
  during write landed target isOut isTarget := by
    obtain ⟨later, inside, backs⟩ := vouched.during write landed target isOut isTarget
    refine ⟨later, inside.trans pledges.view, fun envelope mem => backs envelope ?_⟩
    dsimp only at mem
    rwa [pledges.waiting, pledges.ready] at mem

/-- `r` has promised nothing but what it queued since it was `base`, which had
promised nothing. -/
structure FromFresh (state : PersistentState (Input SM)) (base r : Replica SM) : Prop where
  early : ∀ envelope ∈ base.outboxEarly, envelope.2.early = true
  quiet : ∀ envelope ∈ base.outbox, envelope.2.promises = none
  waiting : base.outboxWaiting = []
  ready : base.outboxReady = []
  ahead : state.viewNumber ≤ base.viewNumber
  pledges : Replica.Pledges base r
  fetches : r.Fetches

theorem FromFresh.vouched {base : Replica SM} (fresh : FromFresh o.disk base o.replica)
    (inv : Inv o) (out : o.out = none) : Vouched o where
  inv := inv
  settled := fresh.pledges.settled
  fetches := fresh.fetches
  ahead := fresh.ahead.trans fresh.pledges.view
  early envelope mem := (fresh.pledges.early envelope mem).elim (fresh.early envelope) id
  delayed := by
    refine backs_delayed fresh.pledges fun envelope mem => ?_
    rw [Replica.mem_delayed, fresh.waiting, fresh.ready] at mem
    rcases mem with mem | mem | mem
    · exact PersistentState.backs_of_none (fresh.quiet envelope mem)
    · cases mem
    · cases mem
  ready envelope mem := by
    rw [fresh.pledges.ready, fresh.ready] at mem
    cases mem
  between _ := fresh.pledges.waiting.trans fresh.waiting
  during write landed target isOut := by
    rw [out] at isOut
    cases isOut

/-- What it promises is for the view it came back in, or a later one. -/
theorem FromFresh.views {state : PersistentState (Input SM)} {base r : Replica SM}
    (fresh : FromFresh state base r) {envelope : Envelope SM} (mem : envelope ∈ r.delayed)
    {viewNumber : Nat} (promises : envelope.2.promises = some viewNumber) :
    state.viewNumber ≤ viewNumber := by
  obtain ⟨kept, new, outbox, old, backed⟩ := fresh.pledges.outbox
  rw [Replica.mem_delayed, outbox, fresh.pledges.waiting, fresh.waiting, fresh.pledges.ready,
    fresh.ready, List.mem_append] at mem
  rcases mem with (mem | mem) | mem | mem
  · cases (fresh.quiet envelope (old.subset mem)).symm.trans promises
  · exact fresh.ahead.trans ((backed envelope mem).2 viewNumber promises)
  · cases mem
  · cases mem

theorem restart_fresh {selfId : Nat} {config : Config} {stateMachine : SM} {applied nonce : Nat}
    {state : PersistentState (Input SM)} {r : Replica SM}
    (run : Replica.restart selfId config stateMachine applied state nonce = some r) :
    ∃ base, FromFresh state base r := by
  obtain ⟨made, woken, make, wakes⟩ := Replica.restart_wakes run
  obtain ⟨early, quiet, waiting, ready, fetch⟩ := Replica.restored_quiet make
  obtain ⟨sameEarly, sameOutbox, sameWaiting, sameReady⟩ := wakes.outboxes
  have fetches : r.Fetches := by
    have handles : Replica.Handles (fun _ => True) (made.risen applied state) r := wakes.handles
    refine Replica.Fetches.handles (fun next isNext => ?_) handles
    cases fetch.symm.trans isNext
  rw [← sameEarly] at early
  rw [← sameOutbox] at quiet
  rw [← sameWaiting] at waiting
  rw [← sameReady] at ready
  rcases wakes.goesOn with ⟨rfl, goesOn⟩ | ⟨viewNumber, later, change⟩
  · refine ⟨r, early, quiet, waiting, ready, wakes.view.ge, .refl ?_, fetches⟩
    intro started
    rcases goesOn with asleep | settled
    · rw [asleep] at started
      rcases started with normal | transfer
      · cases normal
      · cases transfer
    · exact settled
  · have left : Replica.Handles (fun _ => True) (woken.leaveFor viewNumber) r :=
      Replica.startViewChange_left change
    refine ⟨woken.leaveFor viewNumber, early, quiet, waiting, ready, ?_, left.pledges ?_, fetches⟩
    · show state.viewNumber ≤ viewNumber
      rw [← wakes.view]
      rcases later with later | ⟨same, _⟩
      · exact later.le
      · exact same.le
    · rintro (normal | transfer)
      · cases normal
      · cases transfer

theorem vouched_start (starts : Starts o) : Vouched o := by
  have inv := inv_start starts
  cases starts with
  | new run =>
      obtain ⟨_, rfl⟩ := Replica.new_eq run
      refine FromFresh.vouched ⟨fun _ mem => ?_, fun _ mem => ?_, rfl, rfl, Nat.zero_le _,
        .refl fun _ => le_rfl, fun _ isFetch => ?_⟩ inv rfl
      · cases mem
      · cases mem
      · cases isFetch
  | @recover selfId config stateMachine viewNumber nonce r run =>
      obtain ⟨_, rfl⟩ := Replica.recover_eq run
      set base := Replica.forgetful selfId config stateMachine viewNumber nonce
      have handles : Replica.Handles (fun _ => True) base base.sendRecovery :=
        .moves Replica.sendRecovery_moves
      have settled : base.Settled := by
        rintro (normal | transfer)
        · cases normal
        · cases transfer
      refine FromFresh.vouched ⟨fun _ mem => ?_, fun _ mem => ?_, rfl, rfl, Nat.zero_le _,
        handles.pledges settled, Replica.Fetches.handles (fun _ isFetch => ?_) handles⟩ inv rfl
      · cases mem
      · cases mem
      · cases isFetch
  | restart reached empty run =>
      obtain ⟨base, fresh⟩ := restart_fresh run
      exact fresh.vouched inv rfl

/-! ## Steps of the owner -/

/-- What a step may queue: its promises are for views the disk has reached. -/
def Queues (o o' : Owner SM) : Prop :=
  ∃ new, o'.replica.delayed.Subperm (o.replica.delayed ++ new) ∧
    ∀ envelope ∈ new, ∀ viewNumber, envelope.2.promises = some viewNumber →
      o.disk.viewNumber ≤ viewNumber

theorem queues_sublist {r : Replica SM} {disk : PersistentState (Input SM)}
    {out : Option (LogWrite (Input SM) × Bool)}
    (fewer : r.delayed.Subperm o.replica.delayed) : Queues o ⟨r, disk, out⟩ :=
  ⟨[], by rwa [List.append_nil], fun _ mem => by cases mem⟩

theorem Vouched.queues (vouched : Vouched o) {r : Replica SM}
    (pledges : Replica.Pledges o.replica r) : Queues o { o with replica := r } := by
  obtain ⟨kept, new, outbox, old, backed⟩ := pledges.outbox
  refine ⟨new, ?_, fun envelope mem viewNumber promises =>
    vouched.ahead.trans ((backed envelope mem).2 viewNumber promises)⟩
  have moved : r.delayed.Perm (kept ++ r.outboxWaiting ++ r.outboxReady ++ new) := by
    unfold Replica.delayed
    rw [outbox, List.append_assoc kept, List.append_assoc kept, List.append_assoc kept,
      List.append_assoc kept]
    refine List.Perm.append_left kept ?_
    rw [List.append_assoc]
    exact List.perm_append_comm
  refine moved.subperm.trans (List.Sublist.subperm ?_)
  rw [pledges.waiting, pledges.ready]
  exact (((old.append_right _).append_right _).append_right _)

theorem Vouched.handles (vouched : Vouched o) {r : Replica SM}
    (inv : Inv { o with replica := r })
    (handles : Replica.Handles (fun _ => True) o.replica r) :
    Vouched { o with replica := r } ∧ Queues o { o with replica := r } :=
  have pledges := handles.pledges vouched.settled
  ⟨vouched.pledges inv pledges (vouched.fetches.handles handles), vouched.queues pledges⟩

/-- A write that needs no sync leaves every promise backed. -/
theorem backs_noSync {Query Chunk : Type} {disk target : PersistentState (Input SM)}
    (same : { disk with commitNumber := target.commitNumber } = target)
    {message : Message (Input SM) Query Chunk} (backs : target.Backs message) :
    disk.Backs message := by
  rw [← same] at backs
  cases message <;> exact backs

theorem vouched_step (vouched : Vouched o) (step : Step o o') : Vouched o' ∧ Queues o o' := by
  have inv := inv_step vouched.inv step
  cases step with
  | message message run =>
      exact vouched.handles inv (Replica.onMessage_handles run
        (quorum_two (several_of_inv vouched.inv)) trivial vouched.fetches)
  | idle run => exact vouched.handles inv (Replica.onIdle_handles run)
  | @compact r opNumber run =>
      have pledges : Replica.Pledges o.replica r := by
        rcases Replica.compact_effect run with rfl | ⟨_, _, _, _, _, rfl⟩
        · exact .refl vouched.settled
        · exact .still vouched.settled rfl rfl rfl (fun _ mem => .inl mem) rfl rfl rfl
      have fetches : r.Fetches := by
        rcases Replica.compact_effect run with rfl | ⟨_, _, _, _, _, rfl⟩
        · exact vouched.fetches
        · exact vouched.fetches.same rfl rfl rfl
      exact ⟨vouched.pledges inv pledges fetches, vouched.queues pledges⟩
  | drainBeforePersist =>
      have pledges : Replica.Pledges o.replica o.replica.drainMessagesBeforePersist.1 :=
        .still vouched.settled rfl rfl rfl (fun _ mem => by cases mem) rfl rfl rfl
      exact ⟨vouched.pledges inv pledges (vouched.fetches.same rfl rfl rfl),
        vouched.queues pledges⟩
  | drainReplies =>
      have pledges : Replica.Pledges o.replica o.replica.drainReplies.1 :=
        .still vouched.settled rfl rfl rfl (fun _ mem => .inl mem) rfl rfl rfl
      exact ⟨vouched.pledges inv pledges (vouched.fetches.same rfl rfl rfl),
        vouched.queues pledges⟩
  | drain =>
      have fewer : o.replica.drainMessages.1.delayed.Sublist o.replica.delayed := by
        unfold Replica.delayed
        exact List.Sublist.append_left (List.nil_sublist _) _
      refine ⟨⟨inv, vouched.settled, vouched.fetches.same rfl rfl rfl, vouched.ahead,
        (fun _ mem => by cases mem), fun envelope mem => vouched.delayed envelope (fewer.subset mem), fun _ mem => ?_,
        vouched.between, fun write landed target isOut isTarget => ?_⟩,
        queues_sublist fewer.subperm⟩
      · cases mem
      · obtain ⟨later, inside, backs⟩ := vouched.during write landed target isOut isTarget
        refine ⟨later, inside, fun envelope mem => ?_⟩
        rcases mem with mem | mem
        · exact backs envelope (.inl mem)
        · cases mem
  | @take r write free run =>
      obtain ⟨early, outbox, waiting, ready, standing, fetch⟩ := Replica.takeWrite_outboxes run
      have same : r.delayed.Perm o.replica.delayed := by
        unfold Replica.delayed
        rw [outbox, waiting, ready]
        exact List.perm_append_comm.append_right _
      have state : r.persistentState = o.replica.persistentState := by rw [standing]
      refine ⟨⟨inv, ?_, ?_, ?_, ?_, ?_, ?_, (fun none => by cases none), ?_⟩,
        queues_sublist same.subperm⟩
      · unfold Replica.Settled
        rw [standing]
        exact vouched.settled
      · exact vouched.fetches.same fetch (by rw [standing]) (by rw [standing])
      · dsimp only
        rw [standing]
        exact vouched.ahead
      · dsimp only
        rw [early]
        exact vouched.early
      · intro envelope mem
        dsimp only at mem ⊢
        rw [state]
        exact vouched.delayed envelope (same.subset mem)
      · intro envelope mem
        dsimp only at mem ⊢
        rw [ready] at mem
        exact vouched.ready envelope mem
      · intro taken landed target isOut lands
        cases isOut
        obtain ⟨_, lands⟩ := lands
        have isTarget := takeWrite_apply run (vouched.inv.between free).tracks
        cases (lands rfl).symm.trans isTarget
        refine ⟨vouched.ahead, by rw [standing]; exact le_rfl, fun envelope mem => ?_⟩
        have delayed : envelope ∈ r.delayed :=
          Replica.mem_delayed.mpr (.inr mem)
        exact vouched.delayed envelope (same.subset delayed)
  | @land disk write isOut run =>
      obtain ⟨later, inside, backs⟩ :=
        vouched.during _ _ _ isOut ⟨(fun landed => by cases landed), fun _ => run⟩
      refine ⟨⟨inv, vouched.settled, vouched.fetches, inside, vouched.early, vouched.delayed,
        fun envelope mem => backs envelope (.inr mem), (fun none => by cases none), ?_⟩,
        queues_sublist (.refl _)⟩
      intro write landed target isOut isTarget
      cases isOut
      cases isTarget.1 rfl
      exact ⟨le_rfl, inside, backs⟩
  | @handBack r write landed isOut durable run =>
      obtain ⟨outstanding, executed, _, _, moves, isExecuted⟩ := Replica.persisted_moves run
      have handles : Replica.Handles (fun _ => True) (o.replica.handedBack outstanding) executed :=
        .moves moves
      have back : Replica.Pledges o.replica (o.replica.handedBack outstanding) :=
        .still vouched.settled rfl rfl rfl (fun _ mem => .inl mem) rfl rfl rfl
      have pledges := back.trans (handles.pledges back.settled)
      have fetches : (o.replica.handedBack outstanding).Fetches := vouched.fetches.same rfl rfl rfl
      have released : r.delayed.Perm executed.delayed := by
        rw [isExecuted]
        unfold Replica.delayed Replica.releaseWaiting
        dsimp only
        rw [List.append_nil, List.append_assoc]
        exact List.Perm.append_left _ List.perm_append_comm
      obtain ⟨_, target, _, _, isDisk, lands⟩ := vouched.inv.during _ _ isOut
      have isTarget : o.Target write landed target := ⟨isDisk, fun lost => (lands lost).1⟩
      obtain ⟨later, inside, backs⟩ := vouched.during _ _ _ isOut isTarget
      have onDisk : ∀ envelope, envelope ∈ o.replica.outboxWaiting ∨
          envelope ∈ o.replica.outboxReady → o.disk.Backs envelope.2 := by
        intro envelope mem
        cases landed with
        | true =>
            rw [isDisk rfl]
            exact backs envelope mem
        | false =>
            have noSync := durable.resolve_left (by decide)
            exact backs_noSync ((lands rfl).2 noSync) (backs envelope mem)
      have standing : r.toStanding = executed.toStanding := by rw [isExecuted]; rfl
      refine ⟨⟨inv, ?_, ?_, ?_, fun envelope mem => ?_, fun envelope mem => ?_, fun envelope mem => ?_,
        fun _ => ?_, fun _ _ _ isOut => by cases isOut⟩, ?_⟩
      · rw [isExecuted]
        exact pledges.settled
      · rw [isExecuted]
        exact (fetches.handles handles).same rfl rfl rfl
      · dsimp only
        rw [standing]
        exact vouched.ahead.trans pledges.view
      · rw [isExecuted] at mem
        exact (pledges.early envelope mem).elim (vouched.early envelope) id
      · dsimp only
        rw [standing]
        exact backs_delayed pledges vouched.delayed envelope (released.subset mem)
      · rw [isExecuted] at mem
        dsimp only [Replica.releaseWaiting] at mem
        rw [pledges.waiting, pledges.ready, List.mem_append] at mem
        exact onDisk envelope mem.symm
      · rw [isExecuted]
        rfl
      · obtain ⟨new, fewer, views⟩ := vouched.queues pledges
        exact ⟨new, released.subperm.trans fewer, views⟩
  | crash stateMachine applied nonce reached run =>
      obtain ⟨base, fresh⟩ := restart_fresh run
      refine ⟨fresh.vouched inv rfl, _, ?_, fun envelope mem viewNumber promises =>
        fresh.views mem promises⟩
      exact (List.sublist_append_right _ _).subperm

theorem vouched_reach (reach : Reach o) : Vouched o := by
  induction reach with
  | start starts => exact vouched_start starts
  | step _ step ih => exact (vouched_step ih step).1

/-- A backup whose acknowledgement of an op waited for its write. -/
def acknowledged : Option (Owner Accumulator) := do
  let made ← Replica.new 1 Accumulator.config .new
  let heard ← made.onMessage (.prepare 0 1 (.register 7) 0)
  let (taken, write) ← heard.takeWrite
  let disk ← PersistentState.empty.apply write
  let r ← taken.persisted write
  some ⟨r, disk, none⟩

end Owner

end Vsr
