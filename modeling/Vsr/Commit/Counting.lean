import Vsr.Durable.Tracks
import Vsr.Query.Marks
import Vsr.Replica.Calls

/-!
# What the marks have committed

In a view a replica has committed whatever a quorum of its marks reaches, and the
ranges of ops it still replies to are ranges.
-/

set_option autoImplicit false

namespace Vsr.Replica

open Relation (ReflTransGen)

variable {SM : Type} [StateMachine SM] {heard : MessageFor SM → Prop} {r r' : Replica SM}

/-- The replica takes part in its view, as it does until a view change. -/
def InView (r : Replica SM) : Prop := r.status = .normal ∨ r.status = .stateTransfer

/-- What holds of the marks of acknowledgements and the ranges to reply to. -/
structure Counting (r : Replica SM) : Prop where
  several : 3 ≤ r.config.replicas.length
  length : r.acked.length = r.config.replicas.length
  committed : r.InView → quorumMark r.config.quorum r.acked ≤ r.commitNumber
  ranges : ∀ range ∈ r.replyRanges, range.1 ≤ range.2

theorem mem_extendRanges {ranges : List (Nat × Nat)} {first last : Nat} {range : Nat × Nat}
    (more : first ≤ last) (ordered : ∀ range ∈ ranges, range.1 ≤ range.2)
    (mem : range ∈ extendRanges ranges first last) : range.1 ≤ range.2 := by
  have extend : ∀ {ranges' : List (Nat × Nat)} {next : Nat × Nat},
      (∀ range ∈ ranges', range.1 ≤ range.2) → next.1 ≤ next.2 →
      range ∈ ranges' ++ [next] → range.1 ≤ range.2 := by
    intro ranges' next ordered isRange mem
    rcases List.mem_append.mp mem with old | new
    · exact ordered range old
    · rwa [List.mem_singleton.mp new]
  unfold extendRanges at mem
  split at mem
  · next latest isLast =>
    have inside : latest ∈ ranges := List.mem_of_getLast? isLast
    split at mem
    · next follows =>
      have := ordered latest inside
      exact extend (fun range old => ordered range (List.mem_of_mem_dropLast old))
        (by show latest.1 ≤ last; omega) mem
    · exact extend ordered more mem
  · cases List.mem_singleton.mp mem
    exact more

theorem applyCommitted_ranges {durable : Nat} (run : r.applyCommitted durable = some r') :
    r'.replyRanges = r.replyRanges.filter fun range => r'.applied < range.2 := by
  obtain ⟨many, execution, rfl⟩ := applyCommitted_eq run
  have same := (executeQueries_same { many with
    replyRanges := many.replyRanges.filter fun range => many.applied < range.2 }).core
  have ranges : many.replyRanges = r.replyRanges := congrArg (·.replyRanges) (applyMany_same execution).1
  rw [same]
  show many.replyRanges.filter _ = _
  rw [ranges]

/-- `commit_up_to` of a later op raises the commit number to it, has its ops replied
to if asked, and executes what is durable. -/
theorem commitUpTo_cases {commitNumber : Nat} {reply : Bool}
    (run : r.commitUpTo commitNumber reply = some r') :
    (commitNumber ≤ r.commitNumber ∧ r' = r) ∨
      (r.commitNumber < commitNumber ∧ ∃ durable, r.durableOp = some durable ∧
        { r with
          replyRanges := if reply then extendRanges r.replyRanges (r.commitNumber + 1) commitNumber
            else r.replyRanges
          commitNumber := commitNumber }.applyCommitted durable = some r') := by
  unfold commitUpTo at run
  split at run
  · next stale =>
    cases run
    exact .inl ⟨stale, rfl⟩
  · next later =>
    obtain ⟨durable, isDurable, run⟩ := Option.bind_eq_some_iff.mp run
    exact .inr ⟨not_le.mp later, durable, isDurable, run⟩

theorem commitUpTo_commits {commitNumber : Nat} {reply : Bool}
    (run : r.commitUpTo commitNumber reply = some r') :
    r'.commitNumber = max r.commitNumber commitNumber := by
  rcases commitUpTo_cases run with ⟨stale, rfl⟩ | ⟨later, durable, _, apply⟩
  · exact (max_eq_left stale).symm
  · rw [(applyCommitted_executed apply).2.1]
    exact (max_eq_right later.le).symm

theorem commitUpTo_ordered {commitNumber : Nat} {reply : Bool}
    (run : r.commitUpTo commitNumber reply = some r')
    (ordered : ∀ range ∈ r.replyRanges, range.1 ≤ range.2) :
    ∀ range ∈ r'.replyRanges, range.1 ≤ range.2 := by
  rcases commitUpTo_cases run with ⟨_, rfl⟩ | ⟨later, durable, _, apply⟩
  · exact ordered
  · intro range mem
    rw [applyCommitted_ranges apply] at mem
    replace mem := (List.mem_filter.mp mem).1
    dsimp only at mem
    split at mem
    · exact mem_extendRanges later ordered mem
    · exact ordered range mem

/-! ## Along the moves -/

/-- The marks stay, and nothing committed is undone. -/
theorem Counting.still (counting : r.Counting) (config : r'.config = r.config)
    (acked : r'.acked = r.acked) (committed : r.commitNumber ≤ r'.commitNumber)
    (inView : r'.InView → r.InView)
    (ranges : ∀ range ∈ r'.replyRanges, range.1 ≤ range.2) : r'.Counting where
  several := config ▸ counting.several
  length := by
    rw [acked, config]
    exact counting.length
  committed inside := by
    rw [acked, config]
    exact (counting.committed (inView inside)).trans committed
  ranges := ranges

theorem Counting.of_core (counting : r.Counting) (core : r'.toCore = r.toCore) : r'.Counting := by
  refine counting.still ?_ ?_ ?_ ?_ ?_
  · rw [core]
  · rw [core]
  · rw [core]
  · unfold InView
    rw [core]
    exact id
  · rw [core]
    exact counting.ranges

theorem Counting.executed (counting : r.Counting) (executed : Executed r r')
    (ranges : ∀ range ∈ r'.replyRanges, range.1 ≤ range.2) : r'.Counting := by
  refine counting.still ?_ ?_ executed.commits ?_ ranges
  · rw [executed.core]
  · rw [executed.core]
  · unfold InView
    rw [executed.core]
    exact id

theorem Counting.enough (counting : r.Counting) :
    0 < r.config.quorum ∧ r.config.quorum ≤ r.acked.length := by
  have several := counting.several
  rw [counting.length]
  unfold Config.quorum
  omega

/-- An acknowledgement counted commits what a quorum of the marks then reaches. -/
theorem Counting.counted (counting : r.Counting) {replicaId opNumber : Nat}
    (run : r.registerAck replicaId opNumber = some r') : r'.Counting := by
  obtain ⟨mark, isMark, ⟨_, rfl⟩ | ⟨_, run⟩⟩ := registerAck_cases run
  · exact counting
  · have executed := commitUpTo_executed run
    have commits := commitUpTo_commits run
    have acked : r'.acked = r.acked.set replicaId (min opNumber r.opNumber) := by rw [executed.core]
    have config : r'.config = r.config := by rw [executed.core]
    refine ⟨config ▸ counting.several, ?_, fun _ => ?_, commitUpTo_ordered run counting.ranges⟩
    · rw [acked, config, List.length_set]
      exact counting.length
    · rw [acked, config, commits]
      exact le_max_right _ _

theorem quorumMark_zeros (quorum : Nat) (marks : List Nat) :
    quorumMark quorum (marks.map fun _ => 0) = 0 := by
  rcases Nat.eq_zero_or_pos (quorumMark quorum (marks.map fun _ => 0)) with zero | pos
  · exact zero
  · rcases foldl_max_mem _ _ with isZero | mem
    · exact isZero
    · obtain ⟨_, _, isZero⟩ := List.mem_map.mp (List.mem_filter.mp mem).1
      exact isZero.symm

theorem Counting.move (counting : r.Counting) (move : Move heard r r') : r'.Counting := by
  have outside : r'.status = .viewChange → ¬r'.InView := by
    rintro status (normal | transfer)
    · cases status.symm.trans normal
    · cases status.symm.trans transfer
  cases move with
  | quiet same =>
      refine counting.still same.config same.acked ?_ ?_ (same.replyRanges ▸ counting.ranges)
      · rw [same.standing]
      · unfold InView
        rw [same.standing]
        exact id
  | send replicaId message _ => exact counting.of_core (send_toCore r replicaId message)
  | supersede => exact counting.of_core rfl
  | append entry =>
      exact counting.still rfl rfl le_rfl id counting.ranges
  | merge run =>
      have core := (mergeLog_logged run).core
      refine counting.still ?_ ?_ ?_ ?_ ?_
      · rw [core]
      · rw [core]
      · rw [core]
        exact le_rfl
      · unfold InView
        rw [core]
        exact id
      · rw [core]
        exact counting.ranges
  | commit run =>
      exact counting.executed (commitUpTo_executed run) (commitUpTo_ordered run counting.ranges)
  | count run => exact counting.counted run
  | apply _ run =>
      refine counting.executed (applyCommitted_executed run).1 fun range mem => ?_
      rw [applyCommitted_ranges run] at mem
      exact counting.ranges range (List.mem_filter.mp mem).1
  | @enter m viewNumber _ _ later outside run =>
      have executed := commitUpTo_executed run
      have config : m.config = r.config := by rw [executed.core]
      have acked : m.acked = r.acked := by rw [executed.core]
      have ranges : ∀ range ∈ m.replyRanges, range.1 ≤ range.2 :=
        commitUpTo_ordered run counting.ranges
      refine ⟨config ▸ counting.several, ?_, fun _ => ?_, ranges⟩
      · show (m.acked.map fun _ => 0).length = m.config.replicas.length
        rw [List.length_map, acked, config]
        exact counting.length
      · show quorumMark m.config.quorum (m.acked.map fun _ => 0) ≤ m.commitNumber
        rw [quorumMark_zeros]
        exact Nat.zero_le _
  | leave | turn =>
      exact counting.still rfl rfl le_rfl (fun inside => absurd inside (outside rfl)) counting.ranges
  | transfer status =>
      refine counting.still rfl rfl le_rfl (fun _ => ?_) counting.ranges
      exact status.imp And.left id
  | rejoin status _ =>
      exact counting.still rfl rfl le_rfl (fun _ => .inr status) counting.ranges
  | rebuild run => exact counting.of_core (rebuildPending_same run).core
  | restore _ _ run =>
      obtain ⟨beyond, core, _⟩ := restoreCheckpoint_effect run
      refine counting.still ?_ ?_ ?_ ?_ ?_
      · rw [core]
      · rw [core]
      · rw [core]
        exact beyond.le
      · unfold InView
        rw [core]
        exact id
      · rw [core]
        exact nofun
  | keep run =>
      rcases keepCheckpoint_effect run with ⟨rfl, _⟩ | ⟨_, _, _, _, rfl⟩
      · exact counting
      · exact counting.still rfl rfl le_rfl id counting.ranges
  | query run => exact counting.of_core (onQuery_queried run).core
  | confirm _ run => exact counting.of_core (onConfirmViewOk_queried run).core
  | refetch | stage | release =>
      exact counting.still rfl rfl le_rfl id counting.ranges

theorem Counting.tell (counting : r.Counting) (tell : Tell r r') : r'.Counting := by
  cases tell with
  | quiet same =>
      have move : Move (fun _ => False) r r' := .quiet same
      exact counting.move move
  | send replicaId message _ => exact counting.of_core (send_toCore r replicaId message)

theorem Counting.handles (counting : r.Counting) (handles : Handles heard r r') : r'.Counting :=
  handles.induct counting Counting.move Counting.tell

/-! ## Whole runs -/

/-- What holds of a replica from its start on. -/
structure Steady (r : Replica SM) : Prop where
  counting : r.Counting
  fetches : r.Fetches
  ordered : r.peer.Ordered
  numbered : ∀ outstanding, r.outstanding = some outstanding → outstanding.sequence ≤ r.writes

theorem ordered_moves {p p' : Peer (Input SM)} (moves : ReflTransGen LogMove p p')
    (ordered : p.Ordered) : p'.Ordered := by
  induction moves with
  | refl => exact ordered
  | tail _ move ih => exact move.ordered ih

/-- A move neither takes a write nor hands one back. -/
theorem LogMove.numbers {p p' : Peer (Input SM)} (move : LogMove p p') :
    p'.writes = p.writes ∧ p'.outstanding = p.outstanding := by
  cases move with
  | stay _ _ writes => rw [writes]; exact ⟨rfl, rfl⟩
  | append | merge | restore | compact => exact ⟨rfl, rfl⟩

theorem numbers_moves {p p' : Peer (Input SM)} (moves : ReflTransGen LogMove p p') :
    p'.writes = p.writes ∧ p'.outstanding = p.outstanding := by
  induction moves with
  | refl => exact ⟨rfl, rfl⟩
  | tail _ move ih =>
      obtain ⟨writes, out⟩ := LogMove.numbers move
      exact ⟨writes.trans ih.1, out.trans ih.2⟩

theorem Steady.handles (steady : r.Steady) (handles : Handles heard r r') : r'.Steady := by
  have kept : r'.peer.Ordered ∧ r'.peer.writes = r.writes ∧ r'.peer.outstanding = r.outstanding := by
    refine handles.induct (P := fun m => m.peer.Ordered ∧ m.peer.writes = r.writes ∧
      m.peer.outstanding = r.outstanding) ⟨steady.ordered, rfl, rfl⟩ (fun before move => ?_)
      fun before tell => ?_
    · obtain ⟨writes, out⟩ := numbers_moves move.logMoves
      exact ⟨ordered_moves move.logMoves before.1, writes.trans before.2.1, out.trans before.2.2⟩
    · obtain ⟨writes, out⟩ := LogMove.numbers tell.core_same
      exact ⟨tell.core_same.ordered before.1, writes.trans before.2.1, out.trans before.2.2⟩
  obtain ⟨ordered, writes, out⟩ := kept
  refine ⟨steady.counting.handles handles, steady.fetches.handles handles, ordered, ?_⟩
  intro outstanding isOut
  have before := steady.numbered outstanding (out.symm.trans isOut)
  exact before.trans writes.ge

theorem Steady.of_core (steady : r.Steady) (core : r'.toCore = r.toCore) : r'.Steady := by
  refine ⟨steady.counting.of_core core, steady.fetches.same ?_ ?_ ?_, ⟨?_, ?_⟩, ?_⟩
  · rw [core]
  · rw [core]
  · rw [core]
  · show r'.logStart ≤ r'.applied
    rw [core]
    exact steady.ordered.start
  · show r'.applied ≤ r'.commitNumber
    rw [core]
    exact steady.ordered.applied
  · rw [core]
    exact steady.numbered

theorem Steady.message {message : MessageFor SM} (steady : r.Steady)
    (run : r.onMessage message = some r') : r'.Steady := by
  have several := steady.counting.several
  have two : 2 ≤ r.config.quorum := by
    unfold Config.quorum
    omega
  have handles : Handles (· = message) r r' := onMessage_handles run two rfl steady.fetches
  exact steady.handles handles

theorem Steady.idle (steady : r.Steady) (run : r.onIdle = some r') : r'.Steady := by
  have handles : Handles (fun _ => False) r r' := onIdle_handles run
  exact steady.handles handles

theorem Steady.compact {opNumber : Nat} (steady : r.Steady) (run : r.compact opNumber = some r') :
    r'.Steady := by
  rcases compact_effect run with rfl | ⟨_, _, done, _, _, rfl⟩
  · exact steady
  · have counting := steady.counting
    exact ⟨counting.still rfl rfl le_rfl id counting.ranges, steady.fetches.same rfl rfl rfl,
      ⟨done, steady.ordered.applied⟩, steady.numbered⟩

theorem Steady.take {write : LogWrite (Input SM)} (steady : r.Steady)
    (run : r.takeWrite = some (r', write)) : r'.Steady := by
  obtain ⟨_, run⟩ := require_eq_some.mp run
  obtain ⟨_, _, run⟩ := Option.bind_eq_some_iff.mp run
  cases run
  have counting := steady.counting
  refine ⟨counting.still rfl rfl le_rfl id counting.ranges, steady.fetches.same rfl rfl rfl,
    ⟨steady.ordered.start, steady.ordered.applied⟩, fun _ isOut => ?_⟩
  cases isOut
  exact le_rfl

theorem Steady.handedBack (steady : r.Steady) (outstanding : Outstanding) :
    (r.handedBack outstanding).Steady :=
  ⟨steady.counting.still rfl rfl le_rfl id steady.counting.ranges,
    steady.fetches.same rfl rfl rfl, ⟨steady.ordered.start, steady.ordered.applied⟩,
    fun _ isOut => by cases isOut⟩

theorem Steady.persisted {write : LogWrite (Input SM)} (steady : r.Steady)
    (run : r.persisted write = some r') : r'.Steady := by
  obtain ⟨outstanding, executed, _, _, moves, isResult⟩ := persisted_moves run
  have handles : Handles (fun _ => False) (r.handedBack outstanding) executed := .moves moves
  have back := (steady.handedBack outstanding).handles handles
  rw [isResult]
  exact back.of_core rfl

theorem restored_counts {selfId : Nat} {config : Config} {stateMachine : SM} {applied nonce : Nat}
    {state : PersistentState (Input SM)}
    (run : restored selfId config stateMachine applied state nonce = some r) :
    r.replyRanges = [] ∧ r.logStart ≤ applied ∧ applied ≤ r.commitNumber := by
  unfold restored at run
  split at run
  · obtain ⟨made, make, run⟩ := Option.bind_eq_some_iff.mp run
    obtain ⟨_, rfl⟩ := recover_eq make
    cases run
    have same := (sendRecovery_same
      (forgetful selfId config stateMachine state.viewNumber nonce)).core
    exact ⟨congrArg (fun core : Core (Input SM) => core.replyRanges) same, le_rfl, le_rfl⟩
  · obtain ⟨made, make, run⟩ := Option.bind_eq_some_iff.mp run
    obtain ⟨_, rfl⟩ := new_eq make
    dsimp only at run
    split at run
    · obtain ⟨_, _, run⟩ := Option.bind_eq_some_iff.mp run
      cases run
      exact ⟨rfl, le_rfl, le_rfl⟩
    · next behind =>
      obtain ⟨start, run⟩ := require_eq_some.mp run
      cases run
      exact ⟨rfl, start, not_lt.mp behind⟩

theorem Steady.made (made : r.Made) : r.Steady := by
  have start : ∀ {r : Replica SM}, 3 ≤ r.config.replicas.length →
      r.acked = List.replicate r.config.replicas.length 0 → r.replyRanges = [] →
      r.fetch = none → r.outstanding = none → r.peer.Ordered → r.Steady := by
    intro r several acked ranges free none ordered
    refine ⟨⟨several, ?_, fun _ => ?_, ?_⟩, fun fetch isFetch => ?_, ordered, fun _ isOut => ?_⟩
    · rw [acked, List.length_replicate]
    · have zeros : r.acked = r.acked.map fun _ => 0 := by
        rw [acked, List.map_replicate]
      rw [zeros, quorumMark_zeros]
      exact Nat.zero_le _
    · rw [ranges]
      exact nofun
    · cases free.symm.trans isFetch
    · cases none.symm.trans isOut
  cases made with
  | new run =>
      obtain ⟨several, rfl⟩ := new_eq run
      exact start several rfl rfl rfl rfl ⟨le_rfl, le_rfl⟩
  | @recover selfId config stateMachine viewNumber nonce _ run =>
      obtain ⟨several, rfl⟩ := recover_eq run
      have asleep : (forgetful selfId config stateMachine viewNumber nonce).Steady :=
        start several rfl rfl rfl rfl ⟨le_rfl, le_rfl⟩
      exact asleep.of_core (sendRecovery_same _).core
  | @restart selfId config stateMachine applied nonce state _ run =>
      obtain ⟨made, woken, make, wakes⟩ := restart_wakes run
      obtain ⟨several, peer, _⟩ := restored_peer make
      have config : made.config = config := congrArg (·.config) peer
      obtain ⟨ranges, begins, committed⟩ := restored_counts make
      have risen : (made.risen applied state).Steady := by
        refine start ?_ ?_ ?_ ?_ ?_ ⟨begins, committed⟩
        · show 3 ≤ made.config.replicas.length
          exact config ▸ several
        · show made.acked = List.replicate made.config.replicas.length 0
          rw [config]
          exact congrArg (·.acked) peer
        · exact ranges
        · exact congrArg (·.fetch) peer
        · exact congrArg (·.outstanding) peer
      have handles : Handles (fun _ => False) (made.risen applied state) _ := wakes.handles
      exact risen.handles handles

/-- A replica its owner made and has stepped since. -/
inductive Reached : Replica SM → Prop
  | made {r : Replica SM} (made : r.Made) : Reached r
  | message {r r' : Replica SM} (before : Reached r) (message : MessageFor SM)
      (run : r.onMessage message = some r') : Reached r'
  | idle {r r' : Replica SM} (before : Reached r) (run : r.onIdle = some r') : Reached r'
  | compact {r r' : Replica SM} (before : Reached r) (opNumber : Nat)
      (run : r.compact opNumber = some r') : Reached r'
  | take {r r' : Replica SM} {write : LogWrite (Input SM)} (before : Reached r)
      (run : r.takeWrite = some (r', write)) : Reached r'
  | handBack {r r' : Replica SM} (before : Reached r) (write : LogWrite (Input SM))
      (run : r.persisted write = some r') : Reached r'
  | drainBeforePersist {r : Replica SM} (before : Reached r) :
      Reached r.drainMessagesBeforePersist.1
  | drain {r : Replica SM} (before : Reached r) : Reached r.drainMessages.1
  | drainReplies {r : Replica SM} (before : Reached r) : Reached r.drainReplies.1

theorem Reached.steady (reached : r.Reached) : r.Steady := by
  induction reached with
  | made made => exact .made made
  | message _ message run ih => exact ih.message run
  | idle _ run ih => exact ih.idle run
  | compact _ opNumber run ih => exact ih.compact run
  | take _ run ih => exact ih.take run
  | handBack _ write run ih => exact ih.persisted run
  | drainBeforePersist _ ih | drain _ ih | drainReplies _ ih => exact ih.of_core rfl

end Vsr.Replica
