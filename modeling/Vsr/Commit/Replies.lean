import Vsr.Commit.Counting

/-!
# The replies to what is committed

The entries a replica executes are answered in the order of the log, those in a range
to reply to once each, and the others not at all.
-/

set_option autoImplicit false

namespace Vsr

variable {SM : Type} [StateMachine SM]

/-- Whether a reply answers an entry of the log, rather than a query. -/
def Reply.toEntry {Output : Type} : Reply Output → Bool
  | .queried .. => false
  | _ => true

/-- The reply to an entry executed at `opNumber` by a machine in state `m`. -/
inductive Answers (viewNumber opNumber : Nat) : EntryFor SM → SM → Reply (Output SM) → Prop
  | registered {clientId : Nat} {m : SM} (session : Nat) :
      Answers viewNumber opNumber (.register clientId) m (.registered viewNumber clientId session)
  | executed {clientId session requestNumber answered : Nat} {op : Input SM} {m : SM} :
      Answers viewNumber opNumber (.request clientId session requestNumber answered op) m
        (.executed viewNumber clientId session requestNumber (StateMachine.apply m opNumber op).2)
  /-- The request finds its session gone. -/
  | evicted {clientId session requestNumber answered : Nat} {op : Input SM} {m : SM} :
      Answers viewNumber opNumber (.request clientId session requestNumber answered op) m
        (.evicted viewNumber clientId session)

theorem Answers.toEntry {viewNumber opNumber : Nat} {entry : EntryFor SM} {m : SM}
    {reply : Reply (Output SM)} (answers : Answers viewNumber opNumber entry m reply) :
    reply.toEntry = true := by
  cases answers <;> rfl

/-- The entries after op `a`, executed one after the other up to op `b`, with the
replies to them, each with its op number. -/
inductive Serves (may : Nat → EntryFor SM → Prop) (viewNumber : Nat) :
    Nat → SM → List (Nat × Reply (Output SM)) → Nat → SM → Prop
  | refl {a : Nat} {m : SM} : Serves may viewNumber a m [] a m
  | tail {a b : Nat} {m m' m'' : SM} {served : List (Nat × Reply (Output SM))} {entry : EntryFor SM}
      {reply : Reply (Output SM)} (before : Serves may viewNumber a m served b m')
      (allowed : may (b + 1) entry) (block : Block (b + 1) entry m' m'')
      (answers : Answers viewNumber (b + 1) entry m' reply) :
      Serves may viewNumber a m (served ++ [(b + 1, reply)]) (b + 1) m''

namespace Serves

variable {may may' : Nat → EntryFor SM → Prop} {viewNumber a b c : Nat} {m m' m'' : SM}
  {served rest : List (Nat × Reply (Output SM))}

theorem trans (first : Serves may viewNumber a m served b m')
    (second : Serves may viewNumber b m' rest c m'') :
    Serves may viewNumber a m (served ++ rest) c m'' := by
  induction second with
  | refl => rwa [List.append_nil]
  | tail _ allowed block answers ih =>
      rw [← List.append_assoc]
      exact .tail (ih first) allowed block answers

theorem mono (serves : Serves may viewNumber a m served b m')
    (le : ∀ k entry, may k entry → may' k entry) : Serves may' viewNumber a m served b m' := by
  induction serves with
  | refl => exact .refl
  | tail _ allowed block answers ih => exact .tail ih (le _ _ allowed) block answers

theorem le (serves : Serves may viewNumber a m served b m') : a ≤ b := by
  induction serves with
  | refl => exact le_rfl
  | tail _ _ _ _ ih => exact ih.trans (Nat.le_succ _)

/-- Each op is answered once, in the order of the log. -/
theorem ops (serves : Serves may viewNumber a m served b m') :
    served.map Prod.fst = List.range' (a + 1) (b - a) := by
  induction serves with
  | refl => rw [Nat.sub_self]; rfl
  | tail before _ _ _ ih =>
      have more := before.le
      rw [List.map_append, ih, Nat.succ_sub more, List.range'_concat]
      simp only [List.map_cons, List.map_nil, Nat.one_mul]
      congr 2
      omega

theorem toEntry (serves : Serves may viewNumber a m served b m') {answer : Nat × Reply (Output SM)}
    (mem : answer ∈ served) : answer.2.toEntry = true := by
  induction serves with
  | refl => cases mem
  | tail _ _ _ answers ih =>
      rcases List.mem_append.mp mem with old | new
      · exact ih old
      · rw [List.mem_singleton.mp new]
        exact answers.toEntry

theorem bounds (serves : Serves may viewNumber a m served b m') {answer : Nat × Reply (Output SM)}
    (mem : answer ∈ served) : a < answer.1 ∧ answer.1 ≤ b := by
  have inside : answer.1 ∈ served.map Prod.fst := List.mem_map_of_mem mem
  rw [serves.ops, List.mem_range'_1] at inside
  have more := serves.le
  omega

end Serves

namespace Replica

variable {r r' : Replica SM}

/-! ## The ranges to reply to -/

theorem toReply_iff {ranges : List (Nat × Nat)} {k : Nat} :
    toReply ranges k = true ↔ ∃ range ∈ ranges, range.1 ≤ k ∧ k ≤ range.2 := by
  simp [toReply]

/-- A range is dropped once every op of it has executed. -/
theorem toReply_filter {ranges : List (Nat × Nat)} {applied k : Nat} (later : applied < k) :
    toReply (ranges.filter fun range => applied < range.2) k = toReply ranges k := by
  rw [Bool.eq_iff_iff, toReply_iff, toReply_iff]
  constructor
  · rintro ⟨range, mem, inside⟩
    exact ⟨range, (List.mem_filter.mp mem).1, inside⟩
  · rintro ⟨range, mem, inside⟩
    refine ⟨range, List.mem_filter.mpr ⟨mem, ?_⟩, inside⟩
    exact decide_eq_true (later.trans_le inside.2)

theorem toReply_append {ranges ranges' : List (Nat × Nat)} {k : Nat} :
    toReply (ranges ++ ranges') k = (toReply ranges k || toReply ranges' k) :=
  List.any_append

theorem toReply_single {first last k : Nat} :
    toReply [(first, last)] k = (decide (first ≤ k) && decide (k ≤ last)) := by
  simp [toReply]

/-- Whether a range is extended or a new one added, the ops to reply to are the
same. -/
theorem toReply_extendRanges {ranges : List (Nat × Nat)} {first last k : Nat}
    (more : first ≤ last) (ordered : ∀ range ∈ ranges, range.1 ≤ range.2) :
    toReply (extendRanges ranges first last) k =
      (toReply ranges k || (decide (first ≤ k) && decide (k ≤ last))) := by
  unfold extendRanges
  split
  · next latest isLast =>
    split
    · next follows =>
      have nonempty : ranges ≠ [] := by
        intro empty
        rw [empty] at isLast
        cases isLast
      have split : ranges = ranges.dropLast ++ [latest] := by
        have isLatest : ranges.getLast nonempty = latest := by
          rw [List.getLast?_eq_some_getLast nonempty] at isLast
          exact Option.some.inj isLast
        rw [← isLatest, List.dropLast_concat_getLast]
      have inside := ordered latest (List.mem_of_getLast? isLast)
      conv_rhs => rw [split, toReply_append]
      rw [toReply_append, toReply_single, toReply_single, Bool.or_assoc]
      congr 1
      rw [Bool.eq_iff_iff]
      simp only [Bool.or_eq_true, Bool.and_eq_true, decide_eq_true_eq]
      omega
    · rw [toReply_append, toReply_single]
  · next none =>
    rw [List.getLast?_eq_none_iff] at none
    rw [none, toReply_single]
    rfl

/-! ## Executing -/

theorem execute_answers {opNumber : Nat} {reply : Reply (Output SM)}
    (run : r.execute opNumber = some (r', reply)) :
    ∃ entry, r.entry opNumber = some entry ∧ Block opNumber entry r.stateMachine r'.stateMachine ∧
      Answers r.viewNumber opNumber entry r.stateMachine reply := by
  obtain ⟨entry, isEntry, block⟩ := execute_block run
  refine ⟨entry, isEntry, block, ?_⟩
  obtain ⟨entry', isEntry', run⟩ := Option.bind_eq_some_iff.mp run
  cases isEntry.symm.trans isEntry'
  cases entry with
  | register clientId =>
      simp only [register] at run
      split at run
      · cases run
        exact .registered _
      · obtain ⟨room, _, run⟩ := Option.map_eq_some_iff.mp run
        cases run
        exact .registered _
  | request clientId session requestNumber answered op =>
      simp only [executeRequest] at run
      split at run
      · cases run
        exact .evicted
      · obtain ⟨_, run⟩ := require_eq_some.mp run
        cases run
        exact .executed

/-- The replies to those of `served` that are in a range to reply to. -/
def dueOf (ranges : List (Nat × Nat)) (served : List (Nat × Reply (Output SM))) :
    List (Reply (Output SM)) :=
  (served.filter fun answer => toReply ranges answer.1).map Prod.snd

theorem applyNext_serves (run : r.applyNext = some r') : ∃ entry reply,
    r.entry (r.applied + 1) = some entry ∧
      Block (r.applied + 1) entry r.stateMachine r'.stateMachine ∧
      Answers r.viewNumber (r.applied + 1) entry r.stateMachine reply ∧
      r'.replies = r.replies ++ dueOf r.replyRanges [(r.applied + 1, reply)] := by
  obtain ⟨executed, reply, _, execution, _, rfl⟩ := applyNext_eq run
  obtain ⟨entry, isEntry, block, answers⟩ := execute_answers execution
  have same := execute_same execution
  have ranges : executed.replyRanges = r.replyRanges := congrArg (·.replyRanges) same.core
  have replies : executed.replies = r.replies := congrArg (·.replies) same.outboxes
  refine ⟨entry, reply, isEntry, block, answers, ?_⟩
  dsimp only
  unfold dueOf
  rw [ranges, replies]
  by_cases due : toReply r.replyRanges (r.applied + 1) = true
  · simp [due]
  · simp [due]

theorem applyMany_serves {count : Nat} (run : applyMany count r = some r') : ∃ served,
    Serves (fun k entry => r.entry k = some entry ∧ k ≤ r.applied + count) r.viewNumber
        r.applied r.stateMachine served r'.applied r'.stateMachine ∧
      r'.replies = r.replies ++ dueOf r.replyRanges served := by
  induction count generalizing r with
  | zero =>
      cases run
      exact ⟨[], .refl, (List.append_nil _).symm⟩
  | succ count ih =>
      obtain ⟨next, first, rest⟩ := Option.bind_eq_some_iff.mp run
      obtain ⟨entry, reply, isEntry, block, answers, replies⟩ := applyNext_serves first
      have core := (applyNext_same first).1
      have applied : next.applied = r.applied + 1 := congrArg (·.applied) core
      have view : next.viewNumber = r.viewNumber := congrArg (·.viewNumber) core
      have ranges : next.replyRanges = r.replyRanges := congrArg (·.replyRanges) core
      have same : ∀ k, next.entry k = r.entry k := fun k => by rw [core]; rfl
      obtain ⟨served, serves, more⟩ := ih rest
      rw [applied, view] at serves
      refine ⟨[(r.applied + 1, reply)] ++ served, ?_, ?_⟩
      · refine Serves.trans (.tail .refl ⟨isEntry, by omega⟩ block answers)
          (serves.mono fun k entry allowed => ?_)
        exact ⟨(same k).symm.trans allowed.1, by omega⟩
      · rw [more, replies, ranges, List.append_assoc]
        unfold dueOf
        rw [List.filter_append, List.map_append]

/-- The replies among `replies` that answer entries. -/
def entryReplies (replies : List (Reply (Output SM))) : List (Reply (Output SM)) :=
  replies.filter Reply.toEntry

theorem answerQueries_replies (r : Replica SM) (queries : List (WaitingQuery (Query SM))) :
    entryReplies (r.answerQueries queries).replies = entryReplies r.replies := by
  induction queries generalizing r with
  | nil => rfl
  | cons query rest ih =>
      unfold answerQueries
      split
      · rfl
      · rw [ih]
        unfold entryReplies
        rw [List.filter_append]
        exact List.append_nil _

theorem executeQueries_replies (r : Replica SM) :
    entryReplies r.executeQueries.replies = entryReplies r.replies := by
  unfold executeQueries
  split
  · exact answerQueries_replies r r.queries
  · rfl

theorem entryReplies_due {may : Nat → EntryFor SM → Prop} {viewNumber a b : Nat} {m m' : SM}
    {served : List (Nat × Reply (Output SM))} (serves : Serves may viewNumber a m served b m')
    (ranges : List (Nat × Nat)) : entryReplies (dueOf ranges served) = dueOf ranges served := by
  refine List.filter_eq_self.mpr fun reply mem => ?_
  obtain ⟨answer, inside, rfl⟩ := List.mem_map.mp mem
  exact serves.toEntry (List.mem_filter.mp inside).1

/-- What `apply_committed` executes, and the replies it produces to entries. -/
theorem applyCommitted_serves {durable : Nat} (run : r.applyCommitted durable = some r') :
    ∃ served, Serves (fun k entry => r.entry k = some entry ∧ k ≤ durable) r.viewNumber
        r.applied r.stateMachine served r'.applied r'.stateMachine ∧
      entryReplies r'.replies = entryReplies r.replies ++ dueOf r.replyRanges served := by
  have applied := (applyCommitted_executed run).2.2
  obtain ⟨many, execution, rfl⟩ := applyCommitted_eq run
  obtain ⟨served, serves, replies⟩ := applyMany_serves execution
  set trimmed : Replica SM := { many with
    replyRanges := many.replyRanges.filter fun range => many.applied < range.2 } with isTrimmed
  have same := executeQueries_same trimmed
  have machine : trimmed.executeQueries.stateMachine = many.stateMachine := by
    rw [same.clientTable]
  have counted : trimmed.executeQueries.applied = many.applied := by rw [same.core]
  refine ⟨served, ?_, ?_⟩
  · rw [machine, counted]
    have last : many.applied = r.applied + (min r.commitNumber durable - r.applied) :=
      counted.symm.trans applied
    rcases Nat.lt_or_ge r.applied (min r.commitNumber durable) with more | none
    · exact serves.mono fun k entry allowed => ⟨allowed.1, by omega⟩
    · rw [Nat.sub_eq_zero_of_le none] at execution
      cases execution
      have empty : served = [] := by
        have ops := serves.ops
        rw [Nat.sub_self] at ops
        exact List.map_eq_nil_iff.mp ops
      rw [empty]
      exact .refl
  · rw [executeQueries_replies]
    show entryReplies many.replies = _
    rw [replies]
    unfold entryReplies
    rw [List.filter_append]
    congr 1
    exact entryReplies_due serves r.replyRanges

/-! ## From a state on -/

/-- Whether an op that executes after `s` is replied to: `s` had it in a range, or it
commits later. -/
def isDue (s : Replica SM) (k : Nat) : Bool := toReply s.replyRanges k || decide (s.commitNumber < k)

/-- Between `s` and `r` the replica has `served` what it has executed. -/
structure Replied (may : Nat → EntryFor SM → Prop) (s r : Replica SM)
    (served : List (Nat × Reply (Output SM))) : Prop where
  serves : Serves may s.viewNumber s.applied s.stateMachine served r.applied r.stateMachine
  replies : entryReplies r.replies =
    entryReplies s.replies ++ (served.filter fun answer => s.isDue answer.1).map Prod.snd
  due : ∀ k, r.applied < k → k ≤ r.commitNumber → toReply r.replyRanges k = s.isDue k

namespace Replied

variable {may may' : Nat → EntryFor SM → Prop} {s : Replica SM}
  {served : List (Nat × Reply (Output SM))}

theorem start (s : Replica SM) : Replied may s s [] where
  serves := .refl
  replies := (List.append_nil _).symm
  due k _ committed := by
    unfold isDue
    rw [decide_eq_false (not_lt.mpr committed), Bool.or_false]

theorem mono (replied : Replied may s r served) (le : ∀ k entry, may k entry → may' k entry) :
    Replied may' s r served :=
  ⟨replied.serves.mono le, replied.replies, replied.due⟩

/-- Only what `apply_committed` changes matters. -/
theorem same (replied : Replied may s r served) (applied : r'.applied = r.applied)
    (machine : r'.stateMachine = r.stateMachine) (replies : r'.replies = r.replies)
    (committed : r'.commitNumber = r.commitNumber) (ranges : r'.replyRanges = r.replyRanges) :
    Replied may s r' served where
  serves := by
    rw [applied, machine]
    exact replied.serves
  replies := by
    rw [replies]
    exact replied.replies
  due := by
    rw [applied, committed, ranges]
    exact replied.due

theorem apply {durable : Nat} (replied : Replied may s r served) (view : r.viewNumber = s.viewNumber)
    (run : r.applyCommitted durable = some r')
    (allowed : ∀ k entry, r.entry k = some entry → k ≤ durable → may k entry) :
    ∃ served', Replied may s r' served' := by
  obtain ⟨executed, committed, applied⟩ := applyCommitted_executed run
  obtain ⟨new, serves, replies⟩ := applyCommitted_serves run
  rw [view] at serves
  refine ⟨served ++ new, ?_, ?_, fun k later inside => ?_⟩
  · exact replied.serves.trans (serves.mono fun k entry may => allowed k entry may.1 may.2)
  · rw [replies, replied.replies, List.filter_append, List.map_append, List.append_assoc]
    congr 2
    unfold dueOf
    congr 1
    refine List.filter_congr fun answer mem => ?_
    have bounds := serves.bounds mem
    exact replied.due answer.1 bounds.1 (by omega)
  · rw [applyCommitted_ranges run, toReply_filter later]
    refine replied.due k ?_ (inside.trans committed.le)
    exact executed.more.trans_lt later

/-- The ops a commit adds are replied to. -/
theorem raise {commitNumber : Nat} (replied : Replied may s r served)
    (later : r.commitNumber < commitNumber) (since : s.commitNumber ≤ r.commitNumber)
    (ordered : ∀ range ∈ r.replyRanges, range.1 ≤ range.2) :
    Replied may s { r with
      replyRanges := extendRanges r.replyRanges (r.commitNumber + 1) commitNumber
      commitNumber := commitNumber } served where
  serves := replied.serves
  replies := replied.replies
  due k unapplied inside := by
    have more : r.commitNumber + 1 ≤ commitNumber := later
    show toReply (extendRanges r.replyRanges (r.commitNumber + 1) commitNumber) k = s.isDue k
    rw [toReply_extendRanges more ordered]
    by_cases old : k ≤ r.commitNumber
    · have before := replied.due k unapplied old
      rw [before, decide_eq_false (by omega), Bool.false_and, Bool.or_false]
    · have new : s.commitNumber < k := by omega
      unfold isDue
      rw [decide_eq_true new, Bool.or_true, decide_eq_true (by omega), decide_eq_true inside,
        Bool.and_self, Bool.or_true]

theorem commit {commitNumber : Nat} (replied : Replied may s r served)
    (view : r.viewNumber = s.viewNumber) (since : s.commitNumber ≤ r.commitNumber)
    (ordered : ∀ range ∈ r.replyRanges, range.1 ≤ range.2)
    (run : r.commitUpTo commitNumber true = some r')
    (allowed : ∀ k entry durable, r.entry k = some entry → r.durableOp = some durable →
      k ≤ durable → may k entry) :
    ∃ served', Replied may s r' served' := by
  rcases commitUpTo_cases run with ⟨_, rfl⟩ | ⟨later, durable, isDurable, apply⟩
  · exact ⟨served, replied⟩
  · refine (replied.raise later since ordered).apply view apply fun k entry isEntry inside => ?_
    exact allowed k entry durable isEntry isDurable inside

end Replied

end Replica

end Vsr
