import Vsr.Simulator.Follows

/-!
# What a log does

The plain model fed a log from the first entry on, and the replies this gives.  A
result is kept for as long as its record is, a session is numbered by the entry that
opened it, and no request of a session executes twice.
-/

set_option autoImplicit false

namespace Vsr

namespace Model

variable {SM : Type} [StateMachine SM] {config : Config} {start : SM}
  {log log' : List (EntryFor SM)} {k : Nat} {m m' : Model SM} {reply : Reply (Output SM)}

/-- The model that has been fed the first `k` entries of the log. -/
structure Fed (config : Config) (start : SM) (log : List (EntryFor SM)) (k : Nat) (m : Model SM) :
    Prop where
  within : k ≤ log.length
  fed : feedAll config 1 (log.take k) (.new start) = some m

/-- Executing the entry of the log after the first `k` gives this reply, in view 0. -/
def Gives (config : Config) (start : SM) (log : List (EntryFor SM)) (k : Nat)
    (reply : Reply (Output SM)) : Prop :=
  ∃ m m' entry, Fed config start log k m ∧ log[k]? = some entry ∧
    m.feed config (k + 1) entry = some (m', reply)

namespace Fed

theorem zero : Fed config start log 0 (.new start) := ⟨Nat.zero_le _, by rw [List.take_zero]; rfl⟩

theorem unique (fed : Fed config start log k m) (fed' : Fed config start log k m') : m = m' :=
  Option.some.inj (fed.fed.symm.trans fed'.fed)

theorem longer (isPrefix : log <+: log') (fed : Fed config start log k m) :
    Fed config start log' k m := by
  obtain ⟨more, rfl⟩ := isPrefix
  refine ⟨fed.within.trans (by simp), ?_⟩
  rw [List.take_append_of_le_length fed.within]
  exact fed.fed

theorem succ (fed : Fed config start log k m) {entry : EntryFor SM} (isNext : log[k]? = some entry)
    (feeds : m.feed config (k + 1) entry = some (m', reply)) : Fed config start log (k + 1) m' :=
  ⟨(List.getElem?_eq_some_iff.mp isNext).1, Executes.feedAll_succ isNext fed.fed feeds⟩

/-- Before the last entry fed there was the model it was fed to. -/
theorem pred (fed : Fed config start log (k + 1) m') :
    ∃ m entry reply, Fed config start log k m ∧ log[k]? = some entry ∧
      m.feed config (k + 1) entry = some (m', reply) := by
  have inside : k < log.length := fed.within
  have isNext := List.getElem?_eq_getElem inside
  have run := fed.fed
  rw [List.take_add_one, isNext, Executes.feedAll_append, List.length_take,
    Nat.min_eq_left inside.le] at run
  obtain ⟨m, before, run⟩ := Option.bind_eq_some_iff.mp run
  obtain ⟨⟨next, reply⟩, feeds, rest⟩ := Option.bind_eq_some_iff.mp run
  cases rest
  rw [Nat.add_comm 1 k] at feeds
  exact ⟨m, _, reply, ⟨inside.le, before⟩, isNext, feeds⟩

/-- A log that has been fed comes to something after every entry. -/
theorem before (fed : Fed config start log k m) {j : Nat} (within : j ≤ k) :
    ∃ m', Fed config start log j m' := by
  induction k generalizing m with
  | zero =>
      obtain rfl := Nat.le_zero.mp within
      exact ⟨m, fed⟩
  | succ k ih =>
      rcases within.lt_or_eq with earlier | rfl
      · obtain ⟨prev, _, _, fedPrev, _⟩ := fed.pred
        exact ih fedPrev (Nat.le_of_lt_succ earlier)
      · exact ⟨m, fed⟩

end Fed

theorem Gives.longer (isPrefix : log <+: log') (gives : Gives config start log k reply) :
    Gives config start log' k reply := by
  obtain ⟨m, m', entry, fed, isNext, feeds⟩ := gives
  obtain ⟨more, rfl⟩ := isPrefix
  refine ⟨m, m', entry, fed.longer ⟨more, rfl⟩, ?_, feeds⟩
  rw [List.getElem?_append_left (List.getElem?_eq_some_iff.mp isNext).1, isNext]

/-! ## What an entry does to the client table -/

theorem makeRoom_record {opNumber : Nat} (run : m.makeRoom config opNumber = some m')
    {clientId : Nat} {record : ClientRecord (Output SM)}
    (found : m'.table.get? clientId = some record) : m.table.get? clientId = some record := by
  unfold makeRoom at run
  split at run
  · obtain ⟨evicted, _, run⟩ := Option.map_eq_some_iff.mp run
    cases run
    rw [OrderedMap.get?_erase] at found
    exact (Option.ite_none_left_eq_some.mp found).2
  · cases run
    exact found

/-- A record after an entry is what it was before, or the entry opened its session,
or it executed the next request of it. -/
theorem feed_record {opNumber : Nat} {entry : EntryFor SM}
    (feeds : m.feed config opNumber entry = some (m', reply)) {clientId : Nat}
    {record' : ClientRecord (Output SM)} (found : m'.table.get? clientId = some record') :
    m.table.get? clientId = some record' ∨
      (reply = .registered 0 clientId opNumber ∧ record'.session = opNumber ∧
        record'.replies = []) ∨
      ∃ record result dropped, m.table.get? clientId = some record ∧
        reply = .executed 0 clientId record.session (record.requestNumber + 1) result ∧
        record'.session = record.session ∧ record'.requestNumber = record.requestNumber + 1 ∧
        record'.replies = (record.replies ++ [result]).drop dropped := by
  cases entry with
  | register registered =>
      obtain ⟨⟨fedModel, session⟩, run, isFed⟩ := Option.map_eq_some_iff.mp feeds
      cases isFed
      unfold Model.register at run
      split at run
      · cases run
        exact .inl found
      · obtain ⟨room, isRoom, isOpened⟩ := Option.map_eq_some_iff.mp run
        cases isOpened
        dsimp only at found
        rw [OrderedMap.get?_insert] at found
        split at found
        · next same =>
          subst same
          cases found
          exact .inr (.inl ⟨rfl, rfl, rfl⟩)
        · exact .inl (makeRoom_record isRoom found)
  | request requester session requestNumber answered op =>
      unfold Model.feed at feeds
      dsimp only at feeds
      split at feeds
      · cases feeds
        exact .inl found
      · next record isRecord =>
        obtain ⟨isNext, feeds⟩ := require_eq_some.mp feeds
        obtain ⟨isRecord, isSession⟩ := Option.filter_eq_some_iff.mp isRecord
        cases feeds
        dsimp only at found
        rw [OrderedMap.get?_insert] at found
        split at found
        · next same =>
          subst same isNext
          cases found
          refine .inr (.inr ⟨record, _, _, isRecord, ?_, rfl, rfl, keep_eq_drop _ _⟩)
          rw [of_decide_eq_true isSession]
        · exact .inl found

/-- A request executes as the next one of its session. -/
theorem feed_executed {opNumber v clientId session requestNumber : Nat} {entry : EntryFor SM}
    {result : Output SM}
    (feeds : m.feed config opNumber entry =
      some (m', .executed v clientId session requestNumber result)) :
    ∃ record record', m.table.get? clientId = some record ∧ record.session = session ∧
      requestNumber = record.requestNumber + 1 ∧ m'.table.get? clientId = some record' ∧
      record'.requestNumber = requestNumber := by
  cases entry with
  | register registered =>
      obtain ⟨_, _, isFed⟩ := Option.map_eq_some_iff.mp feeds
      cases isFed
  | request requester requested number answered op =>
      unfold Model.feed at feeds
      dsimp only at feeds
      split at feeds
      · cases feeds
      · next record isRecord =>
        obtain ⟨isNext, feeds⟩ := require_eq_some.mp feeds
        obtain ⟨was, isSession⟩ := Option.filter_eq_some_iff.mp isRecord
        cases feeds
        exact ⟨record, _, was, of_decide_eq_true isSession, isNext,
          (OrderedMap.get?_insert ..).trans (if_pos rfl), rfl⟩

/-- A request that finds its session executes as the next one, or not at all. -/
theorem feed_next {opNumber clientId session requestNumber answered : Nat} {op : Input SM}
    (feeds : m.feed config opNumber (.request clientId session requestNumber answered op) =
      some (m', reply)) {record : ClientRecord (Output SM)}
    (found : m.table.get? clientId = some record) (isSession : record.session = session) :
    requestNumber = record.requestNumber + 1 := by
  have isRecord : (m.table.get? clientId).filter (·.session = session) = some record :=
    Option.filter_eq_some_iff.mpr ⟨found, decide_eq_true isSession⟩
  unfold Model.feed at feeds
  dsimp only at feeds
  rw [isRecord] at feeds
  exact (require_eq_some.mp feeds).1

/-- What holds of the model that has been fed a log. -/
theorem Fed.ok {sound : SM → Prop} (keeps : KeepsTable sound) (isSound : sound start)
    (empty : StateMachine.clientTable start = []) (fed : Fed config start log k m) :
    m.Ok sound config k := by
  induction k generalizing m with
  | zero =>
      cases fed.unique zero
      refine ⟨Nat.zero_le _, ⟨isSound, ?_⟩, ⟨?_, ?_, ?_⟩⟩
      · show (StateMachine.clientTable start).Perm []
        rw [empty]
      all_goals
        intro x mem
        cases mem
  | succ k ih =>
      obtain ⟨before, entry, reply, fedBefore, _, feeds⟩ := fed.pred
      have ok := ih fedBefore
      -- A replica that has this entry alone to execute.
      let r : Replica SM :=
        { Replica.fresh 0 config before.machine with logStart := k, log := [entry] }
      have follows : Replica.Follows config r.loadClientTable before k :=
        Replica.follows_load rfl rfl ok
      have isEntry : r.loadClientTable.entry (k + 1) = some entry := by
        refine Option.bind_eq_some_iff.mpr ⟨0, checkedSub_eq_some.mpr ⟨le_rfl, ?_⟩, rfl⟩
        exact (Nat.sub_self _).symm
      obtain ⟨_, m', reply', _, feeds', _, ok'⟩ := follows.execute ok keeps isEntry
        fun clientId session requestNumber answered op isRequest record found isSession =>
          feed_next (isRequest ▸ feeds) found isSession
      cases feeds.symm.trans feeds'
      exact ok'

/-! ## What is kept -/

/-- The session of a record was opened by the entry it is numbered by. -/
theorem Fed.opened (fed : Fed config start log k m) {clientId : Nat}
    {record : ClientRecord (Output SM)} (found : m.table.get? clientId = some record) :
    ∃ j < k, record.session = j + 1 ∧
      Gives config start log j (.registered 0 clientId record.session) := by
  induction k generalizing m record with
  | zero =>
      cases fed.unique zero
      cases found
  | succ k ih =>
      obtain ⟨before, entry, reply, fedBefore, isNext, feeds⟩ := fed.pred
      have earlier : ∀ record', before.table.get? clientId = some record' →
          ∃ j < k + 1, record'.session = j + 1 ∧
            Gives config start log j (.registered 0 clientId record'.session) := by
        intro record' found'
        obtain ⟨j, within, opened⟩ := ih fedBefore found'
        exact ⟨j, within.trans (Nat.lt_succ_self k), opened⟩
      rcases feed_record feeds found with
        same | ⟨isReply, session, _⟩ | ⟨record', _, _, found', _, session, _⟩
      · exact earlier record same
      · rw [session]
        exact ⟨k, Nat.lt_succ_self k, rfl, before, m, entry, fedBefore, isNext, isReply ▸ feeds⟩
      · rw [session]
        exact earlier record' found'

/-- A result kept is that of the request as it executed. -/
theorem Fed.kept (fed : Fed config start log k m) {clientId : Nat}
    {record : ClientRecord (Output SM)} (found : m.table.get? clientId = some record)
    {requestNumber index : Nat} {result : Output SM} (earlier : requestNumber ≤ record.requestNumber)
    (isIndex : index + (record.requestNumber - requestNumber + 1) = record.replies.length)
    (isResult : record.replies[index]? = some result) :
    ∃ j < k, Gives config start log j
      (.executed 0 clientId record.session requestNumber result) := by
  induction k generalizing m record index with
  | zero =>
      cases fed.unique zero
      cases found
  | succ k ih =>
      obtain ⟨before, entry, reply, fedBefore, isNext, feeds⟩ := fed.pred
      rcases feed_record feeds found with
        same | ⟨_, _, none⟩ | ⟨record', latest, dropped, found', isReply, session, number, replies⟩
      · obtain ⟨j, within, gives⟩ := ih fedBefore same earlier isIndex isResult
        exact ⟨j, within.trans (Nat.lt_succ_self k), gives⟩
      · rw [none] at isResult
        cases isResult
      · rw [replies, List.getElem?_drop] at isResult
        rw [replies, number, List.length_drop, List.length_append, List.length_singleton] at isIndex
        rw [session]
        rw [number] at earlier
        by_cases isLatest : requestNumber = record'.requestNumber + 1
        · -- The latest result is the last.
          have last : dropped + index = record'.replies.length := by omega
          rw [last, List.getElem?_concat_length] at isResult
          cases isResult
          refine ⟨k, Nat.lt_succ_self k, before, m, entry, fedBefore, isNext, ?_⟩
          rw [isLatest, feeds, isReply]
        · have inside : dropped + index < record'.replies.length := by omega
          rw [List.getElem?_append_left inside] at isResult
          obtain ⟨j, within, gives⟩ :=
            ih fedBefore found' (by omega) (by omega) isResult
          exact ⟨j, within.trans (Nat.lt_succ_self k), gives⟩

/-! ## No request executes twice -/

/-- After a request has executed, its session is past it. -/
theorem Fed.past (fed : Fed config start log k m) {j v clientId session requestNumber : Nat}
    {result : Output SM} (before : j < k)
    (gives : Gives config start log j (.executed v clientId session requestNumber result))
    {record : ClientRecord (Output SM)} (found : m.table.get? clientId = some record)
    (isSession : record.session = session) : requestNumber ≤ record.requestNumber := by
  obtain ⟨first, after, entry, fedFirst, isEntry, executes⟩ := gives
  obtain ⟨was, now, isWas, wasSession, isNumber, isNow, nowNumber⟩ := feed_executed executes
  -- The session was there when the request executed, so it is older than any opened since.
  obtain ⟨i, opened, numbered, _⟩ := fedFirst.opened isWas
  induction k generalizing m record with
  | zero => cases before
  | succ k ih =>
      obtain ⟨prev, next, reply, fedPrev, isNext, feeds⟩ := fed.pred
      rcases Nat.lt_succ_iff_lt_or_eq.mp before with earlier | rfl
      · rcases feed_record feeds found with
          same | ⟨_, fresh, _⟩ | ⟨record', _, _, found', _, session', number, _⟩
        · exact ih fedPrev earlier same isSession
        · omega
        · have := ih fedPrev earlier found' (session'.symm.trans isSession)
          omega
      · cases fedPrev.unique fedFirst
        cases isNext.symm.trans isEntry
        cases feeds.symm.trans executes
        cases found.symm.trans isNow
        exact nowNumber.ge

/-- One request of a session executes once. -/
theorem Gives.once {j v v' clientId session requestNumber : Nat} {result result' : Output SM}
    (first : Gives config start log k (.executed v clientId session requestNumber result))
    (second : Gives config start log j (.executed v' clientId session requestNumber result')) :
    k = j := by
  have never : ∀ {k j v v' : Nat} {result result' : Output SM}, k < j →
      Gives config start log k (.executed v clientId session requestNumber result) →
      ¬Gives config start log j (.executed v' clientId session requestNumber result') := by
    intro k j v v' result result' before first second
    obtain ⟨m, m', entry, fed, isEntry, executes⟩ := second
    obtain ⟨record, _, found, isSession, isNumber, _⟩ := feed_executed executes
    have := fed.past before first found isSession
    omega
  rcases lt_trichotomy k j with before | same | after
  · exact absurd second (never before first)
  · exact same
  · exact absurd first (never after second)

end Model

/-- A reply the log gives: that of an entry as it executes, that a session is gone
that the log had opened or skipped, or the answer to a query that was asked, after
some entry of the log. -/
inductive Reply.TrueTo {SM : Type} [StateMachine SM] (asks : MessageFor SM → Prop)
    (config : Config) (start : SM) (log : List (EntryFor SM)) : Reply (Output SM) → Prop
  | given {k v : Nat} {reply : Reply (Output SM)} (gives : Model.Gives config start log k reply) :
      TrueTo asks config start log (reply.atView v)
  | gone {k v clientId session : Nat} {m : Model SM} (fed : Model.Fed config start log k m)
      (within : session ≤ k)
      (gone : (m.table.get? clientId).filter (·.session = session) = none) :
      TrueTo asks config start log (.evicted v clientId session)
  | queried {k v clientId queryNumber : Nat} {query : Query SM} {m : Model SM}
      (fed : Model.Fed config start log k m) (asked : asks (.query clientId queryNumber query)) :
      TrueTo asks config start log
        (.queried v clientId queryNumber (StateMachine.query m.machine query))

section TrueTo
variable {SM : Type} [StateMachine SM] {asks : MessageFor SM → Prop} {config : Config} {start : SM}
  {log log' : List (EntryFor SM)}

theorem Reply.TrueTo.longer {reply : Reply (Output SM)} (isPrefix : log <+: log')
    (isTrue : reply.TrueTo asks config start log) : reply.TrueTo asks config start log' := by
  cases isTrue with
  | given gives => exact .given (gives.longer isPrefix)
  | gone fed within gone => exact .gone (fed.longer isPrefix) within gone
  | queried fed asked => exact .queried (fed.longer isPrefix) asked

/-- What a reply with a result tells is the result of executing the request. -/
theorem Reply.TrueTo.executed {v clientId session requestNumber : Nat} {result : Output SM}
    (isTrue : (Reply.executed v clientId session requestNumber result).TrueTo asks config start
      log) : ∃ k v', Model.Gives config start log k
        (.executed v' clientId session requestNumber result) := by
  generalize isReply : Reply.executed v clientId session requestNumber result = reply at isTrue
  cases isTrue with
  | @given k v' given gives =>
      cases given <;> cases isReply
      exact ⟨k, _, gives⟩
  | gone => cases isReply
  | queried => cases isReply

/-- A request has one result. -/
theorem Reply.TrueTo.result_unique {v v' clientId session requestNumber : Nat}
    {result result' : Output SM}
    (first : (Reply.executed v clientId session requestNumber result).TrueTo asks config start log)
    (second : (Reply.executed v' clientId session requestNumber result').TrueTo asks config start
      log) : result = result' := by
  obtain ⟨k, w, gives⟩ := first.executed
  obtain ⟨j, w', gives'⟩ := second.executed
  obtain rfl := gives.once gives'
  obtain ⟨m, _, entry, fed, isEntry, feeds⟩ := gives
  obtain ⟨m', _, entry', fed', isEntry', feeds'⟩ := gives'
  cases fed.unique fed'
  cases isEntry.symm.trans isEntry'
  cases feeds.symm.trans feeds'
  rfl

end TrueTo

end Vsr
