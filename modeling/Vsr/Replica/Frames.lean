import Vsr.Replica.Api

/-!
# What each operation leaves alone

Queueing a message touches the outboxes only, and executing an entry touches
what the replica knows of the clients only.
-/

set_option autoImplicit false

namespace Vsr.Replica

variable {SM : Type} [StateMachine SM]

/-! ## Queueing messages -/

section Send
variable (r : Replica SM) (replicaId : Nat) (message : MessageFor SM)

@[simp] theorem send_toCore : (r.send replicaId message).toCore = r.toCore := by
  unfold send; split <;> rfl

@[simp] theorem send_toClientTable :
    (r.send replicaId message).toClientTable = r.toClientTable := by
  unfold send; split <;> rfl

@[simp] theorem send_toQueryState : (r.send replicaId message).toQueryState = r.toQueryState := by
  unfold send; split <;> rfl

@[simp] theorem send_toTimers : (r.send replicaId message).toTimers = r.toTimers := by
  unfold send; split <;> rfl

@[simp] theorem send_replies : (r.send replicaId message).replies = r.replies := by
  unfold send; split <;> rfl

end Send

/-- `r'` is `r` but for the messages it has queued. -/
structure SameButQueued (r r' : Replica SM) : Prop where
  core : r'.toCore = r.toCore
  clientTable : r'.toClientTable = r.toClientTable
  queryState : r'.toQueryState = r.toQueryState
  timers : r'.toTimers = r.toTimers
  replies : r'.replies = r.replies

namespace SameButQueued

theorem refl (r : Replica SM) : SameButQueued r r := ⟨rfl, rfl, rfl, rfl, rfl⟩

theorem trans {r m r' : Replica SM} (first : SameButQueued r m) (second : SameButQueued m r') :
    SameButQueued r r' where
  core := second.core.trans first.core
  clientTable := second.clientTable.trans first.clientTable
  queryState := second.queryState.trans first.queryState
  timers := second.timers.trans first.timers
  replies := second.replies.trans first.replies

theorem foldl {α : Type} (f : Replica SM → α → Replica SM)
    (one : ∀ r a, SameButQueued r (f r a)) (as : List α) (r : Replica SM) :
    SameButQueued r (as.foldl f r) := by
  induction as generalizing r with
  | nil => exact refl r
  | cons a rest ih => exact (one r a).trans (ih (f r a))

end SameButQueued

theorem send_same (r : Replica SM) (replicaId : Nat) (message : MessageFor SM) :
    SameButQueued r (r.send replicaId message) where
  core := send_toCore r replicaId message
  clientTable := send_toClientTable r replicaId message
  queryState := send_toQueryState r replicaId message
  timers := send_toTimers r replicaId message
  replies := send_replies r replicaId message

theorem sendEach_same (r : Replica SM) (ids : List Nat) (message : MessageFor SM) :
    SameButQueued r (r.sendEach ids message) :=
  SameButQueued.foldl _ (fun r replicaId => send_same r replicaId message) ids r

theorem sendToOthers_same (r : Replica SM) (message : MessageFor SM) :
    SameButQueued r (r.sendToOthers message) :=
  sendEach_same r _ message

theorem sendToPrimary_same (r : Replica SM) (message : MessageFor SM) :
    SameButQueued r (r.sendToPrimary message) :=
  send_same r _ message

theorem sendGetStateTo_same (r : Replica SM) (replicaId : Nat) (opNumber : Nat) :
    SameButQueued r (r.sendGetStateTo replicaId opNumber) :=
  send_same r _ _

theorem sendGetState_same (r : Replica SM) (opNumber : Nat) :
    SameButQueued r (r.sendGetState opNumber) :=
  sendGetStateTo_same r _ opNumber

theorem sendPrepareOk_same (r : Replica SM) : SameButQueued r r.sendPrepareOk :=
  SameButQueued.trans (m := r.supersedeAcks) ⟨rfl, rfl, rfl, rfl, rfl⟩ (sendToPrimary_same _ _)

theorem sendStartView_same (r : Replica SM) (replicaId : Nat) :
    SameButQueued r (r.sendStartView replicaId) :=
  send_same r _ _

theorem sendStartViews_same (r : Replica SM) (ids : List Nat) :
    SameButQueued r (ids.foldl (fun r replicaId => r.sendStartView replicaId) r) :=
  SameButQueued.foldl _ sendStartView_same ids r

theorem sendGetChunk_same (r : Replica SM) : SameButQueued r r.sendGetChunk := by
  unfold sendGetChunk
  split
  · exact .refl r
  · exact send_same r _ _

theorem sendRecovery_same (r : Replica SM) : SameButQueued r r.sendRecovery :=
  sendEach_same r _ _

/-! ## Executing -/

/-- `r'` is `r` but for what it knows of the clients. -/
structure SameButClients (r r' : Replica SM) : Prop where
  core : r'.toCore = r.toCore
  queryState : r'.toQueryState = r.toQueryState
  timers : r'.toTimers = r.toTimers
  outboxes : r'.toOutboxes = r.toOutboxes

namespace SameButClients

theorem refl (r : Replica SM) : SameButClients r r := ⟨rfl, rfl, rfl, rfl⟩

theorem trans {r r' r'' : Replica SM} (first : SameButClients r r')
    (second : SameButClients r' r'') : SameButClients r r'' where
  core := second.core.trans first.core
  queryState := second.queryState.trans first.queryState
  timers := second.timers.trans first.timers
  outboxes := second.outboxes.trans first.outboxes

end SameButClients

theorem loadClientTable_same (r : Replica SM) : SameButClients r r.loadClientTable :=
  ⟨rfl, rfl, rfl, rfl⟩

theorem rebuildPending_same {r r' : Replica SM} (run : r.rebuildPending = some r') :
    SameButClients r r' := by
  unfold rebuildPending at run
  obtain ⟨skip, _, run⟩ := Option.bind_eq_some_iff.mp run
  obtain ⟨_, run⟩ := require_eq_some.mp run
  cases run
  exact ⟨rfl, rfl, rfl, rfl⟩

theorem findEvictionCandidates_same {r r' : Replica SM}
    (run : r.findEvictionCandidates = some r') : SameButClients r r' := by
  obtain ⟨_, run⟩ := require_eq_some.mp run
  cases run
  exact ⟨rfl, rfl, rfl, rfl⟩

theorem evictedClient_same {r r' : Replica SM} {clientId : Nat}
    (run : r.evictedClient = some (clientId, r')) : SameButClients r r' := by
  unfold evictedClient at run
  split at run
  · cases run
    exact ⟨rfl, rfl, rfl, rfl⟩
  · obtain ⟨scanned, scan, run⟩ := Option.bind_eq_some_iff.mp run
    obtain ⟨found, _, run⟩ := Option.bind_eq_some_iff.mp run
    cases run
    exact (findEvictionCandidates_same scan).trans ⟨rfl, rfl, rfl, rfl⟩

theorem evict_same {r r' : Replica SM} {opNumber : Nat} (run : r.evict opNumber = some r') :
    SameButClients r r' := by
  unfold evict at run
  obtain ⟨⟨clientId, popped⟩, pop, run⟩ := Option.bind_eq_some_iff.mp run
  obtain ⟨sessions, _, run⟩ := Option.bind_eq_some_iff.mp run
  cases run
  exact (evictedClient_same pop).trans ⟨rfl, rfl, rfl, rfl⟩

theorem makeRoom_same {r r' : Replica SM} {opNumber : Nat}
    (run : r.makeRoom opNumber = some r') : SameButClients r r' := by
  unfold makeRoom at run
  split at run
  · exact evict_same run
  · cases run
    exact .refl r

theorem register_same {r r' : Replica SM} {opNumber : Nat} {clientId : Nat}
    {reply : Reply (Output SM)} (run : r.register opNumber clientId = some (r', reply)) :
    SameButClients r r' := by
  simp only [register] at run
  split at run
  · cases run
    exact ⟨rfl, rfl, rfl, rfl⟩
  · obtain ⟨room, evict, run⟩ := Option.map_eq_some_iff.mp run
    cases run
    have opened : SameButClients room (room.openSession opNumber clientId) :=
      ⟨rfl, rfl, rfl, rfl⟩
    have both := (makeRoom_same evict).trans opened
    exact ⟨both.core, both.queryState, both.timers, both.outboxes⟩

theorem executeRequest_same {r r' : Replica SM} {opNumber session : Nat} {clientId : Nat}
    {requestNumber answered : Nat} {op : Input SM} {reply : Reply (Output SM)}
    (run : r.executeRequest opNumber clientId session requestNumber answered op =
      some (r', reply)) : SameButClients r r' := by
  simp only [executeRequest] at run
  split at run
  · cases run
    exact ⟨rfl, rfl, rfl, rfl⟩
  · obtain ⟨_, run⟩ := require_eq_some.mp run
    cases run
    exact ⟨rfl, rfl, rfl, rfl⟩

theorem execute_same {r r' : Replica SM} {opNumber : Nat} {reply : Reply (Output SM)}
    (run : r.execute opNumber = some (r', reply)) : SameButClients r r' := by
  unfold execute at run
  obtain ⟨entry, _, run⟩ := Option.bind_eq_some_iff.mp run
  cases entry with
  | register clientId => exact register_same run
  | request clientId session requestNumber answered op => exact executeRequest_same run

/-! ## Answering queries -/

/-- `r'` is `r` but for the queries answered and their replies. -/
structure SameButQueries (r r' : Replica SM) : Prop where
  core : r'.toCore = r.toCore
  clientTable : r'.toClientTable = r.toClientTable
  timers : r'.toTimers = r.toTimers
  queued : r'.queued = r.queued
  round : r'.round = r.round
  roundConfirmed : r'.roundConfirmed = r.roundConfirmed
  confirmed : r'.confirmed = r.confirmed
  roundUnsent : r'.roundUnsent = r.roundUnsent

theorem answerQueries_same (r : Replica SM) (queries : List (WaitingQuery (Query SM))) :
    SameButQueries r (r.answerQueries queries) := by
  induction queries generalizing r with
  | nil => exact ⟨rfl, rfl, rfl, rfl, rfl, rfl, rfl, rfl⟩
  | cons query rest ih =>
      unfold answerQueries
      split
      · exact ⟨rfl, rfl, rfl, rfl, rfl, rfl, rfl, rfl⟩
      · obtain ⟨h1, h2, h3, h4, h5, h6, h7, h8⟩ := ih { r with
            waiting := r.waiting.erase (query.clientId, query.queryNumber)
            replies := r.replies ++ [.queried r.viewNumber query.clientId query.queryNumber
              (StateMachine.query r.stateMachine query.query)] }
        exact ⟨h1, h2, h3, h4, h5, h6, h7, h8⟩

theorem executeQueries_same (r : Replica SM) : SameButQueries r r.executeQueries := by
  unfold executeQueries
  split
  · exact answerQueries_same r r.queries
  · exact ⟨rfl, rfl, rfl, rfl, rfl, rfl, rfl, rfl⟩

end Vsr.Replica
