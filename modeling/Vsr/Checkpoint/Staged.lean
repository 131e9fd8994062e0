import Vsr.Accumulator
import Vsr.Durable.Owner
import Vsr.Replica.Calls

/-!
# A checkpoint is restored whole

Before a checkpoint is restored its chunks were staged in turn, each from the one
replica the fetch names, and the segment that came with the checkpoint goes on
from there.
-/

set_option autoImplicit false

namespace Vsr

open Relation (ReflTransGen)

variable {SM : Type} [StateMachine SM]

namespace Replica

variable {heard : MessageFor (Recorded SM) → Prop} {r r' : Replica (Recorded SM)}

/-- The calls made from `r` to `r'` bring no checkpoint in, and a fetch is begun at
its first chunk or goes on where it was. -/
structure Idles (r r' : Replica (Recorded SM)) : Prop where
  calls : ∃ calls : List (MachineCall SM),
    r'.stateMachine.calls = r.stateMachine.calls ++ calls ∧ ∀ call ∈ calls, call.transfers = false
  fetch : ∀ next, r'.fetch = some next → next.index = 0 ∨ ∃ fetch, r.fetch = some fetch ∧
    next.source = fetch.source ∧ next.resume.checkpoint = fetch.resume.checkpoint ∧
    next.index = fetch.index

theorem Idles.same (machine : r'.stateMachine = r.stateMachine) (fetch : r'.fetch = r.fetch) :
    Idles r r' where
  calls := ⟨[], by rw [machine, List.append_nil], nofun⟩
  fetch next isNext := .inr ⟨next, fetch ▸ isNext, rfl, rfl, rfl⟩

theorem Idles.trans {m : Replica (Recorded SM)} (first : Idles r m) (second : Idles m r') :
    Idles r r' where
  calls := by
    obtain ⟨calls, isCalls, quiet⟩ := first.calls
    obtain ⟨more, isMore, quiet'⟩ := second.calls
    refine ⟨calls ++ more, by rw [isMore, isCalls, List.append_assoc], fun call mem => ?_⟩
    exact (List.mem_append.mp mem).elim (quiet call) (quiet' call)
  fetch next isNext := by
    rcases second.fetch next isNext with first | ⟨fetch, isFetch, source, checkpoint, index⟩
    · exact .inl first
    · rcases first.fetch fetch isFetch with zero | ⟨before, isBefore, source', checkpoint', index'⟩
      · exact .inl (index.trans zero)
      · exact .inr ⟨before, isBefore, source.trans source', checkpoint.trans checkpoint',
          index.trans index'⟩

/-- What a move leaves of a fetch, chunks apart. -/
theorem Move.fetching (move : Move heard r r')
    (none : ∀ source opNumber index chunk last, ¬heard (.newChunk source opNumber index chunk last)) :
    ∀ next, r'.fetch = some next → next.index = 0 ∨ ∃ fetch, r.fetch = some fetch ∧
      next.source = fetch.source ∧ next.resume.checkpoint = fetch.resume.checkpoint ∧
      next.index = fetch.index := by
  have still : r'.fetch = r.fetch → ∀ next, r'.fetch = some next → next.index = 0 ∨
      ∃ fetch, r.fetch = some fetch ∧ next.source = fetch.source ∧
        next.resume.checkpoint = fetch.resume.checkpoint ∧ next.index = fetch.index :=
    fun same next isNext => .inr ⟨next, same ▸ isNext, rfl, rfl, rfl⟩
  cases move with
  | quiet same => exact still same.fetch
  | send replicaId message _ => exact still (by rw [send_toCore])
  | merge run => exact still (by rw [(mergeLog_logged run).core])
  | commit run => exact still (by rw [(commitUpTo_executed run).core])
  | count run =>
      obtain ⟨_, _, ⟨_, rfl⟩ | ⟨_, run⟩⟩ := registerAck_cases run
      · exact still rfl
      · exact still (by rw [(commitUpTo_executed run).core])
  | apply _ run => exact still (by rw [(applyCommitted_executed run).1.core])
  | enter | leave | turn => exact nofun
  | refetch becomes =>
      intro next isNext
      cases becomes with
      | drop => cases isNext
      | anew first _ =>
          cases isNext
          exact .inl first
      | goOn isFetch source index checkpoint _ =>
          cases isNext
          exact .inr ⟨_, isFetch, source, checkpoint, index⟩
  | stage isHeard => exact absurd isHeard (none _ _ _ _ _)
  | rebuild run => exact still (by rw [(rebuildPending_same run).core])
  | restore isHeard => exact absurd isHeard (none _ _ _ _ _)
  | keep run =>
      rcases keepCheckpoint_effect run with ⟨rfl, _⟩ | ⟨_, _, _, _, rfl⟩
      · exact still rfl
      · exact still rfl
  | query run => exact still (by rw [(onQuery_queried run).core])
  | confirm _ run => exact still (by rw [(onConfirmViewOk_queried run).core])
  | supersede | append | transfer | rejoin | release => exact still rfl

theorem Calls.idle {applied : Nat} {m : Recorded SM} (calls : Calls heard r applied m)
    (none : ∀ source opNumber index chunk last, ¬heard (.newChunk source opNumber index chunk last)) :
    ∃ new : List (MachineCall SM), m.calls = r.stateMachine.calls ++ new ∧
      ∀ call ∈ new, call.transfers = false := by
  have one : ∀ call : MachineCall SM, call.transfers = false →
      ∀ call' ∈ [call], call'.transfers = false := by
    intro call quiet call' mem
    rwa [List.mem_singleton.mp mem]
  cases calls with
  | none => exact ⟨[], (List.append_nil _).symm, nofun⟩
  | execute blocks => exact blocks.quiet
  | keep => exact ⟨[.checkpoint], rfl, one _ rfl⟩
  | release => exact ⟨[.releaseCheckpoint], rfl, one _ rfl⟩
  | stage _ isHeard => exact absurd isHeard (none _ _ _ _ _)
  | restore isHeard => exact absurd isHeard (none _ _ _ _ _)

theorem Handles.idles (handles : Handles heard r r')
    (none : ∀ source opNumber index chunk last, ¬heard (.newChunk source opNumber index chunk last)) :
    Idles r r' := by
  refine handles.induct (P := fun m => Idles r m) (.same rfl rfl) (fun before move => ?_)
    fun before tell => ?_
  · exact before.trans ⟨move.calls.idle none, move.fetching none⟩
  · refine before.trans (.same tell.machine.2 ?_)
    cases tell with
    | quiet same => exact same.fetch
    | send replicaId message _ => rw [send_toCore]

/-! ## A chunk -/

/-- What goes on from a restored checkpoint once the segment that came with it is
merged. -/
def GoesOn (merged r' : Replica (Recorded SM)) : Prop :=
  (∃ commitNumber, merged.newStateInstalled commitNumber = some r') ∨
    ∃ viewNumber commitNumber committed,
      { merged with viewNumber := viewNumber }.commitUpTo commitNumber false = some committed ∧
      r' = committed.enterNormal

/-- The restore of a checkpoint, and the merge of the segment that follows it, if the
replica is still where the segment was for. -/
def Restores (opNumber : Nat) (segment : LogSegment (Input (Recorded SM)))
    (staged r' : Replica (Recorded SM)) : Prop :=
  segment.base = .checkpoint opNumber ∧
    ∃ restored, staged.restoreCheckpoint opNumber = some restored ∧
      (r' = restored ∨ ∃ merged, restored.mergeLog opNumber segment.entries = some merged ∧
        GoesOn merged r')

theorem recoverInto_merges {viewNumber : Nat} {state : RecoveryState (Input (Recorded SM))}
    (run : r.recoverInto viewNumber state = some r')
    (base : state.segment.base = .checkpoint r.commitNumber) :
    ∃ merged, r.mergeLog r.commitNumber state.segment.entries = some merged ∧ GoesOn merged r' := by
  unfold recoverInto installSegmentFromCommit at run
  rw [base] at run
  dsimp only at run
  rw [if_neg (Nat.lt_irrefl _)] at run
  obtain ⟨installed, install, run⟩ := Option.bind_eq_some_iff.mp run
  obtain ⟨merged, merge, rfl⟩ := Option.map_eq_some_iff.mp install
  obtain ⟨committed, commit, run⟩ := Option.bind_eq_some_iff.mp run
  cases run
  exact ⟨merged, merge, .inr ⟨viewNumber, state.commitNumber, committed, commit, rfl⟩⟩

/-- A checkpoint kept is dropped before another is restored. -/
theorem restoreCheckpoint_calls {opNumber : Nat} (run : r.restoreCheckpoint opNumber = some r') :
    ∃ released : List (MachineCall SM), (∀ call ∈ released, call.transfers = false) ∧
      r'.stateMachine.calls = r.stateMachine.calls ++ (released ++ [.restore opNumber]) := by
  obtain ⟨_, _, machine, _⟩ := restoreCheckpoint_effect run
  rw [machine]
  show ∃ released : List (MachineCall SM), _ ∧
    r.stopServing.stateMachine.calls ++ [.restore opNumber] = _
  unfold stopServing
  split
  · refine ⟨[.releaseCheckpoint], fun call mem => ?_, List.append_assoc _ _ _⟩
    rw [List.mem_singleton.mp mem]
    rfl
  · exact ⟨[], nofun, rfl⟩

/-- What a chunk that a fetch waits for makes of the replica. -/
inductive Takes (r r' : Replica (Recorded SM)) (fetch : Fetch (Input (Recorded SM)))
    (chunk : Chunk SM) : Bool → Prop
  | more (next : Fetch (Input (Recorded SM))) (isNext : r'.fetch = some next)
      (source : next.source = fetch.source)
      (checkpoint : next.resume.checkpoint = fetch.resume.checkpoint)
      (index : next.index = fetch.index + 1)
      (calls : r'.stateMachine.calls = r.stateMachine.calls ++
        [.stageChunk fetch.resume.checkpoint fetch.index chunk]) : Takes r r' fetch chunk false
  /-- The replica has committed past the checkpoint. -/
  | stale (free : r'.fetch = none) (calls : r'.stateMachine.calls = r.stateMachine.calls ++
        [.stageChunk fetch.resume.checkpoint fetch.index chunk]) : Takes r r' fetch chunk true
  | restores {staged : Replica (Recorded SM)} (beyond : r.commitNumber < fetch.resume.checkpoint)
      (restores : Restores fetch.resume.checkpoint fetch.resume.segment staged r')
      (anew : ∀ next, r'.fetch = some next → next.index = 0)
      {released executed : List (MachineCall SM)} (calls : r'.stateMachine.calls =
        r.stateMachine.calls ++ (.stageChunk fetch.resume.checkpoint fetch.index chunk ::
          (released ++ .restore fetch.resume.checkpoint :: executed)))
      (quiet : ∀ call ∈ released ++ executed, call.transfers = false) : Takes r r' fetch chunk true

theorem onNewChunk_takes {replicaId opNumber index : Nat} {chunk : Chunk (Recorded SM)} {last : Bool}
    (run : r.onNewChunk replicaId opNumber index chunk last = some r') (fetches : r.Fetches) :
    r' = r ∨ ∃ fetch, r.fetch = some fetch ∧ fetch.source = replicaId ∧
      fetch.resume.checkpoint = opNumber ∧ fetch.index = index ∧ Takes r r' fetch chunk last := by
  unfold onNewChunk at run
  split at run
  · cases run
    exact .inl rfl
  · next fetch isFetch =>
    split at run
    · cases run
      exact .inl rfl
    · next awaited =>
      simp only [not_or, not_not] at awaited
      obtain ⟨rfl, rfl, rfl⟩ := awaited
      refine .inr ⟨fetch, isFetch, rfl, rfl, rfl, ?_⟩
      have names := fetches fetch isFetch
      dsimp only at run
      split at run
      · next isMore =>
        rw [Bool.not_eq_true'] at isMore
        subst isMore
        cases run
        refine .more { fetch with idlePeriods := 0, stalled := false, index := fetch.index + 1 } ?_ rfl
          rfl rfl ?_
        · rw [(sendGetChunk_same _).core]
          rfl
        · rw [(sendGetChunk_same _).clientTable]
          rfl
      · next isLast =>
        rw [Bool.not_eq_true, Bool.not_eq_false'] at isLast
        subst isLast
        split at run
        · cases run
          exact .stale rfl rfl
        · next beyond =>
          obtain ⟨restored, restore, run⟩ := Option.bind_eq_some_iff.mp run
          obtain ⟨sameStatus, sameView, sameFetch, commits⟩ := restoreCheckpoint_same restore
          obtain ⟨released, quiet, calls⟩ := restoreCheckpoint_calls restore
          -- What follows the restore brings no checkpoint in.
          have takes : Handles (fun _ => False) restored r' →
              (r' = restored ∨ ∃ merged, restored.mergeLog fetch.resume.checkpoint
                fetch.resume.segment.entries = some merged ∧ GoesOn merged r') →
              Takes r r' fetch chunk true := by
            intro handles merges
            obtain ⟨⟨executed, more, quiet'⟩, anew⟩ := handles.idles fun _ _ _ _ _ => id
            have calls' : r'.stateMachine.calls = r.stateMachine.calls ++
                (.stageChunk fetch.resume.checkpoint fetch.index chunk ::
                  (released ++ .restore fetch.resume.checkpoint :: executed)) := by
              rw [more, calls]
              show (r.stateMachine.calls ++ [_]) ++ (released ++ [_]) ++ executed = _
              simp only [List.append_assoc, List.cons_append, List.nil_append]
            refine .restores (not_le.mp beyond) ⟨names.base, restored, restore, merges⟩
              (fun next isNext => ?_) calls' fun call mem => ?_
            · rcases anew next isNext with zero | ⟨_, isFetch, _⟩
              · exact zero
              · cases sameFetch.symm.trans isFetch
            · exact (List.mem_append.mp mem).elim (quiet call) (quiet' call)
          cases isResume : fetch.resume with
          | newState viewNumber segment commitNumber =>
              simp only [isResume] at run takes
              split at run
              · obtain ⟨merged, merge, run⟩ := Option.bind_eq_some_iff.mp run
                exact takes (.after (.single (.merge merge)) (newStateInstalled_handles run))
                  (.inr ⟨merged, merge, .inl ⟨commitNumber, run⟩⟩)
              · cases run
                exact takes (.refl _) (.inl rfl)
          | recoveryResponse viewNumber state =>
              simp only [isResume] at run takes
              obtain ⟨status, later⟩ := names.recovering viewNumber state isResume
              have base : state.segment.base = .checkpoint restored.commitNumber := by
                have named := names.base
                rw [commits]
                rwa [isResume] at named ⊢
              obtain ⟨merged, merge, goesOn⟩ := recoverInto_merges run base
              rw [commits] at merge
              rw [isResume] at merge
              exact takes (recoverInto_handles run (sameStatus.trans status)
                (sameView.trans_le later)) (.inr ⟨merged, merge, goesOn⟩)

end Replica

/-! ## Whole runs -/

/-- A replica, and the calls it has made to its state machine, each with the message
it was made for. -/
structure Staging (SM : Type) [StateMachine SM] where
  replica : Replica (Recorded SM)
  trace : List (Option (MessageFor (Recorded SM)) × MachineCall SM)

namespace Staging

variable {s s' : Staging SM}

/-- The replica comes to `r`, for a message or on its own. -/
def next (s : Staging SM) (message : Option (MessageFor (Recorded SM)))
    (r : Replica (Recorded SM)) : Staging SM :=
  ⟨r, s.trace ++ (s.replica.callsTo r).map fun call => (message, call)⟩

/-- What the owner does next. -/
inductive Step : Staging SM → Staging SM → Prop
  | message {s : Staging SM} {r : Replica (Recorded SM)} (message : MessageFor (Recorded SM))
      (run : s.replica.onMessage message = some r) : Step s (s.next (some message) r)
  | idle {s : Staging SM} {r : Replica (Recorded SM)} (run : s.replica.onIdle = some r) :
      Step s (s.next none r)
  | compact {s : Staging SM} {r : Replica (Recorded SM)} (opNumber : Nat)
      (run : s.replica.compact opNumber = some r) : Step s (s.next none r)
  | take {s : Staging SM} {r : Replica (Recorded SM)} {write : LogWrite (Input (Recorded SM))}
      (run : s.replica.takeWrite = some (r, write)) : Step s (s.next none r)
  | handBack {s : Staging SM} {r : Replica (Recorded SM)} (write : LogWrite (Input (Recorded SM)))
      (run : s.replica.persisted write = some r) : Step s (s.next none r)
  | drainBeforePersist {s : Staging SM} :
      Step s (s.next none s.replica.drainMessagesBeforePersist.1)
  | drain {s : Staging SM} : Step s (s.next none s.replica.drainMessages.1)
  | drainReplies {s : Staging SM} : Step s (s.next none s.replica.drainReplies.1)

inductive Reach : Staging SM → Prop
  | start {r : Replica (Recorded SM)} (made : r.Made) : Reach ⟨r, []⟩
  | step {s s' : Staging SM} (before : Reach s) (step : Step s s') : Reach s'

/-- The `stage_chunk` calls of a trace: the message each was made for, the op number
of the checkpoint and the index of the chunk. -/
def stagings (trace : List (Option (MessageFor (Recorded SM)) × MachineCall SM)) :
    List (Option (MessageFor (Recorded SM)) × Nat × Nat) :=
  trace.filterMap fun entry =>
    match entry.2 with
    | .stageChunk opNumber index _ => some (entry.1, opNumber, index)
    | _ => none

/-- Chunks 0 to `index - 1` of a checkpoint, staged in turn from one replica, none of
them the last. -/
inductive InTurn (source opNumber : Nat) :
    List (Option (MessageFor (Recorded SM)) × Nat × Nat) → Nat → Prop
  | nil : InTurn source opNumber [] 0
  | snoc {run : List (Option (MessageFor (Recorded SM)) × Nat × Nat)} {index : Nat}
      (before : InTurn source opNumber run index) (chunk : Chunk (Recorded SM)) :
      InTurn source opNumber
        (run ++ [(some (.newChunk source opNumber index chunk false), opNumber, index)]) (index + 1)

/-- Every chunk of a checkpoint, staged in turn from one replica. -/
def Complete (source opNumber : Nat) (run : List (Option (MessageFor (Recorded SM)) × Nat × Nat)) :
    Prop :=
  ∃ front index chunk, InTurn source opNumber front index ∧
    run = front ++ [(some (.newChunk source opNumber index chunk true), opNumber, index)]

/-- The restore of the checkpoint a fetch named: every chunk of it has been staged since
the first one, and the segment that came with it is what is merged next. -/
structure Whole (s s' : Staging SM) (opNumber : Nat) (fetch : Fetch (Input (Recorded SM))) : Prop where
  isFetch : s.replica.fetch = some fetch
  names : fetch.resume.checkpoint = opNumber
  beyond : s.replica.commitNumber < opNumber
  staged : ∃ before message after earlier run,
    s'.trace = before ++ (message, .restore opNumber) :: after ∧ s.trace <+: before ∧
      (∀ call ∈ after, call.2.transfers = false) ∧
      stagings before = earlier ++ run ∧ Complete fetch.source opNumber run
  restores : ∃ staged, Replica.Restores opNumber fetch.resume.segment staged s'.replica

/-- What holds of the chunks staged in every state. -/
structure Inv (s : Staging SM) : Prop where
  several : 3 ≤ s.replica.config.replicas.length
  fetches : s.replica.Fetches
  inTurn : ∀ fetch, s.replica.fetch = some fetch → ∃ earlier run,
    stagings s.trace = earlier ++ run ∧
      InTurn fetch.source fetch.resume.checkpoint run fetch.index

theorem stagings_append (before after : List (Option (MessageFor (Recorded SM)) × MachineCall SM)) :
    stagings (before ++ after) = stagings before ++ stagings after :=
  List.filterMap_append

theorem stagings_quiet {calls : List (MachineCall SM)}
    (quiet : ∀ call ∈ calls, call.transfers = false)
    (message : Option (MessageFor (Recorded SM))) :
    stagings (calls.map fun call => (message, call)) = [] := by
  refine List.filterMap_eq_nil_iff.mpr fun entry mem => ?_
  obtain ⟨call, isCall, rfl⟩ := List.mem_map.mp mem
  have none := quiet call isCall
  cases call <;> first | rfl | cases none

/-- A step that brings no checkpoint in. -/
theorem Inv.idles (inv : Inv s) {r : Replica (Recorded SM)} (idles : Replica.Idles s.replica r)
    (several : 3 ≤ r.config.replicas.length) (fetches : r.Fetches)
    (message : Option (MessageFor (Recorded SM))) :
    Inv (s.next message r) ∧ ∀ call ∈ s.replica.callsTo r, call.transfers = false := by
  obtain ⟨calls, isCalls, quiet⟩ := idles.calls
  have isMade := Replica.callsTo_eq isCalls
  refine ⟨⟨several, fetches, fun fetch isFetch => ?_⟩, isMade ▸ quiet⟩
  have same : stagings (s.next message r).trace = stagings s.trace := by
    unfold next
    rw [stagings_append, isMade, stagings_quiet quiet, List.append_nil]
  rw [same]
  rcases idles.fetch fetch isFetch with zero | ⟨before, isBefore, source, checkpoint, index⟩
  · refine ⟨stagings s.trace, [], (List.append_nil _).symm, ?_⟩
    rw [zero]
    exact .nil
  · rw [source, checkpoint, index]
    exact inv.inTurn before isBefore

theorem inv_start {r : Replica (Recorded SM)} (made : r.Made) : Inv ⟨r, []⟩ := by
  have free : ∀ {r : Replica (Recorded SM)}, 3 ≤ r.config.replicas.length → r.fetch = none →
      Inv ⟨r, []⟩ := by
    intro r several free
    refine ⟨several, fun fetch isFetch => ?_, fun fetch isFetch => ?_⟩
    · cases free.symm.trans isFetch
    · cases free.symm.trans isFetch
  cases made with
  | new run =>
      obtain ⟨several, rfl⟩ := Replica.new_eq run
      exact free several rfl
  | @recover selfId config stateMachine viewNumber nonce r run =>
      obtain ⟨several, rfl⟩ := Replica.recover_eq run
      have core := (Replica.sendRecovery_same
        (Replica.forgetful selfId config stateMachine viewNumber nonce)).core
      refine free ?_ ?_
      · rw [core]
        exact several
      · rw [core]
        rfl
  | @restart selfId config stateMachine applied nonce state r run =>
      obtain ⟨made, woken, make, wakes⟩ := Replica.restart_wakes run
      obtain ⟨several, peer, _⟩ := Replica.restored_peer make
      have isConfig : made.config = config := congrArg (·.config) peer
      have isFree : made.fetch = none := congrArg (·.fetch) peer
      have handles : Replica.Handles (fun _ => False) (made.risen applied state) r := wakes.handles
      have same : r.config = made.config := handles.same.1
      have fetches : (made.risen applied state).Fetches := fun fetch isFetch => by
        cases isFree.symm.trans isFetch
      refine ⟨same.trans isConfig ▸ several, fetches.handles handles, fun fetch isFetch => ?_⟩
      refine ⟨[], [], rfl, ?_⟩
      rcases (handles.idles fun _ _ _ _ _ => id).fetch fetch isFetch with zero | ⟨_, isBefore, _⟩
      · rw [show fetch.index = 0 from zero]
        exact .nil
      · cases isFree.symm.trans isBefore

/-- A chunk the fetch waits for. -/
theorem Inv.takes (inv : Inv s) {r : Replica (Recorded SM)} {fetch : Fetch (Input (Recorded SM))}
    {chunk : Chunk (Recorded SM)} {last : Bool} (isFetch : s.replica.fetch = some fetch)
    (takes : Replica.Takes s.replica r fetch chunk last)
    (several : 3 ≤ r.config.replicas.length) (fetches : r.Fetches) :
    let s' := s.next
      (some (.newChunk fetch.source fetch.resume.checkpoint fetch.index chunk last)) r
    Inv s' ∧ ∀ opNumber, .restore opNumber ∈ s.replica.callsTo r → Whole s s' opNumber fetch := by
  intro s'
  obtain ⟨earlier, run, isRun, inTurn⟩ := inv.inTurn fetch isFetch
  have staged : ∀ {rest : List (MachineCall SM)}, s.replica.callsTo r =
      .stageChunk fetch.resume.checkpoint fetch.index chunk :: rest →
      stagings s'.trace = earlier ++ (run ++
        [(some (.newChunk fetch.source fetch.resume.checkpoint fetch.index chunk last),
          fetch.resume.checkpoint, fetch.index)]) ++
        stagings (rest.map fun call =>
          (some (.newChunk fetch.source fetch.resume.checkpoint fetch.index chunk last), call)) := by
    intro rest isMade
    show stagings (s.trace ++ _) = _
    rw [stagings_append, isRun, isMade]
    simp only [stagings, List.map_cons, List.filterMap_cons, List.append_assoc, List.cons_append,
      List.nil_append]
  cases takes with
  | more next isNext source checkpoint index calls =>
      have isMade := Replica.callsTo_eq calls
      refine ⟨⟨several, fetches, fun later isLater => ?_⟩, fun opNumber mem => ?_⟩
      · cases isNext.symm.trans isLater
        refine ⟨earlier, _, (staged isMade).trans (List.append_nil _), ?_⟩
        rw [source, checkpoint, index]
        exact .snoc inTurn chunk
      · rw [isMade] at mem
        cases List.mem_singleton.mp mem
  | stale free calls =>
      have isMade := Replica.callsTo_eq calls
      refine ⟨⟨several, fetches, fun later isLater => ?_⟩, fun opNumber mem => ?_⟩
      · cases free.symm.trans isLater
      · rw [isMade] at mem
        cases List.mem_singleton.mp mem
  | @restores stagedReplica beyond restores anew released executed calls quiet =>
      have isMade := Replica.callsTo_eq calls
      refine ⟨⟨several, fetches, fun later isLater => ?_⟩, fun opNumber mem => ?_⟩
      · refine ⟨stagings s'.trace, [], (List.append_nil _).symm, ?_⟩
        rw [anew later isLater]
        exact .nil
      · have here : opNumber = fetch.resume.checkpoint := by
          rw [isMade] at mem
          rcases List.mem_cons.mp mem with stage | mem
          · cases stage
          · rcases List.mem_append.mp mem with before | mem
            · cases quiet _ (List.mem_append_left _ before)
            · rcases List.mem_cons.mp mem with same | after
              · exact MachineCall.restore.inj same
              · cases quiet _ (List.mem_append_right _ after)
        subst here
        refine ⟨isFetch, rfl, beyond, ?_, ⟨stagedReplica, restores⟩⟩
        refine ⟨s.trace ++ ((.stageChunk fetch.resume.checkpoint fetch.index chunk :: released).map
            fun call => (some (.newChunk fetch.source fetch.resume.checkpoint fetch.index chunk true),
              call)), some (.newChunk fetch.source fetch.resume.checkpoint fetch.index chunk true),
          executed.map fun call =>
            (some (.newChunk fetch.source fetch.resume.checkpoint fetch.index chunk true), call),
          earlier, _, ?_, List.prefix_append _ _, fun call mem => ?_, ?_,
          ⟨run, fetch.index, chunk, inTurn, rfl⟩⟩
        · show s.trace ++ (s.replica.callsTo r).map _ = _
          rw [isMade]
          simp only [List.map_cons, List.map_append, List.append_assoc, List.cons_append]
        · obtain ⟨executes, isCall, rfl⟩ := List.mem_map.mp mem
          exact quiet _ (List.mem_append_right _ isCall)
        · have none := stagings_quiet (fun call mem => quiet call (List.mem_append_left _ mem))
            (some (.newChunk fetch.source fetch.resume.checkpoint fetch.index chunk true))
          rw [stagings_append, isRun, List.map_cons]
          show _ ++ ((_, _, _) :: stagings (released.map _)) = _
          rw [none, List.append_assoc]

theorem inv_step (inv : Inv s) (step : Step s s') : Inv s' ∧
    ∀ opNumber, .restore opNumber ∈ s.replica.callsTo s'.replica →
      ∃ fetch, Whole s s' opNumber fetch := by
  have handled : ∀ {heard : MessageFor (Recorded SM) → Prop} {r : Replica (Recorded SM)}
      (message : Option (MessageFor (Recorded SM))), Replica.Handles heard s.replica r →
      (∀ source opNumber index chunk last,
        ¬heard (.newChunk source opNumber index chunk last)) →
      Inv (s.next message r) ∧ ∀ opNumber, .restore opNumber ∈ s.replica.callsTo r →
        ∃ fetch, Whole s (s.next message r) opNumber fetch := by
    intro heard r message handles none
    obtain ⟨inv', quiet⟩ := inv.idles (handles.idles none) (handles.same.1 ▸ inv.several)
      (inv.fetches.handles handles) message
    exact ⟨inv', fun opNumber mem => by cases quiet _ mem⟩
  have still : ∀ {r : Replica (Recorded SM)}, r.stateMachine = s.replica.stateMachine →
      r.fetch = s.replica.fetch → r.config = s.replica.config → r.status = s.replica.status →
      r.viewNumber = s.replica.viewNumber → Inv (s.next none r) ∧
        ∀ opNumber, .restore opNumber ∈ s.replica.callsTo r →
          ∃ fetch, Whole s (s.next none r) opNumber fetch := by
    intro r machine fetch config status view
    obtain ⟨inv', quiet⟩ := inv.idles (.same machine fetch) (config ▸ inv.several)
      (inv.fetches.same fetch status view) none
    exact ⟨inv', fun opNumber mem => by cases quiet _ mem⟩
  cases step with
  | @message r message run =>
      have handles : Replica.Handles (· = message) s.replica r :=
        Replica.onMessage_handles run (Owner.quorum_two inv.several) rfl inv.fetches
      cases message with
      | newChunk source opNumber index chunk last =>
          have taken : s.replica.onNewChunk source opNumber index chunk last = some r := by
            unfold Replica.onMessage at run
            rwa [if_neg (by simp [Replica.actedOnRecovering])] at run
          rcases Replica.onNewChunk_takes taken inv.fetches with
            rfl | ⟨fetch, isFetch, rfl, rfl, rfl, takes⟩
          · obtain ⟨inv', quiet⟩ := inv.idles (.same rfl rfl) inv.several inv.fetches _
            exact ⟨inv', fun opNumber mem => by cases quiet _ mem⟩
          · obtain ⟨inv', whole⟩ := inv.takes isFetch takes (handles.same.1 ▸ inv.several)
              (inv.fetches.handles handles)
            exact ⟨inv', fun opNumber mem => ⟨fetch, whole opNumber mem⟩⟩
      | _ => exact handled _ handles fun _ _ _ _ _ same => by cases same
  | @idle r run =>
      have handles : Replica.Handles (fun _ => False) s.replica r := Replica.onIdle_handles run
      exact handled none handles fun _ _ _ _ _ => id
  | compact opNumber run =>
      rcases Replica.compact_effect run with rfl | ⟨_, _, _, _, _, rfl⟩ <;>
        exact still rfl rfl rfl rfl rfl
  | take run =>
      obtain ⟨_, run⟩ := require_eq_some.mp run
      obtain ⟨durable, _, run⟩ := Option.bind_eq_some_iff.mp run
      cases run
      exact still rfl rfl rfl rfl rfl
  | @handBack r write run =>
      obtain ⟨outstanding, executed, _, _, moves, rfl⟩ := Replica.persisted_moves run
      have handles : Replica.Handles (fun _ => False) (s.replica.handedBack outstanding) executed :=
        .moves moves
      have idles := handles.idles fun _ _ _ _ _ => id
      have back : (s.replica.handedBack outstanding).Fetches := inv.fetches.same rfl rfl rfl
      have fetches : executed.Fetches := back.handles handles
      have same : executed.config = s.replica.config := handles.same.1
      obtain ⟨inv', quiet⟩ := inv.idles (r := executed.releaseWaiting) ⟨idles.calls, idles.fetch⟩
        (by show 3 ≤ executed.config.replicas.length; exact same ▸ inv.several)
        (fetches.same rfl rfl rfl) none
      exact ⟨inv', fun opNumber mem => by cases quiet _ mem⟩
  | drainBeforePersist => exact still rfl rfl rfl rfl rfl
  | drain => exact still rfl rfl rfl rfl rfl
  | drainReplies => exact still rfl rfl rfl rfl rfl

theorem inv_reach (reach : Reach s) : Inv s := by
  induction reach with
  | start made => exact inv_start made
  | step _ step ih => exact (inv_step ih step).1

/-- Whenever a replica restores a checkpoint, every chunk of it has been staged in
turn, all from the one replica its fetch names, the checkpoint is beyond what it
had committed, and the segment merged next is the one that follows it. -/
theorem restores_whole (reach : Reach s) (step : Step s s') {opNumber : Nat}
    (isCall : .restore opNumber ∈ s.replica.callsTo s'.replica) :
    ∃ fetch, Whole s s' opNumber fetch :=
  (inv_step (inv_reach reach) step).2 opNumber isCall

/-- A backup two ops behind, told of the checkpoint it fetches in two chunks, with
the first of them staged. -/
def fetching : Option (Replica (Recorded Accumulator)) := do
  let made ← Replica.new 1 Accumulator.config ⟨.new, []⟩
  let behind ← made.onMessage (.commit 0 2)
  let told ← behind.onMessage (.newState 0 0 ⟨.checkpoint 2, []⟩ 2)
  told.onMessage (.newChunk 0 2 0 (Accumulator.Chunk.client ⟨5, 1, 1, [7], 2⟩) false)

theorem fetching_reach {r : Replica (Recorded Accumulator)} (run : fetching = some r) :
    ∃ trace, Reach ⟨r, trace⟩ := by
  unfold fetching at run
  obtain ⟨made, isMade, run⟩ := Option.bind_eq_some_iff.mp run
  obtain ⟨behind, isBehind, run⟩ := Option.bind_eq_some_iff.mp run
  obtain ⟨told, isTold, run⟩ := Option.bind_eq_some_iff.mp run
  have start : Reach ⟨made, []⟩ := .start (.new isMade)
  have first := Reach.step start (.message (.commit 0 2) isBehind)
  have second := Reach.step first (.message (.newState 0 0 ⟨.checkpoint 2, []⟩ 2) isTold)
  exact ⟨_, .step second (.message _ run)⟩

/-- The second chunk of that checkpoint, its last. -/
def lastChunk : MessageFor (Recorded Accumulator) :=
  .newChunk 0 2 1 (Accumulator.Chunk.value 7) true

theorem restores_whole_fetched : ∃ (s : Staging Accumulator) (r : Replica (Recorded Accumulator)),
    s.replica.callsTo r = [.stageChunk 2 1 (Accumulator.Chunk.value 7), .restore 2] ∧
      ∃ fetch, Whole s (s.next (some lastChunk) r) 2 fetch := by
  obtain ⟨before, r, isFetching, run, isMade⟩ : ∃ before r : Replica (Recorded Accumulator),
      fetching = some before ∧ before.onMessage lastChunk = some r ∧
      before.callsTo r = [.stageChunk 2 1 (Accumulator.Chunk.value 7), .restore 2] :=
    ⟨_, _, rfl, rfl, rfl⟩
  obtain ⟨trace, reach⟩ := fetching_reach isFetching
  have isCall : .restore 2 ∈ before.callsTo r := by
    rw [isMade]
    exact List.mem_cons_of_mem _ (List.mem_singleton_self _)
  exact ⟨⟨before, trace⟩, r, isMade, restores_whole reach (.message _ run) isCall⟩

end Staging

end Vsr
