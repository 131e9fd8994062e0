import Vsr.Replica.State
import Mathlib.Data.Set.Insert
import Mathlib.Logic.Relation

/-!
# The protocol

A replica as the protocol sees it, without the state machine, the clients, the
queries, the timers and the outboxes: `Peer`.  `Act` lists what a peer does to
its state, and on hearing what, and `Says` what it says in a state.  The
handlers are shown to do and say nothing else.
-/

set_option autoImplicit false

namespace Vsr

open Std (ExtTreeMap)

/-- The part of a replica's state that the safety of the protocol rests on. -/
structure Peer (Op : Type) extends Standing Op, WriteState where
  config : Config
  selfId : Nat
  acked : List Nat
  doViewChangeSent : Bool
  doViewChangeFrom : ExtTreeMap Nat (DoViewChange Op)
  catchingUp : Option Nat
  serving : Option Nat
  fetch : Option (Fetch Op)
  recoveryNonce : Nat
  recoveryResponses : ExtTreeMap Nat (RecoveryResponse Op)

def Core.peer {Op : Type} (c : Core Op) : Peer Op where
  toStanding := c.toStanding
  toWriteState := c.toWriteState
  config := c.config
  selfId := c.selfId
  acked := c.acked
  doViewChangeSent := c.doViewChangeSent
  doViewChangeFrom := c.doViewChangeFrom
  catchingUp := c.catchingUp
  serving := c.serving.map (·.1)
  fetch := c.fetch
  recoveryNonce := c.recoveryNonce
  recoveryResponses := c.recoveryResponses

namespace Peer
variable {Op Query Chunk : Type}

def primaryId (p : Peer Op) : Nat := p.config.primaryId p.viewNumber

def isPrimary (p : Peer Op) : Prop := p.selfId = p.primaryId

/-- In a view that has started, as far as the peer is concerned. -/
def inView (p : Peer Op) : Prop := p.status = .normal ∨ p.status = .stateTransfer

/-! ## Changes of state -/

/-- Forgets the view change and the fetch under way. -/
def clear (p : Peer Op) : Peer Op :=
  { p with
    doViewChangeSent := false, doViewChangeFrom := ∅, catchingUp := none, fetch := none }

def enterNormal (p : Peer Op) : Peer Op :=
  { p.clear with
    status := .normal, lastNormalView := p.viewNumber, acked := p.acked.map fun _ => 0 }

/-- Moves on to the view change to `viewNumber`. -/
def turnTo (p : Peer Op) (viewNumber : Nat) : Peer Op :=
  { p.clear with status := .viewChange, viewNumber := viewNumber }

def append (p : Peer Op) (entry : LogEntry Op) : Peer Op :=
  { p with
    log := p.log ++ [entry], toWriteState := p.toWriteState.markLogChanged (p.opNumber + 1) }

def merge (p : Peer Op) (start : Nat) (entries : List (LogEntry Op)) : Peer Op :=
  { p with
    toStanding := p.toStanding.merged start entries
    toWriteState := p.toWriteState.markLogChanged (p.keepUpTo start + 1) }

/-- The assertions of a merge. -/
structure Mergeable (p : Peer Op) (start : Nat) (entries : List (LogEntry Op)) : Prop where
  within : p.keepUpTo start ≤ p.opNumber
  held : p.logStart ≤ p.keepUpTo start
  committed : p.commitNumber ≤ (p.merge start entries).opNumber

def restore (p : Peer Op) (opNumber : Nat) : Peer Op :=
  { p with
    toStanding := p.toStanding.restoredAt opNumber
    toWriteState := p.toWriteState.markLogChanged (opNumber + 1)
    serving := none
    fetch := none }

/-- Commits up to `commitNumber` and executes up to `applied`. -/
def raise (p : Peer Op) (commitNumber : Nat) (applied : Nat) : Peer Op :=
  { p with commitNumber := max p.commitNumber commitNumber, applied := applied }

/-- A peer executes only what is committed, held, and durable as held. -/
def Executes (p : Peer Op) (commitNumber : Nat) (applied : Nat) : Prop :=
  applied = p.applied ∨ ∃ durable, p.durableOp = some durable ∧ p.applied ≤ applied ∧
    applied ≤ max p.commitNumber commitNumber ∧ applied ≤ durable ∧ applied ≤ p.opNumber

/-- What the peer reports to the primary of the view it wants. -/
def report (p : Peer Op) : DoViewChange Op where
  lastNormalView := p.lastNormalView
  segment := ⟨.op p.logStart, p.log⟩
  commitNumber := p.commitNumber

/-- The fetch under way goes on with `resume`. -/
def Resumes (p : Peer Op) (resume : Resume Op) : Prop :=
  ∃ fetch, p.fetch = some fetch ∧ fetch.resume = resume

/-- The checkpoint kept lies between the start of the log and what is executed. -/
def ServingOk (p : Peer Op) : Prop :=
  ∀ checkpoint, p.serving = some checkpoint → p.logStart ≤ checkpoint ∧ checkpoint ≤ p.applied

/-- A segment of the log from an op number it holds, or from a checkpoint. -/
def IsSegment (p : Peer Op) (segment : LogSegment Op) : Prop :=
  segment.entries = p.logFrom (segment.start + 1) ∧ p.logStart ≤ segment.start ∧
    match segment.base with
    | .op opNumber => opNumber ≤ p.opNumber
    | .checkpoint opNumber => opNumber ≤ p.applied

end Peer

/-- `(replicaId, best)` ranks highest of what was reported. -/
structure IsBest {Op : Type} (reports : ExtTreeMap Nat (DoViewChange Op))
    (replicaId : Nat) (best : DoViewChange Op) : Prop where
  mem : reports[replicaId]? = some best
  highest : ∀ (other : Nat) (report : DoViewChange Op), reports[other]? = some report →
    report.rankLe best

/-- What a handler is given: the messages the peer may have heard, the entries
the replica would append for its clients, and the op numbers that a write handed
back, taken in a view, holds. -/
structure Inputs (Op Query Chunk : Type) where
  heard : Message Op Query Chunk → Prop
  offered : LogEntry Op → Prop
  holds : Nat → Nat → Prop

namespace Inputs
variable {Op Query Chunk : Type} (i : Inputs Op Query Chunk)

/-- A message only the primary of a started view sends. -/
def Started (v : Nat) : Prop :=
  (∃ opNumber entry commitNumber, i.heard (.prepare v opNumber entry commitNumber)) ∨
    (∃ commitNumber, i.heard (.commit v commitNumber)) ∨
    ∃ segment commitNumber, i.heard (.startView v segment commitNumber)

/-- The primary of view `v` has told that it committed up to `commitNumber`. -/
def Commits (v : Nat) (commitNumber : Nat) : Prop :=
  (∃ opNumber entry told, i.heard (.prepare v opNumber entry told) ∧ commitNumber ≤ told) ∨
    ∃ told, i.heard (.commit v told) ∧ commitNumber ≤ told

/-- `p` was sent a segment of view `v`, now or in the message its fetch goes on
with. -/
def Sent (p : Peer Op) (v : Nat) (segment : LogSegment Op) (commitNumber : Nat) :
    Prop :=
  (∃ replicaId, i.heard (.newState replicaId v segment commitNumber)) ∨
    p.Resumes (.newState v segment commitNumber)

end Inputs

/-- The primary of view `v` answered the recovery of `p` with `state`. -/
def Peer.Answered {Op : Type} (p : Peer Op) (v : Nat) (state : RecoveryState Op) : Prop :=
  (∃ response, p.recoveryResponses[p.config.primaryId v]? = some response ∧
      response = ⟨v, some state⟩ ∧ p.viewNumber ≤ v ∧
      p.config.quorum ≤ p.recoveryResponses.size ∧
      ∀ (other : Nat) (answer : RecoveryResponse Op),
        p.recoveryResponses[other]? = some answer → answer.viewNumber ≤ v) ∨
    p.Resumes (.recoveryResponse v state)

/-- `q` is `p`, or `p` with the checkpoint restored that it fetched to go on with
`resume`. -/
def Peer.AtCheckpoint {Op : Type} (p q : Peer Op) (resume : Resume Op) : Prop :=
  q = p ∨ (p.commitNumber < resume.checkpoint ∧ q = p.restore resume.checkpoint ∧
    p.Resumes resume)

/-- What a peer does to its state. -/
inductive Act {Op Query Chunk : Type} (i : Inputs Op Query Chunk) : Peer Op → Peer Op → Prop
  /-- Starts a view change. -/
  | leave {p : Peer Op} (v : Nat) (status : p.status ≠ .recovering)
      (later : p.viewNumber < v) : Act i p (p.turnTo v)
  /-- Learns that a view has started without it. -/
  | catchUp {p : Peer Op} (v : Nat) (status : p.status ≠ .recovering)
      (later : p.viewNumber < v ∨ (p.viewNumber = v ∧ p.status = .viewChange))
      (started : i.Started v) :
      Act i p { p.turnTo v with catchingUp := some (p.config.primaryId v) }
  /-- Falls behind in its view. -/
  | fallBehind {p : Peer Op} (status : p.status = .normal) (backup : ¬p.isPrimary) :
      Act i p { p with status := .stateTransfer }
  /-- The primary appends a client's entry. -/
  | prepare {p : Peer Op} (entry : LogEntry Op) (status : p.status = .normal)
      (primary : p.isPrimary) (offered : i.offered entry) : Act i p (p.append entry)
  /-- A backup appends the primary's next entry. -/
  | accept {p : Peer Op} (entry : LogEntry Op) (commitNumber : Nat)
      (status : p.status = .normal) (backup : ¬p.isPrimary)
      (heard : i.heard (.prepare p.viewNumber (p.opNumber + 1) entry commitNumber)) :
      Act i p (p.append entry)
  /-- A backup commits what the primary told it has committed. -/
  | commit {p : Peer Op} (commitNumber : Nat) (applied : Nat)
      (status : p.status = .normal) (backup : ¬p.isPrimary)
      (told : i.Commits p.viewNumber commitNumber) (held : commitNumber ≤ p.opNumber)
      (executes : p.Executes commitNumber applied) : Act i p (p.raise commitNumber applied)
  /-- The primary counts an acknowledgement, or its own write. -/
  | count {p : Peer Op} (replicaId : Nat) (opNumber : Nat)
      (status : p.status = .normal) (primary : p.isPrimary) (held : opNumber ≤ p.opNumber)
      (more : ∀ mark, p.acked[replicaId]? = some mark → mark ≤ opNumber)
      (heard : (replicaId = p.selfId ∧ i.holds p.viewNumber opNumber) ∨
        ∃ acked, i.heard (.prepareOk p.viewNumber acked replicaId) ∧ opNumber ≤ acked) :
      Act i p { p with acked := p.acked.set replicaId opNumber }
  /-- The primary commits what a quorum has acknowledged. -/
  | decide {p : Peer Op} (commitNumber : Nat) (applied : Nat)
      (status : p.status = .normal) (primary : p.isPrimary)
      (quorum : p.config.quorum ≤
        (p.acked.filter fun acked => decide (commitNumber ≤ acked)).length)
      (executes : p.Executes commitNumber applied) : Act i p (p.raise commitNumber applied)
  | execute {p : Peer Op} (applied : Nat) (executes : p.Executes p.commitNumber applied) :
      Act i p { p with applied := applied }
  | compact {p : Peer Op} (opNumber : Nat) (held : p.logStart < opNumber)
      (done : opNumber ≤ p.applied) (within : opNumber - p.logStart ≤ p.log.length)
      (kept : ∀ checkpoint, p.serving = some checkpoint → opNumber ≤ checkpoint) :
      Act i p { p with log := p.log.drop (opNumber - p.logStart), logStart := opNumber }
  /-- The primary of the view it wants records a report, or its own. -/
  | record {p : Peer Op} (replicaId : Nat) (report : DoViewChange Op)
      (status : p.status ≠ .normal ∧ p.status ≠ .recovering) (primary : p.isPrimary)
      (heard : i.heard (.doViewChange p.viewNumber replicaId report.lastNormalView report.segment
          report.commitNumber) ∨
        (p.status = .viewChange ∧ replicaId = p.selfId ∧ report = p.report)) :
      Act i p { p with doViewChangeFrom := p.doViewChangeFrom.insert replicaId report }
  | markSent {p : Peer Op} (status : p.status = .viewChange) (settled : p.catchingUp = none) :
      Act i p { p with doViewChangeSent := true }
  /-- The primary asks for the log it has chosen. -/
  | ask {p : Peer Op} (bestId : Nat) (best : DoViewChange Op)
      (status : p.status ≠ .normal ∧ p.status ≠ .recovering) (primary : p.isPrimary)
      (quorum : p.config.quorum ≤ p.doViewChangeFrom.size)
      (isBest : IsBest p.doViewChangeFrom bestId best)
      (beyond : p.commitNumber < best.segment.start) : Act i p { p with catchingUp := some bestId }
  /-- The primary starts the view from the log it has chosen. -/
  | begin {p : Peer Op} (bestId : Nat) (best : DoViewChange Op) (commitNumber : Nat)
      (applied : Nat) (status : p.status ≠ .normal ∧ p.status ≠ .recovering)
      (primary : p.isPrimary) (quorum : p.config.quorum ≤ p.doViewChangeFrom.size)
      (isBest : IsBest p.doViewChangeFrom bestId best)
      (reach : best.segment.start ≤ p.commitNumber)
      (mergeable : p.Mergeable best.segment.start best.segment.entries)
      (reported : ∃ (replicaId : Nat) (report : DoViewChange Op),
        p.doViewChangeFrom[replicaId]? = some report ∧ report.commitNumber = commitNumber)
      (executes : (p.merge best.segment.start best.segment.entries).Executes commitNumber applied) :
      Act i p ((p.merge best.segment.start best.segment.entries).raise commitNumber
        applied).enterNormal
  /-- Takes the log of a view from its primary's `StartView`. -/
  | follow {p : Peer Op} (v : Nat) (segment : LogSegment Op)
      (told commitNumber : Nat) (applied : Nat) (status : p.status ≠ .recovering)
      (later : p.viewNumber < v ∨ (p.viewNumber = v ∧ p.status = .viewChange))
      (heard : i.heard (.startView v segment told)) (reach : segment.start ≤ p.commitNumber)
      (mergeable : p.Mergeable segment.start segment.entries) (isTold : commitNumber = told)
      (executes : (p.merge segment.start segment.entries).Executes commitNumber applied) :
      Act i p { (p.merge segment.start segment.entries).raise commitNumber applied with
        viewNumber := v }.enterNormal
  /-- Takes the log of a view from the `NewState` it asked for. -/
  | join {p q : Peer Op} (segment : LogSegment Op) (commitNumber : Nat)
      (applied : Nat) (status : p.status = .viewChange) 
      (asked : p.catchingUp.isSome ∨
        p.Resumes (.newState p.viewNumber segment commitNumber))
      (follower : ¬(p.isPrimary ∧ p.config.quorum ≤ p.doViewChangeFrom.size))
      (sent : i.Sent p p.viewNumber segment commitNumber)
      (fetched : p.AtCheckpoint q (.newState p.viewNumber segment commitNumber))
      (reach : segment.start ≤ q.commitNumber)
      (mergeable : q.Mergeable segment.start segment.entries)
      (executes : (q.merge segment.start segment.entries).Executes commitNumber applied) :
      Act i p ((q.merge segment.start segment.entries).raise commitNumber applied).enterNormal
  /-- The primary of the view it wants takes the log it asked for. -/
  | adopt {p q : Peer Op} (segment : LogSegment Op) (commitNumber : Nat)
      (status : p.status = .viewChange)
      (asked : p.catchingUp.isSome ∨
        p.Resumes (.newState p.viewNumber segment commitNumber)) (primary : p.isPrimary)
      (sent : i.Sent p p.viewNumber segment commitNumber)
      (fetched : p.AtCheckpoint q (.newState p.viewNumber segment commitNumber))
      (reach : segment.start ≤ q.commitNumber)
      (mergeable : q.Mergeable segment.start segment.entries) :
      Act i p { q.merge segment.start segment.entries with catchingUp := none, fetch := none }
  /-- Catches up within its view. -/
  | extend {p q : Peer Op} (segment : LogSegment Op) (commitNumber : Nat)
      (applied : Nat) (status : p.status = .stateTransfer)
      (sent : i.Sent p p.viewNumber segment commitNumber)
      (fetched : p.AtCheckpoint q (.newState p.viewNumber segment commitNumber))
      (reach : segment.start ≤ q.opNumber)
      (further : p.opNumber < segment.endOp ∨
        p.Resumes (.newState p.viewNumber segment commitNumber))
      (mergeable : q.Mergeable segment.start segment.entries)
      (executes : (q.merge segment.start segment.entries).Executes commitNumber applied) :
      Act i p { (q.merge segment.start segment.entries).raise commitNumber applied with
        status := .normal, fetch := none }
  /-- Fetches the checkpoint a segment of its view follows. -/
  | fetchState {p : Peer Op} (fetch : Fetch Op) (checkpoint : Nat)
      (entries : List (LogEntry Op)) (commitNumber : Nat)
      (status : p.status = .stateTransfer ∨ (p.status = .viewChange ∧ p.catchingUp.isSome))
      (resume : fetch.resume = .newState p.viewNumber ⟨.checkpoint checkpoint, entries⟩ commitNumber)
      (heard : ∃ replicaId,
        i.heard (.newState replicaId p.viewNumber ⟨.checkpoint checkpoint, entries⟩ commitNumber))
      (further : p.status = .stateTransfer → p.opNumber < checkpoint + entries.length) :
      Act i p { p with fetch := some fetch }
  /-- Goes on with a fetch, or gives it up. -/
  | refetch {p : Peer Op} (fetch : Option (Fetch Op))
      (same : ∀ next, fetch = some next → ∃ before, p.fetch = some before ∧
        next.resume = before.resume) : Act i p { p with fetch := fetch }
  /-- Has fetched a checkpoint for a view it has left. -/
  | strand {p : Peer Op} (v : Nat) (segment : LogSegment Op) (commitNumber : Nat)
      (resumes : p.Resumes (.newState v segment commitNumber)) (left : v ≠ p.viewNumber)
      (beyond : p.commitNumber < segment.start) : Act i p (p.restore segment.start)
  | keep {p : Peer Op} (checkpoint : Nat) (held : p.logStart ≤ checkpoint)
      (done : checkpoint ≤ p.applied) : Act i p { p with serving := some checkpoint }
  | release {p : Peer Op} : Act i p { p with serving := none }
  /-- Collects an answer to its recovery. -/
  | collect {p : Peer Op} (replicaId : Nat) (v : Nat)
      (state : Option (RecoveryState Op)) (status : p.status = .recovering)
      (heard : i.heard (.recoveryResponse v p.recoveryNonce replicaId state)) :
      Act i p { p with recoveryResponses := p.recoveryResponses.insert replicaId ⟨v, state⟩ }
  /-- Fetches the checkpoint the primary's answer follows. -/
  | fetchRecovery {p : Peer Op} (fetch : Fetch Op) (v : Nat) (checkpoint : Nat)
      (entries : List (LogEntry Op)) (commitNumber : Nat) (status : p.status = .recovering)
      (resume : fetch.resume =
        .recoveryResponse v ⟨⟨.checkpoint checkpoint, entries⟩, commitNumber⟩)
      (answered : p.Answered v ⟨⟨.checkpoint checkpoint, entries⟩, commitNumber⟩) :
      Act i p { p with fetch := some fetch, recoveryResponses := ∅ }
  | forget {p : Peer Op} (status : p.status = .recovering) :
      Act i p { p with recoveryResponses := ∅ }
  /-- Is back in the view of the primary that answered. -/
  | comeBack {p q : Peer Op} (v : Nat) (segment : LogSegment Op)
      (commitNumber : Nat) (applied : Nat)
      (status : p.status = .recovering ∨
        p.Resumes (.recoveryResponse v ⟨segment, commitNumber⟩))
      (answered : p.Answered v ⟨segment, commitNumber⟩)
      (fetched : p.AtCheckpoint q (.recoveryResponse v ⟨segment, commitNumber⟩)) (reach : segment.start ≤ q.commitNumber)
      (mergeable : q.Mergeable segment.start segment.entries)
      (executes : (q.merge segment.start segment.entries).Executes commitNumber applied)
      (responses : ExtTreeMap Nat (RecoveryResponse Op)) :
      Act i p { (q.merge segment.start segment.entries).raise commitNumber applied with
        viewNumber := v, recoveryResponses := responses }.enterNormal

/-- What a peer says: each message tells the truth about its state. -/
def Says {Op Query Chunk : Type} (i : Inputs Op Query Chunk) (p : Peer Op) :
    Nat × Message Op Query Chunk → Prop
  | (_, .register _) => False
  | (_, .request ..) => False
  | (_, .query ..) => False
  | (_, .confirmView v _) => p.status = .normal ∧ p.isPrimary ∧ v = p.viewNumber
  | (dest, .confirmViewOk v _ replicaId) =>
      replicaId = p.selfId ∧ v = p.viewNumber ∧ dest = p.primaryId ∧ ¬p.isPrimary
  | (_, .prepare v opNumber entry commitNumber) =>
      p.status = .normal ∧ p.isPrimary ∧ v = p.viewNumber ∧ p.entry opNumber = some entry ∧
        commitNumber = p.commitNumber
  | (_, .prepareOk v opNumber replicaId) =>
      p.status = .normal ∧ v = p.viewNumber ∧ opNumber = p.opNumber ∧ replicaId = p.selfId
  | (_, .commit v commitNumber) =>
      p.status = .normal ∧ p.isPrimary ∧ v = p.viewNumber ∧ commitNumber = p.commitNumber
  | (dest, .getState replicaId v _) =>
      replicaId = p.selfId ∧ v = p.viewNumber ∧
        ((p.status = .stateTransfer ∧ dest = p.primaryId) ∨
          ((p.status = .viewChange ∨ (p.status = .stateTransfer ∧ p.isPrimary)) ∧
            p.catchingUp = some dest))
  | (dest, .newState replicaId v segment commitNumber) =>
      replicaId = p.selfId ∧ v = p.viewNumber ∧ (∃ opNumber, i.heard (.getState dest v opNumber)) ∧
        (p.status = .normal ∨
          (p.status = .viewChange ∧ p.doViewChangeSent = true ∧ p.catchingUp = none)) ∧
        (p.ServingOk → p.IsSegment segment) ∧ commitNumber = p.commitNumber
  | (_, .getChunk ..) => True
  | (_, .newChunk ..) => True
  | (_, .startViewChange v replicaId) => replicaId = p.selfId ∧ v = p.viewNumber
  | (_, .doViewChange v replicaId lastNormalView segment commitNumber) =>
      replicaId = p.selfId ∧ v = p.viewNumber ∧ p.status = .viewChange ∧ p.catchingUp = none ∧
        ¬p.isPrimary ∧ (⟨lastNormalView, segment, commitNumber⟩ : DoViewChange Op) = p.report
  | (_, .startView v segment commitNumber) =>
      p.status = .normal ∧ p.isPrimary ∧ v = p.viewNumber ∧ segment = ⟨.op p.logStart, p.log⟩ ∧
        commitNumber = p.commitNumber
  | (dest, .recovery replicaId nonce v) =>
      p.status = .recovering ∧ replicaId = p.selfId ∧ nonce = p.recoveryNonce ∧
        v = p.viewNumber ∧ dest ≠ p.selfId
  | (dest, .recoveryResponse v nonce replicaId state) =>
      p.status = .normal ∧ replicaId = p.selfId ∧ v = p.viewNumber ∧
        (∃ asked ≤ p.viewNumber, i.heard (.recovery dest nonce asked)) ∧
        match state with
        | none => ¬p.isPrimary
        | some state => p.isPrimary ∧ (p.ServingOk → p.IsSegment state.segment) ∧
            state.commitNumber = p.commitNumber

/-- A peer, with everything it has said. -/
structure Speaker (Op Query Chunk : Type) where
  peer : Peer Op
  said : Set (Nat × Message Op Query Chunk)

/-- A speaker acts, or says something. -/
inductive Step {Op Query Chunk : Type} (i : Inputs Op Query Chunk) :
    Speaker Op Query Chunk → Speaker Op Query Chunk → Prop
  | act {s : Speaker Op Query Chunk} {p : Peer Op} (act : Act i s.peer p) :
      Step i s { s with peer := p }
  | say {s : Speaker Op Query Chunk} (envelope : Nat × Message Op Query Chunk)
      (truthful : Says i s.peer envelope) : Step i s { s with said := insert envelope s.said }

abbrev Steps {Op Query Chunk : Type} (i : Inputs Op Query Chunk) :
    Speaker Op Query Chunk → Speaker Op Query Chunk → Prop :=
  Relation.ReflTransGen (Step i)

end Vsr
