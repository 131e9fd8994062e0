import Vsr.Consensus.Moves
import Vsr.Protocol.Acts

/-!
# What holds of the cluster

The state of each peer and every message said, against a world of views, votes
and leaders' logs.  A peer's log is read together with the decided prefix that
its compacted part stands for.
-/

set_option autoImplicit false

namespace Vsr

open Consensus (World QuorumSystem)
open Std (ExtTreeMap)

variable {Op Query Chunk : Type}

/-- The quorums of a configuration: any majority of its replicas. -/
def Config.quorums (config : Config) : QuorumSystem Nat where
  IsQuorum Q := (∀ R ∈ Q, R < config.replicas.length) ∧ config.quorum ≤ Q.card
  meets := by
    rintro P Q ⟨insideP, largeP⟩ ⟨insideQ, largeQ⟩
    by_contra apart
    push Not at apart
    have disjoint : Disjoint P Q := Finset.disjoint_left.mpr apart
    have inside : P ∪ Q ⊆ Finset.range config.replicas.length := by
      intro R mem
      rcases Finset.mem_union.mp mem with memP | memQ
      · exact Finset.mem_range.mpr (insideP R memP)
      · exact Finset.mem_range.mpr (insideQ R memQ)
    have few := Finset.card_le_card inside
    rw [Finset.card_union_of_disjoint disjoint, Finset.card_range] at few
    unfold Config.quorum at largeP largeQ
    omega

/-- The abstract picture of a cluster's logs. -/
abbrev LogWorld (Op : Type) := World Nat (LogEntry Op)

/-- The log with the part that has been compacted away. -/
def Standing.whole (decided : List (LogEntry Op)) (s : Standing Op) : List (LogEntry Op) :=
  decided.take s.logStart ++ s.log

/-- The log a segment is the end of, where the rest is decided. -/
def LogSegment.whole (decided : List (LogEntry Op)) (segment : LogSegment Op) :
    List (LogEntry Op) :=
  decided.take segment.start ++ segment.entries

namespace Message

/-- The replica a message names as its sender. -/
def author : Message Op Query Chunk → Option Nat
  | .confirmViewOk _ _ replicaId => some replicaId
  | .prepareOk _ _ replicaId => some replicaId
  | .getState replicaId _ _ => some replicaId
  | .newState replicaId _ _ _ => some replicaId
  | .startViewChange _ replicaId => some replicaId
  | .doViewChange _ replicaId _ _ _ => some replicaId
  | .recovery replicaId _ _ => some replicaId
  | .recoveryResponse _ _ replicaId _ => some replicaId
  | _ => none

end Message

/-! ## What messages tell -/

section Tell
variable (config : Config) (w : LogWorld Op) (net : Set (Nat × Message Op Query Chunk))

/-- `L` is a log of view `v`: it goes on from what the view started from as the
leader's log does. -/
def HeldIn (v : Nat) (L : List (LogEntry Op)) : Prop :=
  ∃ b, w.base v = some b ∧ b <+: L ∧ L <+: w.led v

/-- The first `k` entries of `L` are decided, in views up to `v`. -/
structure Knows (v : Nat) (L : List (LogEntry Op)) (k : Nat) : Prop where
  known : w.KnownBy v k
  within : k ≤ L.length
  agrees : L.take k = w.decided.take k

/-- `segment` is the end of `L`, of which the first `commitNumber` entries are
decided. -/
structure Carries (v : Nat) (segment : LogSegment Op) (commitNumber : Nat)
    (L : List (LogEntry Op)) : Prop where
  start : segment.start ≤ L.length
  entries : segment.entries = L.drop segment.start
  knows : Knows w v L commitNumber
  checkpoint : ∀ k, segment.base = .checkpoint k → k ≤ commitNumber

/-- What `R` reports to the primary of view `v`. -/
structure ReportOk (v R : Nat) (report : DoViewChange Op) : Prop where
  start : report.segment.start ≤ report.commitNumber
  knows : Knows w v (report.segment.whole w.decided) report.commitNumber
  reported : w.Reported config.quorums R v report.lastNormalView
    (report.segment.whole w.decided)

/-- Whom `R` asks for the log of view `v`: the view's primary, or, as the primary
of a view that has not started, one whose report it may start from. -/
def AskOk (R v asked : Nat) : Prop :=
  (R ≠ config.primaryId v ∧ asked = config.primaryId v ∧ w.base v ≠ none) ∨
    (R = config.primaryId v ∧ ∃ receiver lastNormalView segment commitNumber,
      (receiver, .doViewChange v asked lastNormalView segment commitNumber) ∈ net ∧
        segment.start ≤ w.decided.length ∧
        w.Complete config.quorums (segment.whole w.decided) v)

/-- What `R` is sent when it asks for the log of view `v`. -/
def NewStateOk (R v : Nat) (segment : LogSegment Op) (commitNumber : Nat) : Prop :=
  (∃ L, Carries w v segment commitNumber L ∧ w.Complete config.quorums L v ∧
      (R = config.primaryId v ∨ HeldIn w v L)) ∧
    ∃ receiver opNumber, (receiver, .getState R v opNumber) ∈ net

/-- What the primary of view `v` answers a replica whose recovery began in the
world `before`. -/
def StateOk (before : LogWorld Op) (v : Nat) (state : RecoveryState Op) : Prop :=
  ∃ L, Carries w v state.segment state.commitNumber L ∧ HeldIn w v L ∧ before.led v <+: L

/-- What a message tells is true. -/
def MessageOk (began : Nat → Nat → LogWorld Op) : Nat × Message Op Query Chunk → Prop
  | (_, .prepare v opNumber entry commitNumber) =>
      w.base v ≠ none ∧ w.KnownBy v commitNumber ∧ 0 < opNumber ∧
        (w.led v)[opNumber - 1]? = some entry
  | (_, .prepareOk v opNumber R) => R < config.replicas.length ∧ opNumber ≤ w.votes R v
  | (_, .commit v commitNumber) => w.base v ≠ none ∧ w.KnownBy v commitNumber
  | (asked, .getState R v _) => AskOk config w net R v asked
  | (R, .newState _ v segment commitNumber) => NewStateOk config w net R v segment commitNumber
  | (_, .doViewChange v R lastNormalView segment commitNumber) =>
      R < config.replicas.length ∧ R ≠ config.primaryId v ∧
        ReportOk config w v R ⟨lastNormalView, segment, commitNumber⟩
  | (_, .startView v segment commitNumber) =>
      ∃ L, Carries w v segment commitNumber L ∧ HeldIn w v L
  | (asked, .recovery R nonce _) => asked ≠ R ∧ (began R nonce).Le w
  | (R, .recoveryResponse v nonce responder state) =>
      responder < config.replicas.length ∧ responder ≠ R ∧
        (∃ receiver asked, (receiver, .recovery R nonce asked) ∈ net) ∧
        (began R nonce).view responder ≤ v ∧
        ∀ told, state = some told → StateOk w (began R nonce) v told
  | _ => True

end Tell

/-! ## What holds of a peer -/

section Peers
variable (config : Config) (w : LogWorld Op) (began : Nat → Nat → LogWorld Op)
  (net : Set (Nat × Message Op Query Chunk)) (R : Nat)

/-- The counters are in order, and what is committed is decided. -/
structure LogOk (s : Standing Op) : Prop where
  start : s.logStart ≤ s.applied
  applied : s.applied ≤ s.commitNumber
  committed : s.commitNumber ≤ s.opNumber
  reached : s.commitNumber ≤ w.decided.length
  agrees : (s.whole w.decided).take s.commitNumber = w.decided.take s.commitNumber
  known : s.status ≠ .recovering → w.KnownBy s.viewNumber s.commitNumber

/-- The log against the views that have started. -/
structure ViewOk (s : Standing Op) : Prop where
  here : s.status ≠ .recovering → w.view R = s.viewNumber
  lastNormal : s.lastNormalView ≤ s.viewNumber
  current : s.status = .normal ∨ s.status = .stateTransfer → s.lastNormalView = s.viewNumber
  changing : s.status = .viewChange → s.lastNormalView < s.viewNumber
  safe : s.status ≠ .recovering →
    w.Safe config.quorums R s.lastNormalView (s.whole w.decided)
  member : s.status = .normal ∨ s.status = .stateTransfer →
    HeldIn w s.viewNumber (s.whole w.decided) ∧
      w.votes R s.viewNumber = (s.whole w.decided).length
  leads : s.status = .normal → R = config.primaryId s.viewNumber →
    s.whole w.decided = w.led s.viewNumber
  follows : s.status = .stateTransfer → R ≠ config.primaryId s.viewNumber
  /-- A view starts only once its primary is in it. -/
  unstarted : ∀ v, R = config.primaryId v →
    w.view R < v ∨ (s.viewNumber = v ∧ s.status = .viewChange) → w.base v = none

/-- What the primary has counted was acknowledged. -/
structure AckOk (s : Standing Op) (acked : List Nat) : Prop where
  each : acked.length = config.replicas.length
  backed : s.status = .normal → R = config.primaryId s.viewNumber →
    ∀ S k, acked[S]? = some k → 0 < k → (S = R ∧ k ≤ s.opNumber) ∨
      ∃ receiver opNumber, k ≤ opNumber ∧ (receiver, .prepareOk s.viewNumber opNumber S) ∈ net

/-- The reports the primary of the view it wants has collected, and whom a peer
in a view change asks. -/
structure ChangeOk (s : Standing Op) (reports : ExtTreeMap Nat (DoViewChange Op))
    (catchingUp : Option Nat) : Prop where
  collected : ∀ S report, reports[S]? = some report →
    s.status = .viewChange ∧ R = config.primaryId s.viewNumber ∧
      S < config.replicas.length ∧ ReportOk config w s.viewNumber S report ∧
      (report.segment.start ≤ s.commitNumber ∨ ∃ receiver,
        (receiver, .doViewChange s.viewNumber S report.lastNormalView report.segment
          report.commitNumber) ∈ net)
  asks : ∀ asked, catchingUp = some asked → s.status = .viewChange →
    AskOk config w net R s.viewNumber asked ∧
      (R = config.primaryId s.viewNumber → config.quorum ≤ reports.size)

/-- The message the fetch under way goes on with. -/
structure FetchOk (s : Standing Op) (catchingUp : Option Nat) (nonce : Nat)
    (fetch : Option (Fetch Op)) : Prop where
  newState : ∀ f v segment commitNumber, fetch = some f →
    f.resume = .newState v segment commitNumber →
      v = s.viewNumber ∧ (∃ k, segment.base = .checkpoint k) ∧
        NewStateOk config w net R v segment commitNumber ∧
        ((s.status = .stateTransfer ∧ s.opNumber < segment.endOp) ∨
          (s.status = .viewChange ∧ catchingUp.isSome))
  recovery : ∀ f v state, fetch = some f → f.resume = .recoveryResponse v state →
    s.status = .recovering ∧ s.viewNumber ≤ v ∧ R ≠ config.primaryId v ∧
      (∃ k, state.segment.base = .checkpoint k) ∧ StateOk w (began R nonce) v state ∧
      ∀ y k, (y, k) ∈ (began R nonce).marks → 0 < k → y ≤ v

/-- A recovering peer has done nothing since its recovery began. -/
structure RecoveryOk (s : Standing Op) (nonce : Nat)
    (responses : ExtTreeMap Nat (RecoveryResponse Op)) : Prop where
  empty : s.status = .recovering → s.log = []
  began : s.status = .recovering → (began R nonce).Le w ∧ (began R nonce).Valid config.quorums ∧
    w.votes R = (began R nonce).votes R ∧ w.view R ≤ s.viewNumber ∧
    ∃ v, (began R nonce).KnownBy v s.commitNumber
  responses : s.status = .recovering → ∀ S response, responses[S]? = some response →
    (R, .recoveryResponse response.viewNumber nonce S response.state) ∈ net

/-- What a peer has said. -/
structure SaidOk (s : Standing Op) (said : Set (Nat × Message Op Query Chunk)) : Prop where
  truthful : ∀ envelope ∈ said, MessageOk config w net began envelope
  authored : ∀ envelope ∈ said, ∀ S, envelope.2.author = some S → S = R
  stamped : ∀ envelope ∈ said, ∀ v, envelope.2.stamp = some v → v ≤ s.viewNumber
  spoken : s.status = .recovering → w.view R = 0 ∨
    ∃ envelope ∈ said, ∃ v, envelope.2.stamp = some v ∧ w.view R ≤ v
  /-- While a peer waits for the view it reported for, its log changes only by
  what is decided taking the place of its start. -/
  reported : ∀ receiver lastNormalView segment commitNumber,
    (receiver, .doViewChange s.viewNumber R lastNormalView segment commitNumber) ∈ said →
      s.status = .viewChange → R ≠ config.primaryId s.viewNumber →
      ∃ j ≤ w.decided.length,
        s.whole w.decided = w.decided.take j ++ (segment.whole w.decided).drop j

structure SpeakerOk (s : Speaker Op Query Chunk) : Prop where
  config_eq : s.peer.config = config
  selfId_eq : s.peer.selfId = R
  log : LogOk w s.peer.toStanding
  view : ViewOk config w R s.peer.toStanding
  acks : AckOk config net R s.peer.toStanding s.peer.acked
  change : ChangeOk config w net R s.peer.toStanding s.peer.doViewChangeFrom s.peer.catchingUp
  fetch : FetchOk config w began net R s.peer.toStanding s.peer.catchingUp s.peer.recoveryNonce
    s.peer.fetch
  recovery : RecoveryOk config w began net R s.peer.toStanding s.peer.recoveryNonce
    s.peer.recoveryResponses
  serving : s.peer.ServingOk
  said : SaidOk config w began net R s.peer.toStanding s.said

end Peers

/-! ## Lengths -/

theorem Knows.reached {w : LogWorld Op} {v k : Nat} {L : List (LogEntry Op)}
    (knows : Knows w v L k) : k ≤ w.decided.length := by
  have same := congrArg List.length knows.agrees
  have within := knows.within
  simp only [List.length_take] at same
  omega

theorem ReportOk.reached {config : Config} {w : LogWorld Op} {v R : Nat} {report : DoViewChange Op}
    (ok : ReportOk config w v R report) : report.segment.start ≤ w.decided.length :=
  ok.start.trans ok.knows.reached

theorem LogSegment.length_whole {decided : List (LogEntry Op)} {segment : LogSegment Op}
    (within : segment.start ≤ decided.length) :
    (segment.whole decided).length = segment.endOp := by
  simp [LogSegment.whole, LogSegment.endOp, within]

theorem LogOk.start_le {w : LogWorld Op} {s : Standing Op} (ok : LogOk w s) :
    s.logStart ≤ w.decided.length :=
  ok.start.trans (ok.applied.trans ok.reached)

theorem LogOk.length_whole {w : LogWorld Op} {s : Standing Op} (ok : LogOk w s) :
    (s.whole w.decided).length = s.opNumber := by
  simp [Standing.whole, Standing.opNumber, ok.start_le]

/-! ## Later worlds keep it -/

section Mono
variable {config : Config} {w w' : LogWorld Op} (later : w.Le w')
include later

theorem Standing.whole_later {s : Standing Op} (within : s.logStart ≤ w.decided.length) :
    s.whole w'.decided = s.whole w.decided := by
  unfold Standing.whole
  rw [later.take_decided within]

theorem LogSegment.whole_later {segment : LogSegment Op}
    (within : segment.start ≤ w.decided.length) :
    segment.whole w'.decided = segment.whole w.decided := by
  unfold LogSegment.whole
  rw [later.take_decided within]

theorem HeldIn.mono {v : Nat} {L : List (LogEntry Op)} (held : HeldIn w v L) : HeldIn w' v L := by
  obtain ⟨b, isBase, holds, within⟩ := held
  exact ⟨b, later.base v b isBase, holds, within.trans (later.led v)⟩

theorem Knows.mono {v k : Nat} {L : List (LogEntry Op)} (knows : Knows w v L k) :
    Knows w' v L k where
  known := knows.known.mono later
  within := knows.within
  agrees := by rw [later.take_decided knows.reached, knows.agrees]

theorem Carries.mono {v commitNumber : Nat} {segment : LogSegment Op} {L : List (LogEntry Op)}
    (carries : Carries w v segment commitNumber L) : Carries w' v segment commitNumber L where
  start := carries.start
  entries := carries.entries
  knows := carries.knows.mono later
  checkpoint := carries.checkpoint

theorem ReportOk.mono {v R : Nat} {report : DoViewChange Op} (ok : ReportOk config w v R report) :
    ReportOk config w' v R report where
  start := ok.start
  knows := by
    rw [LogSegment.whole_later later ok.reached]
    exact ok.knows.mono later
  reported := by
    rw [LogSegment.whole_later later ok.reached]
    exact ok.reported.mono later

theorem StateOk.mono {before : LogWorld Op} {v : Nat} {state : RecoveryState Op}
    (ok : StateOk w before v state) : StateOk w' before v state := by
  obtain ⟨L, carries, held, grown⟩ := ok
  exact ⟨L, carries.mono later, held.mono later, grown⟩

variable {net net' : Set (Nat × Message Op Query Chunk)} (more : net ⊆ net')
include more

theorem AskOk.mono {R v asked : Nat} (ok : AskOk config w net R v asked) :
    AskOk config w' net' R v asked := by
  rcases ok with ⟨backup, isPrimary, started⟩ | ⟨primary, receiver, last, segment, commit, sent,
    within, complete⟩
  · exact .inl ⟨backup, isPrimary, later.started started⟩
  · refine .inr ⟨primary, receiver, last, segment, commit, more sent,
      within.trans later.length_decided, ?_⟩
    rw [LogSegment.whole_later later within]
    exact complete.mono later

theorem NewStateOk.mono {R v commitNumber : Nat} {segment : LogSegment Op}
    (ok : NewStateOk config w net R v segment commitNumber) :
    NewStateOk config w' net' R v segment commitNumber := by
  obtain ⟨⟨L, carries, complete, held⟩, receiver, opNumber, asked⟩ := ok
  exact ⟨⟨L, carries.mono later, complete.mono later, held.imp id (HeldIn.mono later)⟩, receiver,
    opNumber, more asked⟩

theorem MessageOk.mono {began : Nat → Nat → LogWorld Op} {envelope : Nat × Message Op Query Chunk}
    (ok : MessageOk config w net began envelope) : MessageOk config w' net' began envelope := by
  obtain ⟨receiver, message⟩ := envelope
  cases message with
  | prepare v opNumber entry commitNumber =>
      obtain ⟨started, known, pos, held⟩ := ok
      refine ⟨later.started started, known.mono later, pos, ?_⟩
      obtain ⟨rest, grown⟩ := later.led v
      rw [← grown, List.getElem?_append_left (List.getElem?_eq_some_iff.mp held).1, held]
  | prepareOk v opNumber R => exact ⟨ok.1, ok.2.trans (later.votes R v)⟩
  | commit v commitNumber => exact ⟨later.started ok.1, ok.2.mono later⟩
  | getState R v opNumber => exact AskOk.mono later more ok
  | newState R v segment commitNumber => exact NewStateOk.mono later more ok
  | doViewChange v R lastNormalView segment commitNumber =>
      exact ⟨ok.1, ok.2.1, ok.2.2.mono later⟩
  | startView v segment commitNumber =>
      obtain ⟨L, carries, held⟩ := ok
      exact ⟨L, carries.mono later, held.mono later⟩
  | recovery R nonce v => exact ⟨ok.1, ok.2.trans later⟩
  | recoveryResponse v nonce responder state =>
      obtain ⟨inside, other, ⟨receiver, asked, sent⟩, seen, told⟩ := ok
      exact ⟨inside, other, ⟨receiver, asked, more sent⟩, seen,
        fun state isState => (told state isState).mono later⟩
  | _ => trivial

omit more in
theorem LogOk.mono {s : Standing Op} (ok : LogOk w s) : LogOk w' s where
  start := ok.start
  applied := ok.applied
  committed := ok.committed
  reached := ok.reached.trans later.length_decided
  agrees := by
    rw [Standing.whole_later later ok.start_le, later.take_decided ok.reached, ok.agrees]
  known status := (ok.known status).mono later

theorem ChangeOk.mono {R : Nat} {s : Standing Op} {reports : ExtTreeMap Nat (DoViewChange Op)}
    {catchingUp : Option Nat} (ok : ChangeOk config w net R s reports catchingUp) :
    ChangeOk config w' net' R s reports catchingUp where
  collected S report found := by
    obtain ⟨status, primary, inside, reported, origin⟩ := ok.collected S report found
    refine ⟨status, primary, inside, reported.mono later, origin.imp id ?_⟩
    rintro ⟨receiver, sent⟩
    exact ⟨receiver, more sent⟩
  asks asked isAsked status :=
    ⟨(ok.asks asked isAsked status).1.mono later more, (ok.asks asked isAsked status).2⟩

theorem FetchOk.mono {began : Nat → Nat → LogWorld Op} {R nonce : Nat} {s : Standing Op}
    {catchingUp : Option Nat} {fetch : Option (Fetch Op)}
    (ok : FetchOk config w began net R s catchingUp nonce fetch) :
    FetchOk config w' began net' R s catchingUp nonce fetch where
  newState f v segment commitNumber isFetch resume := by
    obtain ⟨view, base, told, waits⟩ := ok.newState f v segment commitNumber isFetch resume
    exact ⟨view, base, told.mono later more, waits⟩
  recovery f v state isFetch resume := by
    obtain ⟨status, view, other, base, told, seen⟩ := ok.recovery f v state isFetch resume
    exact ⟨status, view, other, base, told.mono later, seen⟩

omit later in
theorem AckOk.mono {R : Nat} {s : Standing Op} {acked : List Nat}
    (ok : AckOk config net R s acked) : AckOk config net' R s acked where
  each := ok.each
  backed status primary S k isAcked pos := by
    refine (ok.backed status primary S k isAcked pos).imp id ?_
    rintro ⟨receiver, opNumber, reach, sent⟩
    exact ⟨receiver, opNumber, reach, more sent⟩

/-- A peer that does nothing itself stays as it should be. -/
theorem SpeakerOk.mono {began : Nat → Nat → LogWorld Op} {R : Nat} {s : Speaker Op Query Chunk}
    (view : w'.view R = w.view R) (votes : w'.votes R = w.votes R)
    (leads : ∀ v, R = config.primaryId v → w'.led v = w.led v ∧ w'.base v = w.base v)
    (ok : SpeakerOk config w began net R s) : SpeakerOk config w' began net' R s := by
  have same := Standing.whole_later later ok.log.start_le
  exact
    { config_eq := ok.config_eq
      selfId_eq := ok.selfId_eq
      log := ok.log.mono later
      view :=
        { here := fun status => by rw [view, ok.view.here status]
          lastNormal := ok.view.lastNormal
          current := ok.view.current
          changing := ok.view.changing
          safe := fun status => by
            rw [same]
            exact (ok.view.safe status).mono later votes
          member := fun status => by
            rw [same, votes]
            exact ⟨(ok.view.member status).1.mono later, (ok.view.member status).2⟩
          leads := fun status primary => by
            rw [same, (leads _ primary).1]
            exact ok.view.leads status primary
          follows := ok.view.follows
          unstarted := fun v primary ahead => by
            rw [view] at ahead
            rw [(leads v primary).2]
            exact ok.view.unstarted v primary ahead }
      acks := ok.acks.mono more
      change := ok.change.mono later more
      fetch := ok.fetch.mono later more
      recovery :=
        { empty := ok.recovery.empty
          began := fun status => by
            obtain ⟨before, valid, silent, left, known⟩ := ok.recovery.began status
            exact ⟨before.trans later, valid, votes.trans silent, view.le.trans left, known⟩
          responses := fun status S response found =>
            more (ok.recovery.responses status S response found) }
      serving := ok.serving
      said :=
        { truthful := fun envelope mem => (ok.said.truthful envelope mem).mono later more
          authored := ok.said.authored
          stamped := ok.said.stamped
          spoken := fun status => by
            rw [view]
            exact ok.said.spoken status
          reported := fun receiver last segment commitNumber mem status backup => by
            obtain ⟨j, within, grafted⟩ :=
              ok.said.reported receiver last segment commitNumber mem status backup
            have reached := ((ok.said.truthful _ mem).2.2).reached
            refine ⟨j, within.trans later.length_decided, ?_⟩
            rw [same, grafted, later.take_decided within, LogSegment.whole_later later reached] } }

end Mono

/-- What holds of the peers of a cluster and of what they have said. -/
structure SystemOk (config : Config) (w : LogWorld Op) (began : Nat → Nat → LogWorld Op)
    (net : Set (Nat × Message Op Query Chunk)) (system : Nat → Speaker Op Query Chunk) : Prop where
  several : 3 ≤ config.replicas.length
  valid : w.Valid config.quorums
  speakers : ∀ R < config.replicas.length, SpeakerOk config w began net R (system R)
  said : ∀ envelope ∈ net, envelope.2.stamp ≠ none →
    ∃ R < config.replicas.length, envelope ∈ (system R).said

namespace SystemOk
variable {config : Config} {w w' : LogWorld Op} {began : Nat → Nat → LogWorld Op}
  {net : Set (Nat × Message Op Query Chunk)} {system : Nat → Speaker Op Query Chunk}
  (ok : SystemOk config w began net system)
include ok

/-- What was sent is true. -/
theorem message {envelope : Nat × Message Op Query Chunk} (sent : envelope ∈ net) :
    MessageOk config w net began envelope := by
  by_cases stamped : envelope.2.stamp = none
  · obtain ⟨receiver, message⟩ := envelope
    cases message <;> trivial
  · obtain ⟨R, inside, mem⟩ := ok.said envelope sent stamped
    exact (ok.speakers R inside).said.truthful envelope mem

/-- What was sent was said by the replica it names. -/
theorem said_by {envelope : Nat × Message Op Query Chunk} (sent : envelope ∈ net) {R : Nat}
    (author : envelope.2.author = some R) :
    R < config.replicas.length ∧ envelope ∈ (system R).said := by
  have stamped : envelope.2.stamp ≠ none := by
    obtain ⟨receiver, message⟩ := envelope
    cases message <;> first | (cases author; done) | simp [Message.stamp]
  obtain ⟨S, inside, mem⟩ := ok.said envelope sent stamped
  have same := (ok.speakers S inside).said.authored envelope mem R author
  rw [same]
  exact ⟨inside, mem⟩

end SystemOk

/-! ## One peer moves -/

/-- `w'` is a later world in which nobody but `R` has moved, and nothing more is
decided. -/
structure Alone (config : Config) (R : Nat) (w w' : LogWorld Op) : Prop where
  later : w.Le w'
  view : ∀ S ≠ R, w'.view S = w.view S
  votes : ∀ S ≠ R, w'.votes S = w.votes S
  leads : ∀ v, R ≠ config.primaryId v → w'.led v = w.led v ∧ w'.base v = w.base v
  decided : w'.decided = w.decided
  marks : w'.marks = w.marks

theorem Alone.refl (config : Config) (R : Nat) (w : LogWorld Op) : Alone config R w w where
  later := .refl w
  view _ _ := rfl
  votes _ _ := rfl
  leads _ _ := ⟨rfl, rfl⟩
  decided := rfl
  marks := rfl

theorem Alone.trans {config : Config} {R : Nat} {w w' w'' : LogWorld Op}
    (first : Alone config R w w') (second : Alone config R w' w'') : Alone config R w w'' where
  later := first.later.trans second.later
  view S other := (second.view S other).trans (first.view S other)
  votes S other := (second.votes S other).trans (first.votes S other)
  leads v other :=
    ⟨(second.leads v other).1.trans (first.leads v other).1,
      (second.leads v other).2.trans (first.leads v other).2⟩
  decided := second.decided.trans first.decided
  marks := second.marks.trans first.marks

theorem Alone.raise {config : Config} {R v : Nat} {w : LogWorld Op} (moved : w.view R ≤ v) :
    Alone config R w (w.raise R v) where
  later := World.raise_le moved
  view S other := by simp [World.raise, other]
  votes _ _ := rfl
  leads _ _ := ⟨rfl, rfl⟩
  decided := rfl
  marks := rfl

theorem Alone.vote {config : Config} {R v k : Nat} {w : LogWorld Op} (more : w.votes R v ≤ k)
    (here : w.view R = v) : Alone config R w (w.vote R v k) where
  later := World.vote_le more here
  view _ _ := rfl
  votes S other := by simp [World.vote, other]
  leads _ _ := ⟨rfl, rfl⟩
  decided := rfl
  marks := rfl

theorem Alone.lead {config : Config} {R v : Nat} {w : LogWorld Op} {L : List (LogEntry Op)}
    (grown : w.led v <+: L) (primary : R = config.primaryId v) :
    Alone config R w (w.lead v L) where
  later := World.lead_le grown
  view _ _ := rfl
  votes _ _ := rfl
  leads x other := by
    have elsewhere : x ≠ v := by
      rintro rfl
      exact other primary
    exact ⟨by simp [World.lead, elsewhere], rfl⟩
  decided := rfl
  marks := rfl

theorem Alone.start {config : Config} {R v : Nat} {w : LogWorld Op} {L : List (LogEntry Op)}
    (valid : w.Valid config.quorums) (unstarted : w.base v = none)
    (primary : R = config.primaryId v) : Alone config R w (w.start v L) where
  later := World.start_le valid unstarted
  view _ _ := rfl
  votes _ _ := rfl
  leads x other := by
    have elsewhere : x ≠ v := by
      rintro rfl
      exact other primary
    exact ⟨by simp [World.start, elsewhere], by simp [World.start, elsewhere]⟩
  decided := rfl
  marks := rfl

theorem SystemOk.update {config : Config} {w w' : LogWorld Op} {began : Nat → Nat → LogWorld Op}
    {net : Set (Nat × Message Op Query Chunk)} {system : Nat → Speaker Op Query Chunk}
    (ok : SystemOk config w began net system) {R : Nat} {s : Speaker Op Query Chunk}
    (alone : Alone config R w w') (valid : w'.Valid config.quorums)
    (more : (system R).said ⊆ s.said) (speaker : SpeakerOk config w' began net R s) :
    SystemOk config w' began net (Function.update system R s) where
  several := ok.several
  valid := valid
  speakers S inside := by
    rcases eq_or_ne S R with rfl | other
    · rw [Function.update_self]
      exact speaker
    · rw [Function.update_of_ne other]
      exact (ok.speakers S inside).mono alone.later (fun _ mem => mem) (alone.view S other)
        (alone.votes S other) fun v primary => alone.leads v fun same => other (primary.trans same.symm)
  said envelope sent stamped := by
    obtain ⟨S, inside, mem⟩ := ok.said envelope sent stamped
    refine ⟨S, inside, ?_⟩
    rcases eq_or_ne S R with rfl | other
    · rw [Function.update_self]
      exact more mem
    · rw [Function.update_of_ne other]
      exact mem

end Vsr
