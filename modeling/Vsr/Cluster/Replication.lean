import Vsr.Cluster.Agreement
import Vsr.Replication.Accumulator
import Vsr.Replication.Stands

/-!
# The cluster as one state machine

There is one log of what is committed, and every replica is as that log makes it: its
state machine has the content of a single one that executes the log, whatever
checkpoints it restored and crashes it came back from, and what it tells a client the
log tells.
-/

set_option autoImplicit false

namespace Vsr

variable {SM State : Type} [StateMachine SM]

/-- The state machines of a setting start with nothing, as `start` does, and come back
as of the ops they have durable. -/
structure Setting.Meets (setting : Setting SM) (contract : Contract SM State) (start : SM) :
    Prop where
  sound : contract.Sound start
  empty : StateMachine.clientTable start = []
  blank : ∀ {machine history}, setting.blank machine → history 0 = contract.content start →
    contract.Past machine history 0
  comesBack : ∀ {machine kept back history opNumber}, setting.comesBack machine kept back →
    contract.Past machine history opNumber → kept ≤ opNumber → contract.Past back history kept

namespace Node

/-- The node is as the log makes it. -/
structure Stands (contract : Contract SM State) (asks : MessageFor SM → Prop) (config : Config)
    (start : SM) (log : List (EntryFor SM)) (n : Node SM) : Prop where
  replica : n.replica.Stands contract asks config start log
  sent : ∀ envelope ∈ n.sent, contract.Genuine config start log envelope.2
  yielded : ∀ reply ∈ n.yielded, reply.TrueTo asks config start log

namespace Stands
variable {contract : Contract SM State} {asks : MessageFor SM → Prop} {config : Config} {start : SM}
  {log log' : List (EntryFor SM)} {setting : Setting SM} {n n' : Node SM}

theorem longer (stands : n.Stands contract asks config start log) (isPrefix : log <+: log') :
    n.Stands contract asks config start log' where
  replica := stands.replica.longer isPrefix
  sent envelope mem := (stands.sent envelope mem).longer isPrefix
  yielded reply mem := (stands.yielded reply mem).longer isPrefix

/-- Every message queued is genuine. -/
theorem queued (stands : n.Stands contract asks config start log) {envelope : Envelope SM}
    (mem : envelope ∈ n.replica.queued) : contract.Genuine config start log envelope.2 := by
  by_cases plain : envelope.2.plain = true
  · obtain ⟨receiver, message⟩ := envelope
    cases message <;> simp_all [Contract.Genuine, Message.plain, Message.fromClient]
  · exact stands.replica.peculiar envelope (List.mem_filter.mpr ⟨mem, by simpa using plain⟩)

/-- The replica goes on, and what it drains is told. -/
theorem goesOn (stands : n.Stands contract asks config start log)
    (replica : n'.replica.Stands contract asks config start log)
    (sent : ∀ envelope ∈ n'.sent, envelope ∈ n.sent ∨ envelope ∈ n.replica.queued)
    (yielded : ∀ reply ∈ n'.yielded, reply ∈ n.yielded ∨ reply ∈ n.replica.replies) :
    n'.Stands contract asks config start log where
  replica := replica
  sent envelope mem := by
    rcases sent envelope mem with before | new
    · exact stands.sent envelope before
    · exact stands.queued new
  yielded reply mem := by
    rcases yielded reply mem with before | new
    · exact stands.yielded reply before
    · exact stands.replica.replies reply new

/-- A step keeps a node as the log makes it. -/
theorem step (meets : setting.Meets contract start)
    (stands : n.Stands contract asks config start log) (kept : n.kept ≤ n.replica.applied)
    (executed : n.replica.applied ≤ n.replica.commitNumber) {hears : MessageFor SM → Prop}
    (heard : ∀ message, hears message → contract.Hears config start asks log message)
    (agrees : n'.replica.Agrees log) (step : Node.Step setting hears n n') :
    n'.Stands contract asks config start log := by
  have isSound := meets.sound
  have empty := meets.empty
  have isConfig : n.replica.config = config := by
    obtain ⟨_, _, follows⟩ := stands.replica.table
    exact follows.isConfig
  cases step with
  | message message isHeard run =>
      refine stands.goesOn ?_ (fun _ mem => .inl mem) fun _ mem => .inl mem
      exact stands.replica.does isSound empty executed agrees
        (Replica.onMessage_does (heard message isHeard) run)
  | idle run =>
      refine stands.goesOn ?_ (fun _ mem => .inl mem) fun _ mem => .inl mem
      exact stands.replica.deeds isSound empty agrees (Replica.onIdle_deeds run)
  | compact opNumber _ run =>
      exact stands.goesOn (stands.replica.compact run) (fun _ mem => .inl mem) fun _ mem => .inl mem
  | keep => exact stands.goesOn stands.replica (fun _ mem => .inl mem) fun _ mem => .inl mem
  | take _ run =>
      refine stands.goesOn ?_ (fun _ mem => .inl mem) fun _ mem => .inl mem
      exact stands.replica.still (Replica.takeWrite_still run)
  | land => exact stands.goesOn stands.replica (fun _ mem => .inl mem) fun _ mem => .inl mem
  | handBack _ _ run =>
      refine stands.goesOn ?_ (fun _ mem => .inl mem) fun _ mem => .inl mem
      exact stands.replica.deeds isSound empty agrees (Replica.persisted_deeds run)
  | drainBeforePersist =>
      refine stands.goesOn (stands.replica.still Replica.drainMessagesBeforePersist_still)
        (fun envelope mem => ?_) fun _ mem => .inl mem
      refine (List.mem_append.mp mem).imp_right fun drained => ?_
      simp only [Replica.drainMessagesBeforePersist] at drained
      simp [Replica.queued, drained]
  | drain =>
      refine stands.goesOn (stands.replica.still Replica.drainMessages_still)
        (fun envelope mem => ?_) fun _ mem => .inl mem
      refine (List.mem_append.mp mem).imp_right fun drained => ?_
      simp only [Replica.drainMessages, List.mem_append] at drained
      rcases drained with early | ready
      · simp [Replica.queued, early]
      · simp [Replica.queued, ready]
  | drainReplies =>
      exact stands.goesOn (stands.replica.still Replica.drainReplies_still)
        (fun _ mem => .inl mem) fun _ mem => List.mem_append.mp mem
  | crash newer older back split orderly machine comesBack nonce fresh run =>
      obtain ⟨m, fed⟩ := stands.replica.fed kept
      rw [isConfig] at run
      refine stands.goesOn ?_ (fun _ mem => .inl mem) fun _ mem => .inl mem
      exact Replica.Stands.restart isSound empty run fed
        (meets.comesBack comesBack stands.replica.past kept) agrees
  | lose allowed machine blank viewNumber view nonce fresh run =>
      rw [isConfig] at run
      obtain ⟨_, isReplica⟩ := Replica.recover_eq run
      refine stands.goesOn ?_ (fun _ mem => .inl mem) fun _ mem => .inl mem
      refine Replica.Stands.begins isSound empty (Replica.recover_untouched run) ?_
        (meets.blank blank (Contract.history_fed Model.Fed.zero))
      rw [Node.startOver, isReplica, (Replica.sendRecovery_same _).core]
      rfl

end Stands

end Node

/-! ## Clusters -/

section Cluster
variable {contract : Contract SM State} {setting : Setting SM} {asks : MessageFor SM → Prop}
  {start : SM} {c c' : Cluster SM} {g g' : Ghost (Input SM)}

/-- Every node is as what is decided makes it. -/
def Cluster.Stands (contract : Contract SM State) (asks : MessageFor SM → Prop) (start : SM)
    (log : List (EntryFor SM)) (c : Cluster SM) : Prop :=
  ∀ R < c.size, (c.nodes R).Stands contract asks c.config start log

theorem Tracked.agrees (tracked : Tracked c g) {R : Nat} (inside : R < c.size) :
    (c.nodes R).replica.Agrees g.decided := by
  obtain ⟨_, trails, ok⟩ := tracked
  intro k within entry isEntry
  exact (ok.nodes R inside).decided ok.worlds inside within isEntry

/-- What is kept has executed, and what has executed is committed. -/
theorem Tracked.order (tracked : Tracked c g) {R : Nat} (inside : R < c.size) :
    (c.nodes R).kept ≤ (c.nodes R).replica.applied ∧
      (c.nodes R).replica.applied ≤ (c.nodes R).replica.commitNumber := by
  obtain ⟨_, trails, ok⟩ := tracked
  obtain ⟨said, w, began, _, _, _, _, _, speaker⟩ := (ok.nodes R inside).live ok.worlds inside
  exact ⟨(ok.nodes R inside).kept, speaker.log.applied⟩

theorem Cluster.Stands.starts (meets : setting.Meets contract start)
    (starts : Cluster.Starts setting c) (log : List (EntryFor SM)) :
    c.Stands contract asks start log := by
  intro R inside
  obtain ⟨machine, r, blank, run, isNode⟩ := starts.nodes R inside
  obtain ⟨_, rfl⟩ := Replica.new_eq run
  rw [isNode]
  refine ⟨?_, (fun _ mem => by cases mem), fun _ mem => by cases mem⟩
  exact Replica.Stands.begins meets.sound meets.empty (Replica.fresh_untouched R c.config machine)
    rfl (meets.blank blank (Contract.history_fed Model.Fed.zero))

theorem Cluster.Stands.step (meets : setting.Meets contract start)
    (stands : c.Stands contract asks start g.decided) (tracked : Tracked c g)
    (tracked' : Tracked c' g') (isPrefix : g.decided <+: g'.decided)
    (step : Cluster.Step setting asks c c') : c'.Stands contract asks start g'.decided := by
  cases step with
  | @node n R inside step =>
      intro S insideS
      rcases eq_or_ne S R with rfl | other
      · have agrees := tracked'.agrees insideS
        obtain ⟨kept, executed⟩ := tracked.order inside
        simp only [Cluster.update, Function.update_self] at agrees ⊢
        refine ((stands S inside).longer isPrefix).step meets kept executed ?_ agrees step
        -- What it hears a node has sent, or a client asks it.
        rintro message (⟨T, insideT, isSent⟩ | asked)
        · exact .inl (((stands T insideT).longer isPrefix).sent _ isSent)
        · exact .inr asked
      · simp only [Cluster.update, Function.update_of_ne other]
        exact (stands S insideS).longer isPrefix

theorem Cluster.Stands.runs (orderly : setting.orderly) (meets : setting.Meets contract start)
    (stands : c.Stands contract asks start g.decided) (tracked : Tracked c g)
    (runs : Cluster.Runs setting asks c c') :
    ∃ g', g.decided <+: g'.decided ∧ Tracked c' g' ∧ c'.Stands contract asks start g'.decided := by
  induction runs with
  | refl => exact ⟨g, List.prefix_rfl, tracked, stands⟩
  | tail _ step ih =>
      obtain ⟨g₁, longer, tracked₁, stands₁⟩ := ih
      obtain ⟨g₂, onward, tracked₂⟩ := tracked₁.step orderly step
      have isPrefix := onward.le.decided
      exact ⟨g₂, longer.trans isPrefix, tracked₂, stands₁.step meets tracked₁ tracked₂ isPrefix step⟩

theorem Cluster.Reach.stands (contract : Contract SM State) (orderly : setting.orderly)
    (meets : setting.Meets contract start) (reach : Cluster.Reach setting asks c) :
    ∃ g, Tracked c g ∧ c.Stands contract asks start g.decided := by
  induction reach with
  | start starts => exact ⟨_, .start starts, .starts meets starts _⟩
  | step _ step ih =>
      obtain ⟨g, tracked, stands⟩ := ih
      obtain ⟨g', onward, tracked'⟩ := tracked.step orderly step
      exact ⟨g', tracked', stands.step meets tracked tracked' onward.le.decided step⟩

/-- The log of a cluster: it holds what is committed, and every replica has executed
as much of it as its count of ops applied says. -/
structure Cluster.Log (contract : Contract SM State) (start : SM) (log : List (EntryFor SM))
    (c : Cluster SM) : Prop where
  committed : ∀ opNumber entry, c.Committed opNumber entry →
    0 < opNumber ∧ log[opNumber - 1]? = some entry
  executed : ∀ R < c.size, ∃ m, Model.Fed c.config start log (c.nodes R).replica.applied m ∧
    contract.content (c.nodes R).replica.stateMachine = contract.content m.machine ∧
    (∀ clientId, (c.nodes R).replica.record clientId = m.table.get? clientId) ∧
    (c.nodes R).replica.sessions = m.table.pairs.length

theorem Cluster.Stands.isLog (stands : c.Stands contract asks start g.decided)
    (tracked : Tracked c g) : c.Log contract start g.decided where
  committed _ _ committed := tracked.committed committed
  executed R inside := by
    have node := (stands R inside).replica
    obtain ⟨m, fed, follows⟩ := node.table
    exact ⟨m, fed, (contract.past_content node.past).trans (Contract.history_fed fed),
      follows.records, follows.sessions⟩

/-- The replicas execute one log, which only grows: each of them has the state and the
client table that executing as much of it on a single state machine comes to. -/
theorem Cluster.replicates (orderly : setting.orderly) (meets : setting.Meets contract start)
    (reach : Cluster.Reach setting asks c) (runs : Cluster.Runs setting asks c c') :
    ∃ log log', log <+: log' ∧ c.Log contract start log ∧ c'.Log contract start log' := by
  obtain ⟨g, tracked, stands⟩ := reach.stands contract orderly meets
  obtain ⟨g', isPrefix, tracked', stands'⟩ := stands.runs orderly meets tracked runs
  exact ⟨g.decided, g'.decided, isPrefix, stands.isLog tracked, stands'.isLog tracked'⟩

end Cluster

namespace Accumulator

theorem meets (orderly diskLoss : Bool) : (setting orderly diskLoss).Meets contract new where
  sound x mem := by cases mem
  empty := rfl
  blank blank first := by
    cases blank
    exact ⟨rfl, first.symm, first⟩
  comesBack back past _ := by
    obtain ⟨rfl, rfl⟩ := back
    exact ⟨rfl, past.2.2.symm, past.2.2⟩

/-- Client 7 adds 5, and replica 0 replies. -/
def adds : List (Event Accumulator) :=
  [.ask 0 (.request 7 1 1 0 (Op.add 5))] ++ Event.persist 0 ++ [.deliver 0 2] ++ Event.persist 1 ++
    [.deliver 1 1, .drainReplies 0]

/-- Replica 1 starts view 1, and the client asks it again. -/
def asksAgain : List (Event Accumulator) :=
  [.idle 1, .idle 1, .idle 1, .idle 1] ++ Event.persist 1 ++ [.deliver 1 3] ++ Event.persist 2 ++
    [.deliver 2 1, .deliver 2 2] ++ Event.persist 1 ++ [.deliver 1 5] ++ Event.persist 2 ++
    [.deliver 2 3, .ask 1 (.request 7 1 1 0 (Op.add 5)), .drainReplies 1]

/-- Replica 0 executes both entries in view 0, and replica 1 in view 1. -/
theorem replicates_adds : ∃ (c c' : Cluster Accumulator) (log log' : List (EntryFor Accumulator)),
    log <+: log' ∧ c.Log contract new log ∧ c'.Log contract new log' ∧
      (c.nodes 0).replica.applied = 2 ∧ (c'.nodes 1).replica.applied = 2 ∧
      (c'.nodes 1).replica.stateMachine.value = 5 := by
  have evaluated : ((three.play (spares true false) (registers ++ adds)).bind fun c =>
      (c.play (spares true false) asksAgain).map fun c' =>
        ((c.nodes 0).replica.applied, (c'.nodes 1).replica.applied,
          (c'.nodes 1).replica.stateMachine.value)) = some (2, 2, 5) := by
    decide +kernel
  obtain ⟨c, run, rest⟩ := Option.bind_eq_some_iff.mp evaluated
  obtain ⟨c', run', counts⟩ := Option.map_eq_some_iff.mp rest
  obtain ⟨applied, counts⟩ := Prod.mk.inj counts
  obtain ⟨applied', value⟩ := Prod.mk.inj counts
  have fit := spares_fit true false
  obtain ⟨log, log', isPrefix, isLog, isLog'⟩ := Cluster.replicates rfl (meets true false)
    ((three_reach true false).runs (Cluster.play_runs fit run)) (Cluster.play_runs fit run')
  exact ⟨c, c', log, log', isPrefix, isLog, isLog', applied, applied', value⟩

end Accumulator

section Cluster
variable {contract : Contract SM State} {setting : Setting SM} {asks : MessageFor SM → Prop}
  {start : SM} {c : Cluster SM}

/-- No client is ever told two results of one request. -/
theorem Cluster.one_result (contract : Contract SM State) (orderly : setting.orderly)
    (meets : setting.Meets contract start) (reach : Cluster.Reach setting asks c) {R S : Nat}
    (insideR : R < c.size) (insideS : S < c.size)
    {v v' clientId session requestNumber : Nat} {result result' : Output SM}
    (told : .executed v clientId session requestNumber result ∈ (c.nodes R).yielded)
    (told' : .executed v' clientId session requestNumber result' ∈ (c.nodes S).yielded) :
    result = result' := by
  obtain ⟨g, _, stands⟩ := reach.stands contract orderly meets
  exact ((stands R insideR).yielded _ told).result_unique ((stands S insideS).yielded _ told')

end Cluster

namespace Accumulator

/-- Both primaries have told client 7 that its request came to 5. -/
theorem toldTwice : ∃ c : Cluster Accumulator, Cluster.Reach (setting true false) (fun _ => True) c ∧
    c.size = 3 ∧ .executed 0 7 1 1 (5 : Int) ∈ (c.nodes 0).yielded ∧
    .executed 1 7 1 1 (5 : Int) ∈ (c.nodes 1).yielded := by
  have evaluated : (three.play (spares true false) (registers ++ adds ++ asksAgain)).map (fun c =>
      decide (c.size = 3 ∧ .executed 0 7 1 1 (5 : Int) ∈ (c.nodes 0).yielded ∧
        .executed 1 7 1 1 (5 : Int) ∈ (c.nodes 1).yielded)) = some true := by
    decide +kernel
  obtain ⟨c, run, holds⟩ := Option.map_eq_some_iff.mp evaluated
  obtain ⟨size, told, told'⟩ := of_decide_eq_true holds
  exact ⟨c, (three_reach true false).runs (Cluster.play_runs (spares_fit true false) run), size, told,
    told'⟩

theorem one_result_adds : ∃ c : Cluster Accumulator,
    .executed 1 7 1 1 (5 : Int) ∈ (c.nodes 1).yielded ∧
      ∀ result : Int, .executed 0 7 1 1 result ∈ (c.nodes 0).yielded → result = 5 := by
  obtain ⟨c, reach, size, _, told⟩ := toldTwice
  refine ⟨c, told, fun result other => ?_⟩
  exact Cluster.one_result contract rfl (meets true false) reach (by omega) (by omega) other told

end Accumulator

end Vsr
