import Vsr.Accumulator
import Vsr.Cluster.Run

/-!
# Runs that compute

What happens to a cluster, event by event, so that a run can be written down and
carried out.  Every event that can happen is a step.
-/

set_option autoImplicit false

namespace Vsr

/-- What happens next. -/
inductive Event (SM : Type) [StateMachine SM] where
  /-- The message that `S` sent as its number `index` reaches its receiver. -/
  | deliver (S index : Nat)
  | ask (R : Nat) (message : MessageFor SM)
  | idle (R : Nat)
  | compact (R opNumber : Nat)
  | keep (R opNumber : Nat)
  | take (R : Nat)
  | land (R : Nat)
  | handBack (R : Nat)
  | drainBeforePersist (R : Nat)
  | drain (R : Nat)
  | drainReplies (R : Nat)
  /-- A crash that discards the last `discarded` states. -/
  | crash (R discarded nonce : Nat)
  | lose (R viewNumber nonce : Nat)

/-- The owner of `R` persists, and then drains. -/
def Event.persist {SM : Type} [StateMachine SM] (R : Nat) : List (Event SM) :=
  [.take R, .land R, .handBack R, .drain R]

/-- The state machines replicas come back with, and whether a crash may discard
what was drained. -/
structure Spares (SM : Type) [StateMachine SM] where
  orderly : Bool
  blank : Option SM
  revived : Node SM → Option SM

/-- The spares are such as the setting allows. -/
structure Spares.Fit {SM : Type} [StateMachine SM] (spares : Spares SM) (setting : Setting SM) :
    Prop where
  orderly : setting.orderly → spares.orderly = true
  blank : ∀ machine, spares.blank = some machine → setting.diskLoss ∧ setting.blank machine
  revived : ∀ n machine, spares.revived n = some machine →
    setting.comesBack n.replica.stateMachine n.kept machine

namespace Node
variable {SM : Type} [StateMachine SM]

def hear (n : Node SM) (message : MessageFor SM) : Option (Node SM) :=
  (n.replica.onMessage message).map n.advance

def idles (n : Node SM) : Option (Node SM) := n.replica.onIdle.map n.advance

def compacts (n : Node SM) (opNumber : Nat) : Option (Node SM) :=
  require (opNumber ≤ n.kept) ((n.replica.compact opNumber).map n.advance)

def keeping (n : Node SM) (opNumber : Nat) : Option (Node SM) :=
  require (n.kept ≤ opNumber ∧ opNumber ≤ n.replica.applied) (some { n with kept := opNumber })

def takes (n : Node SM) : Option (Node SM) :=
  require n.out.isNone <|
    n.replica.takeWrite.map fun taken => { n.advance taken.1 with out := some (taken.2, false) }

def landing (n : Node SM) : Option (Node SM) :=
  match n.out with
  | some (write, false) =>
      (n.disk.apply write).map fun disk => { n with disk := disk, out := some (write, true) }
  | _ => none

def handsBack (n : Node SM) : Option (Node SM) :=
  match n.out with
  | some (write, landed) =>
      require (landed = true ∨ write.sync = false)
        ((n.replica.persisted write).map fun r => { n.advance r with out := none })
  | none => none

def drainsBeforePersist (n : Node SM) : Node SM :=
  { n.advance n.replica.drainMessagesBeforePersist.1 with
    sent := n.sent ++ n.replica.drainMessagesBeforePersist.2 }

def drains (n : Node SM) : Node SM :=
  { n.advance n.replica.drainMessages.1 with sent := n.sent ++ n.replica.drainMessages.2 }

def drainsReplies (n : Node SM) : Node SM :=
  { n.advance n.replica.drainReplies.1 with yielded := n.yielded ++ n.replica.drainReplies.2 }

section Sound
variable {setting : Setting SM} {hears : MessageFor SM → Prop} {n n' : Node SM}

theorem hear_step {message : MessageFor SM} (heard : hears message) (run : n.hear message = some n') :
    Step setting hears n n' := by
  obtain ⟨r, made, rfl⟩ := Option.map_eq_some_iff.mp run
  exact .message message heard made

theorem idles_step (run : n.idles = some n') : Step setting hears n n' := by
  obtain ⟨r, made, rfl⟩ := Option.map_eq_some_iff.mp run
  exact .idle made

theorem compacts_step {opNumber : Nat} (run : n.compacts opNumber = some n') :
    Step setting hears n n' := by
  obtain ⟨durable, run⟩ := require_eq_some.mp run
  obtain ⟨r, made, rfl⟩ := Option.map_eq_some_iff.mp run
  exact .compact opNumber durable made

theorem keeping_step {opNumber : Nat} (run : n.keeping opNumber = some n') :
    Step setting hears n n' := by
  obtain ⟨⟨more, applied⟩, run⟩ := require_eq_some.mp run
  cases run
  exact .keep opNumber more applied

theorem takes_step (run : n.takes = some n') : Step setting hears n n' := by
  obtain ⟨free, run⟩ := require_eq_some.mp run
  obtain ⟨⟨r, write⟩, made, rfl⟩ := Option.map_eq_some_iff.mp run
  exact .take (Option.isNone_iff_eq_none.mp free) made

theorem landing_step (run : n.landing = some n') : Step setting hears n n' := by
  unfold landing at run
  split at run
  · next write isOut =>
    obtain ⟨disk, made, rfl⟩ := Option.map_eq_some_iff.mp run
    exact .land isOut made
  · cases run

theorem handsBack_step (run : n.handsBack = some n') : Step setting hears n n' := by
  unfold handsBack at run
  split at run
  · next write landed isOut =>
    obtain ⟨durable, run⟩ := require_eq_some.mp run
    obtain ⟨r, made, rfl⟩ := Option.map_eq_some_iff.mp run
    exact .handBack isOut durable made
  · cases run

end Sound

/-! ## Crashes -/

/-- The replica loses its disk and starts over, with a view number no less than
that of any message it sent and with a nonce it has not used. -/
inductive Loses (setting : Setting SM) (n : Node SM) (viewNumber : Nat) : Node SM → Prop
  | start {r : Replica SM} (allowed : setting.diskLoss) (machine : SM)
      (blank : setting.blank machine)
      (view : ∀ envelope ∈ n.sent, ∀ v, envelope.2.stamp = some v → v ≤ viewNumber)
      (nonce : Nat) (fresh : nonce ∉ n.nonces)
      (run : Replica.recover n.replica.selfId n.replica.config machine viewNumber nonce = some r) :
      Loses setting n viewNumber (n.startOver r nonce)

theorem Loses.step {setting : Setting SM} {hears : MessageFor SM → Prop} {n n' : Node SM}
    {viewNumber : Nat} (loses : n.Loses setting viewNumber n') : Step setting hears n n' := by
  obtain ⟨allowed, machine, blank, view, nonce, fresh, run⟩ := loses
  exact .lose allowed machine blank viewNumber view nonce fresh run

def loses (n : Node SM) (spares : Spares SM) (viewNumber nonce : Nat) : Option (Node SM) :=
  require ((n.sent.all fun envelope => envelope.2.stamp.all (· ≤ viewNumber)) = true ∧
      nonce ∉ n.nonces) <|
    spares.blank.bind fun machine =>
      (Replica.recover n.replica.selfId n.replica.config machine viewNumber nonce).map fun r =>
        n.startOver r nonce

theorem loses_sound {setting : Setting SM} {n n' : Node SM} {spares : Spares SM}
    (fit : spares.Fit setting) {viewNumber nonce : Nat}
    (run : n.loses spares viewNumber nonce = some n') : n.Loses setting viewNumber n' := by
  obtain ⟨⟨view, fresh⟩, run⟩ := require_eq_some.mp run
  obtain ⟨machine, isBlank, run⟩ := Option.bind_eq_some_iff.mp run
  obtain ⟨r, made, rfl⟩ := Option.map_eq_some_iff.mp run
  obtain ⟨allowed, blank⟩ := fit.blank machine isBlank
  refine .start allowed machine blank (fun envelope mem v stamp => ?_) nonce fresh made
  have := List.all_eq_true.mp view envelope mem
  rw [stamp] at this
  simpa using this

section Crash
variable [DecidableEq (Input SM)] [DecidableEq (Query SM)] [DecidableEq (Chunk SM)]
  [DecidableEq (Output SM)]

/-- Whether a crash may take the node back to this moment. -/
def mayGoBack (n : Node SM) (back : Moment SM) : Bool :=
  decide ({ back.replica.persistentState with commitNumber := n.disk.commitNumber } = n.disk) &&
    n.sent.all (fun envelope => decide (envelope ∈ back.said)) &&
    n.yielded.all fun reply => decide (reply ∈ back.replied)

def crashes (n : Node SM) (spares : Spares SM) (discarded nonce : Nat) : Option (Node SM) :=
  n.moments[discarded]?.bind fun back =>
    require ((spares.orderly = true → n.mayGoBack back = true) ∧
        (n.disk.recovering = true → nonce ∉ n.nonces)) <|
      (spares.revived n).bind fun machine =>
        (Replica.restart n.replica.selfId n.replica.config machine n.kept n.disk nonce).map fun r =>
          n.resume back (n.moments.drop (discarded + 1)) r nonce

variable {setting : Setting SM} {hears : MessageFor SM → Prop} {n n' : Node SM}

theorem mayGoBack_iff {back : Moment SM} : n.mayGoBack back = true ↔
    back.Persisted n.disk ∧ n.sent ⊆ back.said ∧ n.yielded ⊆ back.replied := by
  unfold mayGoBack Moment.Persisted
  simp only [Bool.and_eq_true, decide_eq_true_eq, List.all_eq_true, and_assoc]
  rfl

variable {spares : Spares SM} (fit : spares.Fit setting)
include fit

theorem crashes_step {discarded nonce : Nat} (run : n.crashes spares discarded nonce = some n') :
    Step setting hears n n' := by
  obtain ⟨back, isBack, run⟩ := Option.bind_eq_some_iff.mp run
  obtain ⟨⟨goesBack, fresh⟩, run⟩ := require_eq_some.mp run
  obtain ⟨machine, isMachine, run⟩ := Option.bind_eq_some_iff.mp run
  obtain ⟨r, made, rfl⟩ := Option.map_eq_some_iff.mp run
  obtain ⟨within, isBack⟩ := List.getElem?_eq_some_iff.mp isBack
  have split : n.moments = n.moments.take discarded ++ back :: n.moments.drop (discarded + 1) := by
    rw [← isBack, List.cons_getElem_drop_succ, List.take_append_drop]
  exact .crash _ _ back split
    (fun orderly => mayGoBack_iff.mp (goesBack (fit.orderly orderly))) machine
    (fit.revived n machine isMachine) nonce fresh made

end Crash

end Node

namespace Cluster
variable {SM : Type} [StateMachine SM]

/-- Has a node do something. -/
def act (c : Cluster SM) (R : Nat) (does : Node SM → Option (Node SM)) : Option (Cluster SM) :=
  require (R < c.size) ((does (c.nodes R)).map (c.update R))

variable [DecidableEq (Input SM)] [DecidableEq (Query SM)] [DecidableEq (Chunk SM)]
  [DecidableEq (Output SM)] (spares : Spares SM)

def happen (c : Cluster SM) : Event SM → Option (Cluster SM)
  | .deliver S index =>
      require (S < c.size) <|
        (c.nodes S).sent[index]?.bind fun envelope => c.act envelope.1 (·.hear envelope.2)
  | .ask R message => require (message.fromClient = true) (c.act R (·.hear message))
  | .idle R => c.act R (·.idles)
  | .compact R opNumber => c.act R (·.compacts opNumber)
  | .keep R opNumber => c.act R (·.keeping opNumber)
  | .take R => c.act R (·.takes)
  | .land R => c.act R (·.landing)
  | .handBack R => c.act R (·.handsBack)
  | .drainBeforePersist R => c.act R fun n => some n.drainsBeforePersist
  | .drain R => c.act R fun n => some n.drains
  | .drainReplies R => c.act R fun n => some n.drainsReplies
  | .crash R discarded nonce => c.act R (·.crashes spares discarded nonce)
  | .lose R viewNumber nonce => c.act R (·.loses spares viewNumber nonce)

/-- Carries out a script. -/
def play (c : Cluster SM) : List (Event SM) → Option (Cluster SM)
  | [] => some c
  | event :: rest => (c.happen spares event).bind fun next => next.play rest

variable {spares} {setting : Setting SM} {asks : MessageFor SM → Prop}

omit [DecidableEq (Input SM)] [DecidableEq (Query SM)] [DecidableEq (Chunk SM)]
  [DecidableEq (Output SM)] in
theorem act_step {c c' : Cluster SM} {R : Nat} {does : Node SM → Option (Node SM)}
    (run : c.act R does = some c')
    (sound : ∀ n', does (c.nodes R) = some n' →
      Node.Step setting (c.hears asks R) (c.nodes R) n') : Step setting asks c c' := by
  obtain ⟨inside, run⟩ := require_eq_some.mp run
  obtain ⟨n', made, rfl⟩ := Option.map_eq_some_iff.mp run
  exact .node R inside (sound n' made)

/-- What happens is a step, where clients may ask anything. -/
theorem happen_step (fit : spares.Fit setting) {c c' : Cluster SM} {event : Event SM}
    (run : c.happen spares event = some c') : Step setting (fun _ => True) c c' := by
  cases event with
  | deliver S index =>
      obtain ⟨inside, run⟩ := require_eq_some.mp run
      obtain ⟨⟨R, message⟩, isSent, made⟩ := Option.bind_eq_some_iff.mp run
      exact act_step made fun _ =>
        Node.hear_step (.inl ⟨S, inside, List.mem_of_getElem? isSent⟩)
  | ask R message =>
      obtain ⟨fromClient, made⟩ := require_eq_some.mp run
      exact act_step made fun _ => Node.hear_step (.inr ⟨fromClient, trivial⟩)
  | idle R => exact act_step run fun _ => Node.idles_step
  | compact R opNumber =>
      have acted : c.act R (fun n => n.compacts opNumber) = some c' := run
      exact act_step acted fun _ => Node.compacts_step
  | keep R opNumber =>
      have acted : c.act R (fun n => n.keeping opNumber) = some c' := run
      exact act_step acted fun _ => Node.keeping_step
  | take R => exact act_step run fun _ => Node.takes_step
  | land R => exact act_step run fun _ => Node.landing_step
  | handBack R => exact act_step run fun _ => Node.handsBack_step
  | drainBeforePersist R =>
      have acted : c.act R (fun n => some n.drainsBeforePersist) = some c' := run
      refine act_step acted fun n' drained => ?_
      cases drained
      exact .drainBeforePersist
  | drain R =>
      have acted : c.act R (fun n => some n.drains) = some c' := run
      refine act_step acted fun n' drained => ?_
      cases drained
      exact .drain
  | drainReplies R =>
      have acted : c.act R (fun n => some n.drainsReplies) = some c' := run
      refine act_step acted fun n' drained => ?_
      cases drained
      exact .drainReplies
  | crash R discarded nonce =>
      have acted : c.act R (fun n => n.crashes spares discarded nonce) = some c' := run
      exact act_step acted fun _ => Node.crashes_step fit
  | lose R viewNumber nonce =>
      have acted : c.act R (fun n => n.loses spares viewNumber nonce) = some c' := run
      exact act_step acted fun _ lost => (Node.loses_sound fit lost).step

/-- A cluster that has just been set up. -/
def fresh (config : Config) (machine : SM) : Cluster SM where
  config := config
  nodes R := Node.start (Replica.fresh R config machine)
  commits := []

omit [DecidableEq (Input SM)] [DecidableEq (Query SM)] [DecidableEq (Chunk SM)]
  [DecidableEq (Output SM)] in
theorem fresh_reach {config : Config} (several : 3 ≤ config.replicas.length) {machine : SM}
    (blank : setting.blank machine) : Reach setting asks (fresh config machine) :=
  .start
    { nodes := fun _ _ => ⟨machine, _, blank, if_pos several, rfl⟩
      several := several
      commits := rfl }

/-- A script that can be carried out is a run. -/
theorem play_runs (fit : spares.Fit setting) {script : List (Event SM)} {c c' : Cluster SM}
    (run : c.play spares script = some c') : Runs setting (fun _ => True) c c' := by
  induction script generalizing c with
  | nil =>
      cases run
      exact .refl
  | cons event rest ih =>
      obtain ⟨next, happens, run⟩ := Option.bind_eq_some_iff.mp run
      exact .head (happen_step fit happens) (ih run)

end Cluster

/-! ## Clusters of accumulators -/

namespace Accumulator

instance : DecidableEq (Input Accumulator) := inferInstanceAs (DecidableEq Op)
instance : DecidableEq (Query Accumulator) := inferInstanceAs (DecidableEq Unit)
instance : DecidableEq (Vsr.Chunk Accumulator) := inferInstanceAs (DecidableEq Chunk)
instance : DecidableEq (Output Accumulator) := inferInstanceAs (DecidableEq Int)

/-- An accumulator starts at 0, and comes back so if none of its ops is durable. -/
def setting (orderly diskLoss : Bool) : Setting Accumulator where
  orderly := orderly = true
  diskLoss := diskLoss = true
  blank machine := machine = .new
  comesBack _ kept machine := kept = 0 ∧ machine = .new

def spares (orderly diskLoss : Bool) : Spares Accumulator where
  orderly := orderly
  blank := if diskLoss = true then some .new else none
  revived n := if n.kept = 0 then some .new else none

theorem spares_fit (orderly diskLoss : Bool) :
    (spares orderly diskLoss).Fit (setting orderly diskLoss) where
  orderly isOrderly := isOrderly
  blank machine isBlank := by
    obtain ⟨allowed, same⟩ := Option.ite_none_right_eq_some.mp isBlank
    exact ⟨allowed, (Option.some.inj same).symm⟩
  revived n machine isRevived := by
    obtain ⟨nothing, same⟩ := Option.ite_none_right_eq_some.mp isRevived
    exact ⟨nothing, (Option.some.inj same).symm⟩

/-- Three accumulators. -/
def three : Cluster Accumulator := .fresh config new

theorem three_reach (orderly diskLoss : Bool) {asks : MessageFor Accumulator → Prop} :
    Cluster.Reach (setting orderly diskLoss) asks three :=
  Cluster.fresh_reach (le_refl 3) rfl

/-- Client 7 is registered in view 0, and the primary learns that a backup has the
registration on disk. -/
def registers : List (Event Accumulator) :=
  [.ask 0 (.register 7)] ++ Event.persist 0 ++ [.deliver 0 0] ++ Event.persist 1 ++ [.deliver 1 0]

/-- Replicas 1 and 2 go on to view 1, and replica 1 starts it. -/
def changesView : List (Event Accumulator) :=
  [.idle 1, .idle 1, .idle 1, .idle 1] ++ Event.persist 1 ++ [.deliver 1 2] ++ Event.persist 2 ++
    [.deliver 2 1, .deliver 2 2] ++ Event.persist 1

/-- Replica 2 follows, and replica 1 learns that it has the log on disk. -/
def follows : List (Event Accumulator) := [.deliver 1 4] ++ Event.persist 2 ++ [.deliver 2 3]

end Accumulator

end Vsr
