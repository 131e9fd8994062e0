import Vsr.Durable.Owner

/-!
# The cluster

Every replica with its owner, over a network that may lose, delay, duplicate and
reorder whatever was sent.  A node remembers what its replica was, so that it can
be said which steps a crash discards, and whether anything of them was drained.
-/

set_option autoImplicit false

namespace Vsr

/-- A state a replica was in, with every message and every reply it had queued by
then. -/
structure Moment (SM : Type) [StateMachine SM] where
  replica : Replica SM
  said : List (Envelope SM)
  replied : List (Reply (Output SM))

/-- The disk holds the state of this moment, up to the commit number. -/
def Moment.Persisted {SM : Type} [StateMachine SM] (m : Moment SM)
    (disk : PersistentState (Input SM)) : Prop :=
  { m.replica.persistentState with commitNumber := disk.commitNumber } = disk

/-- An owner and its replica, with what has become of them. -/
structure Node (SM : Type) [StateMachine SM] extends Owner SM where
  said : List (Envelope SM)
  replied : List (Reply (Output SM))
  /-- The states before this one that no crash has discarded, newest first. -/
  past : List (Moment SM)
  /-- The ops the state machine has durable. -/
  kept : Nat
  /-- What was drained. -/
  sent : List (Envelope SM)
  yielded : List (Reply (Output SM))
  /-- The nonces used so far. -/
  nonces : List Nat

/-- What the runs of a cluster are subject to. -/
structure Setting (SM : Type) where
  /-- No crash discards a step of which something was drained. -/
  orderly : Prop
  /-- Replicas may lose their disk. -/
  diskLoss : Prop
  /-- The state machines a replica starts with. -/
  blank : SM → Prop
  /-- What a state machine may come back as, as of an op it has durable. -/
  comesBack : SM → Nat → SM → Prop

namespace Node

variable {SM : Type} [StateMachine SM]

def now (n : Node SM) : Moment SM := ⟨n.replica, n.said, n.replied⟩

/-- This state and those before it, newest first. -/
def moments (n : Node SM) : List (Moment SM) := n.now :: n.past

/-- A node whose replica has just been made. -/
def start (r : Replica SM) : Node SM where
  replica := r
  disk := .empty
  out := none
  said := r.queued
  replied := r.replies
  past := []
  kept := 0
  sent := []
  yielded := []
  nonces := []

/-- The replica takes a step.  A checkpoint it restores is durable. -/
def advance (n : Node SM) (r : Replica SM) : Node SM :=
  { n with
    replica := r
    said := n.said ++ r.queued
    replied := n.replied ++ r.replies
    past := n.moments
    kept := max n.kept r.logStart }

/-- A replica that is back takes the place of the one that crashed, as if the
steps after `back` had not been taken. -/
def resume (n : Node SM) (back : Moment SM) (older : List (Moment SM)) (r : Replica SM)
    (nonce : Nat) : Node SM :=
  { n with
    replica := r
    out := none
    said := back.said ++ r.queued
    replied := back.replied ++ r.replies
    past := back :: older
    kept := max n.kept r.logStart
    nonces := nonce :: n.nonces }

/-- A replica that has lost its disk starts over. -/
def startOver (n : Node SM) (r : Replica SM) (nonce : Nat) : Node SM :=
  { n with
    replica := r
    disk := .empty
    out := none
    said := n.sent ++ r.queued
    replied := n.yielded ++ r.replies
    past := []
    kept := 0
    nonces := nonce :: n.nonces }

/-- What a node does next, where its replica may be handed the messages it
`hears`.  A call that panics is not a step. -/
inductive Step (setting : Setting SM) (hears : MessageFor SM → Prop) : Node SM → Node SM → Prop
  | message {n : Node SM} {r : Replica SM} (message : MessageFor SM) (heard : hears message)
      (run : n.replica.onMessage message = some r) : Step setting hears n (n.advance r)
  | idle {n : Node SM} {r : Replica SM} (run : n.replica.onIdle = some r) :
      Step setting hears n (n.advance r)
  | compact {n : Node SM} {r : Replica SM} (opNumber : Nat) (durable : opNumber ≤ n.kept)
      (run : n.replica.compact opNumber = some r) : Step setting hears n (n.advance r)
  /-- The state machine makes what it has applied durable. -/
  | keep {n : Node SM} (opNumber : Nat) (more : n.kept ≤ opNumber)
      (applied : opNumber ≤ n.replica.applied) : Step setting hears n { n with kept := opNumber }
  | take {n : Node SM} {r : Replica SM} {write : LogWrite (Input SM)} (none : n.out = none)
      (run : n.replica.takeWrite = some (r, write)) :
      Step setting hears n { n.advance r with out := some (write, false) }
  | land {n : Node SM} {disk : PersistentState (Input SM)} {write : LogWrite (Input SM)}
      (isOut : n.out = some (write, false)) (run : n.disk.apply write = some disk) :
      Step setting hears n { n with disk := disk, out := some (write, true) }
  | handBack {n : Node SM} {r : Replica SM} {write : LogWrite (Input SM)} {landed : Bool}
      (isOut : n.out = some (write, landed)) (durable : landed = true ∨ write.sync = false)
      (run : n.replica.persisted write = some r) :
      Step setting hears n { n.advance r with out := none }
  | drainBeforePersist {n : Node SM} :
      Step setting hears n { n.advance n.replica.drainMessagesBeforePersist.1 with
        sent := n.sent ++ n.replica.drainMessagesBeforePersist.2 }
  | drain {n : Node SM} :
      Step setting hears n { n.advance n.replica.drainMessages.1 with
        sent := n.sent ++ n.replica.drainMessages.2 }
  | drainReplies {n : Node SM} :
      Step setting hears n { n.advance n.replica.drainReplies.1 with
        yielded := n.yielded ++ n.replica.drainReplies.2 }
  /-- A crash: the replica restarts from what has landed and from a state machine
  durable as of the ops it kept.  The steps after `back` are discarded. -/
  | crash {n : Node SM} {r : Replica SM} (newer older : List (Moment SM)) (back : Moment SM)
      (split : n.moments = newer ++ back :: older)
      (orderly : setting.orderly →
        back.Persisted n.disk ∧ n.sent ⊆ back.said ∧ n.yielded ⊆ back.replied)
      (machine : SM) (comesBack : setting.comesBack n.replica.stateMachine n.kept machine)
      (nonce : Nat) (fresh : n.disk.recovering = true → nonce ∉ n.nonces)
      (run : Replica.restart n.replica.selfId n.replica.config machine n.kept n.disk nonce =
        some r) :
      Step setting hears n (n.resume back older r nonce)
  /-- A crash that loses the disk as well: the replica comes back with no memory,
  and a view number no less than that of any message it sent. -/
  | lose {n : Node SM} {r : Replica SM} (allowed : setting.diskLoss) (machine : SM)
      (blank : setting.blank machine) (viewNumber : Nat)
      (view : ∀ envelope ∈ n.sent, ∀ v, envelope.2.stamp = some v → v ≤ viewNumber)
      (nonce : Nat) (fresh : nonce ∉ n.nonces)
      (run : Replica.recover n.replica.selfId n.replica.config machine viewNumber nonce = some r) :
      Step setting hears n (n.startOver r nonce)

end Node

/-- The replicas of a cluster, and what their primaries have committed on a
quorum of acknowledgements: the view, the op number and the entry. -/
structure Cluster (SM : Type) [StateMachine SM] where
  config : Config
  nodes : Nat → Node SM
  commits : List (Nat × Nat × EntryFor SM)

/-- What the primary of a view commits when it goes from `r` to `r'`. -/
def Replica.commitsTo {SM : Type} [StateMachine SM] (r r' : Replica SM) :
    List (Nat × Nat × EntryFor SM) :=
  if r.status = .normal ∧ r.isPrimary ∧ r'.status = .normal ∧ r'.viewNumber = r.viewNumber then
    (List.range' (r.commitNumber + 1) (r'.commitNumber - r.commitNumber)).filterMap fun opNumber =>
      (r'.entry opNumber).map fun entry => (r.viewNumber, opNumber, entry)
  else []

namespace Cluster

variable {SM : Type} [StateMachine SM]

/-- The number of replicas. -/
def size (c : Cluster SM) : Nat := c.config.replicas.length

/-- What `R` may be handed: what was sent to it, and what clients ask. -/
def hears (c : Cluster SM) (asks : MessageFor SM → Prop) (R : Nat) (message : MessageFor SM) : Prop :=
  (∃ S < c.size, (R, message) ∈ (c.nodes S).sent) ∨ (message.fromClient = true ∧ asks message)

/-- One of the nodes takes a step. -/
def update (c : Cluster SM) (R : Nat) (n : Node SM) : Cluster SM :=
  { c with
    nodes := Function.update c.nodes R n
    commits := c.commits ++ (c.nodes R).replica.commitsTo n.replica }

/-- One step of a cluster whose clients ask what `asks` holds of. -/
inductive Step (setting : Setting SM) (asks : MessageFor SM → Prop) : Cluster SM → Cluster SM → Prop
  | node {c : Cluster SM} {n : Node SM} (R : Nat) (inside : R < c.size)
      (step : Node.Step setting (c.hears asks R) (c.nodes R) n) : Step setting asks c (c.update R n)

/-- A cluster in which nothing has happened yet. -/
structure Starts (setting : Setting SM) (c : Cluster SM) : Prop where
  nodes : ∀ R < c.size, ∃ machine r, setting.blank machine ∧
    Replica.new R c.config machine = some r ∧ c.nodes R = Node.start r
  several : 3 ≤ c.size
  commits : c.commits = []

/-- The states of a cluster's runs. -/
inductive Reach (setting : Setting SM) (asks : MessageFor SM → Prop) : Cluster SM → Prop
  | start {c : Cluster SM} (starts : Starts setting c) : Reach setting asks c
  | step {c c' : Cluster SM} (before : Reach setting asks c) (step : Step setting asks c c') :
      Reach setting asks c'

end Cluster

end Vsr
