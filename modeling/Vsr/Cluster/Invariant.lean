import Vsr.Cluster.Trace

/-!
# What holds of a cluster

`NodeOk` ties a node to the trail of its replica: what it remembers lies on the
trail, and its disk, or what the write that is out will make of it, is as much as
the replica may come back with.  `ClusterOk` adds that the trails have a world for
every choice of states to take the replicas back to.
-/

set_option autoImplicit false

namespace Vsr

variable {SM : Type} [StateMachine SM]

/-- The log on disk with the part that has been compacted away. -/
def PersistentState.whole {Op : Type} (decided : List (LogEntry Op)) (state : PersistentState Op) :
    List (LogEntry Op) :=
  decided.take state.logStart ++ state.log

theorem Ghost.DiskOk.mono {Op : Type} {g g' : Ghost Op} (le : g.Le g') {state : PersistentState Op}
    (ok : g.DiskOk state (state.whole g.decided)) : g'.DiskOk state (state.whole g'.decided) := by
  have reached : state.commitNumber ≤ g.decided.length := by
    have := congrArg List.length ok.agrees
    have := ok.within
    simp only [List.length_take] at *
    omega
  obtain ⟨rest, grown⟩ := le.decided
  have takes : ∀ {k : Nat}, k ≤ state.commitNumber → g'.decided.take k = g.decided.take k := by
    intro k within
    rw [← grown, List.take_append_of_le_length (within.trans reached)]
  have same : state.whole g'.decided = state.whole g.decided := by
    unfold PersistentState.whole
    rw [takes ok.start]
  refine ⟨ok.start, ok.known.mono le, same ▸ ok.within, ?_⟩
  rw [same, ok.agrees, takes le_rfl]

/-- What the write that is out makes of the disk. -/
def Owner.target (o : Owner SM) : Option (PersistentState (Input SM)) :=
  match o.out with
  | none => none
  | some (_, true) => some o.disk
  | some (write, false) => o.disk.apply write

/-- A crash that leaves `state` on disk would discard nothing that was drained. -/
def Node.Recoverable (n : Node SM) (state : PersistentState (Input SM)) : Prop :=
  ∃ b ∈ n.moments, b.Persisted state ∧ n.sent ⊆ b.said

/-- What holds of a copy of the state that is on disk or will be, where the
entries `Within` are those it may hold as memory does. -/
structure Copy (g : Ghost (Input SM)) (n : Node SM) (p : Peer (Input SM)) (Within : Nat → Prop)
    (state : PersistentState (Input SM)) : Prop where
  disk : state.recovering = false → g.DiskOk state (state.whole g.decided)
  start : state.logStart ≤ n.kept
  lags : state.recovering = false → n.Recoverable state → Lag g state.viewNumber Within p

structure NodeOk (R : Nat) (g : Ghost (Input SM)) (trail : TrailFor SM) (n : Node SM) : Prop where
  inv : Owner.Inv n.toOwner
  head : ∃ s older, trail = s :: older ∧ n.now.Is s ∧ Traces n.past older ∧
    (∀ envelope ∈ n.replica.queued, envelope ∈ s.said) ∧ NoncesOk R n.nonces s
  queued : n.replica.queued ⊆ n.said
  replies : n.replica.replies ⊆ n.replied
  sent : n.sent ⊆ n.said
  yielded : n.yielded ⊆ n.replied
  start : n.replica.logStart ≤ n.kept
  kept : n.kept ≤ n.replica.applied
  disk : Copy g n n.replica.peer (· ≤ n.replica.durable) n.disk
  target : ∀ state, n.target = some state → Copy g n n.replica.peer (fun _ => True) state

/-- What each replica has sent. -/
def sentOf (c : Cluster SM) (R : Nat) : Set (Envelope SM) := { envelope | envelope ∈ (c.nodes R).sent }

/-- What is committed is decided. -/
def CommitsOk (g : Ghost (Input SM)) (commits : List (Nat × Nat × EntryFor SM)) : Prop :=
  ∀ v opNumber entry, (v, opNumber, entry) ∈ commits →
    0 < opNumber ∧ g.Known v opNumber ∧ g.decided[opNumber - 1]? = some entry

structure ClusterOk (c : Cluster SM) (trails : Nat → TrailFor SM) (g : Ghost (Input SM)) : Prop where
  several : 3 ≤ c.size
  worlds : TrailsOk c.config (sentOf c) trails g
  nodes : ∀ R < c.size, NodeOk R g (trails R) (c.nodes R)
  commits : CommitsOk g c.commits

theorem NodeOk.traces {R : Nat} {g : Ghost (Input SM)} {trail : TrailFor SM} {n : Node SM}
    (ok : NodeOk R g trail n) : Traces n.moments trail := by
  obtain ⟨s, older, rfl, is, traces, _⟩ := ok.head
  exact .hit is traces

/-! ## More is decided -/

theorem Copy.mono {g g' : Ghost (Input SM)} (le : g.Le g') {n : Node SM} {p : Peer (Input SM)}
    {Within : Nat → Prop} {state : PersistentState (Input SM)} (copy : Copy g n p Within state) :
    Copy g' n p Within state where
  disk kept := (copy.disk kept).mono le
  start := copy.start
  lags kept recoverable := (copy.lags kept recoverable).mono le

theorem NodeOk.mono {g g' : Ghost (Input SM)} (le : g.Le g') {R : Nat} {trail : TrailFor SM}
    {n : Node SM} (ok : NodeOk R g trail n) : NodeOk R g' trail n :=
  { ok with
    disk := ok.disk.mono le
    target := fun state isTarget => (ok.target state isTarget).mono le }

theorem CommitsOk.mono {g g' : Ghost (Input SM)} (le : g.Le g')
    {commits : List (Nat × Nat × EntryFor SM)} (ok : CommitsOk g commits) : CommitsOk g' commits := by
  intro v opNumber entry mem
  obtain ⟨pos, known, found⟩ := ok v opNumber entry mem
  refine ⟨pos, known.mono le, ?_⟩
  obtain ⟨rest, grown⟩ := le.decided
  rw [← grown, List.getElem?_append_left (List.getElem?_eq_some_iff.mp found).1, found]

/-! ## Looking back -/

theorem Standing.length_whole {Op : Type} {decided : List (LogEntry Op)} {s : Standing Op}
    (within : s.logStart ≤ decided.length) : (s.whole decided).length = s.opNumber := by
  simp [Standing.whole, Standing.opNumber, within]

/-- What was compacted away on a trail is decided. -/
theorem TrailsOk.logStart_le {Op Query Chunk : Type} {config : Config}
    {sent : Nat → Set (Nat × Message Op Query Chunk)} {trails : Nat → Trail Op Query Chunk}
    {g : Ghost Op} (ok : TrailsOk config sent trails g) {R : Nat} (inside : R < config.replicas.length)
    (s : Speaker Op Query Chunk) (onTrail : s ∈ trails R) : s.peer.logStart ≤ g.decided.length := by
  have nonempty : Nonempty (Speaker Op Query Chunk) := ⟨s⟩
  obtain ⟨system, older, choice, isTrail⟩ := ok.newest
  obtain ⟨w, began, isDecided, _, _, history, _⟩ := ok.worlds system older choice
  rw [← isDecided]
  exact (history R inside).logStart_le s (isTrail R inside ▸ onTrail)

section Back
variable {config : Config} {sent : Nat → Set (Envelope SM)} {trails : Nat → TrailFor SM}
  {g : Ghost (Input SM)} {R : Nat} {n : Node SM}

/-- The live choice, but for `R`, which is taken back. -/
theorem TrailsOk.taken_back {Op Query Chunk : Type} {config : Config}
    {sent : Nat → Set (Nat × Message Op Query Chunk)} {trails : Nat → Trail Op Query Chunk}
    {g : Ghost Op} (ok : TrailsOk config sent trails g) {R : Nat} {s : Speaker Op Query Chunk}
    {rest : Trail Op Query Chunk} (isSuffix : (s :: rest) <:+ trails R)
    (said : ∀ envelope ∈ sent R, envelope.2.stamp ≠ none → envelope ∈ s.said) :
    ∃ system older, Choice config sent trails system older ∧ system R = s ∧ older R = rest ∧
      ∀ S < config.replicas.length, S ≠ R → trails S = system S :: older S := by
  have nonempty : Nonempty (Speaker Op Query Chunk) := ⟨s⟩
  obtain ⟨live, older, choice, isTrail⟩ := ok.newest
  refine ⟨Function.update live R s, Function.update older R rest, ⟨fun S inside => ?_,
    fun S inside envelope isSent stamped => ?_⟩, Function.update_self .., Function.update_self ..,
    fun S inside other => ?_⟩
  · rcases eq_or_ne S R with rfl | other
    · rw [Function.update_self, Function.update_self]
      exact isSuffix
    · rw [Function.update_of_ne other, Function.update_of_ne other]
      exact choice.onTrail S inside
  · rcases eq_or_ne S R with rfl | other
    · rw [Function.update_self]
      exact said envelope isSent stamped
    · rw [Function.update_of_ne other]
      exact choice.said S inside envelope isSent stamped
  · rw [Function.update_of_ne other, Function.update_of_ne other]
    exact isTrail S inside

/-- What a state the replica may be taken back to tells of it now. -/
theorem NodeOk.looking_back (ok : NodeOk R g (trails R) n) (trailsOk : TrailsOk config sent trails g)
    (inside : R < config.replicas.length) (isSent : sent R = { envelope | envelope ∈ n.sent })
    {state : PersistentState (Input SM)} (kept : state.recovering = false)
    (recoverable : n.Recoverable state) :
    n.replica.status ≠ .recovering ∧ state.viewNumber ≤ n.replica.viewNumber ∧
      ∀ receiver u opNumber,
        (receiver, .getState R u opNumber) ∈ netOf config sent → u ≤ state.viewNumber := by
  obtain ⟨b, isMoment, persisted, allSaid⟩ := recoverable
  obtain ⟨s, rest, isSuffix, is⟩ := ok.traces.mem isMoment
  obtain ⟨head, older, isTrail, isHead, _⟩ := ok.head
  have earlier := trailsOk.earlier_head inside isTrail isSuffix
  have isPeer : head.peer = n.replica.peer := isHead.peer
  rw [is.peer, isPeer] at earlier
  have view : state.viewNumber = b.replica.viewNumber := (congrArg (·.viewNumber) persisted).symm
  have awake : b.replica.status ≠ .recovering := by
    have : decide (b.replica.status = .recovering) = false :=
      (congrArg (·.recovering) persisted).trans kept
    simpa using this
  refine ⟨fun recovering => awake (earlier.awake recovering), view ▸ earlier.views,
    fun receiver u opNumber asked => ?_⟩
  obtain ⟨system, olders, choice, isSystem, _⟩ := trailsOk.taken_back isSuffix
    fun envelope mem stamped => by
      rw [isSent] at mem
      exact is.said envelope (allSaid mem) stamped
  obtain ⟨w, began, _, _, isOk, _⟩ := trailsOk.worlds system olders choice
  obtain ⟨S, insideS, mem⟩ := isOk.said _ asked (by simp [Message.stamp])
  have isAuthor : R = S := (isOk.speakers S insideS).said.authored _ mem R rfl
  subst isAuthor
  have := (isOk.speakers R inside).said.stamped _ mem u rfl
  rw [isSystem, is.peer] at this
  exact view ▸ this

end Back

end Vsr
