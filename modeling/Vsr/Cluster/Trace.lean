import Vsr.Cluster.Model
import Vsr.Protocol.Backing

/-!
# The moments of a node along a trail

The states a node remembers are states of the trail of its replica, in the same
order.  A call of the owner takes the trail further, and whatever holds along the
steps of the protocol holds of the state the call leads to.
-/

set_option autoImplicit false

namespace Vsr

variable {SM : Type} [StateMachine SM]

/-- The trail of a replica with state machine `SM`. -/
abbrev TrailFor (SM : Type) [StateMachine SM] := Trail (Input SM) (Query SM) (Chunk SM)

abbrev SpeakerFor (SM : Type) [StateMachine SM] := Speaker (Input SM) (Query SM) (Chunk SM)

/-- `s` is what the replica was at that moment. -/
structure Moment.Is (m : Moment SM) (s : SpeakerFor SM) : Prop where
  peer : s.peer = m.replica.peer
  said : ∀ envelope ∈ m.said, envelope.2.stamp ≠ none → envelope ∈ s.said

/-- The moments lie on the trail. -/
inductive Traces : List (Moment SM) → TrailFor SM → Prop
  | nil : Traces [] []
  | hit {m : Moment SM} {moments : List (Moment SM)} {s : SpeakerFor SM} {trail : TrailFor SM}
      (here : m.Is s) (rest : Traces moments trail) : Traces (m :: moments) (s :: trail)
  | skip {moments : List (Moment SM)} {s : SpeakerFor SM} {trail : TrailFor SM}
      (rest : Traces moments trail) : Traces moments (s :: trail)

namespace Traces

/-- A longer trail. -/
theorem further {moments : List (Moment SM)} {trail trail' : TrailFor SM}
    (traces : Traces moments trail) (isSuffix : trail <:+ trail') : Traces moments trail' := by
  obtain ⟨newer, rfl⟩ := isSuffix
  induction newer with
  | nil => exact traces
  | cons s newer ih => exact .skip ih

/-- The trail as it was at a moment. -/
theorem back {newer older : List (Moment SM)} {m : Moment SM} {trail : TrailFor SM}
    (traces : Traces (newer ++ m :: older) trail) :
    ∃ s rest, (s :: rest) <:+ trail ∧ m.Is s ∧ Traces (m :: older) (s :: rest) := by
  generalize isAll : newer ++ m :: older = moments at traces
  induction traces generalizing newer with
  | nil => simp at isAll
  | @hit first moments s trail here rest ih =>
      cases newer with
      | nil =>
          obtain ⟨rfl, rfl⟩ := List.cons.inj isAll
          exact ⟨s, trail, List.suffix_rfl, here, .hit here rest⟩
      | cons first newer =>
          obtain ⟨found, older', isSuffix, is, traces⟩ := ih (List.cons.inj isAll).2
          exact ⟨found, older', isSuffix.trans (List.suffix_cons _ _), is, traces⟩
  | @skip moments s trail rest ih =>
      obtain ⟨found, older', isSuffix, is, traces⟩ := ih isAll
      exact ⟨found, older', isSuffix.trans (List.suffix_cons _ _), is, traces⟩

theorem mem {moments : List (Moment SM)} {trail : TrailFor SM} (traces : Traces moments trail)
    {m : Moment SM} (isMoment : m ∈ moments) :
    ∃ s rest, (s :: rest) <:+ trail ∧ m.Is s := by
  obtain ⟨newer, older, rfl⟩ := List.append_of_mem isMoment
  obtain ⟨s, rest, isSuffix, is, _⟩ := traces.back
  exact ⟨s, rest, isSuffix, is⟩

end Traces

/-- `trail'` goes back to where `trail` does. -/
def SameRoot (trail trail' : TrailFor SM) : Prop :=
  ∀ first, [first] <:+ trail' → [first] <:+ trail

/-- A trail that goes on from a state of `trail`. -/
theorem SameRoot.of_suffix {trail trail' : TrailFor SM} {s : SpeakerFor SM} {rest : TrailFor SM}
    (onTrail : (s :: rest) <:+ trail) (longer : (s :: rest) <:+ trail') : SameRoot trail trail' := by
  intro first isFirst
  refine (List.suffix_of_suffix_length_le isFirst longer ?_).trans onTrail
  simp

/-! ## Trails that go on -/

section Trails
variable {Op Query Chunk : Type} {config : Config} {sent : Nat → Set (Nat × Message Op Query Chunk)}
  {trails : Nat → Trail Op Query Chunk} {g : Ghost Op}

/-- What was said stays said. -/
theorem Rooted.said_subset {sent : Set (Nat × Message Op Query Chunk)} {s s' : Speaker Op Query Chunk}
    {older older' : Trail Op Query Chunk} (rooted : Rooted sent (s' :: older'))
    (isSuffix : (s :: older) <:+ (s' :: older')) : s.said ⊆ s'.said := by
  induction older' generalizing s' with
  | nil =>
      rcases List.suffix_cons_iff.mp isSuffix with same | none
      · obtain ⟨rfl, _⟩ := List.cons.inj same
        exact fun _ mem => mem
      · cases List.suffix_nil.mp none
  | cons before rest ih =>
      rcases List.suffix_cons_iff.mp isSuffix with same | isSuffix
      · obtain ⟨rfl, _⟩ := List.cons.inj same
        exact fun _ mem => mem
      · exact (ih rooted.2 isSuffix).trans rooted.1.subset

/-- The pace of the writes is nothing to the protocol. -/
theorem TrailsOk.setWrites (ok : TrailsOk config sent trails g) {R : Nat}
    (inside : R < config.replicas.length) {s : Speaker Op Query Chunk} {older : Trail Op Query Chunk}
    (here : trails R = s :: older) (writes : WriteState) :
    TrailsOk config sent
      (Function.update trails R (⟨{ s.peer with toWriteState := writes }, s.said⟩ :: s :: older))
      g := by
  refine ok.push here (.same rfl rfl rfl le_rfl) (.inl rfl) ok.worlds
    fun system olders choice isHead isTail => ?_
  obtain ⟨w, began, isDecided, isMarks, isOk, history, floor, also⟩ := ok.worlds system olders choice
  have speaker := isOk.speaker inside isHead
  have paced : SpeakerOk config w began (netOf config sent) R
      ⟨{ s.peer with toWriteState := writes }, s.said⟩ :=
    ⟨speaker.config_eq, speaker.selfId_eq, speaker.log, speaker.view, speaker.acks, speaker.change,
      speaker.fetch, speaker.recovery, speaker.serving, speaker.said⟩
  have updated := isOk.update (.refl config R w) isOk.valid (by rw [isHead]) paced
  have := HasWorld.moved isDecided isMarks history floor also inside (.refl config R w) updated
    (fun recovering => by rw [isHead]; exact ⟨recovering, rfl⟩)
  rwa [isHead, isTail] at this

/-- A peer says all it has to say. -/
theorem steps_say {i : Inputs Op Query Chunk} {p : Peer Op} (said : Set (Nat × Message Op Query Chunk))
    (envelopes : List (Nat × Message Op Query Chunk))
    (truthful : ∀ envelope ∈ envelopes, Says i p envelope) :
    ∃ said', Steps i ⟨p, said⟩ ⟨p, said'⟩ ∧ ∀ envelope ∈ envelopes, envelope ∈ said' := by
  induction envelopes with
  | nil => exact ⟨said, .refl, by simp⟩
  | cons envelope rest ih =>
      obtain ⟨said', steps, all⟩ := ih fun other mem => truthful other (List.mem_cons_of_mem _ mem)
      refine ⟨insert envelope said', steps.tail (.say (s := ⟨p, said'⟩) envelope
        (truthful envelope List.mem_cons_self)), fun other mem => ?_⟩
      rcases List.mem_cons.mp mem with rfl | mem
      · exact Set.mem_insert _ _
      · exact Set.mem_insert_of_mem _ (all other mem)

/-! ## What steps keep -/

/-- The nonces a replica has used are among those it was given. -/
def NoncesOk (R : Nat) (nonces : List Nat) (s : Speaker Op Query Chunk) : Prop :=
  (s.peer.status = .recovering → s.peer.recoveryNonce ∈ nonces) ∧
    ∀ receiver nonce asked, (receiver, .recovery R nonce asked) ∈ s.said → nonce ∈ nonces

theorem NoncesOk.step {R : Nat} {nonces : List Nat} {i : Inputs Op Query Chunk}
    {s s' : Speaker Op Query Chunk} (ok : NoncesOk R nonces s) (step : Step i s s') :
    NoncesOk R nonces s' := by
  obtain ⟨current, said⟩ := ok
  cases step with
  | act does =>
      refine ⟨fun recovering => ?_, said⟩
      obtain ⟨before, same⟩ := does.asleep recovering
      exact same ▸ current before
  | say envelope truthful =>
      refine ⟨current, fun receiver nonce asked mem => ?_⟩
      rcases mem with rfl | mem
      · obtain ⟨recovering, _, isNonce, _⟩ := truthful
        exact isNonce ▸ current recovering
      · exact said receiver nonce asked mem

theorem moves_durable {p p' : Peer Op} (moves : Relation.ReflTransGen LogMove p p') :
    p'.durable = p.durable := by
  induction moves with
  | refl => rfl
  | tail _ move ih =>
      refine Eq.trans ?_ ih
      cases move with
      | stay log logStart writes => rw [writes]
      | _ => rfl

/-- `p'` lags no further than `p` did. -/
def KeepsLag (R : Nat) (net : Set (Nat × Message Op Query Chunk)) (g : Ghost Op) (p : Peer Op)
    (g' : Ghost Op) (p' : Peer Op) : Prop :=
  ∀ v (Within : Nat → Prop), p.status ≠ .recovering → v ≤ p.viewNumber →
    (∀ m ≤ p.durable, Within m) →
    (∀ receiver u opNumber, (receiver, .getState R u opNumber) ∈ net → u ≤ v) →
    Lag g v Within p →
    Lag g' v Within p' ∧ v ≤ p'.viewNumber ∧ p'.status ≠ .recovering ∧ p'.durable = p.durable

theorem KeepsLag.step {R : Nat} {g₀ g g' : Ghost Op} {p₀ : Peer Op}
    {s s' : Speaker Op Query Chunk} {offered : LogEntry Op → Prop} {holds : Nat → Nat → Prop}
    (keeps : KeepsLag R (netOf config sent) g₀ p₀ g s.peer) (le : g.Le g')
    (live : Live config sent g R s) (live' : Live config sent g' R s')
    (step : Step (hears (netOf config sent) R offered holds) s s') :
    KeepsLag R (netOf config sent) g₀ p₀ g' s'.peer := by
  intro v Within awake reached within unasked lag
  obtain ⟨lag, reached, awake, durable⟩ := keeps v Within awake reached within unasked lag
  cases step with
  | act does =>
      refine ⟨lag.act le live live' awake reached (by rwa [durable]) unasked does, ?_,
        fun recovering => awake (does.asleep recovering).1, (moves_durable does.moves).trans durable⟩
      obtain ⟨w, began, _, _, _, messages, _, speaker⟩ := live
      refine reached.trans (does.views fun u state answered status => ?_)
      refine (speaker.answered_ok messages ?_ answered).1
      rcases status with recovering | ⟨f, isFetch, resume⟩
      · exact recovering
      · exact (speaker.fetch.recovery f u state isFetch resume).1
  | say envelope truthful => exact ⟨lag.mono le, reached, awake, durable⟩

end Trails

end Vsr
