import Vsr.Cluster.Views

/-!
# Recovery

A replica that has lost its disk comes back with all that was committed before,
and with all it had acknowledged in the view it comes back in.
-/

set_option autoImplicit false

namespace Vsr

open Consensus (World)

variable {SM : Type} [StateMachine SM]

/-- Whether the log, with the checkpoint it starts after, holds the op. -/
def Replica.Has (r : Replica SM) (opNumber : Nat) (entry : EntryFor SM) : Prop :=
  opNumber ≤ r.logStart ∨ r.entry opNumber = some entry

namespace Node

theorem Loses.view {setting : Setting SM} {n n' : Node SM} {viewNumber : Nat}
    (loses : n.Loses setting viewNumber n') : n'.replica.viewNumber = viewNumber := by
  obtain ⟨allowed, machine, blank, view, nonce, fresh, run⟩ := loses
  rename_i r
  obtain ⟨_, isRecovered⟩ := Replica.recover_eq run
  have peer : r.peer =
      (Replica.forgetful n.replica.selfId n.replica.config machine viewNumber nonce).peer := by
    rw [isRecovered]
    exact congrArg Core.peer (Replica.sendRecovery_same _).core
  exact congrArg (·.viewNumber) peer

/-- What is sent stays sent. -/
theorem Step.sent {setting : Setting SM} {hears : MessageFor SM → Prop} {n n' : Node SM}
    (step : Step setting hears n n') : n.sent ⊆ n'.sent := by
  cases step with
  | drainBeforePersist | drain => exact List.subset_append_left _ _
  | _ => exact List.Subset.refl _

end Node

/-! ## What was acknowledged -/

section Run
variable {setting : Setting SM} {asks : MessageFor SM → Prop} {c c' : Cluster SM}

theorem Cluster.Runs.sent (runs : Cluster.Runs setting asks c c') (R : Nat) :
    (c.nodes R).sent ⊆ (c'.nodes R).sent := by
  induction runs with
  | refl => exact List.Subset.refl _
  | tail _ step ih =>
      cases step with
      | node S inside step =>
          rcases eq_or_ne R S with rfl | other
          · simp only [Cluster.update, Function.update_self]
            exact List.Subset.trans ih step.sent
          · simp only [Cluster.update, Function.update_of_ne other]
            exact ih

theorem Cluster.Runs.config (runs : Cluster.Runs setting asks c c') : c'.config = c.config := by
  induction runs with
  | refl => rfl
  | tail _ step ih =>
      cases step with
      | node => exact ih

/-- Whatever a replica had acknowledged before it last lost its disk is pinned. -/
theorem Cluster.Reach.pinned (orderly : setting.orderly) (reach : Cluster.Reach setting asks c) :
    ∃ g trails, g.Grounded ∧ ClusterOk c trails g ∧ ∀ R < c.size, Pinned R g (trails R) := by
  induction reach with
  | @start c starts =>
      obtain ⟨grounded, trails, ok⟩ := Tracked.start starts
      refine ⟨_, trails, grounded, ok, fun R inside first isFirst receiver v opNumber mem => ?_⟩
      obtain ⟨machine, r, _, _, isNode⟩ := starts.nodes R inside
      have isSent := ((ok.worlds.rooted R inside).suffix isFirst).1 _ mem (by simp [Message.stamp])
      rw [sentOf, isNode] at isSent
      cases isSent
  | @step c c' before step ih =>
      obtain ⟨g, trails, grounded, ok, pinned⟩ := ih
      cases step with
      | node R inside step =>
          obtain ⟨g', trail', goes⟩ := ok.next orderly grounded inside step
          refine ⟨g', _, goes.grounded, ok.goes inside goes, fun S insideS => ?_⟩
          rcases eq_or_ne S R with rfl | other
          · rw [Function.update_self]
            exact goes.pinned (pinned S inside)
          · rw [Function.update_of_ne other]
            exact (pinned S insideS).mono goes.onward fun _ => id

/-- A replica holds the entry where its log, continued back to the first op, does. -/
theorem Replica.has_of_whole {r : Replica SM} {decided : List (EntryFor SM)}
    (start : r.logStart ≤ decided.length) {opNumber : Nat} {entry : EntryFor SM}
    (found : (r.peer.whole decided)[opNumber - 1]? = some entry) : r.Has opNumber entry := by
  by_cases later : r.logStart < opNumber
  · right
    rw [Standing.entry_whole start later]
    exact found
  · exact .inl (by omega)

/-- What the cluster has pinned or a trail has held, a log of the view begins with. -/
theorem Recalled.held {g : Ghost (Input SM)} {trail : TrailFor SM} {v : Nat}
    {L : List (EntryFor SM)} (recalled : Recalled g trail v L) {config : Config} {R : Nat}
    {w : LogWorld (Input SM)} (isDecided : w.decided = g.decided) (also : g.Also w)
    (history : HistoryOk config w R trail) : HeldIn w v L := by
  rcases recalled with pins | ⟨before, isBefore, inView, rfl, rfl⟩
  · exact pins w also
  · rw [← isDecided]
    exact (history.held before isBefore inView).1

/-- A replica that has caught up holds what was decided. -/
theorem ClusterOk.has_decided {trails : Nat → TrailFor SM} {g : Ghost (Input SM)}
    (ok : ClusterOk c trails g) {R : Nat} (inside : R < c.size)
    (inView : (c.nodes R).replica.peer.inView) {marks : Set (Nat × Nat)} (more : marks ⊆ g.marks)
    (caught : Caught marks (c.nodes R).replica.peer.toStanding) {y m opNumber : Nat}
    (mark : (y, m) ∈ marks) (pos : 0 < opNumber) (within : opNumber ≤ m) {entry : EntryFor SM}
    (isEntry : g.decided[opNumber - 1]? = some entry) : (c.nodes R).replica.Has opNumber entry := by
  obtain ⟨w, picture⟩ := ok.picture
  have start := picture.start R inside (c.nodes R).now List.mem_cons_self
  have chosen := (picture.valid.marked y m (picture.isMarks ▸ more mark)).2.take opNumber
  rw [List.take_take, Nat.min_eq_left within] at chosen
  obtain ⟨b, isBase, begins, held⟩ := picture.held R inside (c.nodes R).now List.mem_cons_self inView
  obtain ⟨before, here⟩ := caught y m mark (pos.trans_le within)
  have holds : w.decided.take opNumber <+: (c.nodes R).replica.peer.whole w.decided := by
    rcases before.lt_or_eq with earlier | rfl
    · have complete := picture.valid.complete _ b isBase
      exact (chosen.prefix_of_complete complete earlier).trans begins
    · refine List.prefix_of_prefix_length_le chosen.1 held ?_
      have long := (here rfl).2
      have length : ((c.nodes R).replica.peer.whole w.decided).length =
          (c.nodes R).replica.peer.opNumber := Standing.length_whole start
      exact (List.length_take_le _ _).trans (within.trans (long.trans length.ge))
  refine Replica.has_of_whole start ?_
  refine getElem?_of_prefix holds ?_
  rw [List.getElem?_take_of_lt (by omega), picture.isDecided, isEntry]

/-- A replica that reaches as far as it has acknowledged holds what was recalled. -/
theorem ClusterOk.has_recalled {trails trails' : Nat → TrailFor SM} {g g' : Ghost (Input SM)}
    (ok : ClusterOk c trails g) (ok' : ClusterOk c' trails' g') {R S : Nat} (inside : R < c.size)
    (insideS : S < c.size) (inside' : R < c'.size) (inView : (c'.nodes R).replica.peer.inView)
    {L : List (EntryFor SM)} (recalled : Recalled g (trails R) (c'.nodes R).replica.viewNumber L)
    (pins : g'.Pins (c'.nodes R).replica.viewNumber L) {m : Moment SM}
    (mem : m ∈ (c.nodes S).moments) (inView' : m.replica.peer.inView)
    (sameView : m.replica.viewNumber = (c'.nodes R).replica.viewNumber) {k : Nat}
    (within : k ≤ L.length) (reaches : k ≤ (c'.nodes R).replica.opNumber) {entry : EntryFor SM}
    (found : m.replica.entry k = some entry) : (c'.nodes R).replica.Has k entry := by
  obtain ⟨w, picture⟩ := ok.picture
  obtain ⟨w', picture'⟩ := ok'.picture
  -- In the view's log as it was, `L` has the entry, and in the log as it is now.
  obtain ⟨_, _, _, held⟩ := picture.held S insideS m mem inView'
  obtain ⟨_, _, _, begins⟩ := recalled.held picture.isDecided picture.also
    (picture.history R inside)
  rw [sameView] at held
  obtain ⟨pos, isEntry⟩ := whole_getElem? (picture.start S insideS m mem) found
  have inL : L[k - 1]? = some entry := by
    have inLed := getElem?_of_prefix held isEntry
    obtain ⟨rest, grown⟩ := begins
    rw [← grown, List.getElem?_append_left (by omega)] at inLed
    exact inLed
  obtain ⟨_, _, _, begins'⟩ := pins w' picture'.also
  have start := picture'.start R inside' (c'.nodes R).now List.mem_cons_self
  obtain ⟨_, _, _, held'⟩ := picture'.held R inside' (c'.nodes R).now List.mem_cons_self inView
  have length : ((c'.nodes R).replica.peer.whole w'.decided).length =
      (c'.nodes R).replica.opNumber := Standing.length_whole start
  have holds : L.take k <+: (c'.nodes R).replica.peer.whole w'.decided := by
    refine List.prefix_of_prefix_length_le ((List.take_prefix _ _).trans begins') held' ?_
    exact (List.length_take_le _ _).trans (reaches.trans length.ge)
  refine Replica.has_of_whole start ?_
  refine getElem?_of_prefix holds ?_
  rw [List.getElem?_take_of_lt (by omega), inL]

/-- When a replica that had lost its disk becomes normal again, its view is one it
may be in, and it holds whatever was committed when the disk was lost, and
whatever anyone held in that view as far as it had acknowledged it. -/
theorem Cluster.recovers (orderly : setting.orderly) (reach : Cluster.Reach setting asks c) {R : Nat}
    (inside : R < c.size) {viewNumber : Nat} {lost : Node SM}
    (loses : (c.nodes R).Loses setting viewNumber lost)
    (runs : Cluster.Runs setting asks (c.update R lost) c') {back : Node SM}
    (step : Node.Step setting (c'.hears asks R) (c'.nodes R) back)
    (asleep : (c'.nodes R).replica.status = .recovering) (awake : back.replica.status = .normal) :
    (lost.now ∈ back.moments → viewNumber ≤ back.replica.viewNumber) ∧
      (∀ opNumber entry, c.Committed opNumber entry → back.replica.Has opNumber entry) ∧
      ∀ receiver opNumber,
        (receiver, .prepareOk back.replica.viewNumber opNumber R) ∈ (c.nodes R).sent →
          opNumber ≤ back.replica.opNumber ∧
            ∀ S < c.size, ∀ m ∈ (c.nodes S).moments, m.replica.peer.inView →
              m.replica.viewNumber = back.replica.viewNumber → ∀ k ≤ opNumber, ∀ entry,
                m.replica.entry k = some entry → back.replica.Has k entry := by
  obtain ⟨g, trails, grounded, ok, pinned⟩ := reach.pinned orderly
  have isLost := loses
  obtain ⟨allowed, machine, blank, view, nonce, fresh, run⟩ := loses
  rename_i r
  -- What was decided and what was acknowledged when the disk was lost.
  obtain ⟨g₁, trail₁, goes₁, floor, pins⟩ : ∃ g₁ trail₁,
      Goes c.config (sentOf c) trails (fun _ _ => True) g R (c.nodes R) _ g₁ trail₁ ∧ _ ∧ _ :=
    (ok.nodes R inside).loses ok.worlds grounded inside rfl view fresh run
  have tracked₁ : Tracked (c.update R ((c.nodes R).startOver r nonce)) g₁ :=
    ⟨goes₁.grounded, _, ok.goes inside goes₁⟩
  obtain ⟨g₂, onward, grounded₂, trails₂, ok₂⟩ := tracked₁.runs orderly runs
  have sameConfig : c'.config = c.config := runs.config
  have inside' : R < c'.size := by
    unfold Cluster.size
    rw [sameConfig]
    exact inside
  obtain ⟨g₃, trail₃, goes₃⟩ := ok₂.next orderly grounded₂ inside' step
  have ok₃ := ok₂.goes inside' goes₃
  have isNode : (c'.update R back).nodes R = back := Function.update_self ..
  have onward₃ := onward.trans goes₃.onward
  have inView : back.replica.peer.inView := .inl awake
  have caught : Caught (g₃.floor R).2 back.replica.peer.toStanding :=
    goes₃.backed.caught asleep fun recovering => by cases recovering.symm.trans awake
  rw [← isNode] at inView caught
  refine ⟨fun remembered => ?_, fun opNumber entry committed => ?_,
    fun receiver opNumber acked => ?_⟩
  · have after : Cluster.Reach setting asks (c'.update R back) := by
      have begun : Cluster.Step setting asks c _ := .node R inside isLost.step
      exact .step ((Cluster.Reach.step reach begun).runs runs) (.node R inside' step)
    obtain ⟨newer, older, split⟩ := List.append_of_mem remembered
    have onTrail : ((c.nodes R).startOver r nonce).now :: older <:+ back.moments :=
      split ▸ List.suffix_append _ _
    have earlier := after.earlier_of_suffix orderly inside'
      (isNode.symm ▸ List.suffix_rfl : (back.now :: back.past) <:+ _) onTrail
    exact isLost.view.ge.trans earlier.views
  · have tracked : Tracked c g := ⟨grounded, trails, ok⟩
    obtain ⟨pos, isEntry⟩ := tracked.committed committed
    obtain ⟨y, m, mark, within⟩ := ok.marked pos committed
    have isFloor : (y, m) ∈ (g₃.floor R).2 := by
      apply (onward₃.floor R).2
      rw [floor]
      exact mark
    have decided := getElem?_of_prefix (goes₁.onward.trans onward₃).le.decided isEntry
    have has := ok₃.has_decided inside' inView (goes₃.grounded R).2 caught isFloor pos within decided
    rwa [isNode] at has
  · obtain ⟨w, picture⟩ := ok₃.picture
    have now : (c'.nodes R).sent ⊆ back.sent := step.sent
    have isSent : (receiver, .prepareOk back.replica.viewNumber opNumber R) ∈
        netOf (c'.update R back).config (sentOf (c'.update R back)) := by
      refine ⟨R, inside', ?_⟩
      rw [sentOf, isNode]
      apply now
      apply runs.sent R
      simpa [Cluster.update, Node.startOver] using acked
    have reaches : opNumber ≤ back.replica.opNumber := by
      have voted := picture.acked receiver back.replica.viewNumber opNumber R isSent
      obtain ⟨began, current⟩ := picture.now
      obtain ⟨said, speaker⟩ := current R inside'
      have length := (speaker.view.member inView).2
      rw [speaker.log.length_whole] at length
      rw [isNode] at length
      exact voted.trans length.le
    refine ⟨reaches, fun S insideS m mem inView' sameView k within entry found => ?_⟩
    obtain ⟨L, long, pinned₁, recalled⟩ := pins (pinned R inside) receiver _ opNumber acked
    have isView : back.replica.viewNumber = ((c'.update R back).nodes R).replica.viewNumber := by
      rw [isNode]
    rw [isView] at recalled pinned₁ sameView
    have pinned₃ : g₃.Pins ((c'.update R back).nodes R).replica.viewNumber L :=
      fun w also => pinned₁ w (onward₃.also w also)
    have has := ok.has_recalled ok₃ inside insideS inside' inView recalled pinned₃ mem inView'
      sameView (within.trans long) (isNode.symm ▸ within.trans reaches) found
    rwa [isNode] at has

end Run

namespace Accumulator

/-- Replica 1, whose disk is lost, asks the others, and replica 2 answers. -/
def asksBack : List (Event Accumulator) :=
  Event.persist 1 ++ [.deliver 1 1, .deliver 1 2] ++ Event.persist 0 ++ Event.persist 2 ++
    [.deliver 2 0]

/-- Replica 1 acknowledges the registration, which commits, loses its disk, and has
it again from the primary. -/
theorem recovers_registers : ∃ (c : Cluster Accumulator) (back : Node Accumulator),
    c.Committed 1 (.register 7) ∧ (0, .prepareOk 0 1 1) ∈ (c.nodes 1).sent ∧
      back.replica.Has 1 (.register 7) ∧ 1 ≤ back.replica.opNumber := by
  have evaluated : ((three.play (spares true true) registers).bind fun c =>
      ((c.nodes 1).loses (spares true true) 0 9).bind fun lost =>
      ((c.update 1 lost).play (spares true true) asksBack).bind fun c' =>
      (c'.nodes 0).sent[2]?.bind fun envelope =>
      ((c'.nodes 1).hear envelope.2).map fun back =>
        decide (envelope.1 = 1 ∧ c.size = 3 ∧ c'.size = 3 ∧ clientAt c 0 1 = some 7 ∧
          (0, .prepareOk 0 1 1) ∈ (c.nodes 1).sent ∧
          (c'.nodes 1).replica.status = .recovering ∧ back.replica.status = .normal ∧
          back.replica.viewNumber = 0)) = some true := by
    decide +kernel
  obtain ⟨c, run, rest⟩ := Option.bind_eq_some_iff.mp evaluated
  obtain ⟨lost, losing, rest⟩ := Option.bind_eq_some_iff.mp rest
  obtain ⟨c', run', rest⟩ := Option.bind_eq_some_iff.mp rest
  obtain ⟨⟨receiver, message⟩, isSent, rest⟩ := Option.bind_eq_some_iff.mp rest
  obtain ⟨back, hearing, holds⟩ := Option.map_eq_some_iff.mp rest
  obtain ⟨isReceiver, size, size', isClient, acked, asleep, awake, view⟩ := of_decide_eq_true holds
  have fit := spares_fit true true
  have inside : 1 < c.size := by omega
  have heard : c'.hears (fun _ => True) 1 message := by
    refine .inl ⟨0, by omega, List.mem_of_getElem? (i := 2) ?_⟩
    rw [isSent, ← isReceiver]
  have committed := clientAt_committed isClient
  obtain ⟨_, has, recalls⟩ := Cluster.recovers rfl
    ((three_reach true true).runs (Cluster.play_runs fit run)) inside
    (Node.loses_sound fit losing) (Cluster.play_runs fit run') (Node.hear_step heard hearing) asleep
    awake
  rw [view] at recalls
  exact ⟨c, back, committed, acked, has 1 _ committed, (recalls 0 1 acked).1⟩

end Accumulator

end Vsr
