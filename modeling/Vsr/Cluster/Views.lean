import Vsr.Cluster.Agreement
import Vsr.Cluster.Memory

/-!
# Views and their logs

What a replica holds in a view that has started is a log of that view: it holds
all that views before it decide, and agrees with every other log of the view.
-/

set_option autoImplicit false

namespace Vsr

open Consensus (World)

variable {SM : Type} [StateMachine SM]

/-! ## The world of a cluster -/

/-- A world in which every replica is what it is now, and was what it remembers. -/
structure Picture (c : Cluster SM) (trails : Nat → TrailFor SM) (g : Ghost (Input SM))
    (w : LogWorld (Input SM)) : Prop where
  isDecided : w.decided = g.decided
  isMarks : w.marks = g.marks
  valid : w.Valid c.config.quorums
  now : ∃ began, ∀ R < c.size, ∃ said : Set (Envelope SM),
    SpeakerOk c.config w began (netOf c.config (sentOf c)) R ⟨(c.nodes R).replica.peer, said⟩
  start : ∀ R < c.size, ∀ m ∈ (c.nodes R).moments, m.replica.logStart ≤ w.decided.length
  held : ∀ R < c.size, ∀ m ∈ (c.nodes R).moments, m.replica.peer.inView →
    HeldIn w m.replica.viewNumber (m.replica.peer.whole w.decided)
  history : ∀ R < c.size, HistoryOk c.config w R (trails R)
  acked : ∀ receiver v opNumber S, (receiver, .prepareOk v opNumber S) ∈ netOf c.config (sentOf c) →
    opNumber ≤ w.votes S v
  also : g.Also w

theorem ClusterOk.picture {c : Cluster SM} {trails : Nat → TrailFor SM} {g : Ghost (Input SM)}
    (ok : ClusterOk c trails g) : ∃ w, Picture c trails g w := by
  have nonempty : Nonempty (SpeakerFor SM) := by
    have several := ok.several
    obtain ⟨s, _⟩ := (ok.nodes 0 (by omega)).head
    exact ⟨s⟩
  obtain ⟨system, older, choice, isTrail⟩ := ok.worlds.newest
  obtain ⟨w, began, isDecided, isMarks, isOk, history, _, also⟩ :=
    ok.worlds.worlds system older choice
  have recalled : ∀ R < c.size, ∀ m ∈ (c.nodes R).moments, ∃ s ∈ system R :: older R,
      s.peer = m.replica.peer := by
    intro R inside m mem
    obtain ⟨s, rest, isSuffix, is⟩ := (ok.nodes R inside).traces.mem mem
    rw [isTrail R inside] at isSuffix
    exact ⟨s, isSuffix.subset List.mem_cons_self, is.peer⟩
  refine ⟨w, isDecided, isMarks, isOk.valid, ⟨began, fun R inside => ⟨(system R).said, ?_⟩⟩,
    fun R inside m mem => ?_, fun R inside m mem inView => ?_,
    fun R inside => isTrail R inside ▸ history R inside,
    fun receiver v opNumber S isSent => (isOk.message isSent).2, also⟩
  · obtain ⟨s, rest, isHead, is, _⟩ := (ok.nodes R inside).head
    have same : system R = s := (List.cons.inj ((isTrail R inside).symm.trans isHead)).1
    have isPeer : s.peer = (c.nodes R).replica.peer := is.peer
    have speaker := isOk.speakers R inside
    rw [← isPeer, ← same]
    exact speaker
  · obtain ⟨s, onTrail, isPeer⟩ := recalled R inside m mem
    have := (history R inside).logStart_le s onTrail
    rwa [isPeer] at this
  · obtain ⟨s, onTrail, isPeer⟩ := recalled R inside m mem
    have := (history R inside).held s onTrail
    rw [isPeer] at this
    exact (this inView).1

/-! ## Reading logs -/

theorem Standing.entry_whole {Op : Type} {decided : List (LogEntry Op)} {s : Standing Op}
    (within : s.logStart ≤ decided.length) {opNumber : Nat} (later : s.logStart < opNumber) :
    s.entry opNumber = (s.whole decided)[opNumber - 1]? := by
  have length : (decided.take s.logStart).length = s.logStart := by simp [within]
  unfold Standing.entry Standing.whole
  rw [checkedSub_of_le later, List.getElem?_append_right (by omega), length]
  show s.log[opNumber - (s.logStart + 1)]? = _
  congr 1
  omega

/-- Two logs that begin as a third does hold the same entries. -/
theorem entry_unique {Op : Type} {L decided : List (LogEntry Op)} {s s' : Standing Op}
    (within : s.logStart ≤ decided.length) (within' : s'.logStart ≤ decided.length)
    (held : s.whole decided <+: L) (held' : s'.whole decided <+: L) {opNumber : Nat}
    {entry entry' : LogEntry Op} (found : s.entry opNumber = some entry)
    (found' : s'.entry opNumber = some entry') : entry = entry' := by
  obtain ⟨_, isEntry⟩ := whole_getElem? within found
  obtain ⟨_, isEntry'⟩ := whole_getElem? within' found'
  have inLed := getElem?_of_prefix held isEntry
  have inLed' := getElem?_of_prefix held' isEntry'
  exact Option.some.inj (inLed.symm.trans inLed')

/-! ## What a view starts with -/

section Run
variable {setting : Setting SM} {asks : MessageFor SM → Prop} {c : Cluster SM}
  (orderly : setting.orderly) (reach : Cluster.Reach setting asks c)
include orderly reach

theorem Cluster.Reach.picture : ∃ g trails w, ClusterOk c trails g ∧ Picture c trails g w := by
  obtain ⟨g, tracked⟩ := reach.tracked orderly
  obtain ⟨trails, ok⟩ := tracked.trails
  obtain ⟨w, picture⟩ := ok.picture
  exact ⟨g, trails, w, ok, picture⟩

/-- In a view that has started, a replica holds what the primaries of earlier
views commit, be it before or after. -/
theorem Cluster.view_complete {R : Nat} (inside : R < c.size) {m : Moment SM}
    (mem : m ∈ (c.nodes R).moments)
    (inView : m.replica.status = .normal ∨ m.replica.status = .stateTransfer)
    {u opNumber : Nat} {entry : EntryFor SM} (committed : (u, opNumber, entry) ∈ c.commits)
    (earlier : u < m.replica.viewNumber) (later : m.replica.logStart < opNumber) :
    m.replica.entry opNumber = some entry := by
  obtain ⟨g, trails, w, ok, picture⟩ := reach.picture orderly
  obtain ⟨pos, known, isDecided⟩ := ok.commits u opNumber entry committed
  rw [← picture.isDecided] at isDecided
  obtain ⟨y, before, chosen⟩ :=
    picture.valid.knownBy_chosen ((Ghost.known_iff picture.isMarks).mpr known) pos
  obtain ⟨b, isBase, holds, _⟩ := picture.held R inside m mem inView
  have complete := picture.valid.complete _ b isBase
  have start := chosen.prefix_of_complete complete (before.trans_lt earlier)
  have isTaken : (w.decided.take opNumber)[opNumber - 1]? = some entry := by
    rw [List.getElem?_take_of_lt (by omega), isDecided]
  rw [Standing.entry_whole (picture.start R inside m mem) later]
  exact getElem?_of_prefix (start.trans holds) isTaken

/-! ## The logs of a view -/

/-- Whatever two replicas held in the same view, at whatever times, agrees. -/
theorem Cluster.log_matching {R S : Nat} (insideR : R < c.size) (insideS : S < c.size)
    {m m' : Moment SM} (mem : m ∈ (c.nodes R).moments) (mem' : m' ∈ (c.nodes S).moments)
    (inView : m.replica.status = .normal ∨ m.replica.status = .stateTransfer)
    (inView' : m'.replica.status = .normal ∨ m'.replica.status = .stateTransfer)
    (same : m.replica.viewNumber = m'.replica.viewNumber) {opNumber : Nat}
    {entry entry' : EntryFor SM} (found : m.replica.entry opNumber = some entry)
    (found' : m'.replica.entry opNumber = some entry') : entry = entry' := by
  obtain ⟨g, trails, w, ok, picture⟩ := reach.picture orderly
  obtain ⟨_, _, _, held⟩ := picture.held R insideR m mem inView
  obtain ⟨_, _, _, held'⟩ := picture.held S insideS m' mem' inView'
  rw [← same] at held'
  exact entry_unique (picture.start R insideR m mem) (picture.start S insideS m' mem') held held'
    found found'

/-- No log of a view reaches past that of its primary. -/
theorem Cluster.within_primary {R S : Nat} (insideR : R < c.size) (insideS : S < c.size)
    (inView : (c.nodes R).replica.status = .normal ∨ (c.nodes R).replica.status = .stateTransfer)
    (leads : (c.nodes S).replica.status = .normal) (primary : (c.nodes S).replica.isPrimary)
    (same : (c.nodes R).replica.viewNumber = (c.nodes S).replica.viewNumber) :
    (c.nodes R).replica.opNumber ≤ (c.nodes S).replica.opNumber := by
  obtain ⟨g, trails, w, ok, picture⟩ := reach.picture orderly
  obtain ⟨began, now⟩ := picture.now
  obtain ⟨saidR, speakerR⟩ := now R insideR
  obtain ⟨saidS, speakerS⟩ := now S insideS
  have isPrimary := speakerS.isPrimary_iff.mp primary
  have whole : (c.nodes S).replica.peer.whole w.decided = w.led _ :=
    speakerS.view.leads leads isPrimary
  obtain ⟨_, _, _, held⟩ := (speakerR.view.member inView).1
  have isView : (c.nodes R).replica.peer.viewNumber = (c.nodes S).replica.peer.viewNumber := same
  have longer := held.length_le
  dsimp only at longer
  rw [isView, ← whole, speakerR.log.length_whole, speakerS.log.length_whole] at longer
  exact longer

end Run

namespace Accumulator

/-- Replicas 1 and 2 are in view 1, with what was committed in view 0. -/
theorem views_reached : ∃ c : Cluster Accumulator,
    Cluster.Reach (setting true false) (fun _ => True) c ∧ c.size = 3 ∧
      (0, 1, LogEntry.register 7) ∈ c.commits ∧
      ((c.nodes 1).replica.status = .normal ∧ (c.nodes 1).replica.viewNumber = 1 ∧
        (c.nodes 1).replica.logStart = 0 ∧ (c.nodes 1).replica.isPrimary) ∧
      ((c.nodes 2).replica.status = .normal ∧ (c.nodes 2).replica.viewNumber = 1 ∧
        (c.nodes 2).replica.entry 1 = some (.register 7)) := by
  have evaluated : ((three.play (spares true false) (registers ++ changesView ++ follows)).map
      fun c => decide (c.size = 3 ∧ (0, 1, LogEntry.register 7) ∈ c.commits ∧
        ((c.nodes 1).replica.status = .normal ∧ (c.nodes 1).replica.viewNumber = 1 ∧
          (c.nodes 1).replica.logStart = 0 ∧ (c.nodes 1).replica.isPrimary) ∧
        ((c.nodes 2).replica.status = .normal ∧ (c.nodes 2).replica.viewNumber = 1 ∧
          (c.nodes 2).replica.entry 1 = some (.register 7)))) = some true := by
    decide +kernel
  obtain ⟨c, run, holds⟩ := Option.map_eq_some_iff.mp evaluated
  exact ⟨c, (three_reach true false).runs (Cluster.play_runs (spares_fit true false) run),
    of_decide_eq_true holds⟩

theorem view_complete_views : ∃ c : Cluster Accumulator,
    (c.nodes 1).replica.viewNumber = 1 ∧ (c.nodes 1).replica.entry 1 = some (.register 7) := by
  obtain ⟨c, reach, size, committed, ⟨status, view, start, _⟩, _⟩ := views_reached
  have inside : 1 < c.size := by omega
  have earlier : 0 < (c.nodes 1).now.replica.viewNumber := by
    show 0 < (c.nodes 1).replica.viewNumber
    omega
  have later : (c.nodes 1).now.replica.logStart < 1 := by
    show (c.nodes 1).replica.logStart < 1
    omega
  exact ⟨c, view, Cluster.view_complete rfl reach inside List.mem_cons_self (.inl status) committed
    earlier later⟩

theorem log_matching_views : ∃ c : Cluster Accumulator,
    (c.nodes 2).replica.entry 1 = some (.register 7) ∧
      ∀ entry, (c.nodes 1).replica.entry 1 = some entry → entry = .register 7 := by
  obtain ⟨c, reach, size, _, ⟨status, view, _⟩, status', view', found'⟩ := views_reached
  have inside : 1 < c.size := by omega
  have inside' : 2 < c.size := by omega
  refine ⟨c, found', fun entry found => ?_⟩
  have isNow : (c.nodes 1).now ∈ (c.nodes 1).moments := List.mem_cons_self
  have isNow' : (c.nodes 2).now ∈ (c.nodes 2).moments := List.mem_cons_self
  exact Cluster.log_matching rfl reach inside inside' isNow isNow' (.inl status) (.inl status')
    (view.trans view'.symm) found found'

theorem within_primary_views : ∃ c : Cluster Accumulator,
    (c.nodes 2).replica.opNumber ≤ (c.nodes 1).replica.opNumber := by
  obtain ⟨c, reach, size, _, ⟨status, view, _, primary⟩, status', view', _⟩ := views_reached
  have inside : 1 < c.size := by omega
  have inside' : 2 < c.size := by omega
  exact ⟨c, Cluster.within_primary rfl reach inside' inside (.inl status') status primary
    (view'.trans view.symm)⟩

end Accumulator

/-! ## Growth -/

section Grows
variable {setting : Setting SM} {asks : MessageFor SM → Prop} {c : Cluster SM}
  (orderly : setting.orderly) (reach : Cluster.Reach setting asks c)
include orderly reach

/-- While a replica is in a view that has started its log only grows, but for the
entries it compacts. -/
theorem Cluster.log_grows {R : Nat} (inside : R < c.size) :
    (c.nodes R).moments.Pairwise fun newer older =>
      (older.replica.status = .normal ∨ older.replica.status = .stateTransfer) →
      (newer.replica.status = .normal ∨ newer.replica.status = .stateTransfer) →
      newer.replica.viewNumber = older.replica.viewNumber →
      older.replica.opNumber ≤ newer.replica.opNumber ∧
        ∀ opNumber entry, older.replica.entry opNumber = some entry →
          newer.replica.logStart < opNumber → newer.replica.entry opNumber = some entry := by
  obtain ⟨g, trails, w, ok, picture⟩ := reach.picture orderly
  have current := Cluster.Reach.ever (P := fun _ m =>
    m.replica.status = .normal ∨ m.replica.status = .stateTransfer →
      m.replica.lastNormalView = m.replica.viewNumber)
    (fun before S insideS => (before.ordered orderly insideS).current) reach inside
  refine (reach.earlier orderly inside).imp_of_mem ?_
  intro newer older isNewer isOlder earlier inOlder inNewer same
  have awake : older.replica.status ≠ .recovering := by
    rcases inOlder with status | status <;> simp [status]
  obtain ⟨_, longer⟩ := earlier.grows awake (current older isOlder inOlder) same
  refine ⟨longer, fun opNumber entry found later => ?_⟩
  have start := picture.start R inside older isOlder
  have start' := picture.start R inside newer isNewer
  obtain ⟨_, _, _, held⟩ := picture.held R inside older isOlder inOlder
  obtain ⟨_, _, _, held'⟩ := picture.held R inside newer isNewer inNewer
  rw [same] at held'
  have isPrefix : older.replica.peer.whole w.decided <+: newer.replica.peer.whole w.decided := by
    refine List.prefix_of_prefix_length_le held held' ?_
    exact (Standing.length_whole start).le.trans (longer.trans (Standing.length_whole start').ge)
  obtain ⟨_, isEntry⟩ := whole_getElem? start found
  rw [Standing.entry_whole start' later]
  exact getElem?_of_prefix isPrefix isEntry

end Grows

namespace Accumulator

theorem log_grows_views : ∃ c : Cluster Accumulator, (c.nodes 2).replica.viewNumber = 1 ∧
    (c.nodes 2).moments.Pairwise fun newer older =>
      (older.replica.status = .normal ∨ older.replica.status = .stateTransfer) →
      (newer.replica.status = .normal ∨ newer.replica.status = .stateTransfer) →
      newer.replica.viewNumber = older.replica.viewNumber →
      older.replica.opNumber ≤ newer.replica.opNumber ∧
        ∀ opNumber entry, older.replica.entry opNumber = some entry →
          newer.replica.logStart < opNumber → newer.replica.entry opNumber = some entry := by
  obtain ⟨c, reach, size, _, _, _, view, _⟩ := views_reached
  have inside : 2 < c.size := by omega
  exact ⟨c, view, Cluster.log_grows rfl reach inside⟩

end Accumulator

end Vsr
