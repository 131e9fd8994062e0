import Vsr.Protocol.LogMoves

/-!
# The mark the next write goes by

`Tracks disk p`: the persisted copy `disk` holds what `p` holds, up to the first
entry marked as changed.  Every change to the log keeps it.
-/

set_option autoImplicit false

namespace Vsr

open Relation (ReflTransGen)

variable {Op : Type}

/-- The log starts within what is executed, which is committed. -/
structure Peer.Ordered (p : Peer Op) : Prop where
  start : p.logStart ≤ p.applied
  applied : p.applied ≤ p.commitNumber

/-- How many of its entries a peer holds as it did at the last write, when the
log has changed from op number `changed` on. -/
def Peer.unchanged (p : Peer Op) (changed : Nat) : Nat := changed - 1 - p.logStart

/-- The copy `disk` holds the log of `p` as far as it has not changed since the
last write, and what the write recorded besides. -/
structure Tracks (disk : PersistentState Op) (p : Peer Op) : Prop where
  start : disk.logStart ≤ p.logStart
  same : p.logChangedFrom = none → disk.log.drop (p.logStart - disk.logStart) = p.log
  marked : ∀ changed, p.logChangedFrom = some changed → 1 ≤ changed ∧
    p.unchanged changed ≤ (disk.log.drop (p.logStart - disk.logStart)).length ∧
    p.unchanged changed ≤ p.log.length ∧
    (disk.log.drop (p.logStart - disk.logStart)).take (p.unchanged changed) =
      p.log.take (p.unchanged changed)
  written : ∀ written, p.written = some written → written =
    { viewNumber := disk.viewNumber, lastNormalView := disk.lastNormalView
      recovering := disk.recovering, logStart := disk.logStart }

namespace LogMove

theorem ordered {p p' : Peer Op} (move : LogMove p p') (order : p.Ordered) : p'.Ordered := by
  obtain ⟨start, applied⟩ := order
  cases move with
  | stay log logStart writes more committed executes =>
      refine ⟨by omega, ?_⟩
      rcases executes with same | done <;> omega
  | append entry => exact ⟨start, applied⟩
  | merge first entries mergeable => exact ⟨start, applied⟩
  | restore opNumber beyond => exact ⟨le_rfl, le_rfl⟩
  | compact opNumber held done within => exact ⟨done, applied⟩

/-- A mark at `from`, where the log is as it was up to there, keeps track. -/
theorem tracks_mark {disk : PersistentState Op} {p : Peer Op} (tracks : Tracks disk p)
    {fresh : Nat} {log : List (LogEntry Op)} (low : p.logStart + 1 ≤ fresh)
    (held : fresh - 1 - p.logStart ≤ p.log.length)
    (agrees : log.take (fresh - 1 - p.logStart) = p.log.take (fresh - 1 - p.logStart))
    (long : fresh - 1 - p.logStart ≤ log.length) :
    Tracks disk { p with log := log, toWriteState := p.toWriteState.markLogChanged fresh } where
  start := tracks.start
  same none := by cases none
  marked changed isChanged := by
    have upTo : ∀ {k : Nat}, k ≤ fresh - 1 - p.logStart → log.take k = p.log.take k := by
      intro k le
      have := congrArg (List.take k) agrees
      rwa [List.take_take, List.take_take, Nat.min_eq_left le] at this
    cases before : p.logChangedFrom with
    | none =>
        have isFresh : fresh = changed := by
          simpa [WriteState.markLogChanged, before] using isChanged
        subst isFresh
        have same := tracks.same before
        refine ⟨by omega, ?_, long, ?_⟩
        · show fresh - 1 - p.logStart ≤ _
          rw [same]
          exact held
        · show List.take (fresh - 1 - p.logStart) _ = _
          rw [same]
          exact agrees.symm
    | some earlier =>
        have isMin : min earlier fresh = changed := by
          simpa [WriteState.markLogChanged, before] using isChanged
        obtain ⟨pos, onDisk, inMemory, agree⟩ := tracks.marked earlier before
        unfold Peer.unchanged at onDisk inMemory agree
        have less : changed - 1 - p.logStart ≤ earlier - 1 - p.logStart := by omega
        have within : changed - 1 - p.logStart ≤ fresh - 1 - p.logStart := by omega
        refine ⟨by omega, less.trans onDisk, within.trans long, ?_⟩
        show List.take (changed - 1 - p.logStart) _ = log.take (changed - 1 - p.logStart)
        have := congrArg (List.take (changed - 1 - p.logStart)) agree
        rw [List.take_take, List.take_take, Nat.min_eq_left less] at this
        rw [upTo within]
        exact this
  written := tracks.written

theorem tracks {disk : PersistentState Op} {p p' : Peer Op} (move : LogMove p p')
    (order : p.Ordered) (tracks : Tracks disk p) : Tracks disk p' := by
  cases move with
  | stay log logStart writes more committed executes =>
      have start := tracks.start
      have same := tracks.same
      have marked := tracks.marked
      have written := tracks.written
      unfold Peer.unchanged at marked
      constructor
      · rwa [logStart]
      · rwa [logStart, log, writes]
      · unfold Peer.unchanged
        rwa [logStart, log, writes]
      · rwa [writes]
  | append entry =>
      have index : p.opNumber + 1 - 1 - p.logStart = p.log.length := by
        unfold Standing.opNumber
        omega
      refine tracks_mark tracks ?_ ?_ ?_ ?_
      · unfold Standing.opNumber
        omega
      · omega
      · rw [index, List.take_append_of_le_length le_rfl]
      · rw [index, List.length_append]
        omega
  | merge start entries mergeable =>
      obtain ⟨within, held, _⟩ := mergeable
      have kept : p.keepUpTo start - p.logStart ≤ p.log.length := by
        unfold Standing.opNumber at within
        omega
      have index : p.keepUpTo start + 1 - 1 - p.logStart = p.keepUpTo start - p.logStart := by omega
      have taken : (p.log.take (p.keepUpTo start - p.logStart)).length =
          p.keepUpTo start - p.logStart := by
        rw [List.length_take]
        omega
      refine tracks_mark tracks (by omega) (by omega) ?_ ?_
      · rw [index, List.take_append_of_le_length taken.ge, List.take_take, Nat.min_self]
      · rw [index, List.length_append, taken]
        omega
  | restore opNumber beyond =>
      have start : disk.logStart ≤ opNumber := by
        have := tracks.start
        obtain ⟨inside, done⟩ := order
        omega
      refine ⟨start, (fun none => by cases none), fun changed isChanged => ?_, tracks.written⟩
      have bounds : 1 ≤ changed ∧ changed ≤ opNumber + 1 := by
        cases before : p.logChangedFrom with
        | none =>
            simp only [Peer.restore, WriteState.markLogChanged, before, Option.some.injEq]
              at isChanged
            omega
        | some earlier =>
            simp only [Peer.restore, WriteState.markLogChanged, before, Option.some.injEq]
              at isChanged
            have := (tracks.marked earlier before).1
            omega
      have none : Peer.unchanged (p.restore opNumber) changed = 0 := by
        show changed - 1 - opNumber = 0
        omega
      rw [none]
      exact ⟨bounds.1, Nat.zero_le _, Nat.zero_le _, by simp⟩
  | compact opNumber held done within =>
      have start := tracks.start
      have dropped : disk.log.drop (opNumber - disk.logStart) =
          (disk.log.drop (p.logStart - disk.logStart)).drop (opNumber - p.logStart) := by
        rw [List.drop_drop]
        congr 1
        omega
      refine ⟨by show disk.logStart ≤ opNumber; omega, fun none => ?_, fun changed isChanged => ?_,
        tracks.written⟩
      · show disk.log.drop (opNumber - disk.logStart) = p.log.drop (opNumber - p.logStart)
        rw [dropped, tracks.same none]
      · obtain ⟨pos, onDisk, inMemory, agree⟩ := tracks.marked changed isChanged
        unfold Peer.unchanged at onDisk inMemory agree
        have index : changed - 1 - opNumber = changed - 1 - p.logStart - (opNumber - p.logStart) := by
          omega
        refine ⟨pos, ?_, ?_, ?_⟩
        · show changed - 1 - opNumber ≤ (disk.log.drop (opNumber - disk.logStart)).length
          rw [dropped, List.length_drop]
          omega
        · show changed - 1 - opNumber ≤ (p.log.drop (opNumber - p.logStart)).length
          rw [List.length_drop]
          omega
        · show (disk.log.drop (opNumber - disk.logStart)).take (changed - 1 - opNumber) =
            (p.log.drop (opNumber - p.logStart)).take (changed - 1 - opNumber)
          have := congrArg (List.drop (opNumber - p.logStart)) agree
          rw [List.drop_take, List.drop_take] at this
          rw [dropped, index]
          exact this

end LogMove

/-- Both hold along any sequence of moves. -/
theorem tracks_moves {disk : PersistentState Op} {p p' : Peer Op}
    (moves : ReflTransGen LogMove p p') (order : p.Ordered) (tracks : Tracks disk p) :
    p'.Ordered ∧ Tracks disk p' := by
  induction moves with
  | refl => exact ⟨order, tracks⟩
  | tail _ move ih => exact ⟨move.ordered ih.1, move.tracks ih.1 ih.2⟩

end Vsr
