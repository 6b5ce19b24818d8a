/-
# What a session passes on

A session moves bytes from each side to the other.  Between the reader of one side and the peer on
the other a byte is in one of two places: `copy_half` still has to hand it to the writer, or the
writer holds it back.  `session_account` says that this is all, at every moment.

It is `CopyHalf.account` for each half, read at the two ends.  The proofs about the way from the
leader to the hub start from here.
-/
import Aqualung.Snorkel.Session

namespace Aqualung

open Lib

/-- The bytes that have reached the peer on the side. -/
def reached (side : Side) (hist : List SessionLine) : Bytes :=
  collect (fun o => if o.1 = side then some o.2 else none) hist

theorem reached_append (side : Side) (hist hist' : List SessionLine) :
    reached side (hist ++ hist') = reached side hist ++ reached side hist' :=
  collect_append ..

/-- What reaches a side in a line is an output of the half that writes there. -/
theorem SessionStep.reached_eq {s s' : Session} {ev : SessionEvent} {out : List (Side × UInt8)}
    (h : SessionStep s ev s' out) (side : Side) :
    reached side [⟨s, ev, out⟩] = delivered (copyLines side.opposite [⟨s, ev, out⟩]) := by
  cases h with
  | idle hended => simp [reached, delivered, copyLines, SessionLine.copyLine, hended]
  | @moved hended c out hc =>
    by_cases hside : ev.source = side.opposite
    · simp [reached, delivered, copyLines, SessionLine.copyLine, hended, hside,
        List.filterMap_map]
    · have hne : ev.source.opposite ≠ side := fun heq => by
        subst heq
        simp at hside
      simp [reached, delivered, copyLines, SessionLine.copyLine, hended, hside, hne,
        List.filterMap_map]

theorem reached_eq (evs : List SessionEvent) (side : Side) :
    reached side (Session.run.history evs)
      = delivered (copyLines side.opposite (Session.run.history evs)) := by
  induction evs using List.reverseRecOn with
  | nil => rfl
  | append_singleton evs ev ih =>
    rw [Session.run.history_snoc, reached_append, ih, (Session.step_session _ ev).reached_eq side,
      copyLines, copyLines, copyLines, List.filterMap_append, delivered, delivered, delivered,
      List.flatMap_append]

/-- **Every byte that has been read from a side** has reached the peer on the other one, or is held
by the writer there, or is still to be accepted by it, in this order. -/
theorem session_account (evs : List SessionEvent) (side : Side) :
    reached side.opposite (Session.run.history evs) ++ ((Session.run.final evs).half side).held ++
        ((Session.run.final evs).half side).phase.rest
      = readFrom side (Session.run.history evs) := by
  obtain ⟨evs', hhist, hhalf⟩ := Session.half_run evs side
  rw [reached_eq, Side.opposite_opposite, readFrom_eq, hhist, hhalf]
  exact account evs'

end Aqualung
