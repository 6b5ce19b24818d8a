/-
# A session copies both ways

`Session::run` runs two `copy_half`s side by side, `up` from the local socket to the server and
`down` the other way, and ends with the first one that returns; the other is dropped wherever it
is.  The environment moves one end at a time: the reader or the writer of a side.  `up` and
`down` see nothing of each other, so each is a run of `copy_half` on the events at its own two
ends (`Session.half_run`), and what is proved of `copy_half` holds of each at every moment, however
the two are interleaved.

`copies_faithfully` is stated without the halves, about what is read from a SIDE and accepted by a
side, since that is what the two peers see.  The way back is section 3: what is read from a side is
read by the half that starts there, and what a side accepts is written by the other one
(`SessionLine.readFrom_eq`, `SessionLine.acceptedBy_eq`).
-/
import Aqualung.Snorkel.Copy
import Mathlib.Data.Rat.Defs
import Mathlib.Algebra.Order.Ring.Unbundled.Rat

namespace Aqualung

open Lib

/-! ## 1. The two halves -/

inductive Side
  | localSide
  | remoteSide
  deriving DecidableEq

/-- The other side. -/
def Side.opposite : Side → Side
  | localSide => remoteSide
  | remoteSide => localSide

@[simp] theorem Side.opposite_opposite (side : Side) : side.opposite.opposite = side := by
  cases side <;> rfl

theorem Side.opposite_inj {side side' : Side} : side.opposite = side'.opposite ↔ side = side' := by
  cases side <;> cases side' <;> decide

/-- Something happens at the reader or the writer of a side. -/
structure SessionEvent where
  side : Side
  event : CopyEvent

/-- The side that the `copy_half` concerned reads from. -/
def SessionEvent.source (ev : SessionEvent) : Side :=
  match ev.event with
  | .read _ | .readFailed => ev.side
  | _ => ev.side.opposite

/-- What a `copy_half` has returned, and whether it is an error. -/
def CopyPhase.returned : CopyPhase → Option Bool
  | .done => some false
  | .failed _ => some true
  | _ => none

/-- The state of `Session::run`. -/
structure Session where
  up : CopyHalf := {}
  down : CopyHalf := {}
  /-- `ended_by` and whether there is an `error`. -/
  ended : Option (Side × Bool) := none
  deriving DecidableEq

namespace Session

/-- The `copy_half` that reads from a side. -/
def half (s : Session) : Side → CopyHalf
  | .localSide => s.up
  | .remoteSide => s.down

/-- The session with another state of the `copy_half` that reads from a side. -/
def setHalf (s : Session) (side : Side) (c : CopyHalf) : Session :=
  match side with
  | .localSide => { s with up := c }
  | .remoteSide => { s with down := c }

@[simp] theorem half_setHalf_self (s : Session) (side : Side) (c : CopyHalf) :
    (s.setHalf side c).half side = c := by
  cases side <;> rfl

@[simp] theorem half_setHalf_of_ne (s : Session) {side side' : Side} (h : side' ≠ side)
    (c : CopyHalf) : (s.setHalf side c).half side' = s.half side' := by
  cases side <;> cases side' <;> first | rfl | exact absurd rfl h

/-- `Session::run`; the outputs are the bytes that reach the peer on a side. -/
def step (s : Session) (ev : SessionEvent) : Session × List (Side × UInt8) :=
  match s.ended with
  | some _ => (s, [])
  | none =>
    let (c, out) := CopyHalf.run.step (s.half ev.source) ev.event
    -- `select!` takes the first half that returns, and drops the other.
    ({ s.setHalf ev.source c with ended := c.phase.returned.map (ev.source, ·) },
      out.map (ev.source.opposite, ·))

/-- `Session::run` as a machine. -/
def run : Machine Session SessionEvent (Side × UInt8) where
  init := {}
  step := step

/-- `to_remote` and `to_local`. -/
def movedTo (s : Session) (side : Side) : Nat := (s.half side.opposite).moved

end Session

/-- A span of time, in milliseconds. -/
abbrev Duration := ℚ

structure Outcome where
  endedBy : Side
  error : Bool
  toRemote : Nat
  toLocal : Nat
  lasted : Duration
  deriving DecidableEq

def Outcome.productive (o : Outcome) : Bool :=
  o.toRemote ≠ 0 || o.toLocal ≠ 0 || o.lasted ≥ 10 * 1000

/-- What `Session::run` returns, when it has returned after the time `lasted`. -/
def Session.outcome (s : Session) (lasted : Duration) : Option Outcome :=
  s.ended.map fun (endedBy, error) =>
    { endedBy, error, toRemote := s.movedTo .remoteSide, toLocal := s.movedTo .localSide, lasted }

/-! ## 2. Each half is a run of `copy_half` -/

/-- A line of the history of a session. -/
abbrev SessionLine := Entry Session SessionEvent (Side × UInt8)

/-- The line of the `copy_half` that reads from `side`, if the line is one of that half. -/
def SessionLine.copyLine (side : Side) (e : SessionLine) : Option CopyLine :=
  if e.before.ended = none ∧ e.input.source = side then
    some ⟨e.before.half side, e.input.event, e.out.map Prod.snd⟩
  else none

/-- The history of the `copy_half` that reads from `side`. -/
def copyLines (side : Side) (hist : List SessionLine) : List CopyLine :=
  hist.filterMap (SessionLine.copyLine side)

/-- The steps of a session. -/
inductive SessionStep (s : Session) (ev : SessionEvent) : Session → List (Side × UInt8) → Prop
  /-- The session has ended. -/
  | idle (hended : s.ended ≠ none) : SessionStep s ev s []
  /-- One half moves. -/
  | moved (hended : s.ended = none) {c : CopyHalf} {out : Bytes}
      (hc : CopyHalf.run.step (s.half ev.source) ev.event = (c, out)) :
      SessionStep s ev
        { s.setHalf ev.source c with ended := c.phase.returned.map (ev.source, ·) }
        (out.map (ev.source.opposite, ·))

namespace Session

theorem step_session (s : Session) (ev : SessionEvent) :
    SessionStep s ev (run.step s ev).1 (run.step s ev).2 := by
  change SessionStep s ev (s.step ev).1 (s.step ev).2
  unfold step
  split
  · rename_i hended
    exact .idle (by simp [hended])
  · rename_i hended
    exact .moved hended rfl

end Session

/-- What one step does to the run of a half. -/
theorem SessionStep.half_run {s s' : Session} {ev : SessionEvent} {out : List (Side × UInt8)}
    (h : SessionStep s ev s' out) {hist : List SessionLine} {side : Side}
    (hrun : ∃ evs, copyLines side hist = CopyHalf.run.history evs ∧
      s.half side = CopyHalf.run.final evs) :
    ∃ evs, copyLines side (hist ++ [⟨s, ev, out⟩]) = CopyHalf.run.history evs ∧
      s'.half side = CopyHalf.run.final evs := by
  obtain ⟨evs, hhist, hhalf⟩ := hrun
  rw [copyLines, List.filterMap_append, ← copyLines, hhist]
  cases h with
  | idle hended => exact ⟨evs, by simp [SessionLine.copyLine, hended], hhalf⟩
  | @moved hended c out hc =>
    by_cases hside : ev.source = side
    · subst hside
      rw [hhalf] at hc
      refine ⟨evs ++ [ev.event], ?_, ?_⟩
      · rw [CopyHalf.run.history_snoc, hc]
        simp [SessionLine.copyLine, hended, hhalf]
      · rw [CopyHalf.run.final_snoc, hc]
        exact s.half_setHalf_self _ c
    · refine ⟨evs, by simp [SessionLine.copyLine, hside], ?_⟩
      rw [← hhalf]
      exact s.half_setHalf_of_ne (Ne.symm hside) c

/-- **Each half of a session is a run of `copy_half`.** -/
theorem Session.half_run (evs : List SessionEvent) (side : Side) :
    ∃ evs', copyLines side (run.history evs) = CopyHalf.run.history evs' ∧
      (run.final evs).half side = CopyHalf.run.final evs' := by
  refine run.run_induction (P := fun hist s => ∃ evs', copyLines side hist =
    CopyHalf.run.history evs' ∧ s.half side = CopyHalf.run.final evs') ?_ ?_ evs
  · refine ⟨[], rfl, ?_⟩
    cases side <;> rfl
  · intro is ev ih
    exact (step_session _ ev).half_run ih

/-- The session has ended with a half that has returned. -/
theorem Session.returned_of_ended (evs : List SessionEvent) :
    ∀ side error, (run.final evs).ended = some (side, error) →
      ((run.final evs).half side).phase.returned = some error := by
  refine run.run_induction (P := fun _ s => ∀ side error, s.ended = some (side, error) →
    (s.half side).phase.returned = some error) ?_ ?_ evs
  · intro side error hended
    cases hended
  · intro is ev ih
    generalize run.final is = s at ih ⊢
    have hstep := step_session s ev
    generalize (run.step s ev).1 = s', (run.step s ev).2 = out at hstep ⊢
    cases hstep with
    | idle _ => exact ih
    | @moved _ c out hc =>
      intro side error hended
      simp only [Option.map_eq_some_iff, Prod.mk.injEq] at hended
      obtain ⟨error', hreturned, rfl, rfl⟩ := hended
      rw [← hreturned]
      exact congrArg (fun c => c.phase.returned) (s.half_setHalf_self _ c)

/-! ## 3. What is read and accepted at each end -/

/-- The bytes that are read from `side` in the line. -/
def SessionLine.readFrom (side : Side) (e : SessionLine) : Bytes :=
  if e.before.ended = none ∧ e.input.side = side then
    CopyLine.bytesRead ⟨e.before.half e.input.source, e.input.event, []⟩
  else []

/-- The bytes that the writer of `side` accepts in the line. -/
def SessionLine.acceptedBy (side : Side) (e : SessionLine) : Bytes :=
  if e.before.ended = none ∧ e.input.side = side then
    CopyLine.accepted ⟨e.before.half e.input.source, e.input.event, []⟩
  else []

/-- The bytes that have been read from `side`. -/
def readFrom (side : Side) (hist : List SessionLine) : Bytes :=
  hist.flatMap (SessionLine.readFrom side)

/-- The chunks in which they have been read. -/
def chunksFrom (side : Side) (hist : List SessionLine) : List Bytes :=
  (hist.map (SessionLine.readFrom side)).filter (· ≠ [])

/-- The bytes that the writer of `side` has accepted. -/
def acceptedBy (side : Side) (hist : List SessionLine) : Bytes :=
  hist.flatMap (SessionLine.acceptedBy side)

/-- What is at most in the lines of one half is told by the line of that half. -/
theorem SessionLine.eq_getD_copyLine {f : CopyLine → Bytes} (e : SessionLine) {side source : Side}
    (hout : ∀ c ev out, f ⟨c, ev, out⟩ = f ⟨c, ev, []⟩)
    (hside : f ⟨e.before.half e.input.source, e.input.event, []⟩ ≠ [] →
      (e.input.side = side ↔ e.input.source = source)) :
    (if e.before.ended = none ∧ e.input.side = side then
        f ⟨e.before.half e.input.source, e.input.event, []⟩ else []) =
      ((e.copyLine source).map f).getD [] := by
  unfold copyLine
  by_cases hf : f ⟨e.before.half e.input.source, e.input.event, []⟩ = []
  · rw [hf, ite_self]
    split
    · rename_i h
      obtain ⟨-, rfl⟩ := h
      rw [Option.map_some, Option.getD_some, hout, hf]
    · rfl
  · simp only [hside hf]
    split
    · rename_i h
      obtain ⟨-, rfl⟩ := h
      rw [Option.map_some, Option.getD_some, hout _ _ (e.out.map Prod.snd)]
    · rfl

/-- Only the half that reads from `side` reads there. -/
theorem SessionLine.readFrom_eq (side : Side) (e : SessionLine) :
    e.readFrom side = ((e.copyLine side).map CopyLine.bytesRead).getD [] := by
  refine e.eq_getD_copyLine (fun _ _ _ => rfl) fun hread => ?_
  obtain ⟨s, ⟨at_, ev⟩, out⟩ := e
  cases ev with
  | read chunk => rfl
  | readFailed => rfl
  | wrote n handed => exact absurd (CopyLine.bytesRead_of_not_read _ (by simp) _ _) hread
  | writeFailed => exact absurd (CopyLine.bytesRead_of_not_read _ (by simp) _ _) hread
  | passed n => exact absurd (CopyLine.bytesRead_of_not_read _ (by simp) _ _) hread
  | shutdown ok => exact absurd (CopyLine.bytesRead_of_not_read _ (by simp) _ _) hread

/-- Only the half that reads from the opposite side writes to `side`. -/
theorem SessionLine.acceptedBy_eq (side : Side) (e : SessionLine) :
    e.acceptedBy side = ((e.copyLine side.opposite).map CopyLine.accepted).getD [] := by
  refine e.eq_getD_copyLine (fun _ _ _ => rfl) fun haccepted => ?_
  obtain ⟨s, ⟨at_, ev⟩, out⟩ := e
  cases ev with
  | wrote n handed => exact Side.opposite_inj.symm
  | read chunk => exact absurd (CopyLine.accepted_of_not_wrote _ (by simp) _ _) haccepted
  | readFailed => exact absurd (CopyLine.accepted_of_not_wrote _ (by simp) _ _) haccepted
  | writeFailed => exact absurd (CopyLine.accepted_of_not_wrote _ (by simp) _ _) haccepted
  | passed n => exact absurd (CopyLine.accepted_of_not_wrote _ (by simp) _ _) haccepted
  | shutdown ok => exact absurd (CopyLine.accepted_of_not_wrote _ (by simp) _ _) haccepted

theorem flatMap_copyLines {f : CopyLine → Bytes} {g : SessionLine → Bytes} {side : Side}
    (h : ∀ e : SessionLine, g e = ((e.copyLine side).map f).getD []) (hist : List SessionLine) :
    hist.flatMap g = (copyLines side hist).flatMap f := by
  induction hist with
  | nil => rfl
  | cons e hist ih =>
    rw [List.flatMap_cons, ih, h]
    simp only [copyLines, List.filterMap_cons]
    cases e.copyLine side <;> rfl

theorem readFrom_eq (side : Side) (hist : List SessionLine) :
    readFrom side hist = bytesRead (copyLines side hist) :=
  flatMap_copyLines (SessionLine.readFrom_eq side) hist

theorem acceptedBy_eq (side : Side) (hist : List SessionLine) :
    acceptedBy side hist = accepted (copyLines side.opposite hist) :=
  flatMap_copyLines (SessionLine.acceptedBy_eq side) hist

theorem chunksFrom_eq (side : Side) (hist : List SessionLine) :
    chunksFrom side hist = chunks (copyLines side hist) := by
  unfold chunksFrom chunks copyLines
  induction hist with
  | nil => rfl
  | cons e hist ih =>
    rw [List.map_cons, List.filter_cons, ih, SessionLine.readFrom_eq, List.filterMap_cons]
    cases e.copyLine side with
    | none => simp
    | some l => simp only [Option.map_some, Option.getD_some, List.map_cons, List.filter_cons]

/-! ## 4. The copy is faithful -/

/-- `moved` is the length of the chunks that have been accepted whole: all that have been read,
or all but the last, of which only a part has been accepted. -/
def CountsWholeChunks (moved : Nat) (chunks : List Bytes) (accepted : Bytes) : Prop :=
  ∃ written cut part, chunks = written ++ cut ∧ moved = written.flatten.length ∧
    accepted = written.flatten ++ part ∧
    (cut = [] ∧ part = [] ∨ ∃ chunk, cut = [chunk] ∧ part <+: chunk ∧ part ≠ chunk)

theorem CountsWholeChunks.le {moved : Nat} {chunks : List Bytes} {accepted : Bytes}
    (h : CountsWholeChunks moved chunks accepted) : moved ≤ accepted.length := by
  obtain ⟨written, cut, part, -, rfl, rfl, -⟩ := h
  simp

/-- What a session promises of the lines so far and of its state. -/
structure CopiesFaithfully (hist : List SessionLine) (s : Session) : Prop where
  /-- Nothing is lost, repeated, altered or crossed within what has been accepted. -/
  inOrder : ∀ side, acceptedBy side hist <+: readFrom side.opposite hist
  /-- All that was read from a side that has come to its end has been accepted, when the writer
  of the other side is about to be shut down and when the session has ended by it. -/
  complete : ∀ side, (s.half side).phase = .closing ∨ s.ended = some (side, false) →
    acceptedBy side.opposite hist = readFrom side hist
  counted : ∀ side,
    CountsWholeChunks (s.movedTo side) (chunksFrom side.opposite hist) (acceptedBy side hist)
  atMost : ∀ side, s.movedTo side ≤ (acceptedBy side hist).length

theorem Tally.countsWholeChunks {hist : List CopyLine} {c : CopyHalf} {written : List Bytes}
    {part : Bytes} (ht : Tally hist c written part) :
    CountsWholeChunks c.moved (chunks hist) (accepted hist) := by
  refine ⟨written, _, part, ht.chunks_eq, ht.moved_eq, ht.accepted_eq, ?_⟩
  by_cases hrest : c.phase.rest = []
  · exact .inl ⟨if_pos hrest, ht.part_eq hrest⟩
  · refine .inr ⟨_, if_neg hrest, List.prefix_append _ _, fun heq => hrest ?_⟩
    exact List.append_right_eq_self.mp heq.symm

/-- **snorkel copies faithfully**, at every moment of every session: each side accepts the beginning
of what has been read from the other, all of it when that side has come to its end, and the two
counters count whole chunks. -/
theorem copies_faithfully (evs : List SessionEvent) :
    CopiesFaithfully (Session.run.history evs) (Session.run.final evs) := by
  -- What is known of the half that reads from a side.
  have hhalf : ∀ side, ∃ written part,
      Tally (copyLines side (Session.run.history evs)) ((Session.run.final evs).half side)
        written part := by
    intro side
    obtain ⟨evs', hhist, hfinal⟩ := Session.half_run evs side
    rw [hhist, hfinal]
    exact exists_tally evs'
  have hcounted : ∀ side, CountsWholeChunks ((Session.run.final evs).movedTo side)
      (chunksFrom side.opposite (Session.run.history evs))
      (acceptedBy side (Session.run.history evs)) := by
    intro side
    obtain ⟨written, part, ht⟩ := hhalf side.opposite
    rw [acceptedBy_eq, chunksFrom_eq]
    exact ht.countsWholeChunks
  refine ⟨?inOrder, ?complete, hcounted, fun side => (hcounted side).le⟩
  case inOrder =>
    intro side
    obtain ⟨written, part, ht⟩ := hhalf side.opposite
    rw [acceptedBy_eq, readFrom_eq]
    exact ⟨_, ht.accepted_append_rest⟩
  case complete =>
    intro side hclosed
    obtain ⟨written, part, ht⟩ := hhalf side
    have hrest : ((Session.run.final evs).half side).phase.rest = [] := by
      rcases hclosed with hclosing | hended
      · rw [hclosing]
        rfl
      · have hreturned := Session.returned_of_ended evs side false hended
        cases hphase : ((Session.run.final evs).half side).phase <;> rw [hphase] at hreturned
        case done => rfl
        all_goals cases hreturned
    rw [acceptedBy_eq, Side.opposite_opposite, readFrom_eq, ← ht.accepted_append_rest, hrest,
      List.append_nil]

/-- The server goes away in the middle of a chunk: a byte of it has been accepted, and none is
counted. -/
example :
    let s := Session.run.final [⟨.localSide, .read [1, 2]⟩, ⟨.remoteSide, .wrote 1 1⟩,
      ⟨.remoteSide, .readFailed⟩, ⟨.remoteSide, .wrote 1 1⟩]
    s.ended = some (.remoteSide, true) ∧ s.movedTo .remoteSide = 0 := by
  decide

end Aqualung
