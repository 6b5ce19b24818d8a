/-
# Copying one way

`copy_half` reads a chunk, writes all of it, and reads again.  A writer may hold back what it has
accepted: only a flush or a shutdown makes it pass everything on, and `copy_half` flushes never.
So what has been read is ACCEPTED before the next read, and it need not have REACHED the peer.  The
model keeps the two apart: `held` is what the writer has accepted and not passed on, and the
outputs are the bytes that reach the peer.

* `CopyHalf.account` says where the bytes are at any time: they have reached the peer, or the
  writer holds them, or they are the rest of the chunk that is being written.
* `nothing_held_back` says when a `copy_half` that waits for input has delivered all it has read:
  when its writer never holds anything back as it takes the last byte of a chunk.  There the loop
  goes back to `read` and nobody asks the writer again.  `byte_held_back` is the shortest run in
  which it does, with one byte.
* `exists_tally` counts: `moved` grows by whole chunks, when the last byte of one is accepted, so
  it lags behind what the writer has accepted by a part of one chunk at most.

The last part goes by cases on `CopyCount` and not on `CopyStep`, because what is read, accepted
and counted does not depend on what the writer passes on.
-/
import Aqualung.Lib.Machine
import Aqualung.Wire.Frame

namespace Aqualung

open Lib

/-! ## 1. The loop -/

def COPY_BUFFER : Nat := 64 * 1024

/-- Where `copy_half` is suspended, or how it has returned. -/
inductive CopyPhase
  /-- In `read`. -/
  | reading
  /-- In `write_all`, for a chunk of `read` bytes of which `rest` has not been accepted. -/
  | writing (read : Nat) (rest : Bytes)
  /-- In `shutdown`. -/
  | closing
  /-- It has returned `Ok`. -/
  | done
  /-- It has returned an error, and `rest` of the chunk is dropped with the buffer. -/
  | failed (rest : Bytes)
  deriving DecidableEq

/-- The state of `copy_half`: where it is, what the writer has accepted and holds, and the
counter. -/
structure CopyHalf where
  phase : CopyPhase := .reading
  held : Bytes := []
  moved : Nat := 0
  deriving DecidableEq

/-- What the reader and the writer do. -/
inductive CopyEvent
  /-- `read` fills the buffer from the chunk; it is the end of the stream if there is none. -/
  | read (chunk : Bytes)
  | readFailed
  /-- The writer accepts `n` bytes, and then passes on the first `handed` that it holds. -/
  | wrote (n handed : Nat)
  | writeFailed
  /-- The writer passes on what it holds, by itself. -/
  | passed (n : Nat)
  /-- `shutdown` returns; if it has succeeded, the writer has passed on everything. -/
  | shutdown (ok : Bool)

namespace CopyHalf

/-- `copy_half`; the outputs are the bytes that reach the peer. -/
def step (c : CopyHalf) : CopyEvent → CopyHalf × Bytes
  | .read chunk =>
    match c.phase with
    | .reading =>
      let buffer := chunk.take COPY_BUFFER
      if buffer = [] then ({ c with phase := .closing }, [])
      else ({ c with phase := .writing buffer.length buffer }, [])
    | _ => (c, [])
  | .readFailed =>
    match c.phase with
    | .reading => ({ c with phase := .failed [] }, [])
    | _ => (c, [])
  | .wrote n handed =>
    match c.phase with
    | .writing read rest =>
      -- `write_all` does not go on with a writer that accepts nothing.
      if n = 0 then ({ c with phase := .failed rest }, [])
      else
        let held := c.held ++ rest.take n
        let c := { c with held := held.drop handed }
        if rest.drop n = [] then
          ({ c with phase := .reading, moved := c.moved + read }, held.take handed)
        else ({ c with phase := .writing read (rest.drop n) }, held.take handed)
    | _ => (c, [])
  | .writeFailed =>
    match c.phase with
    | .writing _ rest => ({ c with phase := .failed rest }, [])
    | _ => (c, [])
  | .passed n => ({ c with held := c.held.drop n }, c.held.take n)
  | .shutdown ok =>
    match c.phase with
    | .closing =>
      if ok then ({ c with phase := .done, held := [] }, c.held)
      else ({ c with phase := .done }, [])
    | _ => (c, [])

/-- `copy_half` as a machine. -/
def run : Machine CopyHalf CopyEvent UInt8 where
  init := {}
  step := step

end CopyHalf

/-- A line of the history of a `copy_half`. -/
abbrev CopyLine := Entry CopyHalf CopyEvent UInt8

/-! ## 2. Where the bytes are -/

/-- The bytes that are read in the line. -/
def CopyLine.bytesRead (e : CopyLine) : Bytes :=
  match e.before.phase, e.input with
  | .reading, .read chunk => chunk.take COPY_BUFFER
  | _, _ => []

/-- All bytes that have been read. -/
def bytesRead (hist : List CopyLine) : Bytes := hist.flatMap CopyLine.bytesRead

/-- All bytes that have reached the peer. -/
def delivered (hist : List CopyLine) : Bytes := hist.flatMap Entry.out

theorem bytesRead_snoc (hist : List CopyLine) (e : CopyLine) :
    bytesRead (hist ++ [e]) = bytesRead hist ++ e.bytesRead := by
  simp [bytesRead]

theorem delivered_snoc (hist : List CopyLine) (e : CopyLine) :
    delivered (hist ++ [e]) = delivered hist ++ e.out := by
  simp [delivered]

/-- What has been read and the writer has not accepted. -/
def CopyPhase.rest : CopyPhase → Bytes
  | writing _ rest | failed rest => rest
  | _ => []

/-- The steps of `copy_half`. -/
inductive CopyStep (c : CopyHalf) : CopyEvent → CopyHalf → Bytes → Prop
  /-- Nothing happens. -/
  | idle {ev : CopyEvent} (hread : CopyLine.bytesRead ⟨c, ev, []⟩ = []) : CopyStep c ev c []
  /-- The stream has ended. -/
  | ended {chunk : Bytes} (hphase : c.phase = .reading) (hchunk : chunk.take COPY_BUFFER = []) :
      CopyStep c (.read chunk) { c with phase := .closing } []
  /-- A chunk is read. -/
  | filled {chunk : Bytes} (hphase : c.phase = .reading) (hchunk : chunk.take COPY_BUFFER ≠ []) :
      CopyStep c (.read chunk)
        { c with phase := .writing (chunk.take COPY_BUFFER).length (chunk.take COPY_BUFFER) } []
  /-- An error ends the loop. -/
  | failed {ev : CopyEvent} (hread : CopyLine.bytesRead ⟨c, ev, []⟩ = []) :
      CopyStep c ev { c with phase := .failed c.phase.rest } []
  /-- The writer accepts a part of what is left of the chunk. -/
  | part {read n handed : Nat} {rest : Bytes} (hphase : c.phase = .writing read rest)
      (hrest : rest.drop n ≠ []) :
      CopyStep c (.wrote n handed)
        { c with phase := .writing read (rest.drop n), held := (c.held ++ rest.take n).drop handed }
        ((c.held ++ rest.take n).take handed)
  /-- The writer accepts the rest of the chunk. -/
  | whole {read n handed : Nat} {rest : Bytes} (hphase : c.phase = .writing read rest)
      (hn : n ≠ 0) (hrest : rest.length ≤ n) :
      CopyStep c (.wrote n handed)
        { c with phase := .reading, held := (c.held ++ rest).drop handed, moved := c.moved + read }
        ((c.held ++ rest).take handed)
  /-- The writer passes something on. -/
  | passed {n : Nat} :
      CopyStep c (.passed n) { c with held := c.held.drop n } (c.held.take n)
  /-- The writer is shut down, and has passed everything on. -/
  | flushed (hphase : c.phase = .closing) :
      CopyStep c (.shutdown true) { c with phase := .done, held := [] } c.held
  /-- The writer is shut down with an error, which is ignored. -/
  | closed (hphase : c.phase = .closing) :
      CopyStep c (.shutdown false) { c with phase := .done } []

theorem CopyLine.bytesRead_of_not_reading {c : CopyHalf} (hphase : c.phase ≠ .reading)
    (ev : CopyEvent) (out : Bytes) : CopyLine.bytesRead ⟨c, ev, out⟩ = [] := by
  unfold CopyLine.bytesRead
  split
  · exact absurd ‹_› hphase
  · rfl

theorem CopyLine.bytesRead_of_not_read (ev : CopyEvent) (hev : ∀ chunk, ev ≠ .read chunk)
    (c : CopyHalf) (out : Bytes) : CopyLine.bytesRead ⟨c, ev, out⟩ = [] := by
  unfold CopyLine.bytesRead
  split
  · rename_i chunk _ hinput
    exact absurd hinput (hev chunk)
  · rfl

namespace CopyHalf

/-- **The loop takes these steps and no others.** -/
theorem step_copy (c : CopyHalf) (ev : CopyEvent) :
    CopyStep c ev (run.step c ev).1 (run.step c ev).2 := by
  change CopyStep c ev (c.step ev).1 (c.step ev).2
  cases ev with
  | read chunk =>
    simp only [step]
    split
    · rename_i hphase
      split
      · exact .ended hphase ‹_›
      · exact .filled hphase ‹_›
    · rename_i hphase
      exact .idle (CopyLine.bytesRead_of_not_reading hphase _ _)
  | readFailed =>
    have hread := CopyLine.bytesRead_of_not_read .readFailed (by simp) c []
    simp only [step]
    split
    · rename_i hphase
      have hfailed := CopyStep.failed hread
      rwa [hphase] at hfailed
    · exact .idle hread
  | wrote n handed =>
    have hread := CopyLine.bytesRead_of_not_read (.wrote n handed) (by simp) c []
    simp only [step]
    split
    · rename_i read rest hphase
      split
      · have hfailed := CopyStep.failed hread
        rwa [hphase] at hfailed
      rename_i hn
      split
      · rename_i hrest
        rw [List.drop_eq_nil_iff] at hrest
        rw [List.take_of_length_le hrest]
        exact .whole hphase hn hrest
      · exact .part hphase ‹_›
    · exact .idle hread
  | writeFailed =>
    have hread := CopyLine.bytesRead_of_not_read .writeFailed (by simp) c []
    simp only [step]
    split
    · rename_i read rest hphase
      have hfailed := CopyStep.failed hread
      rwa [hphase] at hfailed
    · exact .idle hread
  | passed n => exact .passed
  | shutdown ok =>
    have hread := CopyLine.bytesRead_of_not_read (.shutdown ok) (by simp) c []
    simp only [step]
    split
    · rename_i hphase
      cases ok with
      | true => exact .flushed hphase
      | false => exact .closed hphase
    · exact .idle hread

end CopyHalf

namespace CopyStep

variable {c c' : CopyHalf} {ev : CopyEvent} {out : Bytes}

theorem rest_ne_nil (h : CopyStep c ev c' out)
    (hrest : ∀ read rest, c.phase = .writing read rest → rest ≠ []) :
    ∀ read rest, c'.phase = .writing read rest → rest ≠ [] := by
  intro read rest
  cases h with
  | idle _ => exact hrest read rest
  | ended _ _ => intro hphase; cases hphase
  | filled _ hchunk => rintro ⟨⟩; exact hchunk
  | failed _ => intro hphase; cases hphase
  | part _ hleft => rintro ⟨⟩; exact hleft
  | whole _ _ _ => intro hphase; cases hphase
  | passed => exact hrest read rest
  | flushed _ => intro hphase; cases hphase
  | closed _ => intro hphase; cases hphase

/-- No step loses a byte, makes one up or changes the order. -/
theorem account (h : CopyStep c ev c' out) :
    c.held ++ c.phase.rest ++ CopyLine.bytesRead ⟨c, ev, out⟩
      = out ++ c'.held ++ c'.phase.rest := by
  cases h with
  | idle hread =>
    rw [hread]
    simp
  | ended hphase hchunk => simp [CopyLine.bytesRead, CopyPhase.rest, hphase, hchunk]
  | filled hphase _ => simp [CopyLine.bytesRead, CopyPhase.rest, hphase]
  | failed hread =>
    rw [hread]
    simp [CopyPhase.rest]
  | part hphase _ =>
    have hread := CopyLine.bytesRead_of_not_reading (c := c) (by simp [hphase])
    rw [hread, List.take_append_drop]
    simp [CopyPhase.rest, hphase]
  | whole hphase _ _ =>
    have hread := CopyLine.bytesRead_of_not_reading (c := c) (by simp [hphase])
    rw [hread, List.take_append_drop]
    simp [CopyPhase.rest, hphase]
  | passed =>
    rw [CopyLine.bytesRead_of_not_read _ (by simp)]
    simp
  | flushed hphase => simp [CopyLine.bytesRead, CopyPhase.rest, hphase]
  | closed hphase => simp [CopyLine.bytesRead, CopyPhase.rest, hphase]

end CopyStep

section

variable (evs : List CopyEvent)

theorem rest_ne_nil {read : Nat} {rest : Bytes}
    (hphase : (CopyHalf.run.final evs).phase = .writing read rest) : rest ≠ [] := by
  have hall : ∀ read rest, (CopyHalf.run.final evs).phase = .writing read rest → rest ≠ [] := by
    refine CopyHalf.run.run_induction
      (P := fun _ c => ∀ read rest, c.phase = .writing read rest → rest ≠ []) ?_ ?_ evs
    · intro read rest hinit
      cases hinit
    · intro is ev ih
      exact (CopyHalf.step_copy _ ev).rest_ne_nil ih
  exact hall read rest hphase

/-- **Every byte that has been read has reached the peer, or is held by the writer, or is still to
be accepted, in this order.** -/
theorem account :
    delivered (CopyHalf.run.history evs) ++ (CopyHalf.run.final evs).held ++
      (CopyHalf.run.final evs).phase.rest = bytesRead (CopyHalf.run.history evs) := by
  refine CopyHalf.run.run_induction
    (P := fun hist c => delivered hist ++ c.held ++ c.phase.rest = bytesRead hist) rfl ?_ evs
  intro is ev ih
  have hstep := (CopyHalf.step_copy (CopyHalf.run.final is) ev).account
  rw [delivered_snoc, bytesRead_snoc, ← ih]
  simp only [List.append_assoc] at hstep ⊢
  rw [hstep]

/-- While the loop waits for input, nothing but the writer can hold a byte. -/
theorem delivered_iff_of_reading (hphase : (CopyHalf.run.final evs).phase = .reading) :
    delivered (CopyHalf.run.history evs) = bytesRead (CopyHalf.run.history evs) ↔
      (CopyHalf.run.final evs).held = [] := by
  have haccount := account evs
  simp only [hphase, CopyPhase.rest, List.append_nil] at haccount
  constructor
  · intro hall
    rw [← hall] at haccount
    exact List.append_right_eq_self.mp haccount
  · intro hheld
    rwa [hheld, List.append_nil] at haccount

end

/-! ## 3. When nothing is held back -/

/-- Whenever `copy_half` waits for input, every byte it has read has reached the peer. -/
def NothingHeldBack (evs : List CopyEvent) : Prop :=
  ∀ is, is <+: evs → (CopyHalf.run.final is).phase = .reading →
    delivered (CopyHalf.run.history is) = bytesRead (CopyHalf.run.history is)

/-- If the writer takes the last byte of a chunk in the line, it passes on all that it holds. -/
def CopyLine.PassesOn (e : CopyLine) : Prop :=
  ∀ read rest n handed, e.before.phase = .writing read rest → e.input = .wrote n handed →
    rest.length ≤ n → e.before.held.length + rest.length ≤ handed

/-- A step to where the loop waits for input leaves nothing with a writer that passes on all that
it holds with the last byte of a chunk. -/
theorem CopyStep.held_eq_nil {c c' : CopyHalf} {ev : CopyEvent} {out : Bytes}
    (h : CopyStep c ev c' out) (hpasses : CopyLine.PassesOn ⟨c, ev, out⟩)
    (hheld : c.phase = .reading → c.held = []) : c'.phase = .reading → c'.held = [] := by
  cases h with
  | idle _ => exact hheld
  | ended _ _ => intro hphase; cases hphase
  | filled _ _ => intro hphase; cases hphase
  | failed _ => intro hphase; cases hphase
  | part _ _ => intro hphase; cases hphase
  | whole hphase _ hrest =>
    intro _
    have hhanded := hpasses _ _ _ _ hphase rfl hrest
    exact List.drop_eq_nil_of_le (by simpa using hhanded)
  | passed =>
    intro hphase
    simp [hheld hphase]
  | flushed _ => intro hphase; cases hphase
  | closed _ => intro hphase; cases hphase

/-- Where the writer takes what is left of a chunk, the loop goes back to read. -/
theorem CopyHalf.step_of_whole {c : CopyHalf} {read n : Nat} {rest : Bytes} (handed : Nat)
    (hphase : c.phase = .writing read rest) (hn : n ≠ 0) (hrest : rest.length ≤ n) :
    (run.step c (.wrote n handed)).1 =
      { phase := .reading, held := (c.held ++ rest).drop handed, moved := c.moved + read } := by
  change (c.step (.wrote n handed)).1 = _
  have hdrop : rest.drop n = [] := List.drop_eq_nil_of_le hrest
  have htake : rest.take n = rest := List.take_of_length_le hrest
  simp only [step, hphase, if_neg hn, hdrop, htake, if_true]

/-- **A `copy_half` that waits for input has delivered all it has read, whenever it does so, when
and only when its writer holds nothing back as it takes the last byte of a chunk.** -/
theorem nothing_held_back (evs : List CopyEvent) :
    NothingHeldBack evs ↔ ∀ e ∈ CopyHalf.run.history evs, CopyLine.PassesOn e := by
  constructor
  · intro h e he read rest n handed hphase hinput hrest
    obtain ⟨pre, post, hsplit⟩ := List.append_of_mem he
    obtain ⟨is, ev, js, rfl, rfl, rfl⟩ := CopyHalf.run.history_eq_append hsplit
    simp only at hphase hinput ⊢
    subst hinput
    have hne := rest_ne_nil is hphase
    have hn : n ≠ 0 := by
      rintro rfl
      exact hne (List.length_eq_zero_iff.mp (Nat.le_zero.mp hrest))
    -- The loop waits for input right after the line.
    have hfinal : CopyHalf.run.final (is ++ [.wrote n handed]) = _ :=
      (CopyHalf.run.final_snoc is _).trans (CopyHalf.step_of_whole handed hphase hn hrest)
    have hreading : (CopyHalf.run.final (is ++ [.wrote n handed])).phase = .reading := by
      rw [hfinal]
    have hheld := (delivered_iff_of_reading _ hreading).mp (h _ ⟨js, by simp⟩ hreading)
    rw [hfinal] at hheld
    simpa using hheld
  · rintro h is ⟨js, rfl⟩ hreading
    rw [delivered_iff_of_reading is hreading]
    have hpasses : ∀ e ∈ CopyHalf.run.history is, CopyLine.PassesOn e := by
      intro e he
      refine h e ?_
      rw [CopyHalf.run.history_append]
      exact List.mem_append_left _ he
    revert hpasses hreading
    refine CopyHalf.run.run_induction
      (P := fun hist c => c.phase = .reading → (∀ e ∈ hist, CopyLine.PassesOn e) → c.held = [])
      (fun _ _ => rfl) ?_ is
    intro is ev ih hreading hpasses
    refine (CopyHalf.step_copy _ ev).held_eq_nil (hpasses _ (by simp)) ?_ hreading
    intro hbefore
    exact ih hbefore fun e he => hpasses e (List.mem_append_left _ he)

/-- The writer takes a byte and keeps it: `copy_half` reads on and does not flush. -/
theorem byte_held_back : ¬ NothingHeldBack [.read [1], .wrote 1 0] := by
  intro h
  exact absurd (h _ (List.prefix_refl _) (by decide)) (by decide)

/-! ## 4. What the writer has accepted, and the counter -/

/-- The bytes that the writer accepts in the line. -/
def CopyLine.accepted (e : CopyLine) : Bytes :=
  match e.before.phase, e.input with
  | .writing _ rest, .wrote n _ => rest.take n
  | _, _ => []

/-- All bytes that the writer has accepted. -/
def accepted (hist : List CopyLine) : Bytes := hist.flatMap CopyLine.accepted

/-- The chunks as they were read. -/
def chunks (hist : List CopyLine) : List Bytes :=
  (hist.map CopyLine.bytesRead).filter (· ≠ [])

theorem accepted_snoc (hist : List CopyLine) (e : CopyLine) :
    accepted (hist ++ [e]) = accepted hist ++ e.accepted := by
  simp [accepted]

theorem chunks_snoc (hist : List CopyLine) (e : CopyLine) :
    chunks (hist ++ [e]) = chunks hist ++ if e.bytesRead = [] then [] else [e.bytesRead] := by
  by_cases hread : e.bytesRead = []
  · simp [chunks, hread]
  · simp [chunks, hread]

theorem flatten_chunks (hist : List CopyLine) : (chunks hist).flatten = bytesRead hist := by
  induction hist using List.reverseRecOn with
  | nil => rfl
  | append_singleton hist e ih =>
    rw [chunks_snoc, bytesRead_snoc, List.flatten_append, ih]
    split
    · rename_i hread
      simp [hread]
    · simp

theorem CopyLine.accepted_of_not_wrote (ev : CopyEvent) (hev : ∀ n handed, ev ≠ .wrote n handed)
    (c : CopyHalf) (out : Bytes) : CopyLine.accepted ⟨c, ev, out⟩ = [] := by
  unfold CopyLine.accepted
  split
  · rename_i n handed _ hinput
    exact absurd hinput (hev n handed)
  · rfl

theorem CopyLine.accepted_of_not_writing {c : CopyHalf}
    (hphase : ∀ read rest, c.phase ≠ .writing read rest) (ev : CopyEvent) (out : Bytes) :
    CopyLine.accepted ⟨c, ev, out⟩ = [] := by
  unfold CopyLine.accepted
  split
  · exact absurd ‹_› (hphase _ _)
  · rfl

/-- The steps of `copy_half` again, for what is read, accepted and counted. -/
inductive CopyCount (c : CopyHalf) (ev : CopyEvent) : CopyHalf → Prop
  /-- Nothing is read, nothing is accepted, and no chunk is taken up. -/
  | quiet {c' : CopyHalf} (hread : CopyLine.bytesRead ⟨c, ev, []⟩ = [])
      (haccepted : CopyLine.accepted ⟨c, ev, []⟩ = []) (hmoved : c'.moved = c.moved)
      (hrest : c'.phase.rest = c.phase.rest)
      (hphase : ∀ read rest, c'.phase = .writing read rest → c.phase = .writing read rest) :
      CopyCount c ev c'
  /-- A chunk is read. -/
  | filled {c' : CopyHalf} {chunk : Bytes} (hbefore : c.phase = .reading)
      (hread : CopyLine.bytesRead ⟨c, ev, []⟩ = chunk) (hchunk : chunk ≠ [])
      (hphase : c'.phase = .writing chunk.length chunk) (hmoved : c'.moved = c.moved) :
      CopyCount c ev c'
  /-- The writer accepts a part of what is left of the chunk. -/
  | part {c' : CopyHalf} {read n : Nat} {rest : Bytes} (hbefore : c.phase = .writing read rest)
      (haccepted : CopyLine.accepted ⟨c, ev, []⟩ = rest.take n) (hrest : rest.drop n ≠ [])
      (hphase : c'.phase = .writing read (rest.drop n)) (hmoved : c'.moved = c.moved) :
      CopyCount c ev c'
  /-- The writer accepts the rest of the chunk, and the chunk counts. -/
  | whole {c' : CopyHalf} {read : Nat} {rest : Bytes} (hbefore : c.phase = .writing read rest)
      (haccepted : CopyLine.accepted ⟨c, ev, []⟩ = rest) (hphase : c'.phase = .reading)
      (hmoved : c'.moved = c.moved + read) : CopyCount c ev c'

/-- **What one step of `copy_half` reads, has accepted and counts.** -/
theorem CopyHalf.step_count (c : CopyHalf) (ev : CopyEvent) : CopyCount c ev (run.step c ev).1 := by
  change CopyCount c ev (c.step ev).1
  cases ev with
  | read chunk =>
    have haccepted := CopyLine.accepted_of_not_wrote (.read chunk) (by simp) c []
    simp only [step]
    split
    · rename_i hphase
      have hread : CopyLine.bytesRead ⟨c, .read chunk, []⟩ = chunk.take COPY_BUFFER := by
        simp [CopyLine.bytesRead, hphase]
      split
      · rename_i hnil
        exact .quiet (hread.trans hnil) haccepted rfl (by simp [CopyPhase.rest, hphase]) (by simp)
      · rename_i hne
        exact .filled hphase hread hne rfl rfl
    · rename_i hphase
      exact .quiet (CopyLine.bytesRead_of_not_reading hphase _ _) haccepted rfl rfl (by simp)
  | readFailed =>
    have hread := CopyLine.bytesRead_of_not_read .readFailed (by simp) c []
    have haccepted := CopyLine.accepted_of_not_wrote .readFailed (by simp) c []
    simp only [step]
    split
    · rename_i hphase
      exact .quiet hread haccepted rfl (by simp [CopyPhase.rest, hphase]) (by simp)
    · exact .quiet hread haccepted rfl rfl (by simp)
  | wrote n handed =>
    have hread := CopyLine.bytesRead_of_not_read (.wrote n handed) (by simp) c []
    simp only [step]
    split
    · rename_i read rest hphase
      have haccepted : CopyLine.accepted ⟨c, .wrote n handed, []⟩ = rest.take n := by
        simp [CopyLine.accepted, hphase]
      split
      · rename_i hn
        subst hn
        exact .quiet hread haccepted rfl (by simp [CopyPhase.rest, hphase]) (by simp)
      split
      · rename_i hrest
        rw [List.take_of_length_le (List.drop_eq_nil_iff.mp hrest)] at haccepted
        exact .whole hphase haccepted rfl rfl
      · rename_i hrest
        exact .part hphase haccepted hrest rfl rfl
    · rename_i hphase
      exact .quiet hread (CopyLine.accepted_of_not_writing hphase _ _) rfl rfl (by simp)
  | writeFailed =>
    have hread := CopyLine.bytesRead_of_not_read .writeFailed (by simp) c []
    have haccepted := CopyLine.accepted_of_not_wrote .writeFailed (by simp) c []
    simp only [step]
    split
    · rename_i read rest hphase
      exact .quiet hread haccepted rfl (by simp [CopyPhase.rest, hphase]) (by simp)
    · exact .quiet hread haccepted rfl rfl (by simp)
  | passed n =>
    have hread := CopyLine.bytesRead_of_not_read (.passed n) (by simp) c []
    exact .quiet hread (CopyLine.accepted_of_not_wrote _ (by simp) c []) rfl rfl (by simp [step])
  | shutdown ok =>
    have hread := CopyLine.bytesRead_of_not_read (.shutdown ok) (by simp) c []
    have haccepted := CopyLine.accepted_of_not_wrote (.shutdown ok) (by simp) c []
    simp only [step]
    split
    · rename_i hphase
      split
      · exact .quiet hread haccepted rfl (by simp [CopyPhase.rest, hphase]) (by simp)
      · exact .quiet hread haccepted rfl (by simp [CopyPhase.rest, hphase]) (by simp)
    · exact .quiet hread haccepted rfl rfl (by simp)

/-- The chunks `written` have been accepted and counted, and of one more chunk `part` has been
accepted, if there is a chunk that is not accepted as a whole. -/
structure Tally (hist : List CopyLine) (c : CopyHalf) (written : List Bytes) (part : Bytes) :
    Prop where
  accepted_eq : accepted hist = written.flatten ++ part
  moved_eq : c.moved = written.flatten.length
  chunks_eq : chunks hist = written ++ if c.phase.rest = [] then [] else [part ++ c.phase.rest]
  part_eq : c.phase.rest = [] → part = []
  of_writing : ∀ read rest, c.phase = .writing read rest → rest ≠ [] ∧ read = (part ++ rest).length

/-- The line's outputs have no part in what is read and accepted. -/
theorem CopyCount.tally {c c' : CopyHalf} {ev : CopyEvent} (h : CopyCount c ev c')
    {hist : List CopyLine} {written : List Bytes} {part : Bytes} (ht : Tally hist c written part)
    (out : Bytes) : ∃ written' part', Tally (hist ++ [⟨c, ev, out⟩]) c' written' part' := by
  have hreadOut : CopyLine.bytesRead ⟨c, ev, out⟩ = CopyLine.bytesRead ⟨c, ev, []⟩ := rfl
  have hacceptedOut : CopyLine.accepted ⟨c, ev, out⟩ = CopyLine.accepted ⟨c, ev, []⟩ := rfl
  cases h with
  | quiet hread haccepted hmoved hrest hphase =>
    refine ⟨written, part, ?_, ?_, ?_, ?_, ?_⟩
    · rw [accepted_snoc, hacceptedOut, haccepted, List.append_nil, ht.accepted_eq]
    · rw [hmoved, ht.moved_eq]
    · rw [chunks_snoc, hreadOut, if_pos hread, List.append_nil, hrest, ht.chunks_eq]
    · rw [hrest]
      exact ht.part_eq
    · intro read rest hwriting
      exact ht.of_writing read rest (hphase read rest hwriting)
  | @filled chunk hbefore hread hchunk hphase hmoved =>
    have hrest : c.phase.rest = [] := by rw [hbefore]; rfl
    have hrest' : c'.phase.rest = chunk := by rw [hphase]; rfl
    have haccepted : CopyLine.accepted ⟨c, ev, []⟩ = [] :=
      CopyLine.accepted_of_not_writing (by simp [hbefore]) _ _
    refine ⟨written, [], ?_, ?_, ?_, ?_, ?_⟩
    · rw [accepted_snoc, hacceptedOut, haccepted, ht.accepted_eq, ht.part_eq hrest, List.append_nil]
    · rw [hmoved, ht.moved_eq]
    · rw [chunks_snoc, ht.chunks_eq, hreadOut, hread, if_pos hrest, if_neg hchunk, hrest',
        if_neg hchunk, List.append_nil, List.nil_append]
    · exact fun _ => rfl
    · intro read rest hwriting
      rw [hphase] at hwriting
      cases hwriting
      exact ⟨hchunk, rfl⟩
  | @part read n rest hbefore haccepted hleft hphase hmoved =>
    have hrest : c.phase.rest = rest := by rw [hbefore]; rfl
    have hrest' : c'.phase.rest = rest.drop n := by rw [hphase]; rfl
    have hread := CopyLine.bytesRead_of_not_reading (c := c) (by simp [hbefore]) ev []
    obtain ⟨hne, hlength⟩ := ht.of_writing read rest hbefore
    refine ⟨written, part ++ rest.take n, ?_, ?_, ?_, ?_, ?_⟩
    · rw [accepted_snoc, hacceptedOut, haccepted, ht.accepted_eq, List.append_assoc]
    · rw [hmoved, ht.moved_eq]
    · rw [chunks_snoc, ht.chunks_eq, hreadOut, if_pos hread, hrest, if_neg hne, hrest',
        if_neg hleft, List.append_assoc part, List.take_append_drop, List.append_nil]
    · rw [hrest']
      exact fun hnil => absurd hnil hleft
    · intro read' rest' hwriting
      rw [hphase] at hwriting
      cases hwriting
      refine ⟨hleft, ?_⟩
      rw [List.append_assoc, List.take_append_drop]
      exact hlength
  | @whole read rest hbefore haccepted hphase hmoved =>
    have hrest : c.phase.rest = rest := by rw [hbefore]; rfl
    have hrest' : c'.phase.rest = [] := by rw [hphase]; rfl
    have hread := CopyLine.bytesRead_of_not_reading (c := c) (by simp [hbefore]) ev []
    obtain ⟨hne, hlength⟩ := ht.of_writing read rest hbefore
    refine ⟨written ++ [part ++ rest], [], ?_, ?_, ?_, ?_, ?_⟩
    · simp [accepted_snoc, hacceptedOut, haccepted, ht.accepted_eq]
    · have hcounted := ht.moved_eq
      simp only [List.flatten_append, List.flatten_singleton, List.length_append] at hlength ⊢
      omega
    · rw [chunks_snoc, ht.chunks_eq, hreadOut, if_pos hread, hrest, if_neg hne, hrest', if_pos rfl,
        List.append_nil]
    · exact fun _ => rfl
    · intro read' rest' hwriting
      rw [hphase] at hwriting
      cases hwriting

/-- **The counter counts the chunks that were written completely.** -/
theorem exists_tally (evs : List CopyEvent) :
    ∃ written part, Tally (CopyHalf.run.history evs) (CopyHalf.run.final evs) written part := by
  refine CopyHalf.run.run_induction (P := fun hist c => ∃ written part, Tally hist c written part)
    ⟨[], [], rfl, rfl, rfl, fun _ => rfl, fun _ _ hwriting => nomatch hwriting⟩ ?_ evs
  rintro is ev ⟨written, part, ht⟩
  exact (CopyHalf.step_count _ ev).tally ht _

/-- **What has been read is what the writer has accepted and what it is still to accept.** -/
theorem Tally.accepted_append_rest {hist : List CopyLine} {c : CopyHalf} {written : List Bytes}
    {part : Bytes} (ht : Tally hist c written part) :
    accepted hist ++ c.phase.rest = bytesRead hist := by
  rw [← flatten_chunks, ht.chunks_eq, ht.accepted_eq]
  by_cases hrest : c.phase.rest = []
  · simp [hrest, ht.part_eq hrest]
  · simp [hrest]

end Aqualung
