/-
# Machines and their histories

A machine answers each input with a list of outputs and moves to a new state.  Everything a
long-running component promises is a statement about its HISTORY: what came in, in which
state, and what went out, in order.  This module defines the history of a run and gives the
rules the proofs about runs use.

* `final_snoc` and `history_snoc`: one more input moves the state by one step and adds one line,
  at the end.  Lines are never taken back, so what a history says of its past stays true.
* `history_eq_append`: to point at a line of a history is to point at an input of the run; the
  line is the step taken in the state that the inputs before it lead to.
* `run_induction`: an invariant may speak of the state and of the history at once.  Most do: what
  a table holds means something only by the messages that put it there.
* `keeps`: an invariant of the state alone, from any state on.
* `progress`: for liveness.  `P todo s` says that in the state `s` the inputs `todo` still have to
  be seen, in this order and with anything in between.  It is enough that no input destroys this
  and that the next awaited input takes its place; then a run that has `todo` as a sublist has
  seen all of it.

The third part is about outputs: `collect f` is what `f` selects from the outputs of a history,
in order, and almost every promise about what a component says is an equation for a `collect`.
-/
import Mathlib.Data.List.Basic
import Mathlib.Data.List.Infix

namespace Aqualung.Lib

/-- A deterministic machine over states `S`, inputs `I` and outputs `O`. -/
structure Machine (S I O : Type*) where
  init : S
  step : S → I → S × List O

/-- One line of a history: the state a step started from, its input and its outputs. -/
structure Entry (S I O : Type*) where
  before : S
  input : I
  out : List O

namespace Machine

variable {S I O : Type*} (m : Machine S I O)

/-! ## 1. Runs -/

/-- The state after the inputs `is`, from the state `s`. -/
def finalFrom (s : S) : List I → S
  | [] => s
  | i :: is => finalFrom (m.step s i).1 is

/-- The lines the inputs `is` add to a history, from the state `s`. -/
def historyFrom (s : S) : List I → List (Entry S I O)
  | [] => []
  | i :: is => ⟨s, i, (m.step s i).2⟩ :: historyFrom (m.step s i).1 is

/-- The state a run over `is` ends in. -/
def final (is : List I) : S := m.finalFrom m.init is

/-- The history of the run over `is`. -/
def history (is : List I) : List (Entry S I O) := m.historyFrom m.init is

theorem finalFrom_append (s : S) (is js : List I) :
    m.finalFrom s (is ++ js) = m.finalFrom (m.finalFrom s is) js := by
  induction is generalizing s with
  | nil => rfl
  | cons i is ih => exact ih _

theorem historyFrom_append (s : S) (is js : List I) :
    m.historyFrom s (is ++ js) = m.historyFrom s is ++ m.historyFrom (m.finalFrom s is) js := by
  induction is generalizing s with
  | nil => rfl
  | cons i is ih => simp only [List.cons_append, historyFrom, finalFrom, ih]

@[simp] theorem final_nil : m.final [] = m.init := rfl

@[simp] theorem history_nil : m.history [] = [] := rfl

theorem final_append (is js : List I) : m.final (is ++ js) = m.finalFrom (m.final is) js :=
  m.finalFrom_append _ is js

theorem history_append (is js : List I) :
    m.history (is ++ js) = m.history is ++ m.historyFrom (m.final is) js :=
  m.historyFrom_append _ is js

@[simp] theorem final_snoc (is : List I) (i : I) :
    m.final (is ++ [i]) = (m.step (m.final is) i).1 :=
  m.final_append is [i]

@[simp] theorem history_snoc (is : List I) (i : I) :
    m.history (is ++ [i]) = m.history is ++ [⟨m.final is, i, (m.step (m.final is) i).2⟩] :=
  m.history_append is [i]

theorem historyFrom_eq_append {s : S} {is : List I} {pre post : List (Entry S I O)}
    {e : Entry S I O} (h : m.historyFrom s is = pre ++ e :: post) :
    ∃ js i ks, is = js ++ i :: ks ∧ m.historyFrom s js = pre ∧
      e = ⟨m.finalFrom s js, i, (m.step (m.finalFrom s js) i).2⟩ := by
  induction pre generalizing s is with
  | nil =>
    cases is with
    | nil => cases h
    | cons i ks => exact ⟨[], i, ks, rfl, rfl, (List.cons.inj h).1.symm⟩
  | cons e' pre ih =>
    cases is with
    | nil => cases h
    | cons i is =>
      obtain ⟨rfl, htail⟩ := List.cons.inj h
      obtain ⟨js, i', ks, rfl, hpre, he⟩ := ih htail
      exact ⟨i :: js, i', ks, rfl, by rw [← hpre]; rfl, he⟩

/-- The inputs of a history are those of its run. -/
theorem map_input_historyFrom (s : S) (is : List I) :
    (m.historyFrom s is).map Entry.input = is := by
  induction is generalizing s with
  | nil => rfl
  | cons i is ih => rw [historyFrom, List.map_cons, ih]

/-- A line of a history is one step from where the inputs before it lead. -/
theorem history_eq_append {is : List I} {pre post : List (Entry S I O)} {e : Entry S I O}
    (h : m.history is = pre ++ e :: post) :
    ∃ js i ks, is = js ++ i :: ks ∧ m.history js = pre ∧
      e = ⟨m.final js, i, (m.step (m.final js) i).2⟩ :=
  m.historyFrom_eq_append h

/-! ## 2. Rules for runs -/

/-- **The invariant rule.**  What holds at the start and survives every step from a state a
run can reach holds, of the history and the state, after every run. -/
theorem run_induction {P : List (Entry S I O) → S → Prop} (h0 : P [] m.init)
    (hstep : ∀ is i, P (m.history is) (m.final is) →
      P (m.history is ++ [⟨m.final is, i, (m.step (m.final is) i).2⟩])
        (m.step (m.final is) i).1) (is : List I) :
    P (m.history is) (m.final is) := by
  induction is using List.reverseRecOn with
  | nil => exact h0
  | append_singleton is i ih =>
    rw [final_snoc, history_snoc]
    exact hstep is i ih

/-- What survives every step survives every run. -/
theorem keeps {P : S → Prop} (hstep : ∀ s i, P s → P (m.step s i).1) {s : S} (h : P s)
    (is : List I) : P (m.finalFrom s is) := by
  induction is generalizing s with
  | nil => exact h
  | cons i is ih => exact ih (hstep s i h)

/-- **The progress rule.**  `P todo s`: in the state `s`, the inputs `todo` still have to come.  If
no input puts it back, and the next one takes it forward, then nothing is left to come after any
run in which they come, in this order, whatever comes in between. -/
theorem progress {P : List I → S → Prop}
    (hkeep : ∀ todo s i, P todo s → P todo (m.step s i).1)
    (hnext : ∀ todo s i, P (i :: todo) s → P todo (m.step s i).1) {todo is : List I} {s : S}
    (h : P todo s) (his : todo.Sublist is) : P [] (m.finalFrom s is) := by
  induction his generalizing s with
  | slnil => exact h
  | cons i his ih => exact ih (hkeep _ s i h)
  | cons_cons i his ih => exact ih (hnext _ s i h)

end Machine

/-! ## 3. What has gone out -/

section

variable {S I O α : Type*}

/-- What `f` selects from the outputs of the history, in order. -/
def collect (f : O → Option α) (hist : List (Entry S I O)) : List α :=
  (hist.flatMap Entry.out).filterMap f

variable (f : O → Option α)

@[simp] theorem collect_nil : collect f ([] : List (Entry S I O)) = [] := rfl

@[simp] theorem collect_append (hist hist' : List (Entry S I O)) :
    collect f (hist ++ hist') = collect f hist ++ collect f hist' := by
  simp [collect]

@[simp] theorem collect_singleton (e : Entry S I O) : collect f [e] = e.out.filterMap f := by
  simp [collect]

theorem collect_cons (e : Entry S I O) (hist : List (Entry S I O)) :
    collect f (e :: hist) = e.out.filterMap f ++ collect f hist := by
  simp [collect]

/-- Something is selected when some line has an output that `f` selects it from. -/
theorem mem_collect {f : O → Option α} {hist : List (Entry S I O)} {a : α} :
    a ∈ collect f hist ↔ ∃ e ∈ hist, ∃ o ∈ e.out, f o = some a := by
  simp only [collect, List.mem_filterMap, List.mem_flatMap]
  constructor
  · rintro ⟨o, ⟨e, he, ho⟩, ha⟩
    exact ⟨e, he, o, ho, ha⟩
  · rintro ⟨e, he, o, ho, ha⟩
    exact ⟨o, ⟨e, he, ho⟩, ha⟩

end

/-- The first of those with the property divides a list in one way only. -/
theorem split_first {α : Type*} {p : α → Prop} {pre pre' mid mid' : List α} {a b : α}
    (h : pre ++ a :: mid = pre' ++ b :: mid') (ha : p a) (hb : p b) (hpre : ∀ x ∈ pre, ¬ p x)
    (hpre' : ∀ x ∈ pre', ¬ p x) : pre = pre' ∧ a = b ∧ mid = mid' := by
  induction pre generalizing pre' with
  | nil =>
    cases pre' with
    | nil => simpa using h
    | cons x pre' =>
      obtain ⟨rfl, -⟩ := List.cons.inj h
      exact absurd ha (hpre' a List.mem_cons_self)
  | cons x pre ih =>
    cases pre' with
    | nil =>
      obtain ⟨rfl, -⟩ := List.cons.inj h
      exact absurd hb (hpre x List.mem_cons_self)
    | cons y pre' =>
      obtain ⟨rfl, htail⟩ := List.cons.inj h
      obtain ⟨rfl, hrest⟩ := ih htail (fun z hz => hpre z (List.mem_cons_of_mem x hz))
        fun z hz => hpre' z (List.mem_cons_of_mem x hz)
      exact ⟨rfl, hrest⟩

/-- How the last line of a history divides it. -/
theorem split_snoc {α : Type*} {hist pre mid : List α} {x e : α}
    (h : hist ++ [x] = pre ++ e :: mid) :
    (∃ mid', hist = pre ++ e :: mid' ∧ mid = mid' ++ [x]) ∨ (pre = hist ∧ e = x ∧ mid = []) := by
  rcases List.eq_nil_or_concat mid with rfl | ⟨mid', y, rfl⟩
  · obtain ⟨rfl, hlast⟩ := List.append_inj' h rfl
    exact .inr ⟨rfl, (List.cons.inj hlast).1.symm, rfl⟩
  · rw [List.concat_eq_append] at h ⊢
    have hassoc : pre ++ e :: (mid' ++ [y]) = (pre ++ e :: mid') ++ [y] := by simp
    rw [hassoc] at h
    obtain ⟨rfl, hlast⟩ := List.append_inj' h rfl
    obtain rfl := (List.cons.inj hlast).1
    exact .inl ⟨mid', rfl, rfl⟩

end Aqualung.Lib
