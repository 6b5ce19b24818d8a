/-
# Machines at work in a machine

A system is made of machines that pass each other messages.  To speak of one of them while the
whole system moves, one says which part of the system's state is its state, what it takes in a
step of the system, and which of the system's outputs are its outputs.  If these fit together
step by step (`Component`), a run of the system contains a run of the machine
(`Component.state_final`, `Component.collect_gives`), and what is known of the runs of the
machine is known of it in the system, whatever else happens there.

Messages on their way from one machine to another wait in a queue.  `Mailbox` is a queue in the
state of a machine: what has been put in is what has been taken out and what is in it, in this
order (`Mailbox.put_eq`).  This one equation is all that delivery needs: nothing is lost, nothing
is doubled and nothing overtakes.  A component brings its mailboxes with it
(`Component.mailbox`).

A `Server` is a mailbox with somebody who serves it: as long as the machine is `Live`, an input
that `serves` takes at least one message out, unless there is none.  From this alone follows that
a message does not wait for ever.  With `n` such inputs the first `n` messages are taken
(`Server.take_served`), because what comes in between only adds at the end.  The server may end
instead, and nothing brings it back (`Server.ended_final`); this is the only excuse.
-/
import Aqualung.Lib.Machine

namespace Aqualung.Lib

universe u₁ u₂ u₃ v₁ v₂ v₃ w

/-- Inputs that have no outputs in any state have none together. -/
theorem Machine.silent {S : Type u₁} {I : Type u₂} {O : Type u₃} (m : Machine S I O) {is : List I}
    (h : ∀ i ∈ is, ∀ s, (m.step s i).2 = []) (s : S) :
    (m.historyFrom s is).flatMap Entry.out = [] := by
  induction is generalizing s with
  | nil => rfl
  | cons i is ih =>
    rw [Machine.historyFrom, List.flatMap_cons, h i List.mem_cons_self s,
      ih (fun j hj => h j (List.mem_cons_of_mem _ hj))]
    rfl

/-- What is selected and unfolded is selected. -/
theorem flatMap_filterMap {α : Type u₁} {β : Type u₂} {γ : Type u₃} {f : α → Option β}
    {g : β → List γ} {h : α → Option γ} (hone : ∀ a, (f a).toList.flatMap g = (h a).toList)
    (l : List α) : (l.filterMap f).flatMap g = l.filterMap h := by
  rw [List.filterMap_eq_flatMap_toList, List.filterMap_eq_flatMap_toList, List.flatMap_assoc]
  exact congrArg (l.flatMap ·) (funext hone)

/-! ## 1. Components -/

/-- The machine `n` is at work in the machine `m`. -/
structure Component {S : Type u₁} {I : Type u₂} {O : Type u₃} {S' : Type v₁} {I' : Type v₂}
    {O' : Type v₃} (m : Machine S I O) (n : Machine S' I' O') where
  /-- Its state. -/
  state : S → S'
  /-- What it takes in a step of `m`. -/
  takes : S → I → List I'
  /-- Which outputs are its outputs. -/
  gives : O → Option O'
  state_init : state m.init = n.init
  state_step : ∀ s i, state (m.step s i).1 = n.finalFrom (state s) (takes s i)
  gives_step : ∀ s i, (m.step s i).2.filterMap gives =
    (n.historyFrom (state s) (takes s i)).flatMap Entry.out

namespace Component

variable {S : Type u₁} {I : Type u₂} {O : Type u₃} {S' : Type v₁} {I' : Type v₂} {O' : Type v₃}
  {m : Machine S I O} {n : Machine S' I' O'} (c : Component m n)

/-- What the component takes in the lines of a history. -/
def inputs (hist : List (Entry S I O)) : List I' :=
  hist.flatMap fun e => c.takes e.before e.input

@[simp] theorem inputs_nil : c.inputs [] = [] := rfl

@[simp] theorem inputs_append (hist hist' : List (Entry S I O)) :
    c.inputs (hist ++ hist') = c.inputs hist ++ c.inputs hist' := by
  simp [inputs]

@[simp] theorem inputs_singleton (e : Entry S I O) : c.inputs [e] = c.takes e.before e.input := by
  simp [inputs]

/-- **A run of the system contains a run of the component**: it ends in the component's state. -/
theorem state_final (is : List I) :
    c.state (m.final is) = n.final (c.inputs (m.history is)) := by
  refine m.run_induction (P := fun hist s => c.state s = n.final (c.inputs hist)) c.state_init ?_ is
  intro is i ih
  rw [c.state_step, ih, inputs_append, inputs_singleton, n.final_append, ← ih]

/-- **The run of the component, line by line** as the system moves. -/
theorem history_inputs (is : List I) :
    n.history (c.inputs (m.history is)) =
      (m.history is).flatMap fun e => n.historyFrom (c.state e.before) (c.takes e.before e.input) := by
  induction is using List.reverseRecOn with
  | nil => rfl
  | append_singleton is i ih =>
    rw [m.history_snoc, inputs_append, inputs_singleton, n.history_append, ih, ← c.state_final,
      List.flatMap_append, List.flatMap_singleton]

/-- **The outputs of the component** in a run of the system are those of its own run. -/
theorem collect_gives (is : List I) :
    collect c.gives (m.history is) =
      (n.history (c.inputs (m.history is))).flatMap Entry.out := by
  induction is using List.reverseRecOn with
  | nil => rfl
  | append_singleton is i ih =>
    rw [m.history_snoc, collect_append, collect_singleton, ih, c.gives_step, inputs_append,
      inputs_singleton, n.history_append, List.flatMap_append, c.state_final]

/-- What is selected from the outputs of the component is selected from those of the system. -/
theorem collect_bind {α : Type*} (f : O' → Option α) (is : List I) :
    collect (fun o => (c.gives o).bind f) (m.history is) =
      collect f (n.history (c.inputs (m.history is))) := by
  have hgives := congrArg (List.filterMap f) (c.collect_gives is)
  rw [collect, List.filterMap_filterMap] at hgives
  exact hgives

end Component

/-! ## 2. Mailboxes -/

/-- A queue in the state of a machine, into which messages are put at the end and from which they
are taken at the front. -/
structure Mailbox {S : Type u₁} {I : Type u₂} {O : Type u₃} (m : Machine S I O) (M : Type w) where
  queue : S → List M
  puts : S → I → List M
  takes : S → I → List M
  queue_init : queue m.init = []
  queue_step : ∀ s i, queue s ++ puts s i = takes s i ++ queue (m.step s i).1

namespace Mailbox

variable {S : Type u₁} {I : Type u₂} {O : Type u₃} {M : Type w} {m : Machine S I O}
  (b : Mailbox m M)

/-- What has been put in. -/
def put (hist : List (Entry S I O)) : List M := hist.flatMap fun e => b.puts e.before e.input

/-- What has been taken out. -/
def taken (hist : List (Entry S I O)) : List M := hist.flatMap fun e => b.takes e.before e.input

@[simp] theorem put_append (hist hist' : List (Entry S I O)) :
    b.put (hist ++ hist') = b.put hist ++ b.put hist' := by
  simp [put]

@[simp] theorem put_singleton (e : Entry S I O) : b.put [e] = b.puts e.before e.input := by
  simp [put]

@[simp] theorem taken_append (hist hist' : List (Entry S I O)) :
    b.taken (hist ++ hist') = b.taken hist ++ b.taken hist' := by
  simp [taken]

@[simp] theorem taken_singleton (e : Entry S I O) : b.taken [e] = b.takes e.before e.input := by
  simp [taken]

/-- What has been put in, where that does not depend on the state. -/
theorem put_history {f : I → List M} (hputs : ∀ s i, b.puts s i = f i) (is : List I) :
    b.put (m.history is) = is.flatMap f := by
  have hinputs := m.map_input_historyFrom m.init is
  calc b.put (m.history is) = (m.history is).flatMap fun e => f e.input := by simp only [put, hputs]
    _ = ((m.history is).map Entry.input).flatMap f := by rw [List.flatMap_map]
    _ = is.flatMap f := by rw [Machine.history, hinputs]

/-- What was in the mailbox, and what has been put in since, has been taken out since or is in it. -/
theorem queue_eq (s : S) (is : List I) :
    b.queue s ++ b.put (m.historyFrom s is)
      = b.taken (m.historyFrom s is) ++ b.queue (m.finalFrom s is) := by
  induction is generalizing s with
  | nil => simp [put, taken, Machine.historyFrom, Machine.finalFrom]
  | cons i is ih =>
    have hrest := ih (m.step s i).1
    simp only [put, taken] at hrest
    simp only [put, taken, Machine.historyFrom, Machine.finalFrom, List.flatMap_cons]
    calc b.queue s ++ (b.puts s i ++ _) = (b.queue s ++ b.puts s i) ++ _ :=
          (List.append_assoc ..).symm
      _ = b.takes s i ++ (b.queue (m.step s i).1 ++ _) := by
          rw [b.queue_step, List.append_assoc]
      _ = (b.takes s i ++ _) ++ _ := by rw [hrest, List.append_assoc]

/-- **Nothing is lost, doubled or reordered in a mailbox.** -/
theorem put_eq (is : List I) :
    b.put (m.history is) = b.taken (m.history is) ++ b.queue (m.final is) := by
  have hqueue := b.queue_eq m.init is
  rwa [b.queue_init, List.nil_append] at hqueue

end Mailbox

/-- The mailbox of a component is a mailbox of the system. -/
def Component.mailbox {S : Type u₁} {I : Type u₂} {O : Type u₃} {S' : Type v₁} {I' : Type v₂}
    {O' : Type v₃} {M : Type w} {m : Machine S I O} {n : Machine S' I' O'} (c : Component m n)
    (b : Mailbox n M) : Mailbox m M where
  queue s := b.queue (c.state s)
  puts s i := b.put (n.historyFrom (c.state s) (c.takes s i))
  takes s i := b.taken (n.historyFrom (c.state s) (c.takes s i))
  queue_init := by rw [c.state_init, b.queue_init]
  queue_step s i := by rw [c.state_step, b.queue_eq]

/-- What is taken from it in a run of the system is what the component takes from it in its own. -/
theorem Component.taken_mailbox {S : Type u₁} {I : Type u₂} {O : Type u₃} {S' : Type v₁}
    {I' : Type v₂} {O' : Type v₃} {M : Type w} {m : Machine S I O} {n : Machine S' I' O'}
    (c : Component m n) (b : Mailbox n M) (is : List I) :
    (c.mailbox b).taken (m.history is) = b.taken (n.history (c.inputs (m.history is))) := by
  rw [c.history_inputs, Mailbox.taken, Mailbox.taken, List.flatMap_assoc]
  rfl

/-- What the component has taken in a longer run of the system. -/
theorem Component.taken_run {S : Type u₁} {I : Type u₂} {O : Type u₃} {S' : Type v₁}
    {I' : Type v₂} {O' : Type v₃} {M : Type w} {m : Machine S I O} {n : Machine S' I' O'}
    (c : Component m n) (b : Mailbox n M) (is js : List I) :
    b.taken (n.history (c.inputs (m.history (is ++ js))))
      = b.taken (n.history (c.inputs (m.history is)))
        ++ (c.mailbox b).taken (m.historyFrom (m.final is) js) := by
  rw [← c.taken_mailbox, ← c.taken_mailbox, m.history_append, Mailbox.taken_append]

/-! ## 3. Servers -/

/-- A machine that takes messages from a mailbox as long as it is `Live`: some inputs serve the
mailbox, and each of these takes something if there is something.  It is live until it has
`Ended`, and then it has ended for good. -/
structure Server {S : Type u₁} {I : Type u₂} {O : Type u₃} (m : Machine S I O) (M : Type w)
    extends Mailbox m M where
  Live : S → Prop
  Ended : S → Prop
  serves : I → Bool
  live_step : ∀ s i, Live s → Live (m.step s i).1 ∨ Ended (m.step s i).1
  ended_step : ∀ s i, Ended s → Ended (m.step s i).1
  serves_takes : ∀ s i, Live s → serves i = true → queue s ≠ [] → takes s i ≠ []

namespace Server

variable {S : Type u₁} {I : Type u₂} {O : Type u₃} {M : Type w} {m : Machine S I O}
  (v : Server m M)

theorem ended_final {s : S} (h : v.Ended s) (is : List I) : v.Ended (m.finalFrom s is) :=
  m.keeps v.ended_step h is

/-- What has not ended later had not ended before. -/
theorem not_ended {s : S} {is : List I} (hend : ¬ v.Ended (m.finalFrom s is)) : ¬ v.Ended s :=
  fun h => hend (v.ended_final h is)

theorem live_or_ended {s : S} (h : v.Live s) (is : List I) :
    v.Live (m.finalFrom s is) ∨ v.Ended (m.finalFrom s is) := by
  refine m.keeps (P := fun s => v.Live s ∨ v.Ended s) (fun s i hs => ?_) (.inl h) is
  rcases hs with hlive | hend
  · exact v.live_step s i hlive
  · exact .inr (v.ended_step s i hend)

/-- A server that has not ended is as live as it was. -/
theorem live_final {s : S} (h : v.Live s) {is : List I} (hend : ¬ v.Ended (m.finalFrom s is)) :
    v.Live (m.finalFrom s is) :=
  (v.live_or_ended h is).resolve_right hend

/-- **The service rule.**  If the server has not ended, then as many inputs that serve the mailbox
as one likes have taken as many of the messages that were in it, whatever came in between. -/
theorem take_served {s : S} (h : v.Live s) {is : List I} (hend : ¬ v.Ended (m.finalFrom s is))
    {n : Nat} (hn : n ≤ is.countP v.serves) :
    (v.queue s).take n <+: v.taken (m.historyFrom s is) := by
  induction is generalizing s n with
  | nil => simp [Nat.le_zero.mp hn]
  | cons i is ih =>
    have hstep := v.queue_step s i
    have hlive : v.Live (m.step s i).1 :=
      (v.live_step s i h).resolve_right fun hend' => hend (v.ended_final hend' is)
    -- One message less is left for the inputs that remain, if this one serves the mailbox.
    have hrest : ∀ k, k ≤ is.countP v.serves → n ≤ (v.takes s i).length + k →
        (v.queue s).take n <+: v.takes s i ++ v.taken (m.historyFrom (m.step s i).1 is) := by
      intro k hk hle
      have hpart := ih hlive hend hk
      have hqueue : (v.queue s).take n <+: v.takes s i ++ v.queue (m.step s i).1 :=
        hstep ▸ (List.take_prefix ..).trans (List.prefix_append _ _)
      have htaken : v.takes s i ++ (v.queue (m.step s i).1).take k
          <+: v.takes s i ++ v.queue (m.step s i).1 :=
        (List.prefix_append_right_inj _).mpr (List.take_prefix ..)
      have hlength := congrArg List.length hstep
      refine List.IsPrefix.trans ?_ ((List.prefix_append_right_inj _).mpr hpart)
      refine List.prefix_of_prefix_length_le hqueue htaken ?_
      simp only [List.length_append, List.length_take] at hlength ⊢
      omega
    rw [List.countP_cons] at hn
    change _ <+: v.takes s i ++ v.taken (m.historyFrom (m.step s i).1 is)
    by_cases hserves : v.serves i = true
    · rw [if_pos hserves] at hn
      by_cases hnil : v.queue s = []
      · simp [hnil]
      · have hpos := List.length_pos_iff.mpr (v.serves_takes s i h hserves hnil)
        exact hrest (n - 1) (by omega) (by omega)
    · rw [if_neg hserves] at hn
      exact hrest n hn (by omega)

/-- All that was in the mailbox has been taken, after as many inputs that serve it. -/
theorem served {s : S} (h : v.Live s) {is : List I} (hend : ¬ v.Ended (m.finalFrom s is))
    (hcount : (v.queue s).length ≤ is.countP v.serves) :
    v.queue s <+: v.taken (m.historyFrom s is) := by
  have htaken := v.take_served h hend hcount
  rwa [List.take_length] at htaken

end Server

/-- A machine whose states have a phase is a server if it serves its mailbox in the phases of a
loop, which it leaves only to end, and if what has ended stays so. -/
def Mailbox.phased {S : Type u₁} {I : Type u₂} {O : Type u₃} {M : Type w} {m : Machine S I O}
    (b : Mailbox m M) {Φ : Type*} (phase : S → Φ) (Loop : Φ → Prop) (ended : Φ) (serves : I → Bool)
    (hstep : ∀ s i, phase (m.step s i).1 = phase s ∨
      phase s ≠ ended ∧ (¬ Loop (phase s) ∨ phase (m.step s i).1 = ended))
    (htakes : ∀ s i, Loop (phase s) → serves i = true → b.queue s ≠ [] → b.takes s i ≠ []) :
    Server m M where
  toMailbox := b
  Live s := Loop (phase s)
  Ended s := phase s = ended
  serves := serves
  live_step s i hlive := by
    rcases hstep s i with hsame | ⟨-, hnot | hend⟩
    · exact .inl (hsame ▸ hlive)
    · exact absurd hlive hnot
    · exact .inr hend
  ended_step s i hend := by
    rcases hstep s i with hsame | ⟨hgoing, -⟩
    · exact hsame.trans hend
    · exact absurd hend hgoing
  serves_takes := htakes

/-- A server at work in a system serves its mailbox there, with the inputs of the system that
begin with one of its own. -/
def Component.server {S : Type u₁} {I : Type u₂} {O : Type u₃} {S' : Type v₁} {I' : Type v₂}
    {O' : Type v₃} {M : Type w} {m : Machine S I O} {n : Machine S' I' O'} (c : Component m n)
    (v : Server n M) (serves : I → Bool)
    (hserves : ∀ s i, serves i = true → ∃ j js, c.takes s i = j :: js ∧ v.serves j = true) :
    Server m M where
  toMailbox := c.mailbox v.toMailbox
  Live s := v.Live (c.state s)
  Ended s := v.Ended (c.state s)
  serves := serves
  live_step s i h := by
    rw [c.state_step]
    exact v.live_or_ended h _
  ended_step s i h := by
    rw [c.state_step]
    exact v.ended_final h _
  serves_takes s i h hi hne := by
    obtain ⟨j, js, htakes, hj⟩ := hserves s i hi
    change v.taken (n.historyFrom (c.state s) (c.takes s i)) ≠ []
    rw [htakes]
    exact List.append_ne_nil_of_left_ne_nil (v.serves_takes _ j h hj hne) _

end Aqualung.Lib
