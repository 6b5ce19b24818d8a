/-
# Runs of the hub

`Run hist h`: the hub `h`, still in its loop, has the history `hist` behind it.  This is the
form in which invariants are proved: by induction on the run, with one `HubStep` for each
turn (`Run.invariant`).

`running` connects it to the machine `Hub.run`, and `history_split` says what the history of a loop
that has ended looks like: a run, the shutdown, and nothing after it.  Most promises are about what
is sent to phones or queued on links, and a shutdown only halts; so what holds of the run holds of
the whole history, and `step_of_line` finds the step behind a line that does anything else.
-/
import Aqualung.Hub.Step

namespace Aqualung

open Lib

/-! ## 1. Runs -/

/-- The hub a turn of the history found. -/
abbrev hubOf (e : Line) : Hub := e.before.hub

/-- The histories and hubs of a loop that has not ended. -/
inductive Run : List Line → Hub → Prop
  | start : Run [] Hub.new
  | turn {hist : List Line} {h h' : Hub} {t : Turn} {out : List Effect} :
      Run hist h → Loop.turn ⟨h, false⟩ t = (⟨h', false⟩, out) →
        Run (hist ++ [⟨⟨h, false⟩, t, out⟩]) h'

/-- A turn the loop survives is a step of the hub. -/
theorem step_of_turn {h h' : Hub} {t : Turn} {out : List Effect}
    (heq : Loop.turn ⟨h, false⟩ t = (⟨h', false⟩, out)) : HubStep t h h' out := by
  by_cases ht : t.Stops
  · rw [Loop.turn_stops rfl ht] at heq
    cases heq
  · obtain ⟨h'', out', heq', hstep⟩ := Loop.turn_step (l := ⟨h, false⟩) rfl ht
    rw [heq'] at heq
    cases heq
    exact hstep

/-- **The invariant rule for the hub**: what holds of the new hub and survives every step
holds along every run. -/
theorem Run.invariant {P : List Line → Hub → Prop} (h0 : P [] Hub.new)
    (hstep : ∀ {hist h t h' out}, Run hist h → HubStep t h h' out → P hist h →
      P (hist ++ [⟨⟨h, false⟩, t, out⟩]) h')
    {hist : List Line} {h : Hub} (hr : Run hist h) : P hist h := by
  induction hr with
  | start => exact h0
  | turn hr heq ih => exact hstep hr (step_of_turn heq) ih

/-! ## 2. Runs and the machine -/

/-- The loop after a list of turns is running or has ended; if it is running, its history is
a run. -/
theorem running {ts : List Turn} (h : (Hub.run.final ts).stopped = false) :
    Run (Hub.run.history ts) (Hub.run.final ts).hub := by
  revert h
  refine Hub.run.run_induction (P := fun hist l => l.stopped = false → Run hist l.hub)
    (fun _ => .start) (fun is t ih h => ?_) ts
  generalize Hub.run.final is = l at ih h ⊢
  obtain ⟨hub, stopped⟩ := l
  cases stopped with
  | true => simp [Hub.run, Loop.turn_stopped] at h
  | false =>
    refine (ih rfl).turn ?_
    generalize hturn : Hub.run.step ⟨hub, false⟩ t = step at h ⊢
    obtain ⟨⟨h', stopped'⟩, out⟩ := step
    rw [show Loop.turn ⟨hub, false⟩ t = (⟨h', stopped'⟩, out) from hturn, ← h]

/-- A line in the middle of a run: what came before is a run, and the line is a turn from
there. -/
theorem Run.at_line {pre post : List Line} {e : Line} {hist : List Line} {h : Hub}
    (hr : Run hist h) (heq : hist = pre ++ e :: post) :
    e.before.stopped = false ∧ Run pre (hubOf e) ∧
      ∃ h', HubStep e.input (hubOf e) h' e.out := by
  induction hr generalizing post with
  | start => simp at heq
  | @turn hist' h₀ h' t out hr hturn ih =>
    rcases List.eq_nil_or_concat post with rfl | ⟨post', e', rfl⟩
    · obtain ⟨rfl, hlast⟩ := List.append_inj' heq rfl
      obtain rfl := (List.cons.inj hlast).1
      exact ⟨rfl, hr, h', step_of_turn hturn⟩
    · refine @ih post' ?_
      have hassoc : pre ++ e :: (post' ++ [e']) = (pre ++ e :: post') ++ [e'] := by simp
      rw [List.concat_eq_append, hassoc] at heq
      exact (List.append_inj' heq rfl).1

/-- Every line of a run is a step of the hub it found. -/
theorem Run.step_of_mem {hist : List Line} {h : Hub} (hr : Run hist h) {e : Line}
    (he : e ∈ hist) : ∃ h', HubStep e.input (hubOf e) h' e.out := by
  obtain ⟨pre, post, heq⟩ := List.append_of_mem he
  exact (hr.at_line heq).2.2

theorem Run.exists_turns {hist : List Line} {h : Hub} (hr : Run hist h) :
    ∃ ts, Hub.run.history ts = hist ∧ Hub.run.final ts = ⟨h, false⟩ := by
  induction hr with
  | start => exact ⟨[], rfl, rfl⟩
  | @turn hist h h' t out hr heq ih =>
    obtain ⟨ts, hhist, hfinal⟩ := ih
    have hstep : Hub.run.step (Hub.run.final ts) t = (⟨h', false⟩, out) := by
      rw [hfinal]
      exact heq
    exact ⟨ts ++ [t], by rw [Hub.run.history_snoc, hstep, hhist, hfinal],
      by rw [Hub.run.final_snoc, hstep]⟩

theorem Loop.eq_of_running {l : Loop} (hl : l.stopped = false) : l = ⟨l.hub, false⟩ := by
  rw [← hl]

/-- What the loop does on one more turn: nothing when it has ended, the shutdown when the turn
ends it, and otherwise a step that continues the run. -/
theorem turn_cases (ts : List Turn) (t : Turn) :
    ((Hub.run.final ts).stopped = true ∧
        Hub.run.step (Hub.run.final ts) t = (Hub.run.final ts, [])) ∨
      (Run (Hub.run.history ts) (Hub.run.final ts).hub ∧ t.Stops ∧
        Hub.run.step (Hub.run.final ts) t
          = (⟨(Hub.run.final ts).hub.shutdown.1, true⟩, (Hub.run.final ts).hub.shutdown.2)) ∨
      (Run (Hub.run.history ts) (Hub.run.final ts).hub ∧
        ∃ h' out, Hub.run.step (Hub.run.final ts) t = (⟨h', false⟩, out) ∧
          HubStep t (Hub.run.final ts).hub h' out) := by
  cases hs : (Hub.run.final ts).stopped with
  | true => exact .inl ⟨rfl, Loop.turn_stopped hs t⟩
  | false =>
    refine .inr ?_
    by_cases ht : t.Stops
    · exact .inl ⟨running hs, ht, Loop.turn_stops hs ht⟩
    · obtain ⟨h', out, heq, hstep⟩ := Loop.turn_step hs ht
      exact .inr ⟨running hs, h', out, heq, hstep⟩

/-- An ended loop has neither links nor phones. -/
theorem hub_of_stopped {ts : List Turn} (hstop : (Hub.run.final ts).stopped = true) :
    (Hub.run.final ts).hub.home = .away ∧ (Hub.run.final ts).hub.phones = ∅ := by
  induction ts using List.reverseRecOn with
  | nil => cases hstop
  | append_singleton ts t ih =>
    rw [Hub.run.final_snoc] at hstop ⊢
    obtain ⟨hbefore, heq⟩ | ⟨-, -, heq⟩ | ⟨-, h', out, heq, -⟩ := turn_cases ts t
    · rw [heq]
      exact ih hbefore
    · rw [heq, Hub.shutdown_eq]
      exact ⟨rfl, rfl⟩
    · rw [heq] at hstop
      cases hstop

theorem phones_of_stopped {ts : List Turn} (hstop : (Hub.run.final ts).stopped = true) :
    (Hub.run.final ts).hub.phones = ∅ :=
  (hub_of_stopped hstop).2

theorem running_of_holds {ts : List Turn} {g : HomeGen}
    (hg : (Hub.run.final ts).hub.home.Holds g) : (Hub.run.final ts).stopped = false := by
  cases hstop : (Hub.run.final ts).stopped with
  | false => rfl
  | true =>
    rw [(hub_of_stopped hstop).1] at hg
    rcases hg with hg | hg
    · cases hg
    · cases hg

theorem running_of_phone {ts : List Turn} {p : PhoneId} {phone : Phone}
    (hp : (Hub.run.final ts).hub.phones.lookup p = some phone) :
    (Hub.run.final ts).stopped = false := by
  cases hstop : (Hub.run.final ts).stopped with
  | false => rfl
  | true =>
    rw [phones_of_stopped hstop] at hp
    cases hp

/-- What a phone says to a running loop is a step. -/
theorem text_step {ts : List Turn} {t : Turn} {p : PhoneId} {text : RpcText}
    (hrunning : (Hub.run.final ts).stopped = false)
    (ht : t.input = .recv (.phoneText p text)) :
    ∃ h' out, Hub.run.step (Hub.run.final ts) t = (⟨h', false⟩, out) ∧
      HubStep t (Hub.run.final ts).hub h' out := by
  refine Loop.turn_step hrunning ?_
  rintro (hin | hin)
  · cases ht.symm.trans hin
  · cases ht.symm.trans hin

/-- A line of a history is written by an ended loop, by the shutdown, or by a step after a
run. -/
theorem line_cases {ts : List Turn} {pre post : List Line} {e : Line}
    (hsplit : Hub.run.history ts = pre ++ e :: post) :
    (e.before.stopped = true ∧ e.out = []) ∨
      (Run pre (hubOf e) ∧ e.input.Stops ∧ e.out = (hubOf e).shutdown.2) ∨
      (Run pre (hubOf e) ∧ e.before = ⟨hubOf e, false⟩ ∧
        ∃ h', Loop.turn ⟨hubOf e, false⟩ e.input = (⟨h', false⟩, e.out) ∧
          HubStep e.input (hubOf e) h' e.out) := by
  obtain ⟨js, t, ks, -, rfl, rfl⟩ := Hub.run.history_eq_append hsplit
  obtain ⟨hstop, heq⟩ | ⟨hr, hstops, heq⟩ | ⟨hr, h', out, heq, hs⟩ := turn_cases js t
  · exact .inl ⟨hstop, congrArg Prod.snd heq⟩
  · exact .inr (.inl ⟨hr, hstops, congrArg Prod.snd heq⟩)
  · have hl := Loop.stopped_of_turn heq
    have hbefore := Loop.eq_of_running hl
    refine .inr (.inr ⟨hr, hbefore, h', ?_, by rw [heq]; exact hs⟩)
    change Loop.turn ⟨(Hub.run.final js).hub, false⟩ t = _
    rw [← hbefore, heq]
    exact heq

/-- A line that does something else than halt links is a step after a run. -/
theorem step_of_line {ts : List Turn} {pre post : List Line} {e : Line}
    (hsplit : Hub.run.history ts = pre ++ e :: post) {eff : Effect} (heff : eff ∈ e.out)
    (hne : ∀ g, eff ≠ .halt g) :
    Run pre (hubOf e) ∧ e.before = ⟨hubOf e, false⟩ ∧
      ∃ h', Loop.turn ⟨hubOf e, false⟩ e.input = (⟨h', false⟩, e.out) ∧
        HubStep e.input (hubOf e) h' e.out := by
  obtain ⟨-, hout⟩ | ⟨-, -, hout⟩ | hstep := line_cases hsplit
  · rw [hout] at heff
    exact absurd heff List.not_mem_nil
  · rw [hout, Hub.shutdown_eq] at heff
    simp only [List.mem_append, Option.mem_toList, Option.map_eq_some_iff] at heff
    rcases heff with ⟨c, -, rfl⟩ | ⟨g, -, rfl⟩
    · exact absurd rfl (hne _)
    · exact absurd rfl (hne _)
  · exact hstep

/-- A line that at most halts links. -/
def Quiet (e : Line) : Prop := ∀ eff ∈ e.out, ∃ g, eff = .halt g

/-- **Every history is a run and a quiet tail.**  The tail is the shutdown and what comes
after it. -/
theorem history_split (ts : List Turn) :
    ∃ hist h tail, Run hist h ∧ Hub.run.history ts = hist ++ tail ∧ (∀ e ∈ tail, Quiet e) ∧
      h.nextReq = (Hub.run.final ts).hub.nextReq := by
  induction ts using List.reverseRecOn with
  | nil => exact ⟨[], Hub.new, [], .start, rfl, fun _ he => absurd he List.not_mem_nil, rfl⟩
  | append_singleton ts t ih =>
    rw [Hub.run.history_snoc, Hub.run.final_snoc]
    obtain ⟨hstop, heq⟩ | ⟨hr, -, heq⟩ | ⟨hr, h', out, heq, -⟩ := turn_cases ts t
    · obtain ⟨hist, h, tail, hr, hhist, hquiet, hreq⟩ := ih
      refine ⟨hist, h, tail ++ [⟨_, t, _⟩], hr, by rw [hhist, List.append_assoc],
        fun e he => ?_, by rw [heq, hreq]⟩
      rcases List.mem_append.mp he with he | he
      · exact hquiet e he
      · rw [List.mem_singleton.mp he, heq]
        exact fun _ heff => absurd heff List.not_mem_nil
    · refine ⟨_, _, [⟨_, t, _⟩], hr, rfl, fun e he => ?_, by rw [heq, Hub.shutdown_eq]⟩
      rw [List.mem_singleton.mp he, heq, Hub.shutdown_eq]
      intro eff heff
      simp only [List.mem_append, Option.mem_toList, Option.map_eq_some_iff] at heff
      rcases heff with ⟨c, -, rfl⟩ | ⟨g, -, rfl⟩
      · exact ⟨_, rfl⟩
      · exact ⟨_, rfl⟩
    · have hrun : Run (Hub.run.history (ts ++ [t])) (Hub.run.final (ts ++ [t])).hub :=
        running (by rw [Hub.run.final_snoc, heq])
      rw [Hub.run.history_snoc, Hub.run.final_snoc] at hrun
      exact ⟨_, _, [], hrun, (List.append_nil _).symm, fun _ he => absurd he List.not_mem_nil, rfl⟩

/-! ## 3. Turns by hand -/

/-- A turn that receives the message, at time 0. -/
abbrev Turn.get (msg : ToHub) : Turn := { input := .recv msg }

/-- The link `g` registers, ready, with version 1. -/
abbrev Turn.register (g : HomeGen) : Turn := .get (.homeFrame g (.registered true 1))

/-- The link `g` says `obj`. -/
abbrev Turn.home (g : HomeGen) (obj : Obj) : Turn := .get (.homeFrame g (.acp (.ofObj obj)))

/-- The phone `p` says `obj`. -/
abbrev Turn.phone (p : PhoneId) (obj : Obj) : Turn := .get (.phoneText p (.ofObj obj))

abbrev request (id : Json) (method : String) (session : SessionId) : Obj :=
  Obj.ofFields [("id", id), ("method", .str method),
    ("params", .obj (Obj.ofFields [("sessionId", .str session)]))]

abbrev answer (id : Json) : Obj := Obj.ofFields [("id", id), ("result", .obj [])]

/-- The turns that bring up a first link, generation 1, with no session to load, and then a
first phone, phone 1, that is answered `initialize`. -/
def Turn.bringUp : List Turn :=
  [.get .accepted, .register 1, .home 1 (answer (.ofU64 1)), .get .phoneHello,
    .phone 1 (Obj.ofFields [("id", .ofU64 0), ("method", .str "initialize")])]

end Aqualung
