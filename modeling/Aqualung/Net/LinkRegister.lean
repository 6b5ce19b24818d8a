/-
# The links and the tasks behind them

Every connection from home that asks the hub for a generation gets one of its own: the tasks stand
in line at `rx`, and the hub hands out generations in turn, so the connections are a kind with a
desk (`homeConns`, `HomesKept`).

From then on the hub and the task agree on what has become of the link (`links_attended`): the hub
has it as long as it has not dropped the task's end of it, and a link whose task has ended is one
whose end the hub has yet to read.  Both sides are known from elsewhere.  What the hub has is what
it has bound and not halted (`Hub/Links.lean`), and the task hears of both in the turn of the hub
(`halted_iff`, `holds_iff`).  That a task with a link does not end in silence is a fact about its
last move (`HomeTask.move_ends`), and that the hub has the link until it has read what the task says
then is one about the order in `rx` (`end_in_rx`).
-/
import Aqualung.Net.Registry

namespace Aqualung

open Lib

/-! ## 1. What a turn of the hub binds -/

/-- A connection is bound in the turn in which it is accepted, and in no other. -/
theorem turn_binds {l : Loop} (hl : l.stopped = false) (t : Turn) :
    (t.input = .recv .accepted ∧
        (Hub.run.step l t).2.findSome? Effect.bound = some (l.hub.nextGen + 1) ∧
        (Hub.run.step l t).1.hub.nextGen = l.hub.nextGen + 1) ∨
      (t.input ≠ .recv .accepted ∧ (Hub.run.step l t).2.findSome? Effect.bound = none ∧
        (Hub.run.step l t).1.hub.nextGen = l.hub.nextGen) := by
  by_cases hin : t.input = .recv .accepted
  · refine .inl ⟨hin, ?_⟩
    have hturn : Hub.run.step l t = (⟨(l.hub.onAccepted t.now).1, false⟩,
        (l.hub.onAccepted t.now).2) := by
      change Loop.turn l t = _
      simp [Loop.turn, hl, hin, Hub.handle]
    rw [hturn, Hub.onAccepted_eq]
    exact ⟨rfl, rfl⟩
  · refine .inr ⟨hin, ?_⟩
    have hnone : ∀ {out : List Effect}, out.filterMap Effect.bound = [] →
        out.findSome? Effect.bound = none := fun hnil => by
      rw [List.findSome?_eq_none_iff]
      exact List.filterMap_eq_nil_iff.mp hnil
    by_cases hstop : t.Stops
    · rw [show Hub.run.step l t = _ from Loop.turn_stops hl hstop]
      exact ⟨hnone (Hub.bound_shutdown _), by simp [Hub.shutdown_eq]⟩
    · obtain ⟨h', out, heq, hs⟩ := Loop.turn_step hl hstop
      rw [show Hub.run.step l t = _ from heq]
      have hgen : h'.nextGen = l.hub.nextGen := by
        cases hs with
        | accepted ht => exact absurd ht hin
        | _ => rfl
      refine ⟨hnone ?_, hgen⟩
      rw [hs.bound_eq.1, hgen, Nat.sub_self, List.range'_zero]

/-! ## 2. What a task hears -/

namespace Effect

/-- The message the effect queues on the link `bound`. -/
def onLink (bound : Option HomeGen) : Effect → Option LeaderClient
  | .toHome g msg => if bound = some g then some msg else none
  | _ => none

/-- The effect halts the link `bound`. -/
def halts (bound : Option HomeGen) : Effect → Bool
  | .halt g => bound = some g
  | _ => false

theorem any_halts {bound : Option HomeGen} {out : List Effect} :
    out.any (halts bound) = true ↔ ∃ g, bound = some g ∧ g ∈ out.filterMap Effect.halted := by
  simp only [List.any_eq_true, List.mem_filterMap]
  constructor
  · rintro ⟨eff, heff, hhalts⟩
    cases eff with
    | halt g => exact ⟨g, by simpa [halts] using hhalts, _, heff, rfl⟩
    | _ => cases hhalts
  · rintro ⟨g, hbound, eff, heff, hhalted⟩
    refine ⟨eff, heff, ?_⟩
    cases eff with
    | halt g' => simpa [halts, hbound, Effect.halted, eq_comm] using hhalted
    | _ => cases hhalted

end Effect

variable {P : Type*} (setup : Setup P)

/-- **What a turn of the hub changes in the task of a home connection.** -/
theorem HomeTask.finalFrom_hear (task : HomeTask) (mine : Bool) (bound : Option HomeGen)
    (out : List Effect) :
    (run setup).finalFrom task (out.filterMap (hear mine bound))
      = { task with
          bound := task.bound.or (if mine then out.findSome? Effect.bound else none)
          out := task.out ++ out.filterMap (Effect.onLink bound)
          halted := task.halted || out.any (Effect.halts bound) } := by
  induction out generalizing task with
  | nil => simp [Machine.finalFrom]
  | cons eff out ih =>
    cases eff with
    | bindGen g =>
      cases mine with
      | true =>
        refine (ih { task with bound := task.bound.or (some g) }).trans ?_
        simp [Effect.onLink, Effect.halts, Effect.bound, List.findSome?_cons, List.filterMap_cons]
      | false =>
        refine (ih task).trans ?_
        simp [Effect.onLink, Effect.halts, List.filterMap_cons]
    | toHome g msg =>
      by_cases hg : bound = some g
      · simp only [List.filterMap_cons, hear, if_pos hg]
        refine (ih { task with out := task.out ++ [msg] }).trans ?_
        simp [Effect.onLink, Effect.halts, Effect.bound, hg, List.findSome?_cons]
      · simp only [List.filterMap_cons, hear, if_neg hg, ih]
        simp [Effect.onLink, Effect.halts, Effect.bound, hg, List.findSome?_cons]
    | halt g =>
      by_cases hg : bound = some g
      · simp only [List.filterMap_cons, hear, if_pos hg]
        refine (ih { task with halted := true }).trans ?_
        simp [Effect.onLink, Effect.halts, Effect.bound, hg, List.findSome?_cons]
      · simp only [List.filterMap_cons, hear, if_neg hg, ih]
        simp [Effect.onLink, Effect.halts, Effect.bound, hg, List.findSome?_cons]
    | bindPhone p =>
      refine (ih task).trans ?_
      simp [Effect.onLink, Effect.halts, Effect.bound, List.findSome?_cons, List.filterMap_cons]
    | toPhone p text =>
      refine (ih task).trans ?_
      simp [Effect.onLink, Effect.halts, Effect.bound, List.findSome?_cons, List.filterMap_cons]

variable {setup}

namespace Serve

/-- The task of a home connection after a turn of the hub. -/
theorem homes_turn (s : Serve) (w : Wake) (k : Nat) :
    (s.turn setup w).1.homes k
      = { s.homes k with
          bound := (s.homes k).boundAfter (w.sender = some (.home k)) (Hub.run.step s.loop w.turn).2
          out := (s.homes k).out ++ (Hub.run.step s.loop w.turn).2.filterMap (Effect.onLink
            ((s.homes k).boundAfter (w.sender = some (.home k)) (Hub.run.step s.loop w.turn).2))
          halted := (s.homes k).halted || (Hub.run.step s.loop w.turn).2.any (Effect.halts
            ((s.homes k).boundAfter (w.sender = some (.home k))
              (Hub.run.step s.loop w.turn).2)) } :=
  HomeTask.finalFrom_hear setup _ _ _ _

end Serve

/-! ## 3. The register of the links -/

def Letter.asksHome : Letter → Option Nat
  | ⟨.home k, .accepted⟩ => some k
  | _ => none

/-- The task has not yet asked for a generation. -/
def HomeTask.Early (task : HomeTask) : Prop := task.phase = .idle ∨ task.phase = .accepting

/-- The connections from home. -/
def homeConns : ConnKind HomeTask where
  number := HomeTask.bound
  Early := HomeTask.Early
  Waits task := task.phase = .binding
  sender := .home
  hello := .accepted
  client := Letter.asksHome
  binds := Effect.bound
  next := Hub.nextGen
  client_iff letter k := by
    obtain ⟨sender, msg⟩ := letter
    cases sender <;> cases msg <;> simp [Letter.asksHome]
  binds_turn hl t := turn_binds hl t

/-- A move of the task either asks for a generation, or it does not. -/
theorem HomeTask.move_asks {task task' : HomeTask} {gone : Bool} {ev : HomeEvent P}
    {out : List HomeOut} (h : (run setup).step task (.move gone ev) = (task', out)) :
    task'.bound = task.bound ∧ task'.halted = task.halted ∧
      ∃ asks, homeConns.clients.Move (gone = false) task task' asks ∧
        homeConns.Says asks (out.filterMap (HomeOut.toHub setup.fromSlice)) := by
  have hs := task.step_spec setup (.move gone ev)
  rw [h] at hs
  have hturn : ∀ (g : HomeGen) (os : List ConnOut),
      ToHub.accepted ∉ (os.map (HomeOut.conn g)).filterMap (HomeOut.toHub setup.fromSlice) := by
    intro g os hmem
    simp only [List.filterMap_map, List.mem_filterMap, Function.comp_apply] at hmem
    obtain ⟨o, -, ho⟩ := hmem
    cases o <;> simp [HomeOut.toHub, ConnOut.toHub] at ho
  generalize task.loopEvents setup (.move gone ev) = evs at hs
  -- A task that does not ask: it does not go back, and it waits as long as nothing has come.
  have hstays : ∀ {task' : HomeTask} {out : List HomeOut}, (task'.Early → task.Early) →
      (task.phase = .binding → task.bound = none → gone = false → task'.phase = .binding) →
      ToHub.accepted ∉ out.filterMap (HomeOut.toHub setup.fromSlice) →
      ∃ asks, homeConns.clients.Move (gone = false) task task' asks ∧
        homeConns.Says asks (out.filterMap (HomeOut.toHub setup.fromSlice)) :=
    fun hearly hwaits hposts =>
      ⟨false, .stays hearly fun hrun hphase hbound => hwaits hphase hbound hrun, hposts⟩
  cases hs with
  | ignored hi => exact ⟨rfl, rfl, hstays id (fun h _ _ => h) (by simp)⟩
  | refused hphase hno => exact ⟨rfl, rfl, hstays (by simp [Early]) (by simp [hphase]) (by simp)⟩
  | accepted hphase hpeer =>
    exact ⟨rfl, rfl, true, .asks rfl (.inr hphase) (by simp [homeConns, ConnKind.clients, Early])
      rfl, rfl⟩
  | bound hphase hbound =>
    exact ⟨rfl, rfl, hstays (by simp [Early]) (by simp [hbound]) (by simp)⟩
  | abandoned hphase hbound => exact ⟨rfl, rfl, hstays (by simp [Early]) (by simp) (by simp)⟩
  | registered hphase =>
    exact ⟨rfl, rfl, hstays (by simp [Early]) (by simp [hphase]) (by simp [HomeOut.toHub])⟩
  | unregistered hphase =>
    exact ⟨rfl, rfl, hstays (by simp [Early]) (by simp [hphase]) (by simp [HomeOut.toHub])⟩
  | socket hconn hev => exact ⟨rfl, rfl, hstays id (fun h _ _ => h) (by simp)⟩
  | turn hphase hcmd hrun hsent =>
    exact ⟨rfl, rfl, hstays (by simp [Early, hphase]) (by simp [hphase]) (hturn _ _)⟩
  | last hphase hcmd hend =>
    exact ⟨rfl, rfl, hstays (by simp [Early]) (by simp [hphase]) (hturn _ _)⟩

/-- The connections that wait for a generation, in the order in which they will get one. -/
def Serve.askingHomes (s : Serve) : List Nat := s.rx.filterMap Letter.asksHome

/-- **The register of the links.** -/
def HomesKept (s : Serve) : Prop := homeConns.Kept s.loop s.rx s.homes

namespace HomesKept

variable {s s' : Serve}

theorem register (hk : HomesKept s) :
    Registered s.askingHomes (fun k => (s.homes k).bound) s.loop.hub.nextGen :=
  Desk.register hk

theorem early (hk : HomesKept s) (k : Nat) (h : (s.homes k).Early) :
    k ∉ s.askingHomes ∧ (s.homes k).bound = none :=
  Desk.early hk k h

theorem waits (hk : HomesKept s) (hrun : s.loop.stopped = false) (k : Nat)
    (h : k ∈ s.askingHomes) : (s.homes k).phase = .binding :=
  Desk.waits hk hrun k h

theorem step (hk : HomesKept s) {ev : ServeEvent P} {out : List ServeOut}
    (hs : Serve.Step setup s ev s' out) : HomesKept s' := by
  cases hs with
  | flags hwake hhome hphone => exact hk
  | dialPhone hacc => exact hk
  | ends => exact hk.others (by simp [homeConns])
  | @phone k ev task out h =>
    refine hk.others fun hmem => ?_
    obtain ⟨o, -, ho⟩ := List.mem_filterMap.mp hmem
    cases o <;> cases ho
  | @dialHome k hacc =>
    have hspawn : ((HomeTask.run setup).step (s.homes k) .spawn).1
        = if (s.homes k).phase = .idle then { s.homes k with phase := .accepting }
          else s.homes k := rfl
    have hmove : homeConns.clients.Move (s.loop.stopped = false) (s.homes k)
        ((HomeTask.run setup).step (s.homes k) .spawn).1 false := by
      rw [hspawn]
      by_cases hidle : (s.homes k).phase = .idle
      · rw [if_pos hidle]
        refine .stays (fun _ => .inl hidle) fun _ hphase => ?_
        cases hidle.symm.trans hphase
      · rw [if_neg hidle]
        exact .stays id fun _ hphase _ => hphase
    have hbound : ((HomeTask.run setup).step (s.homes k) .spawn).1.bound = (s.homes k).bound := by
      rw [hspawn]
      split <;> rfl
    have hkept := hk.moves hbound hmove List.not_mem_nil
    rwa [s.post_nil] at hkept
  | @home k ev task out h =>
    obtain ⟨hbound, -, asks, hmove, hsaid⟩ := HomeTask.move_asks h
    exact hk.moves hbound hmove hsaid
  | turn hw hhome hphone =>
    refine hk.turns hw (fun k => ?_) (fun k => ?_) fun k => ?_
    · change ((s.turn setup _).1.homes k).bound = _
      simp only [Serve.homes_turn, HomeTask.boundAfter, decide_eq_true_eq]
      rfl
    · change HomeTask.Early ((s.turn setup _).1.homes k) → _
      rw [Serve.homes_turn]
      exact id
    · change _ → ((s.turn setup _).1.homes k).phase = _
      rw [Serve.homes_turn]
      exact id

/-- **The register of the links is kept**, whatever the order of events. -/
theorem final (setup : Setup P) (evs : List (ServeEvent P)) :
    HomesKept ((Serve.run setup).final evs) := by
  refine (Serve.run setup).run_induction (P := fun _ s => HomesKept s) ?_ (fun evs ev ih => ?_) evs
  · exact Desk.start fun _ => rfl
  · exact ih.step (Serve.step_spec setup _ ev)

end HomesKept

/-! ## 4. Links and the tasks behind them -/

/-- The turns of the hub in a run of topside. -/
def hubTurns (setup : Setup P) (evs : List (ServeEvent P)) : List Turn :=
  (Serve.hub setup).inputs ((Serve.run setup).history evs)

/-- The loop of the hub in topside is its loop after these turns. -/
theorem loop_final (setup : Setup P) (evs : List (ServeEvent P)) :
    ((Serve.run setup).final evs).loop = Hub.run.final (hubTurns setup evs) :=
  (Serve.hub setup).state_final evs

@[simp] theorem hubTurns_snoc (evs : List (ServeEvent P)) (ev : ServeEvent P) :
    hubTurns setup (evs ++ [ev])
      = hubTurns setup evs ++ ((Serve.run setup).final evs).hubTakes ev := by
  unfold hubTurns
  rw [Machine.history_snoc, Component.inputs_append, Component.inputs_singleton]
  rfl

/-- Without a turn of the hub, its loop and what it has done to the tasks stay as they are. -/
theorem Serve.Step.quiet {s s' : Serve} {ev : ServeEvent P} {out : List ServeOut}
    (hs : Serve.Step setup s ev s' out) :
    (∃ w, s.wake ev = some w ∧ s' = (s.turn setup w).1) ∨
      s.wake ev = none ∧ s'.loop = s.loop ∧
        ∀ k, (s'.homes k).bound = (s.homes k).bound ∧ (s'.homes k).halted = (s.homes k).halted := by
  cases hs with
  | flags hwake => exact .inr ⟨hwake, rfl, fun _ => ⟨rfl, rfl⟩⟩
  | @dialHome k hacc =>
    refine .inr ⟨s.wake_eq_none _ (by simp) (by simp), rfl, fun k' => ?_⟩
    by_cases hne : k' = k
    · subst hne
      simp only [Function.update_self]
      change (HomeTask.step setup (s.homes k') .spawn).1.bound = _ ∧
        (HomeTask.step setup (s.homes k') .spawn).1.halted = _
      unfold HomeTask.step
      by_cases hidle : (s.homes k').phase = .idle <;> simp [hidle]
    · simp [Function.update_of_ne hne]
  | dialPhone hacc =>
    exact .inr ⟨s.wake_eq_none _ (by simp) (by simp), rfl, fun _ => ⟨rfl, rfl⟩⟩
  | @home k ev task out h =>
    refine .inr ⟨s.wake_eq_none _ (by simp) (by simp), rfl, fun k' => ?_⟩
    obtain ⟨hbound, hhalted, -⟩ := HomeTask.move_asks h
    by_cases hne : k' = k
    · subst hne
      simp [hbound, hhalted]
    · simp [Function.update_of_ne hne]
  | phone h => exact .inr ⟨s.wake_eq_none _ (by simp) (by simp), rfl, fun _ => ⟨rfl, rfl⟩⟩
  | turn hw => exact .inl ⟨_, hw, rfl⟩
  | ends => exact .inr ⟨s.wake_eq_none _ (by simp) (by simp), rfl, fun _ => ⟨rfl, rfl⟩⟩

/-- A hub that has ended does not start again. -/
theorem Serve.stopped_step (setup : Setup P) {s : Serve} (ev : ServeEvent P)
    (hstop : s.loop.stopped = true) : ((run setup).step s ev).1.loop.stopped = true := by
  obtain ⟨w, hw, -⟩ | ⟨-, hloop, -⟩ := (s.step_spec setup ev).quiet
  · rw [(wake_spec hw).1] at hstop
    cases hstop
  · rw [hloop, hstop]

/-- A generation that a task has was bound by the hub. -/
theorem bound_of_task (setup : Setup P) (evs : List (ServeEvent P)) {k : Nat} {g : HomeGen}
    (hg : (((Serve.run setup).final evs).homes k).bound = some g) :
    (collect Effect.bound (Hub.run.history (hubTurns setup evs))).count g = 1 := by
  have hbounds := (HomesKept.final setup evs).register.bounds k g hg
  have hmem : g ∈ collect Effect.bound (Hub.run.history (hubTurns setup evs)) := by
    rw [bound_history, ← loop_final, List.mem_range'_1]
    omega
  have hone := List.nodup_iff_count_le_one.mp (nodup_bound (hubTurns setup evs)) g
  have hpos := List.count_pos_iff.mpr hmem
  omega

/-- What has been halted was bound. -/
theorem halted_le (ts : List Turn) {g : HomeGen}
    (hg : g ∈ collect Effect.halted (Hub.run.history ts)) : g ≤ (Hub.run.final ts).hub.nextGen := by
  have hlaw := links_conserved ts g
  have hpos := List.count_pos_iff.mpr hg
  have hmem : g ∈ collect Effect.bound (Hub.run.history ts) := List.count_pos_iff.mp (by omega)
  rw [bound_history, List.mem_range'_1] at hmem
  lia

/-- **A task is told that its link is dropped if and only if it is.** -/
theorem halted_iff (setup : Setup P) (evs : List (ServeEvent P)) (k : Nat) :
    (((Serve.run setup).final evs).homes k).halted = true ↔
      ∃ g, (((Serve.run setup).final evs).homes k).bound = some g ∧
        g ∈ collect Effect.halted (Hub.run.history (hubTurns setup evs)) := by
  induction evs using List.reverseRecOn with
  | nil => simp [Serve.run]
  | append_singleton evs ev ih =>
    have hkept := HomesKept.final setup evs
    have hloop := loop_final setup evs
    have hs := ((Serve.run setup).final evs).step_spec setup ev
    rw [Machine.final_snoc, hubTurns_snoc]
    generalize (Serve.run setup).step ((Serve.run setup).final evs) ev = next at hs ⊢
    obtain ⟨s', out⟩ := next
    generalize (Serve.run setup).final evs = s at hs ih hkept hloop ⊢
    obtain ⟨w, hw, rfl⟩ | ⟨hw, -, hsame⟩ := hs.quiet
    · have hline : collect Effect.halted (Hub.run.history (hubTurns setup evs ++ [w.turn]))
          = collect Effect.halted (Hub.run.history (hubTurns setup evs))
            ++ (Hub.run.step s.loop w.turn).2.filterMap Effect.halted := by
        rw [Hub.run.history_snoc, collect_append, collect_singleton, hloop]
      rw [Serve.hubTakes, hw, Option.toList_some, List.map_singleton, hline, Serve.homes_turn,
        Bool.or_eq_true, Effect.any_halts, ih]
      simp only [List.mem_append]
      cases hbound : (s.homes k).bound with
      | some g => simp [HomeTask.boundAfter, hbound]
      | none =>
        -- A generation that is bound in this turn has not been halted before.
        have hnew : ∀ g, (s.homes k).boundAfter (w.sender = some (.home k))
            (Hub.run.step s.loop w.turn).2 = some g →
            g ∉ collect Effect.halted (Hub.run.history (hubTurns setup evs)) := by
          intro g hg hmem
          have hle := halted_le _ hmem
          rw [← hloop] at hle
          rw [HomeTask.boundAfter, hbound, Option.none_or] at hg
          split at hg
          · obtain ⟨-, hfirst, -⟩ | ⟨-, hfirst, -⟩ := turn_binds (Serve.wake_spec hw).1 w.turn
            · rw [hfirst] at hg
              cases hg
              lia
            · rw [hfirst] at hg
              cases hg
          · cases hg
        constructor
        · rintro (⟨g, hg, -⟩ | ⟨g, hg, hmem⟩)
          · cases hg
          · exact ⟨g, hg, .inr hmem⟩
        · rintro ⟨g, hg, hmem | hmem⟩
          · exact absurd hmem (hnew g hg)
          · exact .inr ⟨g, hg, hmem⟩
    · obtain ⟨hbound, hhalted⟩ := hsame k
      rw [Serve.hubTakes, hw, hbound, hhalted]
      simpa using ih

/-- **The hub has a link as long as it has not told the task otherwise.** -/
theorem holds_iff (setup : Setup P) (evs : List (ServeEvent P)) {k : Nat} {g : HomeGen}
    (hg : (((Serve.run setup).final evs).homes k).bound = some g) :
    ((Serve.run setup).final evs).loop.hub.home.Holds g ↔
      (((Serve.run setup).final evs).homes k).halted = false := by
  have hlaw := links_conserved (hubTurns setup evs) g
  rw [bound_of_task setup evs hg] at hlaw
  have hhalted := halted_iff setup evs k
  simp only [hg, Option.some.injEq, exists_eq_left'] at hhalted
  rw [← Bool.not_eq_true, hhalted, loop_final, ← Home.mem_links, ← List.count_pos_iff,
    ← List.count_pos_iff]
  omega

/-- A task that registers or runs its loop on a link has been bound to the link. -/
theorem bound_of_phase (setup : Setup P) (evs : List (ServeEvent P)) {k : Nat} {g : HomeGen}
    (hphase : (((Serve.run setup).final evs).homes k).phase = .registering g ∨
      (((Serve.run setup).final evs).homes k).phase = .looping g) :
    (((Serve.run setup).final evs).homes k).bound = some g := by
  have hr := HomeTask.reported setup
    ((Serve.homeTask setup k).inputs ((Serve.run setup).history evs))
  rw [← (Serve.homeTask setup k).state_final] at hr
  change HomeTask.Reported setup (((Serve.run setup).final evs).homes k) _ _ at hr
  unfold HomeTask.Reported at hr
  rcases hphase with hphase | hphase
  · rw [hphase] at hr
    exact hr.1
  · rw [hphase] at hr
    exact hr.1

theorem turn_eof {ts : List Turn} {t : Turn} {g : HomeGen} (ht : t.input = .recv (.homeEof g)) :
    ¬ (Hub.run.step (Hub.run.final ts) t).1.hub.home.Holds g := by
  by_cases hholds : (Hub.run.final ts).hub.home.Holds g
  · have hl := Loop.eq_of_running (running_of_holds hholds)
    have hturn : (Hub.run.step (Hub.run.final ts) t).1.hub = ((Hub.run.final ts).hub.onHomeEof g).1 := by
      change (Loop.turn (Hub.run.final ts) t).1.hub = _
      rw [hl]
      simp [Loop.turn, ht, Hub.handle]
    rw [hturn]
    by_cases hm : (Hub.run.final ts).hub.home.mux = some g
    · rw [Hub.onHomeEof_of_mux hm]
      rintro (hm' | hc')
      · simp at hm'
      · simp only [Home.candidate_ofParts, Option.map_eq_some_iff] at hc'
        obtain ⟨c, hc, rfl⟩ := hc'
        exact candidate_ne_mux ts hc hm
    · obtain ⟨c, hc, rfl⟩ := Option.map_eq_some_iff.mp (hholds.resolve_left hm)
      have hrole := Hub.role_eq_candidate.mpr ⟨hm, c, hc, rfl⟩
      simp [Hub.onHomeEof, hrole, Hub.failIncoming_of_candidate hc, Home.Holds, hm]
  · have hturn := turn_stale t hholds (.inl ht)
    rw [show Hub.run.step (Hub.run.final ts) t = _ from hturn]
    exact hholds

/-- The last move of a task with a link says so, unless the hub has dropped the link. -/
theorem HomeTask.move_ends {task task' : HomeTask} {ev : HomeEvent P} {out : List HomeOut}
    (h : (run setup).step task (.move false ev) = (task', out)) (hrun : task.conn.running)
    (hlive : task.phase ≠ .ended) (hearly : task.Early → task.bound = none)
    (hphase : ∀ g, task.phase = .registering g ∨ task.phase = .looping g → task.bound = some g)
    (hend : task'.phase = .ended) {g : HomeGen} (hg : task.bound = some g)
    (hheld : task.halted = false) :
    .homeEof g ∈ out.filterMap (HomeOut.toHub setup.fromSlice) := by
  have hs := task.step_spec setup (.move false ev)
  rw [h] at hs
  generalize task.loopEvents setup (.move false ev) = evs at hs
  cases hs with
  | ignored hi => exact absurd hend hlive
  | refused hphase' hno =>
    rw [hearly (.inr hphase')] at hg
    cases hg
  | unregistered hphase' =>
    obtain rfl : _ = g := Option.some.inj ((hphase _ (.inl hphase')).symm.trans hg)
    exact List.mem_singleton_self _
  | socket hconn hev => exact absurd hend hlive
  | turn hphase' hcmd hrun' hsent => exact absurd hend hlive
  | last hphase' hcmd hstop =>
    obtain rfl : _ = g := Option.some.inj ((hphase _ (.inr hphase')).symm.trans hg)
    obtain hstop | hgone := hstop
    · obtain heof | hhalt := hcmd.ends hrun hstop
      · exact List.mem_filterMap.mpr ⟨_, List.mem_map_of_mem heof, rfl⟩
      · rw [hheld] at hhalt
        cases hhalt
    · cases hgone
  | _ => cases hend

/-- **A task that has ended has told the hub so**: as long as the hub has its link, the end of the
link is in `rx`. -/
theorem end_in_rx (setup : Setup P) (evs : List (ServeEvent P))
    (hrun : ((Serve.run setup).final evs).loop.stopped = false) {k : Nat} {g : HomeGen}
    (hend : (((Serve.run setup).final evs).homes k).phase = .ended)
    (hg : (((Serve.run setup).final evs).homes k).bound = some g)
    (hheld : (((Serve.run setup).final evs).homes k).halted = false) :
    ⟨.home k, .homeEof g⟩ ∈ ((Serve.run setup).final evs).rx := by
  induction evs using List.reverseRecOn with
  | nil => cases hend
  | append_singleton evs ev ih =>
    have hkept := HomesKept.final setup evs
    have hloop := loop_final setup evs
    have hheld' := holds_iff setup (evs ++ [ev]) hg
    have hphase := @bound_of_phase _ setup evs k
    have hwire := HomeTask.wire_kept setup
      ((Serve.homeTask setup k).inputs ((Serve.run setup).history evs))
    rw [← (Serve.homeTask setup k).state_final] at hwire
    have hs := ((Serve.run setup).final evs).step_spec setup ev
    rw [Machine.final_snoc] at hrun hend hg hheld hheld' ⊢
    generalize (Serve.run setup).step ((Serve.run setup).final evs) ev = next at *
    obtain ⟨s', out⟩ := next
    have hconn := hwire.running
    change (((Serve.run setup).final evs).homes k).phase ≠ .ended →
      (((Serve.run setup).final evs).homes k).conn.running at hconn
    clear hwire
    generalize (Serve.run setup).final evs = s at *
    cases hs with
    | flags hwake => exact ih hrun hend hg hheld
    | @dialHome k' hacc =>
      by_cases hne : k = k'
      · subst hne
        simp only [Function.update_self] at hend hg hheld
        change (HomeTask.step setup (s.homes k) .spawn).1.phase = _ at hend
        change (HomeTask.step setup (s.homes k) .spawn).1.bound = _ at hg
        change (HomeTask.step setup (s.homes k) .spawn).1.halted = _ at hheld
        unfold HomeTask.step at hend hg hheld
        by_cases hidle : (s.homes k).phase = .idle
        · simp [hidle] at hend
        · simp only [if_neg hidle] at hend hg hheld
          exact ih hrun hend hg hheld
      · simp only [Function.update_of_ne hne] at hend hg hheld
        exact ih hrun hend hg hheld
    | dialPhone hacc => exact ih hrun hend hg hheld
    | @home k' ev task outs h =>
      by_cases hne : k = k'
      · subst hne
        simp only [Function.update_self] at hend hg hheld
        obtain ⟨hbound, hhalted, -⟩ := HomeTask.move_asks h
        rw [hbound] at hg
        rw [hhalted] at hheld
        by_cases hbefore : (s.homes k).phase = .ended
        · exact Serve.mem_post_of_mem (ih hrun hbefore hg hheld)
        · rw [show s.loop.stopped = false from hrun] at h
          have hmem := HomeTask.move_ends h (hconn hbefore) hbefore
            (fun hearly => (hkept.early k hearly).2) (fun g hg => hphase hg) hend hg hheld
          simp only [Serve.post, show s.loop.stopped = false from hrun, Bool.false_eq_true,
            if_false]
          exact List.mem_append_right _ (List.mem_map_of_mem hmem)
      · simp only [Function.update_of_ne hne] at hend hg hheld
        exact Serve.mem_post_of_mem (ih hrun hend hg hheld)
    | phone h => exact Serve.mem_post_of_mem (ih hrun hend hg hheld)
    | @turn ev w hw =>
      obtain ⟨hrun', hread⟩ := Serve.wake_spec hw
      have hholds := hheld'.mpr hheld
      change ((s.turn setup w).1.homes k).phase = .ended at hend
      change ((s.turn setup w).1.homes k).bound = some g at hg
      change ((s.turn setup w).1.homes k).halted = false at hheld
      rw [Serve.homes_turn] at hend hg hheld
      simp only [Bool.or_eq_false_iff] at hheld
      have hbefore : (s.homes k).bound = some g := by
        cases hbound : (s.homes k).bound with
        | some g' => simpa [HomeTask.boundAfter, hbound] using hg
        | none =>
          -- A task that is bound in this turn still waits for it.
          exfalso
          rw [HomeTask.boundAfter, hbound, Option.none_or] at hg
          split at hg
          · rename_i hmine
            obtain ⟨hin, -, -⟩ | ⟨-, hfirst, -⟩ := turn_binds hrun' w.turn
            · obtain ⟨letter, hrx, hsender, hmsg⟩ | ⟨-, -, hdeadline⟩ := hread
              · have hasks : k ∈ s.askingHomes := by
                  refine List.mem_filterMap.mpr ⟨letter, hrx ▸ List.mem_cons_self, ?_⟩
                  obtain ⟨sender, msg⟩ := letter
                  obtain rfl : ToHub.accepted = msg := by simpa [hin] using hmsg
                  obtain rfl : sender = .home k := by simpa [hsender] using hmine
                  rfl
                have hwaits := hkept.waits hrun' k hasks
                rw [show (s.homes k).phase = .ended from hend] at hwaits
                cases hwaits
              · rw [hin] at hdeadline
                cases hdeadline
            · rw [hfirst] at hg
              cases hg
          · cases hg
      have hmem := ih hrun' hend hbefore hheld.1
      obtain ⟨letter, hrx, -, hmsg⟩ | ⟨hrx, -, -⟩ := hread
      · rw [hrx] at hmem
        obtain rfl | hmem := List.mem_cons.mp hmem
        · have hgone : ¬ (Hub.run.step (Hub.run.final (hubTurns setup evs)) _).1.hub.home.Holds g :=
            turn_eof hmsg
          rw [← hloop] at hgone
          exact absurd hholds hgone
        · exact hmem
      · rw [← hrx] at hmem
        exact hmem
    | ends => exact Serve.mem_post_of_mem (ih hrun hend hg hheld)

/-- A link that the hub has is the link of a task that has not been told otherwise. -/
theorem task_of_link (setup : Setup P) (evs : List (ServeEvent P)) {g : HomeGen}
    (hg : ((Serve.run setup).final evs).loop.hub.home.Holds g) :
    ∃ k, (((Serve.run setup).final evs).homes k).bound = some g ∧
      (((Serve.run setup).final evs).homes k).halted = false := by
  have hle := (held_of_final (hubTurns setup evs) (loop_final setup evs ▸ hg)).2.1
  have hbound := List.count_pos_iff.mpr (Home.mem_links.mpr (loop_final setup evs ▸ hg))
  have hlaw := links_conserved (hubTurns setup evs) g
  have hmem : g ∈ collect Effect.bound (Hub.run.history (hubTurns setup evs)) :=
    List.count_pos_iff.mp (by omega)
  rw [bound_history, List.mem_range'_1, ← loop_final] at hmem
  obtain ⟨k, hk⟩ := (HomesKept.final setup evs).register.given g (by lia) (by lia)
  exact ⟨k, hk, (holds_iff setup evs hk).mp hg⟩

/-- The hub and the tasks agree on the links. -/
structure LinksAttended (s : Serve) : Prop where
  /-- A link is the link of one task. -/
  unique : ∀ k k' g, (s.homes k).bound = some g → (s.homes k').bound = some g → k = k'
  /-- A link that the hub has is the link of a task that has not been told otherwise. -/
  owner : ∀ g, s.loop.hub.home.Holds g →
    ∃ k, (s.homes k).bound = some g ∧ (s.homes k).halted = false
  /-- A task that has not been told otherwise has a link that the hub has. -/
  held : ∀ k g, (s.homes k).bound = some g → (s.homes k).halted = false →
    s.loop.hub.home.Holds g
  /-- If the task has ended, the hub is about to read it. -/
  mourned : ∀ k g, (s.homes k).bound = some g → s.loop.hub.home.Holds g →
    (s.homes k).phase = .ended → ⟨.home k, .homeEof g⟩ ∈ s.rx

/-- **The hub has no link that nobody is behind**, and no task waits on a link that the hub has
forgotten, whatever the order of events: a link in `Home` is the link of one task, which either
runs or has its end in `rx`.

That no two tasks have one generation is the register's; that the two sides agree on what has become
of it is `holds_iff`, and that a task does not end in silence is `end_in_rx`. -/
theorem links_attended (setup : Setup P) (evs : List (ServeEvent P)) :
    LinksAttended ((Serve.run setup).final evs) where
  unique := (HomesKept.final setup evs).register.unique
  owner g := task_of_link setup evs
  held k g hg := (holds_iff setup evs hg).mpr
  mourned k g hg hholds hend := by
    refine end_in_rx setup evs ?_ hend hg ((holds_iff setup evs hg).mp hholds)
    rw [loop_final] at hholds ⊢
    exact running_of_holds hholds

end Aqualung
