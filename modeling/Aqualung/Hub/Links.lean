/-
# The life of a link

A link is bound when its connection is accepted, stands in `Home` as the candidate or as the
serving link, and is halted when it leaves.  The accounting of this is one conservation law:
in every step, the links held before and the links bound are the links held after and the
links halted (`HubStep.conserved`).

Generations are counted and not just collected, so the law says more than that no link is
forgotten.  Along a run (`links_conserved`), with the generations bound being `1`, `2` and so on
(`bound_history`), it says that every generation ever bound is in `Home` or has been halted, and not
both, and that neither happened twice.  In particular the two halves of `Home` are different links,
and a frame of a link that has left is known by its generation and has no effect (`turn_stale`).

`link_life_cycle` adds the reasons: which turns take the serving link away, and that an accepted
connection becomes the candidate whatever there was before.
-/
import Aqualung.Hub.History

namespace Aqualung

open Lib

/-! ## 1. The links in `Home` -/

namespace Home

/-- The generations of the links in `Home`. -/
def links (home : Home) : List HomeGen :=
  (home.candidate.map Incoming.gen).toList ++ home.mux.toList

@[simp] theorem links_ofParts (m : Option HomeGen) (c : Option Incoming) :
    (ofParts m c).links = (c.map Incoming.gen).toList ++ m.toList := by
  simp [links]

theorem links_of_candidate {home : Home} {c : Incoming} (hc : home.candidate = some c) :
    home.links = c.gen :: home.mux.toList := by
  simp [links, hc]

theorem links_of_mux {home : Home} {g : HomeGen} (hm : home.mux = some g) :
    home.links = (home.candidate.map Incoming.gen).toList ++ [g] := by
  simp [links, hm]

theorem mem_links {home : Home} {g : HomeGen} : g ∈ home.links ↔ home.Holds g := by
  simp only [links, Holds, List.mem_append, Option.mem_toList, or_comm]

end Home

/-! ## 2. Conservation -/

theorem Hub.bound_shutdown (h : Hub) : h.shutdown.2.filterMap Effect.bound = [] := by
  rw [Hub.shutdown_eq, List.filterMap_append]
  cases h.home.candidate <;> cases h.home.mux <;> rfl

theorem Hub.halted_shutdown (h : Hub) : h.shutdown.2.filterMap Effect.halted = h.home.links := by
  rw [Hub.shutdown_eq, List.filterMap_append, Home.links]
  cases h.home.candidate <;> cases h.home.mux <;> rfl

theorem ToPhones.quiet {out : List Effect} (hp : ToPhones out) :
    out.filterMap Effect.bound = [] ∧ out.filterMap Effect.halted = [] :=
  ⟨hp.filterMap_eq_nil fun _ _ => rfl, hp.filterMap_eq_nil fun _ _ => rfl⟩

namespace HubStep

variable {t : Turn} {h h' : Hub} {out : List Effect}

/-- **Links are conserved**: what was held and what is bound is what is held and what is
halted. -/
theorem conserved (hs : HubStep t h h' out) (g : HomeGen) :
    h.home.links.count g + (out.filterMap Effect.bound).count g
      = h'.home.links.count g + (out.filterMap Effect.halted).count g := by
  cases hs with
  | accepted ht =>
    cases hc : h.home.candidate with
    | none =>
      simp [Home.links, hc, List.filterMap_cons, Effect.bound, Effect.halted, List.count_cons]
    | some c =>
      simp [Home.links, hc, List.filterMap_cons, Effect.bound, Effect.halted, List.count_cons]
      lia
  | candidateGone hc why =>
    simp [Home.links_of_candidate hc, List.filterMap_cons, Effect.bound, Effect.halted,
      List.count_cons]
  | candidateRefused hc ht hv =>
    simp [Home.links_of_candidate hc, List.filterMap_cons, Effect.bound, Effect.halted,
      List.count_cons]
  | candidateFailed hc hs he =>
    simp [Home.links_of_candidate hc, List.filterMap_cons, Effect.bound, Effect.halted,
      List.count_cons]
  | registered hc ht => simp [Home.links_of_candidate hc]
  | initializing hc why =>
    simp [Home.links_of_candidate hc, List.filterMap_cons, Effect.bound, Effect.halted]
  | relayed hs hm => simp [(ToPhones.sendPhone _ _ _).quiet]
  | loading hc hs he hne =>
    simp [Home.links_of_candidate hc, List.filterMap_map, Function.comp_def,
      Effect.bound, Effect.halted]
  | loadAnswered hc hs hp => simp [Home.links_of_candidate hc]
  | promoted hc why =>
    cases hm : h.home.mux with
    | none =>
      simp [Home.links_of_candidate hc, hm, Hub.promotionOut, (ToPhones.broadcastAway _ _).quiet]
    | some g' =>
      simp [Home.links_of_candidate hc, hm, Hub.promotionOut, List.filterMap_cons, Effect.bound,
        Effect.halted, List.count_cons]
      lia
  | muxLost hm ht =>
    simp [Home.links_of_mux hm, List.filterMap_cons, Effect.bound, Effect.halted, List.count_cons,
      (ToPhones.broadcastAway _ _).quiet]
  | notified hm ht hmethod hid => simp [(ToPhones.onHomeNotification _ _ _).quiet]
  | asked hm ht hmethod hid hsession hne => simp [(ToPhones.copies _ _ _).quiet]
  | initialized ht hid hmethod hp =>
    split <;> simp [List.filterMap_cons, Effect.bound, Effect.halted]
  | replied ht hp hmethod hreply hid hkey hopen =>
    cases h.home.mux <;> simp [List.filterMap_cons, Effect.bound, Effect.halted]
  | phoneLeft ht => rfl
  | _ => simp [List.filterMap_cons, Effect.bound, Effect.halted]

/-- The generations a step binds are the next ones. -/
theorem bound_eq (hs : HubStep t h h' out) :
    out.filterMap Effect.bound = List.range' (h.nextGen + 1) (h'.nextGen - h.nextGen) ∧
      h.nextGen ≤ h'.nextGen := by
  cases hs with
  | accepted ht => cases h.home.candidate <;> simp [List.filterMap_cons, Effect.bound]
  | relayed hs hm => simp [(ToPhones.sendPhone _ _ _).quiet]
  | loading hc hs he hne => simp [List.filterMap_map, Function.comp_def, Effect.bound]
  | promoted hc why =>
    cases h.home.mux <;>
      simp [Hub.promotionOut, (ToPhones.broadcastAway _ _).quiet, List.filterMap_cons, Effect.bound]
  | muxLost hm ht =>
    simp [(ToPhones.broadcastAway _ _).quiet, List.filterMap_cons, Effect.bound]
  | notified hm ht hmethod hid => simp [(ToPhones.onHomeNotification _ _ _).quiet]
  | asked hm ht hmethod hid hsession hne => simp [(ToPhones.copies _ _ _).quiet]
  | initialized ht hid hmethod hp => split <;> simp [List.filterMap_cons, Effect.bound]
  | replied ht hp hmethod hreply hid hkey hopen =>
    cases h.home.mux <;> simp [List.filterMap_cons, Effect.bound]
  | phoneLeft ht => simp [Hub.onPhoneEof]
  | _ => simp [List.filterMap_cons, Effect.bound]

/-- A link that is bound is in `Home` afterwards. -/
theorem holds_of_bound (hs : HubStep t h h' out) {g : HomeGen}
    (hg : g ∈ out.filterMap Effect.bound) : h'.home.Holds g := by
  obtain ⟨heq, -⟩ := hs.bound_eq
  cases hs with
  | accepted ht =>
    rw [heq] at hg
    obtain rfl : g = h.nextGen + 1 := by simpa using hg
    exact .inr (by simp)
  | phoneLeft ht => simp at hg
  | _ => simp [heq] at hg

/-- A serving link keeps serving, is lost by its own end or its own error, or gives way to the
candidate. -/
theorem mux_leaves (hs : HubStep t h h' out) {g : HomeGen} (hm : h.home.mux = some g)
    (hm' : h'.home.mux ≠ some g) :
    t.input = .recv (.homeEof g) ∨ (∃ message, t.FromHome g (.error message)) ∨
      ∃ c id obj, h.home.candidate = some c ∧ Promoting t h c id obj ∧
        h'.home = .sole ⟨c.link⟩ := by
  cases hs with
  | muxLost hlost ht =>
    obtain rfl : _ = g := Option.some.inj (hlost.symm.trans hm)
    exact ht.imp_right .inl
  | @promoted c id obj hc why => exact .inr (.inr ⟨c, id, obj, hc, why, rfl⟩)
  | phoneLeft ht => exact absurd hm hm'
  | _ => exact absurd (by simpa using hm) hm'

end HubStep

/-! ## 3. Along a run -/

section

variable (ts : List Turn) (t : Turn)

/-- Conservation for a turn of the loop, the one that ends it included. -/
theorem turn_conserved (g : HomeGen) :
    (Hub.run.final ts).hub.home.links.count g
        + ((Hub.run.step (Hub.run.final ts) t).2.filterMap Effect.bound).count g
      = (Hub.run.step (Hub.run.final ts) t).1.hub.home.links.count g
        + ((Hub.run.step (Hub.run.final ts) t).2.filterMap Effect.halted).count g := by
  obtain ⟨-, heq⟩ | ⟨-, -, heq⟩ | ⟨-, h', out, heq, hs⟩ := turn_cases ts t <;> rw [heq]
  · simp
  · rw [Hub.bound_shutdown, Hub.halted_shutdown]
    simp [Hub.shutdown_eq, Home.links]
  · exact hs.conserved g

/-- Conservation over a run: every link bound is held or has been halted. -/
theorem links_conserved (g : HomeGen) :
    (collect Effect.bound (Hub.run.history ts)).count g
      = (Hub.run.final ts).hub.home.links.count g
        + (collect Effect.halted (Hub.run.history ts)).count g := by
  refine Hub.run.run_induction (P := fun hist l => (collect Effect.bound hist).count g
    = l.hub.home.links.count g + (collect Effect.halted hist).count g) rfl (fun ts t ih => ?_) ts
  have hturn := turn_conserved ts t g
  simp only [collect_append, collect_singleton, List.count_append]
  lia

/-- The generations bound along a run are `1`, `2` and so on. -/
theorem bound_history :
    collect Effect.bound (Hub.run.history ts)
      = List.range' 1 (Hub.run.final ts).hub.nextGen := by
  refine Hub.run.run_induction (P := fun hist l => collect Effect.bound hist
    = List.range' 1 l.hub.nextGen) rfl (fun ts t ih => ?_) ts
  rw [collect_append, collect_singleton, ih]
  obtain ⟨-, heq⟩ | ⟨-, -, heq⟩ | ⟨-, h', out, heq, hs⟩ := turn_cases ts t <;> rw [heq]
  · simp
  · rw [Hub.bound_shutdown, List.append_nil, Hub.shutdown_eq]
  · obtain ⟨hbound, hle⟩ := hs.bound_eq
    rw [hbound, Nat.add_comm _ 1, List.range'_append_1, Nat.add_sub_cancel' hle]

/-- No generation is bound twice. -/
theorem nodup_bound : (collect Effect.bound (Hub.run.history ts)).Nodup := by
  rw [bound_history]
  exact List.nodup_range'

/-- A link in `Home` is held once, was bound, and has not been halted. -/
theorem held_of_final {g : HomeGen} (hg : (Hub.run.final ts).hub.home.Holds g) :
    (Hub.run.final ts).hub.home.links.count g = 1 ∧ g ≤ (Hub.run.final ts).hub.nextGen ∧
      g ∉ collect Effect.halted (Hub.run.history ts) := by
  have hlaw := links_conserved ts g
  have hle := List.nodup_iff_count_le_one.mp (nodup_bound ts) g
  have hpos := List.count_pos_iff.mpr (Home.mem_links.mpr hg)
  refine ⟨by lia, ?_, fun hmem => ?_⟩
  · have hmem : g ∈ collect Effect.bound (Hub.run.history ts) := List.count_pos_iff.mp (by lia)
    rw [bound_history, List.mem_range'_1] at hmem
    lia
  · have := List.count_pos_iff.mpr hmem
    lia

/-- The candidate is not the serving link. -/
theorem candidate_ne_mux {c : Incoming} (hc : (Hub.run.final ts).hub.home.candidate = some c) :
    (Hub.run.final ts).hub.home.mux ≠ some c.gen := fun hm => by
  have hcount := (held_of_final ts (.inl hm)).1
  simp [Home.links, hc, hm] at hcount

theorem Run.held {hist : List Line} {h : Hub} (hr : Run hist h) {g : HomeGen}
    (hg : h.home.Holds g) :
    h.home.links.count g = 1 ∧ g ≤ h.nextGen ∧ g ∉ collect Effect.halted hist := by
  obtain ⟨ts, rfl, hfinal⟩ := hr.exists_turns
  have hheld := held_of_final ts (g := g)
  rw [hfinal] at hheld
  exact hheld hg

theorem Run.candidate_ne_mux {hist : List Line} {h : Hub} (hr : Run hist h) {c : Incoming}
    (hc : h.home.candidate = some c) : h.home.mux ≠ some c.gen := by
  obtain ⟨ts, -, hfinal⟩ := hr.exists_turns
  have hne := Aqualung.candidate_ne_mux ts (c := c)
  rw [hfinal] at hne
  exact hne hc

theorem turn_bound {g : HomeGen}
    (hg : g ∈ (Hub.run.step (Hub.run.final ts) t).2.filterMap Effect.bound) :
    (Hub.run.step (Hub.run.final ts) t).1.hub.home.Holds g := by
  obtain ⟨-, heq⟩ | ⟨-, -, heq⟩ | ⟨-, h', out, heq, hs⟩ := turn_cases ts t <;> rw [heq] at hg ⊢
  · simp at hg
  · simp [Hub.bound_shutdown] at hg
  · exact hs.holds_of_bound hg

/-- A frame or the end of a link that is not in `Home` has no effect. -/
theorem turn_stale {l : Loop} {g : HomeGen} (hg : ¬ l.hub.home.Holds g)
    (ht : t.input = .recv (.homeEof g) ∨ ∃ msg, t.FromHome g msg) : l.turn t = (l, []) := by
  have hrole := Hub.role_eq_unknown.mpr hg
  obtain ⟨h, stopped⟩ := l
  cases stopped with
  | true => exact Loop.turn_stopped rfl t
  | false =>
    obtain ht | ⟨msg, ht⟩ := ht
    · simp [Loop.turn, ht, Hub.handle, Hub.onHomeEof, hrole]
    · simp [Loop.turn, show t.input = .recv (.homeFrame g msg) from ht, Hub.handle,
        Hub.onHomeFrame, hrole]

end

/-! ## 4. The life cycle -/

/-- What one turn of the loop does to links, with the history `hist` before it, from `l` to
`l'` with the output `out`. -/
structure LinkLifeCycle (hist : List Line) (l : Loop) (t : Turn) (l' : Loop)
    (out : List Effect) : Prop where
  /-- The serving link stops serving by its own end, its own error, a promotion of the
  candidate, or the shutdown. -/
  mux_leaves : ∀ g, l.hub.home.mux = some g → l'.hub.home.mux ≠ some g →
    t.input = .recv (.homeEof g) ∨ (∃ message, t.FromHome g (.error message)) ∨
      (∃ c id obj, l.hub.home.candidate = some c ∧ Promoting t l.hub c id obj ∧
        l'.hub.home = .sole ⟨c.link⟩) ∨
      t.Stops
  /-- An accepted connection becomes the candidate; it displaces the earlier candidate and
  nothing else. -/
  accepted : l.stopped = false → t.input = .recv .accepted →
    l'.hub.home.candidate = some (.waitRegistered ⟨l.hub.nextGen + 1⟩ (t.now + REGISTER_WAIT)) ∧
      l'.hub.home.mux = l.hub.home.mux ∧
      out = .bindGen (l.hub.nextGen + 1) ::
        (l.hub.home.candidate.map fun c => Effect.halt c.gen).toList
  /-- Generations are handed out in turn and never again. -/
  generations : collect Effect.bound (hist ++ [⟨l, t, out⟩]) = List.range' 1 l'.hub.nextGen
  /-- A link that was accepted has been halted once if it is not in `Home`, and never if it
  is. -/
  halted_once : ∀ g, (collect Effect.halted (hist ++ [⟨l, t, out⟩])).count g
    = if g ∈ collect Effect.bound (hist ++ [⟨l, t, out⟩]) ∧ ¬ l'.hub.home.Holds g then 1 else 0
  /-- The halt goes out in the turn in which the link leaves. -/
  halted_when : ∀ g, .halt g ∈ out ↔ l.hub.home.Holds g ∧ ¬ l'.hub.home.Holds g
  /-- A link that has left does not come back. -/
  left_for_good : ∀ g, g ∈ collect Effect.bound hist → ¬ l.hub.home.Holds g →
    ¬ l'.hub.home.Holds g
  /-- Frames and the end of a link that is not in `Home` change nothing and produce nothing. -/
  stale : ∀ g, ¬ l.hub.home.Holds g →
    (t.input = .recv (.homeEof g) ∨ ∃ msg, t.FromHome g msg) → l' = l ∧ out = []

/-- **Links live and end as they should**, whatever the hub has been through: only its own end
or error, a promotion or the shutdown takes the serving link away; every accepted connection
becomes the candidate; every link is halted once, when it leaves; and `arm` does not fail in
`finish_successor`.

The first part is by cases on the step, the counting is conservation along the run, and the last is
the definition: `finish_successor` arms a candidate that it has just made ready. -/
theorem link_life_cycle (ts : List Turn) (t : Turn) :
    LinkLifeCycle (Hub.run.history ts) (Hub.run.final ts) t
        (Hub.run.step (Hub.run.final ts) t).1 (Hub.run.step (Hub.run.final ts) t).2 ∧
      (∀ incumbent successor : Live,
        Replace.arm ⟨incumbent, .ready successor.link⟩ = .ok ⟨incumbent, successor⟩) := by
  have hconserved := turn_conserved ts t
  have hbefore := links_conserved ts
  have hnodup := List.nodup_iff_count_le_one.mp (nodup_bound (ts ++ [t]))
  have hlaw := links_conserved (ts ++ [t])
  simp only [Hub.run.history_snoc, Hub.run.final_snoc] at hnodup hlaw
  have hcount : ∀ g, (collect Effect.bound (Hub.run.history ts)).count g
      + ((Hub.run.step (Hub.run.final ts) t).2.filterMap Effect.bound).count g ≤ 1 := by
    intro g
    have := hnodup g
    rwa [collect_append, collect_singleton, List.count_append] at this
  have hheld : ∀ (home : Home) g, home.Holds g ↔ 0 < home.links.count g := fun home g => by
    rw [← Home.mem_links, List.count_pos_iff]
  refine ⟨⟨?mux_leaves, ?accepted, ?generations, ?halted_once, ?halted_when, ?left_for_good,
    ?stale⟩, fun _ _ => rfl⟩
  case mux_leaves =>
    intro g hm hm'
    obtain ⟨-, heq⟩ | ⟨-, hstop, -⟩ | ⟨-, h', out, heq, hs⟩ := turn_cases ts t
    · exact absurd (by rw [heq]; exact hm) hm'
    · exact .inr (.inr (.inr hstop))
    · rw [heq] at hm' ⊢
      obtain heof | herr | hprom := hs.mux_leaves hm hm'
      · exact .inl heof
      · exact .inr (.inl herr)
      · exact .inr (.inr (.inl hprom))
  case accepted =>
    intro hl ht
    have hturn : Hub.run.step (Hub.run.final ts) t
        = (⟨((Hub.run.final ts).hub.onAccepted t.now).1, false⟩,
            ((Hub.run.final ts).hub.onAccepted t.now).2) := by
      change Loop.turn (Hub.run.final ts) t = _
      simp [Loop.turn, hl, ht, Hub.handle]
    rw [hturn, Hub.onAccepted_eq]
    exact ⟨Home.candidate_ofParts _ _, Home.mux_ofParts _ _, rfl⟩
  case generations =>
    have := bound_history (ts ++ [t])
    rwa [Hub.run.history_snoc, Hub.run.final_snoc] at this
  case halted_once =>
    intro g
    have hle := hnodup g
    have hsum := hlaw g
    split_ifs with hif
    · rw [← List.count_pos_iff, hheld] at hif
      lia
    · rw [← List.count_pos_iff, hheld] at hif
      lia
  case halted_when =>
    intro g
    have hmem : Effect.halt g ∈ (Hub.run.step (Hub.run.final ts) t).2 ↔
        0 < ((Hub.run.step (Hub.run.final ts) t).2.filterMap Effect.halted).count g := by
      rw [List.count_pos_iff, List.mem_filterMap]
      constructor
      · exact fun h => ⟨_, h, rfl⟩
      · rintro ⟨eff, heff, hg⟩
        cases eff <;> simp_all [Effect.halted]
    have hbound : 0 < ((Hub.run.step (Hub.run.final ts) t).2.filterMap Effect.bound).count g →
        0 < (Hub.run.step (Hub.run.final ts) t).1.hub.home.links.count g := by
      rw [List.count_pos_iff, ← hheld]
      exact turn_bound ts t
    have := hconserved g
    have := hcount g
    have := hbefore g
    rw [hmem, hheld, hheld]
    lia
  case left_for_good =>
    intro g hg hnot
    have := hconserved g
    have := hcount g
    have := List.count_pos_iff.mpr hg
    rw [hheld] at hnot ⊢
    lia
  case stale =>
    intro g hg ht
    have hturn := turn_stale t hg ht
    exact ⟨congrArg Prod.fst hturn, congrArg Prod.snd hturn⟩

end Aqualung
