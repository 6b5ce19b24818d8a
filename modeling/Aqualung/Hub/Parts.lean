/-
# The two halves of `Home`

The four shapes of `Home` are the four ways to have or lack a serving link and a candidate.
Every function on the home side is easier to say in these terms: it keeps, replaces or drops
one of the two halves.  This module gives the view (`mux`, `candidate`, `ofParts`, which is its
inverse) and restates each of those functions in it; nothing above it matches on `Home` again.
-/
import Aqualung.Hub.Loop

namespace Aqualung

open Lib

/-! ## 1. The view -/

namespace Home

/-- The generation of the serving link. -/
def mux : Home → Option HomeGen
  | .sole live => some live.link.homeGen
  | .dual rep => some rep.incumbent.link.homeGen
  | _ => none

/-- The candidate. -/
def candidate : Home → Option Incoming
  | .bringingUp incoming => some incoming
  | .dual rep => some rep.incoming
  | _ => none

/-- The shape with the given halves. -/
def ofParts : Option HomeGen → Option Incoming → Home
  | none, none => .away
  | none, some c => .bringingUp c
  | some g, none => .sole ⟨⟨g⟩⟩
  | some g, some c => .dual ⟨⟨⟨g⟩⟩, c⟩

@[simp] theorem mux_ofParts (m : Option HomeGen) (c : Option Incoming) :
    (ofParts m c).mux = m := by
  cases m <;> cases c <;> rfl

@[simp] theorem candidate_ofParts (m : Option HomeGen) (c : Option Incoming) :
    (ofParts m c).candidate = c := by
  cases m <;> cases c <;> rfl

@[simp] theorem ofParts_parts (home : Home) : ofParts home.mux home.candidate = home := by
  cases home <;> rfl

@[simp] theorem mux_away : Home.away.mux = none := rfl

@[simp] theorem candidate_away : Home.away.candidate = none := rfl

theorem isAway_eq (home : Home) : home.isAway = home.mux.isNone := by
  cases home <;> rfl

/-- `g` is the generation of one of the two links. -/
def Holds (home : Home) (g : HomeGen) : Prop :=
  home.mux = some g ∨ home.candidate.map Incoming.gen = some g

instance (home : Home) (g : HomeGen) : Decidable (home.Holds g) := by
  unfold Holds; infer_instance

end Home

/-- The slot a candidate leaves behind, by the generation of the incumbent. -/
def CandidateSlot.ofMux (m : Option HomeGen) : CandidateSlot := ⟨m.map fun g => ⟨⟨g⟩⟩⟩

namespace Hub

/-! ## 2. The functions on the home side, in these terms -/

theorem muxLink_eq (h : Hub) : h.muxLink = h.home.mux.map Link.mk := by
  unfold muxLink
  cases h.home <;> rfl

theorem role_eq_mux {h : Hub} {g : HomeGen} : h.role g = .mux ↔ h.home.mux = some g := by
  unfold role
  cases h.home with
  | away => simp [Home.mux]
  | bringingUp c => by_cases hc : c.link.homeGen = g <;> simp [Home.mux, hc]
  | sole live => by_cases hl : live.link.homeGen = g <;> simp [Home.mux, hl]
  | dual rep =>
    by_cases hl : rep.incumbent.link.homeGen = g
    · simp [Home.mux, hl]
    · by_cases hc : rep.incoming.link.homeGen = g <;> simp [Home.mux, hl, hc]

theorem role_eq_candidate {h : Hub} {g : HomeGen} :
    h.role g = .candidate ↔
      h.home.mux ≠ some g ∧ ∃ c, h.home.candidate = some c ∧ c.gen = g := by
  unfold role
  cases h.home with
  | away => simp [Home.candidate]
  | bringingUp c => by_cases hc : c.link.homeGen = g <;> simp [Home.mux, Home.candidate, hc]
  | sole live => by_cases hl : live.link.homeGen = g <;> simp [Home.mux, Home.candidate, hl]
  | dual rep =>
    by_cases hl : rep.incumbent.link.homeGen = g
    · simp [Home.mux, hl]
    · by_cases hc : rep.incoming.link.homeGen = g <;>
        simp [Home.mux, Home.candidate, hl, hc]

theorem role_eq_unknown {h : Hub} {g : HomeGen} : h.role g = .unknown ↔ ¬ h.home.Holds g := by
  cases hr : h.role g with
  | mux => simp [Home.Holds, role_eq_mux.mp hr]
  | candidate =>
    obtain ⟨-, c, hc, rfl⟩ := role_eq_candidate.mp hr
    simp [Home.Holds, hc]
  | unknown =>
    have hm : h.home.mux ≠ some g := fun hm => by simp [role_eq_mux.mpr hm] at hr
    have hc : h.home.candidate.map Incoming.gen ≠ some g := fun hc => by
      have hcand := role_eq_candidate.mpr ⟨hm, by simpa [Option.map_eq_some_iff] using hc⟩
      rw [hcand] at hr
      cases hr
    simp [Home.Holds, hm, hc]

/-- A shape with a candidate is `bringingUp` or `dual`. -/
theorem home_of_candidate {h : Hub} {c : Incoming} (hc : h.home.candidate = some c) :
    h.home = Home.ofParts h.home.mux (some c) := by
  rw [← hc, Home.ofParts_parts]

theorem takeCandidate_of_candidate {h : Hub} {c : Incoming} (hc : h.home.candidate = some c) :
    h.takeCandidate c.gen
      = (some (c, CandidateSlot.ofMux h.home.mux), { h with home := .away }) := by
  unfold takeCandidate
  have hh := home_of_candidate hc
  cases hm : h.home.mux <;> rw [hm] at hh <;> simp [hh, Home.ofParts, CandidateSlot.ofMux]

theorem putCandidate_ofMux (h : Hub) (c : Incoming) (m : Option HomeGen) :
    h.putCandidate c (.ofMux m) = { h with home := Home.ofParts m (some c) } := by
  cases m <;> rfl

theorem currentDeadline_eq (h : Hub) :
    h.currentDeadline = h.home.candidate.bind Incoming.deadline := by
  unfold currentDeadline
  cases h.home <;> rfl

theorem failIncoming_of_candidate {h : Hub} {c : Incoming} (hc : h.home.candidate = some c) :
    h.failIncoming c.gen
      = ({ h with home := Home.ofParts h.home.mux none }, [.halt c.gen]) := by
  unfold failIncoming
  have hh := home_of_candidate hc
  cases hm : h.home.mux <;> rw [hm] at hh <;>
    simp [hh, Home.ofParts, Replace.abort, Link.drop]

theorem onDeadline_of_candidate {h : Hub} {c : Incoming} (hc : h.home.candidate = some c)
    (hd : c.deadline.isSome) :
    h.onDeadline = ({ h with home := Home.ofParts h.home.mux none }, [.halt c.gen]) := by
  unfold onDeadline
  have hh := home_of_candidate hc
  cases hm : h.home.mux <;> rw [hm] at hh <;>
    simp [hh, Home.ofParts, Replace.abort, Link.drop, hd]

theorem onHomeEof_of_mux {h : Hub} {g : HomeGen} (hm : h.home.mux = some g) :
    h.onHomeEof g
      = ({ h with home := Home.ofParts none h.home.candidate }, .halt g :: h.broadcastAway true) := by
  unfold onHomeEof
  rw [role_eq_mux.mpr hm]
  have hh : h.home = Home.ofParts (some g) h.home.candidate := by rw [← hm, Home.ofParts_parts]
  cases hc : h.home.candidate <;> rw [hc] at hh <;>
    simp [hh, Home.ofParts, Link.drop, broadcastAway]

/-- **The `Err` branch of `arm` is never taken in `finish_successor`**: the link it arms is
`Ready` by construction. -/
theorem arm_ready (incumbent : Live) (link : Link) :
    Replace.arm ⟨incumbent, .ready link⟩ = .ok ⟨incumbent, ⟨link⟩⟩ := rfl

/-- What goes out at a promotion: the incumbent's halt, or, without one, the note that home
is back. -/
def promotionOut (h : Hub) : Option HomeGen → List Effect
  | some incumbent => [.halt incumbent]
  | none => h.broadcastAway false

theorem finishSuccessor_ofMux (h : Hub) (link : Link) (m : Option HomeGen) :
    h.finishSuccessor ⟨link⟩ (.ofMux m)
      = ({ h with home := Home.ofParts (some link.homeGen) none }, h.promotionOut m) := by
  cases m with
  | none => rfl
  | some g => simp [finishSuccessor, CandidateSlot.ofMux, arm_ready, Armed.cutover, Link.drop,
      promotionOut, Home.ofParts]

theorem onAccepted_eq (now : Instant) (h : Hub) :
    h.onAccepted now
      = ({ h with
            nextGen := h.nextGen + 1
            home := Home.ofParts h.home.mux
              (some (.waitRegistered ⟨h.nextGen + 1⟩ (now + REGISTER_WAIT))) },
          .bindGen (h.nextGen + 1) :: (h.home.candidate.map fun c => Effect.halt c.gen).toList) := by
  unfold onAccepted
  cases hh : h.home <;>
    simp [Home.mux, Home.candidate, Home.ofParts, Replace.abort, Link.drop, Incoming.gen]

theorem shutdown_eq (h : Hub) :
    h.shutdown
      = ({ h with home := .away, phones := ∅ },
          (h.home.candidate.map fun c => Effect.halt c.gen).toList
            ++ (h.home.mux.map Effect.halt).toList) := by
  unfold shutdown
  cases hh : h.home <;> simp [Home.mux, Home.candidate, Replace.abort, Link.drop]

theorem forwardNotification_eq (h : Hub) (obj : Obj) :
    h.forwardNotification obj
      = (h.home.mux.map fun g => Effect.toHome g (.acp obj)).toList := by
  unfold forwardNotification
  rw [muxLink_eq]
  cases h.home.mux <;> rfl

end Hub

end Aqualung
