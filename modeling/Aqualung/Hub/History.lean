/-
# What has gone out

The promises of the hub are about its history: which links were bound and halted, what was
queued on a link, what a phone was sent.  Each of these is one selection from the effects of
the history, in order.  `collect` is that selection, and the rest of the module names the
selections the results use.

Many steps only send to phones.  `ToPhones` says so of a list of effects, and whatever is about
links is silent about such a list.
-/
import Aqualung.Hub.Run

namespace Aqualung

open Lib

/-! ## 1. The selections -/

namespace Effect

def bound : Effect → Option HomeGen
  | .bindGen g => some g
  | _ => none

def boundPhone : Effect → Option PhoneId
  | .bindPhone p => some p
  | _ => none

def halted : Effect → Option HomeGen
  | .halt g => some g
  | _ => none

/-- The ACP object the effect queues on some link, and the link. -/
def acp : Effect → Option (HomeGen × Obj)
  | .toHome g (.acp m) => some (g, m)
  | _ => none

/-- The ACP object the effect queues on the link `g`. -/
def acpOn (g : HomeGen) (eff : Effect) : Option Obj :=
  eff.acp.bind fun e => if e.1 = g then some e.2 else none

/-- The text the effect sends to some phone, and the phone. -/
def text : Effect → Option (PhoneId × Obj)
  | .toPhone p m => some (p, m)
  | _ => none

@[simp] theorem acp_eq_some {eff : Effect} {g : HomeGen} {m : Obj} :
    eff.acp = some (g, m) ↔ eff = .toHome g (.acp m) := by
  unfold acp
  split <;> simp_all

@[simp] theorem text_eq_some {eff : Effect} {p : PhoneId} {m : Obj} :
    eff.text = some (p, m) ↔ eff = .toPhone p m := by
  unfold text
  split <;> simp_all

@[simp] theorem acpOn_eq_some {eff : Effect} {g : HomeGen} {m : Obj} :
    eff.acpOn g = some m ↔ eff = .toHome g (.acp m) := by
  simp only [acpOn, Option.bind_eq_some_iff]
  constructor
  · rintro ⟨⟨g', m'⟩, hacp, hif⟩
    split at hif
    · rename_i hg
      simp only at hg hif
      rw [acp_eq_some.mp hacp, hg, Option.some.inj hif]
    · cases hif
  · rintro rfl
    exact ⟨(g, m), rfl, if_pos rfl⟩

end Effect

/-- The ACP objects queued on the link `g`, in order. -/
def queued (g : HomeGen) (hist : List Line) : List Obj := collect (Effect.acpOn g) hist

/-! ## 2. Effects that only go to phones -/

/-- All of the effects are texts for phones. -/
def ToPhones (out : List Effect) : Prop := ∀ eff ∈ out, ∃ p m, eff = .toPhone p m

namespace ToPhones

theorem nil : ToPhones [] := fun _ h => absurd h List.not_mem_nil

theorem single (p : PhoneId) (m : Obj) : ToPhones [.toPhone p m] := fun _ h =>
  ⟨p, m, List.mem_singleton.mp h⟩

theorem flatMap {α : Type*} {f : α → List Effect} (xs : List α) (hf : ∀ x, ToPhones (f x)) :
    ToPhones (xs.flatMap f) := fun eff h => by
  obtain ⟨x, -, hx⟩ := List.mem_flatMap.mp h
  exact hf x eff hx

theorem sendPhone (h : Hub) (p : PhoneId) (m : Obj) : ToPhones (h.sendPhone p m) := by
  unfold Hub.sendPhone
  split
  · exact single p m
  · exact nil

theorem copies (h : Hub) (cs : List (PhoneId × JsonId)) (obj : Obj) :
    ToPhones (cs.flatMap fun c => h.sendPhone c.1 (obj.withId c.2)) :=
  flatMap cs fun c => sendPhone h c.1 (obj.withId c.2)

theorem broadcastAway (h : Hub) (away : Bool) : ToPhones (h.broadcastAway away) := by
  intro eff heff
  obtain ⟨slot, -, hslot⟩ := List.mem_filterMap.mp heff
  split at hslot
  · exact ⟨_, _, (Option.some.inj hslot).symm⟩
  · cases hslot

theorem onHomeNotification (order : IterOrder) (h : Hub) (obj : Obj) :
    ToPhones (h.onHomeNotification order obj) := by
  unfold Hub.onHomeNotification
  split
  · exact nil
  split
  · exact nil
  split
  · exact nil
  split
  · exact nil
  · exact flatMap _ fun p => sendPhone h p obj

/-- A selection that takes nothing from texts for phones takes nothing here. -/
theorem filterMap_eq_nil {α : Type*} {out : List Effect} (h : ToPhones out)
    {f : Effect → Option α} (hf : ∀ p m, f (.toPhone p m) = none) : out.filterMap f = [] := by
  rw [List.filterMap_eq_nil_iff]
  intro eff heff
  obtain ⟨p, m, rfl⟩ := h eff heff
  exact hf p m

end ToPhones

/-! ## 3. Which texts go to phones -/

namespace Hub

variable {h : Hub} {p : PhoneId} {m : Obj}

theorem mem_sendPhone {q : PhoneId} {text : Obj} :
    .toPhone p m ∈ h.sendPhone q text ↔ p = q ∧ m = text ∧ p ∈ h.phones := by
  unfold sendPhone
  cases hq : h.phones.lookup q with
  | none =>
    have hnot : q ∉ h.phones := AList.lookup_eq_none.mp hq
    constructor
    · exact fun hmem => absurd hmem List.not_mem_nil
    · rintro ⟨rfl, -, hp⟩
      exact absurd hp hnot
  | some phone =>
    have hmem : q ∈ h.phones := Table.mem_iff_exists.mpr ⟨_, hq⟩
    simp only [List.mem_singleton, Effect.toPhone.injEq]
    constructor
    · rintro ⟨rfl, rfl⟩
      exact ⟨rfl, rfl, hmem⟩
    · rintro ⟨rfl, rfl, -⟩
      exact ⟨rfl, rfl⟩

theorem mem_broadcastAway {away : Bool} :
    .toPhone p m ∈ h.broadcastAway away ↔
      h.phones.lookup p = some .ready ∧ m = hostAwayNote away := by
  simp only [broadcastAway, List.mem_filterMap, ← Table.mem_entries_iff]
  constructor
  · rintro ⟨⟨q, phone⟩, hmem, heq⟩
    cases phone with
    | connected => cases heq
    | ready =>
      cases heq
      exact ⟨hmem, rfl⟩
  · rintro ⟨hmem, rfl⟩
    exact ⟨_, hmem, rfl⟩

theorem mem_onHomeNotification {order : IterOrder} {obj : Obj}
    (hmem : .toPhone p m ∈ h.onHomeNotification order obj) :
    m = obj ∧ ∃ method, obj.method = some method ∧ methodOf method = "session/update" := by
  unfold onHomeNotification at hmem
  split at hmem
  · exact absurd hmem List.not_mem_nil
  rename_i method hmethod
  split at hmem
  · exact absurd hmem List.not_mem_nil
  rename_i hupdate
  split at hmem
  · exact absurd hmem List.not_mem_nil
  split at hmem
  · exact absurd hmem List.not_mem_nil
  · obtain ⟨q, -, hq⟩ := List.mem_flatMap.mp hmem
    exact ⟨(mem_sendPhone.mp hq).2.1, method, hmethod, not_not.mp hupdate⟩

end Hub

end Aqualung
