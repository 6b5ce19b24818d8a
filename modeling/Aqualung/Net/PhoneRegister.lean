/-
# The phones and the tasks behind them

For phones what `Net/LinkRegister.lean` says of links: every phone that asks for an id gets one of
its own, the hub knows it as long as its task runs, and a phone whose task has ended is one whose
end the hub has yet to read (`phones_attended`).

The desk is the same, for the kind `phoneConns`.  What differs is the end: the hub does not halt a
phone, it forgets it when it reads the task's farewell, and by dropping its end of the queue it lets
the task know.  So the invariant (`PhonesKept`) says who says farewell, and when the hub knows a
phone.  A move of the task is described once, by what it leaves as it was, how it can end, and
whether it asks (`PhoneTask.Goes`), and every part of the invariant is proved from that.
-/
import Aqualung.Net.LinkRegister
import Aqualung.Hub.Requests

namespace Aqualung

open Lib

/-! ## 1. What a turn of the hub does to phones -/

/-- A phone is bound in the turn in which it connects, and in no other. -/
theorem turn_bindsPhone {l : Loop} (hl : l.stopped = false) (t : Turn) :
    (t.input = .recv .phoneHello ∧
        (Hub.run.step l t).2.findSome? Effect.boundPhone = some (l.hub.nextPhone + 1) ∧
        (Hub.run.step l t).1.hub.nextPhone = l.hub.nextPhone + 1) ∨
      (t.input ≠ .recv .phoneHello ∧ (Hub.run.step l t).2.findSome? Effect.boundPhone = none ∧
        (Hub.run.step l t).1.hub.nextPhone = l.hub.nextPhone) := by
  by_cases hin : t.input = .recv .phoneHello
  · refine .inl ⟨hin, ?_⟩
    have hturn : Hub.run.step l t = (⟨l.hub.onPhoneHello.1, false⟩, l.hub.onPhoneHello.2) := by
      change Loop.turn l t = _
      simp [Loop.turn, hl, hin, Hub.handle]
    rw [hturn]
    exact ⟨rfl, rfl⟩
  · refine .inr ⟨hin, ?_⟩
    have hnone : ∀ {out : List Effect}, out.filterMap Effect.boundPhone = [] →
        out.findSome? Effect.boundPhone = none := fun hnil => by
      rw [List.findSome?_eq_none_iff]
      exact List.filterMap_eq_nil_iff.mp hnil
    by_cases hstop : t.Stops
    · rw [show Hub.run.step l t = _ from Loop.turn_stops hl hstop]
      refine ⟨hnone ?_, by simp [Hub.shutdown_eq]⟩
      rw [Hub.shutdown_eq, List.filterMap_append]
      cases l.hub.home.candidate <;> cases l.hub.home.mux <;> rfl
    · obtain ⟨h', out, heq, hs⟩ := Loop.turn_step hl hstop
      rw [show Hub.run.step l t = _ from heq]
      have hnext : h'.nextPhone = l.hub.nextPhone := by
        cases hs with
        | hello ht => exact absurd ht hin
        | _ => rfl
      refine ⟨hnone ?_, hnext⟩
      rw [hs.boundPhone_eq.1, hnext, Nat.sub_self, List.range'_zero]

/-- Phones come when they are bound and go when they end. -/
theorem turn_phones {l : Loop} (hl : l.stopped = false) {t : Turn}
    (hrun : (Hub.run.step l t).1.stopped = false) (p : PhoneId) :
    p ∈ (Hub.run.step l t).1.hub.phones ↔
      p ∈ l.hub.phones ∧ t.input ≠ .recv (.phoneEof p) ∨
        t.input = .recv .phoneHello ∧ p = l.hub.nextPhone + 1 := by
  by_cases heof : ∃ q, t.input = .recv (.phoneEof q)
  · obtain ⟨q, hin⟩ := heof
    have hturn : (Hub.run.step l t).1.hub = l.hub.onPhoneEof t.order q := by
      change (Loop.turn l t).1.hub = _
      simp [Loop.turn, hl, hin, Hub.handle]
    rw [hturn, hin]
    simp [Hub.onPhoneEof, AList.mem_erase, and_comm, eq_comm]
  · by_cases hhello : t.input = .recv .phoneHello
    · have hturn : (Hub.run.step l t).1.hub = l.hub.onPhoneHello.1 := by
        change (Loop.turn l t).1.hub = _
        simp [Loop.turn, hl, hhello, Hub.handle]
      rw [hturn, hhello]
      simp [Hub.onPhoneHello, AList.mem_insert, or_comm]
    · have hstop : ¬ t.Stops := fun hstop => by
        rw [show Hub.run.step l t = _ from Loop.turn_stops hl hstop] at hrun
        cases hrun
      obtain ⟨h', out, heq, hs⟩ := Loop.turn_step hl hstop
      rw [show Hub.run.step l t = _ from heq]
      have hkeep : p ∈ h'.phones ↔ p ∈ l.hub.phones := by
        cases hs with
        | hello ht => exact absurd ht hhello
        | phoneLeft ht => exact absurd ⟨_, ht⟩ heof
        | initialized ht hid hmethod hphone =>
          rw [AList.mem_insert, AList.mem_erase]
          constructor
          · rintro (rfl | hp)
            · exact Table.mem_iff_exists.mpr ⟨_, hphone⟩
            · exact hp.2
          · exact fun hp => (em _).imp id fun hne => ⟨hne, hp⟩
        | _ => exact Iff.rfl
      rw [hkeep]
      constructor
      · exact fun hp => .inl ⟨hp, fun hin => heof ⟨p, hin⟩⟩
      · rintro (⟨hp, -⟩ | ⟨hin, -⟩)
        · exact hp
        · exact absurd hin hhello

/-! ## 2. What the task hears -/

/-- The text the effect queues for the phone `bound`. -/
def Effect.forPhone (bound : Option PhoneId) : Effect → Option Obj
  | .toPhone p text => if bound = some p then some text else none
  | _ => none

variable {P : Type*} (setup : Setup P)

/-- **What a turn of the hub changes in the task of a phone.** -/
theorem PhoneTask.finalFrom_hear (task : PhoneTask) (mine : Bool) (bound : Option PhoneId)
    (out : List Effect) :
    (run setup).finalFrom task (out.filterMap (hear mine bound))
      = { task with
          bound := task.bound.or (if mine then out.findSome? Effect.boundPhone else none)
          out := task.out ++ out.filterMap (Effect.forPhone bound) } := by
  induction out generalizing task with
  | nil => simp [Machine.finalFrom]
  | cons eff out ih =>
    cases eff with
    | bindPhone p =>
      cases mine with
      | true =>
        refine (ih { task with bound := task.bound.or (some p) }).trans ?_
        simp [Effect.forPhone, Effect.boundPhone, List.findSome?_cons,
          List.filterMap_cons]
      | false =>
        refine (ih task).trans ?_
        simp [Effect.forPhone, List.filterMap_cons]
    | toPhone p text =>
      by_cases hp : bound = some p
      · simp only [List.filterMap_cons, hear, if_pos hp]
        refine (ih { task with out := task.out ++ [text] }).trans ?_
        simp [Effect.forPhone, Effect.boundPhone, hp, List.findSome?_cons]
      · simp only [List.filterMap_cons, hear, if_neg hp, ih]
        simp [Effect.forPhone, Effect.boundPhone, hp, List.findSome?_cons]
    | _ =>
      refine (ih task).trans ?_
      simp [Effect.forPhone, Effect.boundPhone, List.findSome?_cons, List.filterMap_cons]

variable {setup}

/-- The task of a phone after a turn of the hub. -/
theorem Serve.phones_turn (s : Serve) (w : Serve.Wake) (k : Nat) :
    let task := (s.turn setup w).1.phones k
    let bound := (s.phones k).boundAfter (w.sender = some (.phone k)) (Hub.run.step s.loop w.turn).2
    task.phase = (s.phones k).phase ∧ task.bound = bound ∧
      task.out = (s.phones k).out ++
        (Hub.run.step s.loop w.turn).2.filterMap (Effect.forPhone bound) ∧
      (task.dropped = true ↔ (s.phones k).dropped = true ∨
        ∃ p, (s.phones k).bound = some p ∧ p ∈ s.loop.hub.phones ∧
          p ∉ (Hub.run.step s.loop w.turn).1.hub.phones) := by
  have hfinal : (s.turn setup w).1.phones k
      = (PhoneTask.run setup).finalFrom (s.phones k) (s.toPhone w k) := rfl
  simp only [hfinal, Serve.toPhone, PhoneTask.hears, Machine.finalFrom_append,
    PhoneTask.finalFrom_hear]
  cases hbound : (s.phones k).bound with
  | none => simp [Machine.finalFrom, PhoneTask.boundAfter, hbound]
  | some p =>
    by_cases hgone : p ∈ s.loop.hub.phones ∧ p ∉ (Hub.run.step s.loop w.turn).1.hub.phones
    · simp [hgone, hbound, PhoneTask.boundAfter, Machine.finalFrom, PhoneTask.run, PhoneTask.step]
    · simp only [if_neg hgone, Machine.finalFrom, true_and]
      refine ⟨by simp [PhoneTask.boundAfter, hbound], .inl, ?_⟩
      rintro (hdropped | ⟨p', hp', hgone'⟩)
      · exact hdropped
      · cases hp'
        exact absurd hgone' hgone

/-! ## 3. The register of the phones -/

def Letter.asksPhone : Letter → Option Nat
  | ⟨.phone k, .phoneHello⟩ => some k
  | _ => none

/-- The task has not yet asked for an id. -/
def PhoneTask.Early (task : PhoneTask) : Prop := task.phase = .idle ∨ task.phase = .upgrading

/-- The connections of phones. -/
def phoneConns : ConnKind PhoneTask where
  number := PhoneTask.bound
  Early := PhoneTask.Early
  Waits task := task.phase = .binding
  sender := .phone
  hello := .phoneHello
  client := Letter.asksPhone
  binds := Effect.boundPhone
  next := Hub.nextPhone
  client_iff letter k := by
    obtain ⟨sender, msg⟩ := letter
    cases sender <;> cases msg <;> simp [Letter.asksPhone]
  binds_turn hl t := turn_bindsPhone hl t

/-- How a move of the task can end, and what it says of the end. -/
structure PhoneTask.Moved (task : PhoneTask) (gone : Bool) (task' : PhoneTask)
    (posts : List ToHub) : Prop where
  talking : ∀ p, task'.phase = .talking p →
    task.phase = .talking p ∨ task.phase = .binding ∧ task.bound = some p
  ended : task.phase = .ended → task'.phase = .ended
  farewell : ∀ p, .phoneEof p ∈ posts → task.phase = .talking p ∧ task'.phase = .ended
  ends : task'.phase = .ended → task.phase ≠ .ended → gone = false → task.dropped = false →
    task.Early ∨ ∃ p, task.phase = .talking p ∧ .phoneEof p ∈ posts

/-- What a move of the task leaves as it was, how it can end, and whether it asks for an id. -/
structure PhoneTask.Goes (task : PhoneTask) (gone : Bool) (task' : PhoneTask)
    (posts : List ToHub) : Prop extends task.Moved gone task' posts where
  bound_eq : task'.bound = task.bound
  dropped_eq : task'.dropped = task.dropped
  asks : ∃ asks, phoneConns.clients.Move (gone = false) task task' asks ∧ phoneConns.Says asks posts

/-- A task that stays where it is and says neither hello nor farewell. -/
theorem PhoneTask.Goes.stay {task : PhoneTask} {gone : Bool} {posts : List ToHub}
    (hhello : .phoneHello ∉ posts) (heof : ∀ p, .phoneEof p ∉ posts) (out : List Obj) :
    task.Goes gone { task with out } posts where
  talking _ := .inl
  ended := id
  farewell p hp := absurd hp (heof p)
  ends h h' := absurd h h'
  bound_eq := rfl
  dropped_eq := rfl
  asks := ⟨false, .stays id fun _ hphase _ => hphase, hhello⟩

/-- A task that goes on, or ends, without asking. -/
theorem PhoneTask.Goes.leave {task task' : PhoneTask} {gone : Bool} {posts : List ToHub}
    (hmoved : task.Moved gone task' posts) (hbound : task'.bound = task.bound)
    (hdropped : task'.dropped = task.dropped) (hlate : ¬ task'.Early)
    (hwaits : task.phase = .binding → task.bound ≠ none ∨ gone = true)
    (hhello : .phoneHello ∉ posts) : task.Goes gone task' posts where
  toMoved := hmoved
  bound_eq := hbound
  dropped_eq := hdropped
  asks := by
    refine ⟨false, .stays (fun h => absurd h hlate) fun hrun hphase hnone => ?_, hhello⟩
    rcases hwaits hphase with hsome | hgone
    · exact absurd hnone hsome
    · rw [hrun] at hgone
      cases hgone

/-- A move of the task either asks for an id, or it does not. -/
theorem PhoneTask.move_asks {task task' : PhoneTask} {gone : Bool} {ev : PhoneEvent}
    {out : List PhoneOut} (h : (run setup).step task (.move gone ev) = (task', out)) :
    task.Goes gone task' (out.filterMap PhoneOut.toHub) := by
  have hs := task.step_spec setup (.move gone ev)
  rw [h] at hs
  generalize task.taken (.move gone ev) = texts at hs
  cases hs with
  | hello hphase hheader =>
    refine ⟨?_, rfl, rfl, true, .asks rfl (.inr hphase) ?_ rfl, rfl⟩
    · constructor <;> simp [hphase]
    · simp [phoneConns, ConnKind.clients, Early]
  | ignored hi => exact .stay (by simp) (by simp) _
  | said hphase => exact .stay (by simp) (by simp) _
  | pong hphase =>
    exact .stay (by simp [List.filterMap_cons]) (by simp [List.filterMap_cons]) _
  | @sent gone p text out hphase hout =>
    exact .stay (by simp [List.filterMap_cons]) (by simp [List.filterMap_cons]) out
  | refused hphase hout =>
    refine .leave ?_ rfl rfl (by simp [Early]) (by simp [hphase]) ?_
    · obtain rfl | rfl := hout <;> constructor <;> simp [Early, hphase, List.filterMap_cons]
    · obtain rfl | rfl := hout <;> simp [List.filterMap_cons]
  | bound hphase hbound =>
    refine .leave ?_ rfl rfl (by simp [Early]) (by simp [hbound]) (by simp)
    constructor <;> simp [hphase, hbound]
  | abandoned hphase hbound =>
    refine .leave ?_ rfl rfl (by simp [Early]) (by simp) (by simp)
    constructor <;> simp [hphase]
  | unheard hphase =>
    refine .leave ?_ rfl rfl (by simp [Early]) (by simp [hphase]) (by simp)
    constructor <;> simp [hphase]
  | left hphase hout =>
    refine .leave ?_ rfl rfl (by simp [Early]) (by simp [hphase]) (by simp)
    constructor <;> simp [hphase]
  | closed hphase hdrop hout =>
    refine .leave ?_ rfl rfl (by simp [Early]) (by simp [hphase]) (by simp)
    constructor <;> simp [hphase, hdrop]

/-- The task after a connection is spawned. -/
theorem PhoneTask.spawn_goes (setup : Setup P) (task : PhoneTask) (gone : Bool) :
    task.Goes gone ((run setup).step task .spawn).1 [] := by
  have hspawn : ((run setup).step task .spawn).1
      = if task.phase = .idle then { task with phase := .upgrading } else task := rfl
  rw [hspawn]
  split
  · rename_i hidle
    refine ⟨?_, rfl, rfl, false, .stays (fun _ => .inl hidle) fun _ hphase => ?_, List.not_mem_nil⟩
    · constructor <;> simp [hidle]
    · cases hidle.symm.trans hphase
  · exact .stay List.not_mem_nil (fun _ => List.not_mem_nil) task.out

/-- The connections that wait for an id, in the order in which they will get one. -/
def Serve.askingPhones (s : Serve) : List Nat := s.rx.filterMap Letter.asksPhone

/-- **The register of the phones**, and what the hub knows of them. -/
structure PhonesKept (s : Serve) : Prop where
  desk : phoneConns.Kept s.loop s.rx s.phones
  talking : ∀ k p, (s.phones k).phase = .talking p → (s.phones k).bound = some p
  /-- Only a task that has ended says farewell. -/
  farewell : ∀ letter ∈ s.rx, ∀ p, letter.msg = .phoneEof p → ∃ k, letter.sender = .phone k ∧
    (s.phones k).bound = some p ∧ (s.phones k).phase = .ended
  /-- The hub knows the phones whose tasks run. -/
  known : s.loop.stopped = false → ∀ k p, (s.phones k).bound = some p →
    (s.phones k).phase ≠ .ended → p ∈ s.loop.hub.phones
  /-- The hub is about to forget the others. -/
  mourned : s.loop.stopped = false → ∀ k p, (s.phones k).bound = some p →
    p ∈ s.loop.hub.phones → (s.phones k).phase = .ended → ⟨.phone k, .phoneEof p⟩ ∈ s.rx
  /-- It has not dropped its end of the queue of a task that runs. -/
  dropped : s.loop.stopped = false → ∀ k, (s.phones k).dropped = true →
    (s.phones k).phase = .ended

namespace PhonesKept

variable {s s' : Serve}

theorem register (hk : PhonesKept s) :
    Registered s.askingPhones (fun k => (s.phones k).bound) s.loop.hub.nextPhone :=
  Desk.register hk.desk

theorem early (hk : PhonesKept s) (k : Nat) (h : (s.phones k).Early) :
    k ∉ s.askingPhones ∧ (s.phones k).bound = none :=
  Desk.early hk.desk k h

theorem waits (hk : PhonesKept s) (hrun : s.loop.stopped = false) (k : Nat)
    (h : k ∈ s.askingPhones) : (s.phones k).phase = .binding :=
  Desk.waits hk.desk hrun k h

/-- The phones are not touched, and nothing about them is sent. -/
theorem others (hk : PhonesKept s) (hloop : s'.loop = s.loop) (hphones : s'.phones = s.phones)
    {sender : Sender} {msgs : List ToHub} (hrx : s'.rx = s.post sender msgs)
    (hhello : .phoneHello ∉ msgs) (heof : ∀ p, .phoneEof p ∉ msgs) : PhonesKept s' := by
  constructor
  case desk => rw [hloop, hphones, hrx]; exact hk.desk.others hhello
  case talking => rw [hphones]; exact hk.talking
  case farewell =>
    intro letter h p hmsg
    rw [hrx] at h
    rw [hphones]
    rcases Serve.mem_post h with h | ⟨-, h⟩
    · exact hk.farewell letter h p hmsg
    · exact absurd (hmsg ▸ h) (heof p)
  case known => rw [hphones, hloop]; exact hk.known
  case mourned =>
    rw [hphones, hloop, hrx]
    exact fun hrun k p hp hmem hend => Serve.mem_post_of_mem (hk.mourned hrun k p hp hmem hend)
  case dropped => rw [hphones, hloop]; exact hk.dropped

/-- **A task moves.** -/
theorem moved (hk : PhonesKept s) {k : Nat} {task : PhoneTask} {posts : List ToHub}
    (hgoes : (s.phones k).Goes s.loop.stopped task posts) :
    PhonesKept { s with
      phones := Function.update s.phones k task, rx := s.post (.phone k) posts } := by
  have hbounds : ∀ k', (Function.update s.phones k task k').bound = (s.phones k').bound :=
    phoneConns.clients.number_update hgoes.bound_eq
  have hended : ∀ k', (s.phones k').phase = .ended →
      (Function.update s.phones k task k').phase = .ended := by
    intro k' hend
    by_cases hne : k' = k
    · subst hne
      rw [Function.update_self]
      exact hgoes.ended hend
    · rwa [Function.update_of_ne hne]
  constructor
  case desk =>
    obtain ⟨asks, hmove, hsaid⟩ := hgoes.asks
    exact hk.desk.moves hgoes.bound_eq hmove hsaid
  case talking =>
    intro k' p hphase
    rw [hbounds]
    by_cases hne : k' = k
    · subst hne
      simp only [Function.update_self] at hphase
      rcases hgoes.talking p hphase with hphase | ⟨-, hp⟩
      · exact hk.talking k' p hphase
      · exact hp
    · simp only [Function.update_of_ne hne] at hphase
      exact hk.talking k' p hphase
  case farewell =>
    intro letter h p hmsg
    simp only [hbounds]
    rcases Serve.mem_post h with h | ⟨hsender, h⟩
    · obtain ⟨k', hsender, hp, hend⟩ := hk.farewell letter h p hmsg
      exact ⟨k', hsender, hp, hended k' hend⟩
    · obtain ⟨hphase, hend⟩ := hgoes.farewell p (hmsg ▸ h)
      exact ⟨k, hsender, hk.talking k p hphase, by simpa only [Function.update_self] using hend⟩
  case known =>
    intro hrun k' p hp hlive
    rw [hbounds] at hp
    exact hk.known hrun k' p hp fun hend => hlive (hended k' hend)
  case mourned =>
    intro hrun k' p hp hmem hend
    rw [hbounds] at hp
    by_cases hbefore : (s.phones k').phase = .ended
    · exact Serve.mem_post_of_mem (hk.mourned hrun k' p hp hmem hbefore)
    · by_cases hne : k' = k
      · subst hne
        simp only [Function.update_self] at hend
        have hkeep : (s.phones k').dropped = false := by
          rw [← Bool.not_eq_true]
          exact fun hdrop => hbefore (hk.dropped hrun k' hdrop)
        rcases hgoes.ends hend hbefore hrun hkeep with hearly | ⟨p', hphase, hpost⟩
        · rw [(hk.early k' hearly).2] at hp
          cases hp
        · obtain rfl : p' = p := Option.some.inj ((hk.talking k' p' hphase).symm.trans hp)
          have hadded := s.post_of_running hrun (.phone k') posts
          change _ ∈ s.post (.phone k') posts
          rw [hadded]
          exact List.mem_append_right _ (List.mem_map_of_mem hpost)
      · simp only [Function.update_of_ne hne] at hend
        exact absurd hend hbefore
  case dropped =>
    intro hrun k' hdrop
    refine hended k' (hk.dropped hrun k' ?_)
    by_cases hne : k' = k
    · subst hne
      simp only [Function.update_self] at hdrop
      rwa [← hgoes.dropped_eq]
    · simpa only [Function.update_of_ne hne] using hdrop

/-- What a turn of the hub is to the desk. -/
theorem desk_turn (setup : Setup P) (hk : PhonesKept s) {ev : ServeEvent P} {w : Serve.Wake}
    (hw : s.wake ev = some w) :
    phoneConns.clients.Turn s.rx s.phones (s.turn setup w).1.phones s.loop.hub.nextPhone w.rx
      (Hub.run.step s.loop w.turn).1.hub.nextPhone :=
  hk.desk.turn hw fun k => (Serve.phones_turn s w k).2.1.trans (by
    simp only [PhoneTask.boundAfter, decide_eq_true_eq]
    rfl)

/-- The ids after a turn of the hub: an old one, or the next one for a connection that waited. -/
theorem bound_turn (setup : Setup P) (hk : PhonesKept s) {ev : ServeEvent P} {w : Serve.Wake}
    (hw : s.wake ev = some w) {k : Nat} {p : PhoneId}
    (hp : ((s.turn setup w).1.phones k).bound = some p) :
    (s.phones k).bound = some p ∨ k ∈ s.askingPhones ∧ p = s.loop.hub.nextPhone + 1 ∧
      w.turn.input = .recv .phoneHello := by
  rcases (hk.desk_turn setup hw).number_cases hp with hp | ⟨hline, hnext, hgiven⟩
  · exact .inl hp
  · refine .inr ⟨hline, hnext, ?_⟩
    rcases turn_bindsPhone (Serve.wake_spec hw).1 w.turn with ⟨hin, -⟩ | ⟨-, -, hsame⟩
    · exact hin
    · rw [hsame] at hgiven
      lia

/-- **The hub takes a turn.** -/
theorem turn (hk : PhonesKept s) {ev : ServeEvent P} {w : Serve.Wake} (hw : s.wake ev = some w) :
    PhonesKept (s.turn setup w).1 := by
  obtain ⟨hrun, hread⟩ := Serve.wake_spec hw
  have hphase : ∀ k, ((s.turn setup w).1.phones k).phase = (s.phones k).phase :=
    fun k => (Serve.phones_turn s w k).1
  have hkeep : ∀ k p, (s.phones k).bound = some p →
      ((s.turn setup w).1.phones k).bound = some p := fun k p hp => by
    rw [(Serve.phones_turn s w k).2.1, PhoneTask.boundAfter, hp, Option.some_or]
  -- The hub forgets a phone only when it reads that its task has ended.
  have hleft : ∀ k p, (s.phones k).bound = some p → w.turn.input = .recv (.phoneEof p) →
      (s.phones k).phase = .ended := by
    intro k p hp hin
    rcases hread with ⟨letter, hletter, -, hmsg⟩ | ⟨-, -, hdeadline⟩
    · obtain ⟨k', -, hp', hend⟩ := hk.farewell letter (hletter ▸ List.mem_cons_self) p
        (by simpa [hin] using hmsg.symm)
      rwa [hk.register.unique k k' p hp hp']
    · rw [hin] at hdeadline
      cases hdeadline
  have hknown : ∀ k p, (s.phones k).bound = some p → p ∈ s.loop.hub.phones →
      (Hub.run.step s.loop w.turn).1.stopped = false →
      p ∉ (Hub.run.step s.loop w.turn).1.hub.phones → (s.phones k).phase = .ended := by
    intro k p hp hmem hrun' hnot
    rw [turn_phones hrun hrun', not_or] at hnot
    exact hleft k p hp (by_contra fun hin => hnot.1 ⟨hmem, hin⟩)
  constructor
  case desk =>
    refine Desk.turn hk.desk (hk.desk_turn setup hw) (fun _ => hrun) (fun k hearly => ?_)
      fun k hwaits => (hphase k).trans hwaits
    change PhoneTask.Early _ at hearly
    rwa [PhoneTask.Early, hphase] at hearly
  case talking =>
    intro k p h
    rw [hphase] at h
    exact hkeep k p (hk.talking k p h)
  case farewell =>
    intro letter h p hmsg
    obtain ⟨k, hsender, hp, hend⟩ := hk.farewell letter (Serve.mem_of_mem_wake hw h) p hmsg
    exact ⟨k, hsender, hkeep k p hp, by rw [hphase]; exact hend⟩
  case known =>
    intro hrun' k p hp hlive
    rw [hphase] at hlive
    change p ∈ (Hub.run.step s.loop w.turn).1.hub.phones
    rcases hk.bound_turn setup hw hp with hp | ⟨hmem, rfl, hin⟩
    · by_contra hnot
      exact hlive (hknown k p hp (hk.known hrun k p hp hlive) hrun' hnot)
    · exact (turn_phones hrun hrun' _).mpr (.inr ⟨hin, rfl⟩)
  case mourned =>
    intro hrun' k p hp hmem hend
    rw [hphase] at hend
    change p ∈ (Hub.run.step s.loop w.turn).1.hub.phones at hmem
    rcases hk.bound_turn setup hw hp with hp | ⟨hwait, -⟩
    · rw [turn_phones hrun hrun'] at hmem
      rcases hmem with ⟨hmem, hin⟩ | ⟨-, heq⟩
      · have hletter := hk.mourned hrun k p hp hmem hend
        rcases hread with ⟨letter, hrx, -, hmsg⟩ | ⟨hrx, -, -⟩
        · rw [hrx] at hletter
          rcases List.mem_cons.mp hletter with rfl | hletter
          · exact absurd hmsg hin
          · exact hletter
        · rw [← hrx] at hletter
          exact hletter
      · have := (hk.register.bounds k p hp).2
        lia
    · rw [hk.waits hrun k hwait] at hend
      cases hend
  case dropped =>
    intro hrun' k hdrop
    rw [hphase]
    rcases (Serve.phones_turn s w k).2.2.2.mp hdrop with hdrop | ⟨p, hp, hmem, hnot⟩
    · exact hk.dropped hrun k hdrop
    · exact hknown k p hp hmem hrun' hnot

theorem step (hk : PhonesKept s) {ev : ServeEvent P} {out : List ServeOut}
    (hs : Serve.Step setup s ev s' out) : PhonesKept s' := by
  have hpost : s.rx = s.post .serve [] := (s.post_nil .serve).symm
  cases hs with
  | flags hwake hhome hphone => exact hk.others rfl rfl hpost (by simp) (by simp)
  | dialHome hacc => exact hk.others rfl rfl hpost (by simp) (by simp)
  | ends =>
    exact hk.others rfl rfl (rfl : _ = s.post .serve [.shutdown]) (by simp) (by simp)
  | @home k ev task out h =>
    have hnot : ∀ msg ∈ out.filterMap (HomeOut.toHub setup.fromSlice),
        msg ≠ .phoneHello ∧ ∀ p, msg ≠ .phoneEof p := by
      intro msg hmsg
      obtain ⟨o, -, ho⟩ := List.mem_filterMap.mp hmsg
      cases o with
      | conn g o => cases o <;> cases ho <;> simp
      | _ => cases ho <;> simp
    exact hk.others rfl rfl rfl (fun h => (hnot _ h).1 rfl) fun p h => (hnot _ h).2 p rfl
  | @dialPhone k hacc =>
    have hkept := hk.moved (PhoneTask.spawn_goes setup (s.phones k) s.loop.stopped)
    rwa [s.post_nil] at hkept
  | phone h => exact hk.moved (PhoneTask.move_asks h)
  | turn hw hhome hphone => exact hk.turn hw

/-- **The register of the phones is kept**, whatever the order of events. -/
theorem final (setup : Setup P) (evs : List (ServeEvent P)) :
    PhonesKept ((Serve.run setup).final evs) := by
  refine (Serve.run setup).run_induction (P := fun _ s => PhonesKept s) ?_ (fun evs ev ih => ?_) evs
  · exact
      { desk := Desk.start fun _ => rfl
        talking := fun _ _ h => by cases h
        farewell := fun _ h => absurd h List.not_mem_nil
        known := fun _ _ _ h => by cases h
        mourned := fun _ _ _ h => by cases h
        dropped := fun _ _ h => by cases h }
  · exact ih.step (Serve.step_spec setup _ ev)

end PhonesKept

/-! ## 4. The hub knows the phones that are there -/

theorem Run.phones_positive {hist : List Line} {h : Hub} (hr : Run hist h) :
    ∀ p, p ∈ h.phones → 1 ≤ p := by
  refine hr.invariant (P := fun _ h => ∀ p, p ∈ h.phones → 1 ≤ p) ?_ fun _ hs ih p hp => ?_
  · exact fun p hp => absurd hp (AList.notMem_empty p)
  · obtain hp | ⟨rfl, -⟩ := hs.mem_phones hp
    · exact ih p hp
    · exact Nat.le_add_left _ _

/-- A phone that the hub knows is the phone of a task. -/
theorem task_of_phone (setup : Setup P) (evs : List (ServeEvent P)) {p : PhoneId}
    (hp : p ∈ ((Serve.run setup).final evs).loop.hub.phones) :
    ((Serve.run setup).final evs).loop.stopped = false ∧
      ∃ k, (((Serve.run setup).final evs).phones k).bound = some p := by
  have hrun : ((Serve.run setup).final evs).loop.stopped = false := by
    obtain ⟨phone, hlookup⟩ := Table.mem_iff_exists.mp hp
    rw [loop_final] at hlookup ⊢
    exact running_of_phone hlookup
  have hr : Run (Hub.run.history (hubTurns setup evs)) ((Serve.run setup).final evs).loop.hub := by
    rw [loop_final] at hrun ⊢
    exact running hrun
  exact ⟨hrun, (PhonesKept.final setup evs).register.given p (hr.phones_positive p hp)
    (hr.wellKept.below p hp)⟩

/-- The hub and the tasks agree on the phones. -/
structure PhonesAttended (s : Serve) : Prop where
  /-- A phone id is the id of one task. -/
  unique : ∀ k k' p, (s.phones k).bound = some p → (s.phones k').bound = some p → k = k'
  /-- A phone that the hub knows is a task that talks or is about to, or has its end in `rx`. -/
  owner : ∀ p, p ∈ s.loop.hub.phones → ∃ k, (s.phones k).bound = some p ∧
    ((s.phones k).phase ≠ .ended ∨ ⟨.phone k, .phoneEof p⟩ ∈ s.rx)
  /-- The hub knows every phone whose task talks, until it ends itself. -/
  known : s.loop.stopped = false → ∀ k p, (s.phones k).phase = .talking p → p ∈ s.loop.hub.phones
  /-- It drops its end of the queue of no task that talks, until it ends itself. -/
  undropped : s.loop.stopped = false → ∀ k p, (s.phones k).phase = .talking p →
    (s.phones k).dropped = false

/-- **The hub knows the phones that are there and no others**, whatever the order of events: a
phone that it knows is one task, which either runs or has its end in `rx`. -/
theorem phones_attended (setup : Setup P) (evs : List (ServeEvent P)) :
    PhonesAttended ((Serve.run setup).final evs) := by
  have hk := PhonesKept.final setup evs
  constructor
  case unique => exact hk.register.unique
  case owner =>
    intro p hp
    obtain ⟨hrun, k, hk'⟩ := task_of_phone setup evs hp
    refine ⟨k, hk', ?_⟩
    by_cases hend : (((Serve.run setup).final evs).phones k).phase = .ended
    · exact .inr (hk.mourned hrun k p hk' hp hend)
    · exact .inl hend
  case known =>
    intro hrun k p hphase
    exact hk.known hrun k p (hk.talking k p hphase) (by simp [hphase])
  case undropped =>
    intro hrun k p hphase
    rw [← Bool.not_eq_true]
    intro hdrop
    rw [hk.dropped hrun k hdrop] at hphase
    cases hphase

end Aqualung
