/-
# Delivery

What the hub sends on a link or to a phone goes through the queue of a task and out on its socket,
and what comes in on a socket goes through the task and `rx` to the hub.  Both ways nothing is
lost, doubled or reordered as long as both ends run, whatever the order of events in topside.

From the hub to a socket (`sockets_told`) there are three equations, one after the other: what is
queued for a task is what the hub says on its link or to its phone (`home_queued`, `phone_queued`);
what is taken is what was queued, up to what is still in the queue (`Lib.Mailbox`); what is written
is what was taken (`wire_kept`, `sent_kept`).  The first of them is the only one with a difficulty:
the channel of a link comes to the task that asked for it, and what was said on the link before the
task has its generation would be lost.  Nothing is, because the hub uses a number for the first time
in the turn in which it gives it away (`Numbered`).

From a socket to the hub (`hub_told`) it is the same with `rx` as the queue, which all tasks share;
what each of them says there keeps its order and has the shape that `HomeTask.Reported` and
`PhoneTask.Reported` give it.

A message that a task takes from its queue counts as written or as waiting and never as neither,
because to take and to write is one move, placed at the end of the write (`Net/HomeTask.lean`).
While a write is under way the message is in the queue, for everything that is said here.
-/
import Aqualung.Net.PhoneRegister
import Aqualung.Hub.Handshake
import Aqualung.Hub.Accounts

namespace Aqualung

open Lib

/-! ## 1. What the hub says, and to whom -/

theorem HubStep.toHome_acp {t : Turn} {h h' : Hub} {out : List Effect} (hs : HubStep t h h' out)
    {g : HomeGen} {msg : LeaderClient} (hmem : .toHome g msg ∈ out) : ∃ m, msg = .acp m := by
  cases hs.homeBound with
  | nothing hout => exact absurd hmem (hout g msg)
  | loading hc hset he hnext hout =>
    rw [hout] at hmem
    obtain ⟨e, -, heq⟩ := List.mem_map.mp hmem
    cases heq
    exact ⟨_, rfl⟩
  | initializing hc why hnext hout =>
    rw [hout] at hmem
    cases List.mem_singleton.mp hmem
    exact ⟨_, rfl⟩
  | forwarding ht hp hreq hm hnext hout =>
    rw [hout] at hmem
    cases List.mem_singleton.mp hmem
    exact ⟨_, rfl⟩
  | notification ht hp hmethod hid hm hout =>
    rw [hout] at hmem
    cases List.mem_singleton.mp hmem
    exact ⟨_, rfl⟩
  | reply ht hp hmethod hreply hid hkey hopen hm hout =>
    rw [hout] at hmem
    cases List.mem_singleton.mp hmem
    exact ⟨_, rfl⟩

theorem HubStep.mem_of_toPhone {t : Turn} {h h' : Hub} {out : List Effect}
    (hs : HubStep t h h' out) {p : PhoneId} {m : Obj} (hmem : .toPhone p m ∈ out) :
    p ∈ h.phones := by
  have hknown : ∀ {q : PhoneId} {phone : Phone}, h.phones.lookup q = some phone → q ∈ h.phones :=
    fun hq => Table.mem_iff_exists.mpr ⟨_, hq⟩
  have hnote : ∀ {away}, .toPhone p m ∈ h.broadcastAway away → p ∈ h.phones := fun hmem =>
    hknown (Hub.mem_broadcastAway.mp hmem).1
  cases hs with
  | relayed hset hm => exact (Hub.mem_sendPhone.mp hmem).2.2
  | loading hc hset he hne => simp at hmem
  | promoted hc why =>
    cases hm : h.home.mux with
    | none => exact hnote (hm ▸ hmem)
    | some g => simp [hm, Hub.promotionOut] at hmem
  | muxLost hm ht =>
    obtain heq | hmem := List.mem_cons.mp hmem
    · cases heq
    · exact hnote hmem
  | notified hm ht hmethod hid =>
    unfold Hub.onHomeNotification at hmem
    split at hmem
    · cases hmem
    split at hmem
    · cases hmem
    split at hmem
    · cases hmem
    split at hmem
    · cases hmem
    · obtain ⟨q, -, hq⟩ := List.mem_flatMap.mp hmem
      exact (Hub.mem_sendPhone.mp hq).2.2
  | asked hm ht hmethod hid hsession hne =>
    obtain ⟨c, -, hc⟩ := List.mem_flatMap.mp hmem
    exact (Hub.mem_sendPhone.mp hc).2.2
  | refused ht hp =>
    obtain ⟨rfl, -⟩ := Effect.toPhone.inj (List.mem_singleton.mp hmem)
    exact hknown hp
  | initialized ht hid hmethod hp =>
    obtain heq | hmem := List.mem_cons.mp hmem
    · obtain ⟨rfl, -⟩ := Effect.toPhone.inj heq
      exact hknown hp
    · split at hmem
      · obtain ⟨rfl, -⟩ := Effect.toPhone.inj (List.mem_singleton.mp hmem)
        exact hknown hp
      · cases hmem
  | requestAway ht hp =>
    obtain ⟨rfl, -⟩ := Effect.toPhone.inj (List.mem_singleton.mp hmem)
    exact hknown hp
  | accepted ht => simp at hmem
  | _ => simp at hmem

/-- What a step says goes to links and phones that are numbered already. -/
structure Numbered (l : Loop) (eff : Effect) : Prop where
  home : ∀ g msg, eff = .toHome g msg → g ≤ l.hub.nextGen
  phone : ∀ p m, eff = .toPhone p m → p ≤ l.hub.nextPhone

theorem Numbered.mono {l l' : Loop} {eff : Effect} (hn : Numbered l eff)
    (hgen : l.hub.nextGen ≤ l'.hub.nextGen) (hphone : l.hub.nextPhone ≤ l'.hub.nextPhone) :
    Numbered l' eff :=
  ⟨fun g msg heq => (hn.home g msg heq).trans hgen, fun p m heq => (hn.phone p m heq).trans hphone⟩

/-- **Nobody is spoken to before having a number.** -/
theorem numbered (ts : List Turn) :
    ∀ e ∈ Hub.run.history ts, ∀ eff ∈ e.out, Numbered (Hub.run.final ts) eff := by
  induction ts using List.reverseRecOn with
  | nil => exact fun _ he => absurd he List.not_mem_nil
  | append_singleton ts t ih =>
    rw [Hub.run.history_snoc, Hub.run.final_snoc]
    intro e he eff heff
    obtain ⟨-, heq⟩ | ⟨-, -, heq⟩ | ⟨hr, h', out, heq, hs⟩ := turn_cases ts t
    · obtain he | he := List.mem_append.mp he
      · exact heq ▸ ih e he eff heff
      · rw [List.mem_singleton.mp he, heq] at heff
        exact absurd heff List.not_mem_nil
    · obtain he | he := List.mem_append.mp he
      · refine (ih e he eff heff).mono ?_ ?_ <;> simp [heq, Hub.shutdown_eq]
      · rw [List.mem_singleton.mp he, heq, Hub.shutdown_eq] at heff
        constructor <;> rintro _ _ rfl <;> simp at heff
    · have hgen := hs.bound_eq.2
      have hphone := hs.nextPhone_le
      rw [heq]
      obtain he | he := List.mem_append.mp he
      · exact (ih e he eff heff).mono hgen hphone
      · rw [List.mem_singleton.mp he, heq] at heff
        constructor
        · rintro g msg rfl
          obtain ⟨m, rfl⟩ := hs.toHome_acp heff
          exact ((hr.held (hs.holds_of_toHome heff)).2.1).trans hgen
        · rintro p m rfl
          exact (hr.wellKept.below p (hs.mem_of_toPhone heff)).trans hphone

/-! ## 2. What is queued for a task -/

section

variable {α N : Type*} (sel : Option N → Effect → Option α) {before after : Option N}
  {hist : List Line}

/-- What a turn of the hub adds to what has been queued for a task, with the number it has then:
before it had one, nothing was. -/
theorem collect_turn (hnone : ∀ eff, sel none eff = none) (hkeep : ∀ n, before = some n → after = some n)
    (hnew : ∀ n, before = none → after = some n → ∀ e ∈ hist, ∀ eff ∈ e.out, sel (some n) eff = none)
    (e : Line) :
    collect (sel after) (hist ++ [e]) = collect (sel before) hist ++ e.out.filterMap (sel after) := by
  have hquiet : ∀ n, (∀ e ∈ hist, ∀ eff ∈ e.out, sel n eff = none) → collect (sel n) hist = [] := by
    intro n hn
    rw [collect, List.filterMap_eq_nil_iff]
    intro eff heff
    obtain ⟨e, he, heff⟩ := List.mem_flatMap.mp heff
    exact hn e he eff heff
  rw [collect_append, collect_singleton]
  cases hb : before with
  | some n => rw [hkeep n hb]
  | none =>
    rw [hquiet none fun _ _ eff _ => hnone eff]
    cases ha : after with
    | none => rw [hquiet none fun _ _ eff _ => hnone eff]
    | some n => rw [hquiet (some n) (hnew n hb ha)]

end

variable {P : Type*} (setup : Setup P)

/-- What the task hears of a turn of the hub fills its queue with what is on its link. -/
theorem HomeTask.queued_hears (task : HomeTask) (mine : Bool) (out : List Effect) :
    (task.hears mine out : List (HomeInput P)).flatMap HomeTask.queued
      = out.filterMap (Effect.onLink (task.boundAfter mine out)) := by
  refine flatMap_filterMap (fun eff => ?_) out
  cases eff with
  | bindGen g => cases mine <;> rfl
  | toHome g msg =>
    simp only [hear, Effect.onLink]
    split <;> rfl
  | halt g =>
    simp only [hear, Effect.onLink]
    split <;> rfl
  | _ => rfl

theorem PhoneTask.queued_hears (task : PhoneTask) (mine : Bool) (out : List Effect)
    (before after : Hub) :
    (task.hears mine out before after).flatMap PhoneTask.queued
      = out.filterMap (Effect.forPhone (task.boundAfter mine out)) := by
  have hqueue : (out.filterMap (hear mine (task.boundAfter mine out))).flatMap PhoneTask.queued
      = out.filterMap (Effect.forPhone (task.boundAfter mine out)) := by
    refine flatMap_filterMap (fun eff => ?_) out
    cases eff with
    | bindPhone p => cases mine <;> rfl
    | toPhone p text =>
      simp only [hear, Effect.forPhone]
      split <;> rfl
    | _ => rfl
  rw [PhoneTask.hears, List.flatMap_append, hqueue]
  refine List.append_right_eq_self.mpr ?_
  split
  · split <;> rfl
  · rfl

/-- What an event puts in the queue of a link is what the hub says on it. -/
theorem Serve.homeTakes_queued (s : Serve) (ev : ServeEvent P) (k : Nat) :
    (s.homeTakes k ev).flatMap HomeTask.queued = (s.wake ev).toList.flatMap fun w =>
      (Hub.run.step s.loop w.turn).2.filterMap (Effect.onLink ((s.homes k).boundAfter
        (w.sender = some (.home k)) (Hub.run.step s.loop w.turn).2)) := by
  have hwake : ((s.wake ev).toList.flatMap fun w => (s.toHome w k : List (HomeInput P))).flatMap
        HomeTask.queued
      = (s.wake ev).toList.flatMap fun w =>
        (Hub.run.step s.loop w.turn).2.filterMap (Effect.onLink ((s.homes k).boundAfter
          (w.sender = some (.home k)) (Hub.run.step s.loop w.turn).2)) := by
    rw [List.flatMap_assoc]
    simp only [toHome, HomeTask.queued_hears]
  cases ev with
  | dialHome k' =>
    rw [s.wake_eq_none _ (by simp) (by simp)]
    simp only [homeTakes]
    split <;> rfl
  | home k' ev =>
    rw [s.wake_eq_none _ (by simp) (by simp)]
    simp only [homeTakes]
    split <;> rfl
  | _ => exact hwake

theorem Serve.phoneTakes_queued (s : Serve) (ev : ServeEvent P) (k : Nat) :
    (s.phoneTakes k ev).flatMap PhoneTask.queued = (s.wake ev).toList.flatMap fun w =>
      (Hub.run.step s.loop w.turn).2.filterMap (Effect.forPhone ((s.phones k).boundAfter
        (w.sender = some (.phone k)) (Hub.run.step s.loop w.turn).2)) := by
  have hwake : ((s.wake ev).toList.flatMap (s.toPhone · k)).flatMap PhoneTask.queued
      = (s.wake ev).toList.flatMap fun w =>
        (Hub.run.step s.loop w.turn).2.filterMap (Effect.forPhone ((s.phones k).boundAfter
          (w.sender = some (.phone k)) (Hub.run.step s.loop w.turn).2)) := by
    rw [List.flatMap_assoc]
    simp only [toPhone, PhoneTask.queued_hears]
  cases ev with
  | dialPhone k' =>
    rw [s.wake_eq_none _ (by simp) (by simp)]
    simp only [phoneTakes]
    split <;> rfl
  | phone k' ev =>
    rw [s.wake_eq_none _ (by simp) (by simp)]
    simp only [phoneTakes]
    split <;> rfl
  | _ => exact hwake

variable {setup}

/-- Without a turn of the hub, no phone gets an id. -/
theorem Serve.Step.quiet_phones {s s' : Serve} {ev : ServeEvent P} {out : List ServeOut}
    (hs : Serve.Step setup s ev s' out) (hw : s.wake ev = none) (k : Nat) :
    (s'.phones k).bound = (s.phones k).bound := by
  have hupdate : ∀ {k' : Nat} {task : PhoneTask}, task.bound = (s.phones k').bound →
      (Function.update s.phones k' task k).bound = (s.phones k).bound :=
    fun h => phoneConns.clients.number_update h k
  cases hs with
  | @dialPhone k' hacc =>
    refine hupdate ?_
    change (PhoneTask.step setup (s.phones k') .spawn).1.bound = _
    unfold PhoneTask.step
    by_cases hidle : (s.phones k').phase = .idle <;> simp [hidle]
  | phone h => exact hupdate (PhoneTask.move_asks h).bound_eq
  | turn hw' =>
    rw [hw] at hw'
    cases hw'
  | _ => rfl

/-- The first number of a task is one that the hub has not used before. -/
theorem HomeTask.boundAfter_new {task : HomeTask} {mine : Bool} {l : Loop} (hl : l.stopped = false)
    (t : Turn) {g : HomeGen} (hbefore : task.bound = none)
    (hafter : task.boundAfter mine (Hub.run.step l t).2 = some g) : l.hub.nextGen < g := by
  rw [boundAfter, hbefore, Option.none_or] at hafter
  split at hafter
  · obtain ⟨-, hfirst, -⟩ | ⟨-, hfirst, -⟩ := turn_binds hl t
    · rw [hfirst] at hafter
      cases hafter
      exact Nat.lt_succ_self _
    · rw [hfirst] at hafter
      cases hafter
  · cases hafter

theorem PhoneTask.boundAfter_new {task : PhoneTask} {mine : Bool} {l : Loop}
    (hl : l.stopped = false) (t : Turn) {p : PhoneId} (hbefore : task.bound = none)
    (hafter : task.boundAfter mine (Hub.run.step l t).2 = some p) : l.hub.nextPhone < p := by
  rw [boundAfter, hbefore, Option.none_or] at hafter
  split at hafter
  · obtain ⟨-, hfirst, -⟩ | ⟨-, hfirst, -⟩ := turn_bindsPhone hl t
    · rw [hfirst] at hafter
      cases hafter
      exact Nat.lt_succ_self _
    · rw [hfirst] at hafter
      cases hafter
  · cases hafter

variable (setup)

/-- **What has been queued for the task of a link** is what the hub has said on the link. -/
theorem home_queued (evs : List (ServeEvent P)) (k : Nat) :
    ((Serve.homeTask setup k).inputs ((Serve.run setup).history evs)).flatMap HomeTask.queued
      = collect (Effect.onLink (((Serve.run setup).final evs).homes k).bound)
        (Hub.run.history (hubTurns setup evs)) := by
  induction evs using List.reverseRecOn with
  | nil => rfl
  | append_singleton evs ev ih =>
    have hloop := loop_final setup evs
    have hnumbered := numbered (hubTurns setup evs)
    have hs := ((Serve.run setup).final evs).step_spec setup ev
    rw [Machine.history_snoc, Component.inputs_append, Component.inputs_singleton,
      List.flatMap_append, ih, Machine.final_snoc, hubTurns_snoc]
    change _ ++ (((Serve.run setup).final evs).homeTakes k ev).flatMap HomeTask.queued = _
    rw [Serve.homeTakes_queued]
    generalize (Serve.run setup).step ((Serve.run setup).final evs) ev = next at hs ⊢
    obtain ⟨s', out⟩ := next
    generalize (Serve.run setup).final evs = s at hs hloop ⊢
    obtain ⟨w, hw, heq⟩ | ⟨hw, -, hsame⟩ := hs.quiet
    · obtain rfl : s' = (s.turn setup w).1 := heq
      rw [Serve.hubTakes, hw, Option.toList_some, List.map_singleton, List.flatMap_singleton,
        Hub.run.history_snoc, ← hloop, Serve.homes_turn]
      rw [← hloop] at hnumbered
      refine (collect_turn Effect.onLink (fun eff => ?_) (fun g hg => ?_)
        (fun g hnone hg e he eff heff => ?_) ⟨s.loop, w.turn, _⟩).symm
      · cases eff <;> simp [Effect.onLink]
      · rw [HomeTask.boundAfter, hg, Option.some_or]
      · cases eff with
        | toHome g' msg =>
          have hle := (hnumbered e he _ heff).home g' msg rfl
          have hlt := HomeTask.boundAfter_new (Serve.wake_spec hw).1 w.turn hnone hg
          simp only [Effect.onLink, Option.some.injEq, ite_eq_right_iff, reduceCtorEq, imp_false]
          rintro rfl
          exact absurd hle (not_le_of_gt hlt)
        | _ => rfl
    · obtain ⟨hbound, -⟩ := hsame k
      change (s'.homes k).bound = _ at hbound
      rw [Serve.hubTakes, hw, hbound]
      simp

/-- **What has been queued for the task of a phone** is what the hub has said to the phone. -/
theorem phone_queued (evs : List (ServeEvent P)) (k : Nat) :
    ((Serve.phoneTask setup k).inputs ((Serve.run setup).history evs)).flatMap PhoneTask.queued
      = collect (Effect.forPhone (((Serve.run setup).final evs).phones k).bound)
        (Hub.run.history (hubTurns setup evs)) := by
  induction evs using List.reverseRecOn with
  | nil => rfl
  | append_singleton evs ev ih =>
    have hloop := loop_final setup evs
    have hnumbered := numbered (hubTurns setup evs)
    have hs := ((Serve.run setup).final evs).step_spec setup ev
    rw [Machine.history_snoc, Component.inputs_append, Component.inputs_singleton,
      List.flatMap_append, ih, Machine.final_snoc, hubTurns_snoc]
    change _ ++ (((Serve.run setup).final evs).phoneTakes k ev).flatMap PhoneTask.queued = _
    rw [Serve.phoneTakes_queued]
    generalize (Serve.run setup).step ((Serve.run setup).final evs) ev = next at hs ⊢
    obtain ⟨s', out⟩ := next
    generalize (Serve.run setup).final evs = s at hs hloop ⊢
    obtain ⟨w, hw, heq⟩ | ⟨hw, -, -⟩ := hs.quiet
    · obtain rfl : s' = (s.turn setup w).1 := heq
      rw [Serve.hubTakes, hw, Option.toList_some, List.map_singleton, List.flatMap_singleton,
        Hub.run.history_snoc, ← hloop, (Serve.phones_turn s w k).2.1]
      rw [← hloop] at hnumbered
      refine (collect_turn Effect.forPhone (fun eff => ?_) (fun p hp => ?_)
        (fun p hnone hp e he eff heff => ?_) ⟨s.loop, w.turn, _⟩).symm
      · cases eff <;> simp [Effect.forPhone]
      · rw [PhoneTask.boundAfter, hp, Option.some_or]
      · cases eff with
        | toPhone p' m =>
          have hle := (hnumbered e he _ heff).phone p' m rfl
          have hlt := PhoneTask.boundAfter_new (Serve.wake_spec hw).1 w.turn hnone hp
          simp only [Effect.forPhone, Option.some.injEq, ite_eq_right_iff, reduceCtorEq, imp_false]
          rintro rfl
          exact absurd hle (not_le_of_gt hlt)
        | _ => rfl
    · have hbound := hs.quiet_phones hw k
      change (s'.phones k).bound = _ at hbound
      rw [Serve.hubTakes, hw, hbound]
      simp

/-! ## 3. From the hub to the sockets -/

/-- A task writes nothing before it has a link. -/
theorem HomeTask.unbound_silent (is : List (HomeInput P))
    (hnone : ((run setup).final is).bound = none) :
    collect HomeOut.wire ((run setup).history is) = [] := by
  revert hnone
  have hstep : ∀ {task task' : HomeTask} {i evs outs} {fs posts},
      Reported setup task fs posts → Step setup task i evs task' outs → task'.bound = none →
      task.bound = none ∧ outs.filterMap HomeOut.wire = [] := by
    intro task task' i evs outs fs posts hr hs hnone
    unfold Reported at hr
    cases hs with
    | registered hphase =>
      rw [hphase] at hr
      rw [show task.bound = none from hnone] at hr
      cases hr.1
    | turn hphase hcmd hrun hsent =>
      rw [hphase] at hr
      rw [show task.bound = none from hnone] at hr
      cases hr.1
    | last hphase hcmd hend =>
      rw [hphase] at hr
      rw [show task.bound = none from hnone] at hr
      cases hr.1
    | bind => simp at hnone
    | _ => exact ⟨hnone, rfl⟩
  induction is using List.reverseRecOn with
  | nil => exact fun _ => rfl
  | append_singleton is i ih =>
    intro hnone
    rw [Machine.final_snoc] at hnone
    obtain ⟨hbefore, hout⟩ := hstep (reported setup is) (step_spec setup _ i) hnone
    rw [Machine.history_snoc, collect_append, collect_singleton, ih hbefore, hout]
    rfl

/-- What has been written on the socket of the home connection `k`, write by write. -/
def writtenHome (evs : List (ServeEvent P)) (k : Nat) : List Bytes :=
  collect (fun o => (ServeOut.ofHome k o).bind HomeOut.wire) ((Serve.run setup).history evs)

/-- What has been written on the socket of the phone connection `k`. -/
def writtenPhone (evs : List (ServeEvent P)) (k : Nat) : List Obj :=
  collect (fun o => (ServeOut.ofPhone k o).bind PhoneOut.sent) ((Serve.run setup).history evs)

theorem collect_onLink (ts : List Turn) (g : HomeGen) :
    collect (Effect.onLink (some g)) (Hub.run.history ts)
      = (queued g (Hub.run.history ts)).map .acp := by
  rw [queued, collect, collect, List.map_filterMap]
  refine List.filterMap_congr fun eff heff => ?_
  cases eff with
  | toHome g' msg =>
    obtain ⟨e, he, hmem⟩ := List.mem_flatMap.mp heff
    obtain ⟨pre, post, hsplit⟩ := List.append_of_mem he
    obtain ⟨-, -, h', -, hs⟩ := step_of_line hsplit hmem fun _ heq => by cases heq
    obtain ⟨m, rfl⟩ := hs.toHome_acp hmem
    by_cases hg : g' = g
    · simp [Effect.onLink, Effect.acpOn, Effect.acp, hg]
    · simp [Effect.onLink, Effect.acpOn, Effect.acp, hg, Ne.symm hg]
  | _ => rfl

theorem collect_forPhone (hist : List Line) (p : PhoneId) :
    collect (Effect.forPhone (some p)) hist = received p hist := by
  rw [received, collect, collect]
  refine List.filterMap_congr fun eff _ => ?_
  cases eff with
  | toPhone p' m =>
    by_cases hp : p' = p
    · simp [Effect.forPhone, Effect.textFor, Effect.text, hp]
    · simp [Effect.forPhone, Effect.textFor, Effect.text, hp, Ne.symm hp]
  | _ => rfl

theorem HomeTask.spoken_acp (ms : List Obj) : spoken (ms.map .acp) = ms.map .acp := by
  simp [spoken, List.filter_map, Function.comp_def]

/-- The leader on the connection `k` has been told what the hub has said on the link `g`. -/
structure LeaderTold (evs : List (ServeEvent P)) (k : Nat) (g : HomeGen) : Prop where
  /-- The registration comes first, and then, with pings in between, what the hub has queued. -/
  order : writtenHome setup evs k = [] ∨ ∃ ms,
    writtenHome setup evs k = (LeaderClient.registerFrame :: ms).map (HomeTask.frameFor setup) ∧
      HomeTask.spoken ms <+: (queued g (Hub.run.history (hubTurns setup evs))).map .acp
  /-- As long as the task has not ended, what is missing waits in its queue; before its loop runs
  that is all of it. -/
  lossless : (((Serve.run setup).final evs).homes k).phase ≠ .ended → ∃ ms,
    HomeTask.spoken ms ++ HomeTask.spoken (((Serve.run setup).final evs).homes k).out
        = (queued g (Hub.run.history (hubTurns setup evs))).map .acp ∧
      ((((Serve.run setup).final evs).homes k).phase = .looping g ∧
          writtenHome setup evs k
            = (LeaderClient.registerFrame :: ms).map (HomeTask.frameFor setup) ∨
        (((Serve.run setup).final evs).homes k).phase ≠ .looping g ∧ ms = [] ∧
          writtenHome setup evs k = [])

/-- What the task has taken from its queue, and what waits in it, is what the hub has said on its
link, and nothing of it is a ping. -/
theorem spoken_taken (evs : List (ServeEvent P)) (k : Nat) {g : HomeGen}
    (hg : (((Serve.run setup).final evs).homes k).bound = some g) :
    HomeTask.spoken ((HomeTask.mailbox setup).taken ((HomeTask.run setup).history
        ((Serve.homeTask setup k).inputs ((Serve.run setup).history evs)))) ++
      HomeTask.spoken (((Serve.run setup).final evs).homes k).out
        = (queued g (Hub.run.history (hubTurns setup evs))).map .acp := by
  have hput := home_queued setup evs k
  rw [hg, collect_onLink] at hput
  have hmail := (HomeTask.mailbox setup).put_eq
    ((Serve.homeTask setup k).inputs ((Serve.run setup).history evs))
  rw [(HomeTask.mailbox setup).put_history (fun _ _ => rfl), hput,
    ← (Serve.homeTask setup k).state_final] at hmail
  have hspoken := congrArg HomeTask.spoken hmail
  rw [HomeTask.spoken_append, HomeTask.spoken_acp] at hspoken
  exact hspoken.symm

/-- What a leader is told, whatever the order of events: nothing before its task has a link, and
then what the hub says on that link. -/
theorem LeaderTold.final (evs : List (ServeEvent P)) (k : Nat) :
    ((((Serve.run setup).final evs).homes k).bound = none → writtenHome setup evs k = []) ∧
      ∀ g, (((Serve.run setup).final evs).homes k).bound = some g → LeaderTold setup evs k g := by
  have hwritten : writtenHome setup evs k = collect HomeOut.wire ((HomeTask.run setup).history
      ((Serve.homeTask setup k).inputs ((Serve.run setup).history evs))) :=
    (Serve.homeTask setup k).collect_bind HomeOut.wire evs
  have hstate : ((Serve.run setup).final evs).homes k = (HomeTask.run setup).final
      ((Serve.homeTask setup k).inputs ((Serve.run setup).history evs)) :=
    (Serve.homeTask setup k).state_final evs
  constructor
  · intro hnone
    rw [hstate] at hnone
    rw [hwritten]
    exact HomeTask.unbound_silent setup _ hnone
  · intro g hg
    have hwire := HomeTask.wire_kept setup
      ((Serve.homeTask setup k).inputs ((Serve.run setup).history evs))
    rw [← hwritten, ← hstate] at hwire
    obtain ⟨-, ms, hms, hwrote⟩ := hwire
    have hspoken := spoken_taken setup evs k hg
    have horder : ∀ {ms' : List LeaderClient}, HomeTask.spoken ms' <+: HomeTask.spoken
        ((HomeTask.mailbox setup).taken ((HomeTask.run setup).history
          ((Serve.homeTask setup k).inputs ((Serve.run setup).history evs)))) →
        HomeTask.spoken ms' <+: (queued g (Hub.run.history (hubTurns setup evs))).map .acp :=
      fun h => hspoken ▸ h.trans (List.prefix_append _ _)
    unfold HomeTask.Wrote at hwrote
    constructor
    case order =>
      rw [hms]
      split at hwrote
      · obtain ⟨ms', rfl, hsame⟩ := hwrote
        exact .inr ⟨ms', rfl, horder (hsame ▸ List.prefix_rfl)⟩
      · obtain rfl | ⟨ms', rfl, hpart⟩ := hwrote
        · exact .inl rfl
        · exact .inr ⟨ms', rfl, horder hpart⟩
      · rw [hwrote.1]
        exact .inl rfl
    case lossless =>
      intro hlive
      split at hwrote
      · rename_i g' hphase
        obtain rfl : g' = g :=
          Option.some.inj ((bound_of_phase setup evs (.inr hphase)).symm.trans hg)
        obtain ⟨ms', rfl, hsame⟩ := hwrote
        exact ⟨ms', by rw [hsame]; exact hspoken, .inl ⟨hphase, hms⟩⟩
      · exact absurd ‹_› hlive
      · rename_i hnot _
        obtain ⟨rfl, hnone⟩ := hwrote
        rw [hnone] at hspoken
        exact ⟨[], hspoken, .inr ⟨hnot g, rfl, hms⟩⟩

/-- What a phone is told, with the id `p`. -/
structure PhoneTold (evs : List (ServeEvent P)) (k : Nat) (p : PhoneId) : Prop where
  order : writtenPhone setup evs k <+: received p (Hub.run.history (hubTurns setup evs))
  /-- As long as the task has not ended, what is missing waits in its queue. -/
  lossless : (((Serve.run setup).final evs).phones k).phase ≠ .ended →
    writtenPhone setup evs k ++ (((Serve.run setup).final evs).phones k).out
      = received p (Hub.run.history (hubTurns setup evs))

/-- What a phone is told, whatever the order of events: nothing before its task has an id, and
then what the hub sends to that id. -/
theorem PhoneTold.final (evs : List (ServeEvent P)) (k : Nat) :
    ((((Serve.run setup).final evs).phones k).bound = none → writtenPhone setup evs k = []) ∧
      ∀ p, (((Serve.run setup).final evs).phones k).bound = some p → PhoneTold setup evs k p := by
  have hwritten : writtenPhone setup evs k = collect PhoneOut.sent ((PhoneTask.run setup).history
      ((Serve.phoneTask setup k).inputs ((Serve.run setup).history evs))) :=
    (Serve.phoneTask setup k).collect_bind PhoneOut.sent evs
  have hstate : ((Serve.run setup).final evs).phones k = (PhoneTask.run setup).final
      ((Serve.phoneTask setup k).inputs ((Serve.run setup).history evs)) :=
    (Serve.phoneTask setup k).state_final evs
  have hput := phone_queued setup evs k
  have hsent := PhoneTask.sent_kept setup
    ((Serve.phoneTask setup k).inputs ((Serve.run setup).history evs))
  have hmail := (PhoneTask.mailbox setup).put_eq
    ((Serve.phoneTask setup k).inputs ((Serve.run setup).history evs))
  rw [(PhoneTask.mailbox setup).put_history (fun _ _ => rfl), hput, ← hstate] at hmail
  rw [← hwritten, ← hstate] at hsent
  generalize (PhoneTask.mailbox setup).taken _ = taken at hsent hmail
  have hpart : writtenPhone setup evs k <+: taken := by
    unfold PhoneTask.Sent at hsent
    split at hsent
    · exact hsent
    · exact hsent ▸ List.prefix_rfl
  constructor
  · intro hnone
    have hnil : collect (Effect.forPhone none) (Hub.run.history (hubTurns setup evs)) = [] := by
      rw [collect, List.filterMap_eq_nil_iff]
      intro eff _
      cases eff <;> simp [Effect.forPhone]
    rw [hnone, hnil, eq_comm, List.append_eq_nil_iff] at hmail
    rw [hmail.1] at hpart
    exact List.prefix_nil.mp hpart
  · intro p hp
    rw [hp, collect_forPhone] at hmail
    constructor
    case order => exact hmail ▸ hpart.trans (List.prefix_append _ _)
    case lossless =>
      intro hlive
      have hsame : writtenPhone setup evs k = taken := by
        unfold PhoneTask.Sent at hsent
        split at hsent
        · exact absurd ‹_› hlive
        · exact hsent
      rw [hsame]
      exact hmail.symm

/-- **What the hub says arrives**, whatever the order of events: on each socket goes out, in order,
what the hub has said to the link or the phone behind it, nothing else, and nothing is missing but
what waits in the queue of a task that has not ended.

A message counts as waiting until it has been written.  The one that a task is writing is still at
the head of its queue here, although the source has taken it out: the move that takes it is placed
at the end of the write, and a write that fails ends the task and leaves the message out. -/
theorem sockets_told (evs : List (ServeEvent P)) (k : Nat) :
    ((((Serve.run setup).final evs).homes k).bound = none ∧ writtenHome setup evs k = [] ∨
        ∃ g, (((Serve.run setup).final evs).homes k).bound = some g ∧ LeaderTold setup evs k g) ∧
      ((((Serve.run setup).final evs).phones k).bound = none ∧ writtenPhone setup evs k = [] ∨
        ∃ p, (((Serve.run setup).final evs).phones k).bound = some p ∧
          PhoneTold setup evs k p) := by
  obtain ⟨hhome, hhome'⟩ := LeaderTold.final setup evs k
  obtain ⟨hphone, hphone'⟩ := PhoneTold.final setup evs k
  constructor
  · cases hg : (((Serve.run setup).final evs).homes k).bound with
    | none => exact .inl ⟨rfl, hhome hg⟩
    | some g => exact .inr ⟨g, rfl, hhome' g hg⟩
  · cases hp : (((Serve.run setup).final evs).phones k).bound with
    | none => exact .inl ⟨rfl, hphone hp⟩
    | some p => exact .inr ⟨p, rfl, hphone' p hp⟩

/-! ## 4. From the sockets to the hub -/

/-- The message to the hub, as a letter. -/
def ServeOut.letter (fromSlice : Bytes → Option LeaderServer) : ServeOut → Option Letter
  | .home k o => (o.toHub fromSlice).map (⟨.home k, ·⟩)
  | .phone k o => o.toHub.map (⟨.phone k, ·⟩)
  | .hub _ => none

/-- The letter is of a task. -/
def Letter.ofTask (letter : Letter) : Bool := letter.sender ≠ .serve

/-- What a task says in an event is posted, if the hub runs. -/
theorem Serve.posts_ofTask (s : Serve) (ev : ServeEvent P) :
    (s.posts setup ev).filter Letter.ofTask = if s.loop.stopped then []
      else ((Serve.run setup).step s ev).2.filterMap (ServeOut.letter setup.fromSlice) := by
  have hturn : ∀ w : Wake,
      (s.turn setup w).2.filterMap (ServeOut.letter setup.fromSlice) = [] := by
    intro w
    simp [turn, List.filterMap_map, Function.comp_def, ServeOut.letter]
  have htasks : ∀ {sender : Sender}, sender ≠ .serve → ∀ msgs : List ToHub,
      (msgs.map fun msg => (⟨sender, msg⟩ : Letter)).filter Letter.ofTask
        = msgs.map fun msg => ⟨sender, msg⟩ := by
    intro sender hne msgs
    simp [List.filter_eq_self, Letter.ofTask, hne]
  change _ = if s.loop.stopped then []
    else (s.step setup ev).2.filterMap (ServeOut.letter setup.fromSlice)
  unfold posts
  by_cases hstop : s.loop.stopped
  · rw [if_pos hstop, if_pos hstop]
    rfl
  rw [if_neg hstop, if_neg hstop]
  cases ev with
  | home k ev =>
    refine (htasks (by simp) _).trans ?_
    simp only [step, List.filterMap_map, List.map_filterMap]
    rfl
  | phone k ev =>
    refine (htasks (by simp) _).trans ?_
    simp only [step, List.filterMap_map, List.map_filterMap]
    rfl
  | recv now order | deadline now order =>
    simp only [step, List.filter_nil]
    split
    · exact (hturn _).symm
    · rfl
  | serveEnds =>
    simp only [step, List.filterMap_nil]
    split <;> rfl
  | _ => rfl

/-- The letters of the tasks, in order. -/
def toldHub (evs : List (ServeEvent P)) : List Letter :=
  collect (ServeOut.letter setup.fromSlice) ((Serve.run setup).history evs)

/-- The letters that the hub has read. -/
def readLetters (evs : List (ServeEvent P)) : List Letter :=
  (Serve.mailbox setup).taken ((Serve.run setup).history evs)

/-- What the tasks say is posted, until the hub ends. -/
theorem posted_told (evs : List (ServeEvent P)) :
    ((Serve.mailbox setup).put ((Serve.run setup).history evs)).filter Letter.ofTask
        <+: toldHub setup evs ∧
      (((Serve.run setup).final evs).loop.stopped = false →
        ((Serve.mailbox setup).put ((Serve.run setup).history evs)).filter Letter.ofTask
          = toldHub setup evs) := by
  induction evs using List.reverseRecOn with
  | nil => exact ⟨List.prefix_rfl, fun _ => rfl⟩
  | append_singleton evs ev ih =>
    obtain ⟨hpart, hall⟩ := ih
    have hposts := ((Serve.run setup).final evs).posts_ofTask setup ev
    unfold toldHub at hpart hall ⊢
    rw [Machine.history_snoc, Mailbox.put_append, Mailbox.put_singleton, List.filter_append,
      collect_append, collect_singleton, Machine.final_snoc]
    change (_ ++ ((((Serve.run setup).final evs).posts setup ev).filter Letter.ofTask) <+: _) ∧
      (_ → _ ++ ((((Serve.run setup).final evs).posts setup ev).filter Letter.ofTask) = _)
    rw [hposts]
    cases hstop : ((Serve.run setup).final evs).loop.stopped with
    | true =>
      rw [Serve.stopped_step setup ev hstop, if_pos rfl, List.append_nil]
      exact ⟨hpart.trans (List.prefix_append _ _), fun hrun => by cases hrun⟩
    | false =>
      rw [hall hstop]
      exact ⟨List.prefix_rfl, fun _ => rfl⟩

/-- The message the turn receives. -/
def Turn.message (t : Turn) : Option ToHub :=
  match t.input with
  | .recv msg => some msg
  | _ => none

/-- The hub receives what it reads from `rx`. -/
theorem hubTurns_messages (evs : List (ServeEvent P)) :
    (hubTurns setup evs).filterMap Turn.message = (readLetters setup evs).map Letter.msg := by
  induction evs using List.reverseRecOn with
  | nil => rfl
  | append_singleton evs ev ih =>
    have hone : (((Serve.run setup).final evs).hubTakes ev).filterMap Turn.message
        = (((Serve.run setup).final evs).reads ev).map Letter.msg := by
      generalize (Serve.run setup).final evs = s
      unfold Serve.hubTakes Serve.reads Serve.wake
      by_cases hstop : s.loop.stopped
      · cases ev <;> simp [hstop]
      · cases ev with
        | recv now order => cases hrx : s.rx <;> simp [hstop, Turn.message]
        | deadline now order => simp [hstop, Turn.message, List.filterMap_cons]
        | _ => simp [hstop]
    rw [hubTurns_snoc, List.filterMap_append, ih, hone, readLetters, readLetters,
      Machine.history_snoc, Mailbox.taken_append, Mailbox.taken_singleton, List.map_append]
    rfl

/-- The message in a letter of the sender. -/
def Letter.from (sender : Sender) (letter : Letter) : Option ToHub :=
  if letter.sender = sender then some letter.msg else none

/-- The frames read on the home connection `k`. -/
def framesOf (evs : List (ServeEvent P)) (k : Nat) : List Bytes :=
  collect (fun o => (ServeOut.ofHome k o).bind HomeOut.frame) ((Serve.run setup).history evs)

/-- The texts that have come from the phone connection `k`. -/
def textsOf (evs : List (ServeEvent P)) (k : Nat) : List RpcText :=
  collect (fun o => (ServeOut.ofPhone k o).bind PhoneOut.heard) ((Serve.run setup).history evs)

theorem told_home (evs : List (ServeEvent P)) (k : Nat) :
    HomeTask.Reported setup (((Serve.run setup).final evs).homes k) (framesOf setup evs k)
      ((toldHub setup evs).filterMap (Letter.from (.home k))) := by
  have hreported := HomeTask.reported setup
    ((Serve.homeTask setup k).inputs ((Serve.run setup).history evs))
  have htold : (toldHub setup evs).filterMap (Letter.from (.home k))
      = collect (fun o => (ServeOut.ofHome k o).bind (HomeOut.toHub setup.fromSlice))
        ((Serve.run setup).history evs) := by
    rw [toldHub, collect, List.filterMap_filterMap]
    refine List.filterMap_congr fun o _ => ?_
    cases o with
    | hub eff => rfl
    | phone k' o => cases o <;> rfl
    | home k' o =>
      by_cases hk : k' = k
      · cases ho : o.toHub setup.fromSlice <;> simp [ServeOut.letter, Letter.from, ho, hk]
      · cases ho : o.toHub setup.fromSlice <;> simp [ServeOut.letter, Letter.from, ho, hk]
  have hframes : framesOf setup evs k = _ := (Serve.homeTask setup k).collect_bind HomeOut.frame evs
  have hposts := (Serve.homeTask setup k).collect_bind (HomeOut.toHub setup.fromSlice) evs
  rw [hframes, htold.trans hposts]
  rwa [← (Serve.homeTask setup k).state_final] at hreported

theorem told_phone (evs : List (ServeEvent P)) (k : Nat) :
    PhoneTask.Reported (((Serve.run setup).final evs).phones k) (textsOf setup evs k)
      ((toldHub setup evs).filterMap (Letter.from (.phone k))) := by
  have hreported := PhoneTask.reported setup
    ((Serve.phoneTask setup k).inputs ((Serve.run setup).history evs))
  have htold : (toldHub setup evs).filterMap (Letter.from (.phone k))
      = collect (fun o => (ServeOut.ofPhone k o).bind PhoneOut.toHub)
        ((Serve.run setup).history evs) := by
    rw [toldHub, collect, List.filterMap_filterMap]
    refine List.filterMap_congr fun o _ => ?_
    cases o with
    | hub eff => rfl
    | home k' o => cases ho : o.toHub setup.fromSlice <;> simp [ServeOut.letter, Letter.from, ho]
    | phone k' o =>
      by_cases hk : k' = k
      · cases o <;> simp [ServeOut.letter, Letter.from, hk]
      · cases o <;> simp [ServeOut.letter, Letter.from, hk]
  have htexts : textsOf setup evs k = _ := (Serve.phoneTask setup k).collect_bind PhoneOut.heard evs
  have hposts := (Serve.phoneTask setup k).collect_bind PhoneOut.toHub evs
  rw [htexts, htold.trans hposts]
  rwa [← (Serve.phoneTask setup k).state_final] at hreported

/-- What the hub receives is what the tasks tell it. -/
structure HubTold (evs : List (ServeEvent P)) : Prop where
  /-- The hub receives the letters it reads, and nothing else. -/
  messages : (hubTurns setup evs).filterMap Turn.message = (readLetters setup evs).map Letter.msg
  /-- What it has read and what is in `rx` is what the tasks have told it. -/
  order : (readLetters setup evs ++ ((Serve.run setup).final evs).rx).filter Letter.ofTask
    <+: toldHub setup evs
  lossless : ((Serve.run setup).final evs).loop.stopped = false →
    (readLetters setup evs ++ ((Serve.run setup).final evs).rx).filter Letter.ofTask
      = toldHub setup evs
  /-- A home connection tells it that it is accepted, the frames as they are read, and at the end,
  if anything, that the link is gone. -/
  home : ∀ k, HomeTask.Reported setup (((Serve.run setup).final evs).homes k)
    (framesOf setup evs k) ((toldHub setup evs).filterMap (Letter.from (.home k)))
  /-- A phone connection tells it that there is a phone, the texts as it says them, and at the end,
  if anything, that it is gone. -/
  phone : ∀ k, PhoneTask.Reported (((Serve.run setup).final evs).phones k) (textsOf setup evs k)
    ((toldHub setup evs).filterMap (Letter.from (.phone k)))

theorem HubTold.final (evs : List (ServeEvent P)) : HubTold setup evs := by
  have hmail := (Serve.mailbox setup).put_eq evs
  have hposted := posted_told setup evs
  rw [hmail] at hposted
  exact ⟨hubTurns_messages setup evs, hposted.1, hposted.2, told_home setup evs,
    told_phone setup evs⟩

/-- **What the tasks say reaches the hub**, whatever the order of events: in order, once, and
nothing else does.  Of one connection the hub is told one story, from its acceptance to its end;
the stories of different connections come in the order in which the tasks tell them. -/
theorem hub_told (evs : List (ServeEvent P)) : HubTold setup evs := HubTold.final setup evs

end Aqualung
