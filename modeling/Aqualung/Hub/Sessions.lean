/-
# The session tables

The hub keeps the watchers of a session in one table and its driver in another, and updates
them by hand in five places.  Together they are a `Roster`: the watchers are the members of
the session's crew, the driver leads it.  `watch` is joining, `unwatch` is leaving, and a
phone that disconnects leaves every crew at once.

Each of these facts is proved of the function that does it.  `HubStep.attendance` puts them
together: every step of the hub takes the roster to a roster in one of four ways, and names the
event behind it (`Attaches`, `Closes`, or the end of the phone).  With this, who may come and go is
read off the type of a roster, and the tables need not be looked at again: that no set is empty and
that a driver watches what it drives hold by `Crew`, and that a driver is only replaced when it
leaves is `Roster.LeftFrom.keeps`.

The table `reverse` is not part of the roster, but it rests on it: a copy is only made for a phone
that watches, hence for one that is connected.
-/
import Aqualung.Hub.History
import Aqualung.Lib.Roster

namespace Aqualung

open Lib

/-! ## 1. Tables that hold a roster -/

/-- The two tables are the two halves of the roster, and only ready phones are on it. -/
structure Hub.Tracks (h : Hub) (r : Roster SessionId PhoneId) : Prop where
  watchers : ∀ s, h.watchers.lookup s = (r s).map Crew.members
  driver : ∀ s, h.driver.lookup s = (r s).map Crew.leader
  ready : ∀ s g p, r s = some g → p ∈ g.members → h.phones.lookup p = some .ready

/-- The phone is among the watchers of the session. -/
def Hub.Watches (h : Hub) (p : PhoneId) (s : SessionId) : Prop :=
  p ∈ (h.watchers.lookup s).getD ∅

instance (h : Hub) (p : PhoneId) (s : SessionId) : Decidable (h.Watches p s) := by
  unfold Hub.Watches
  infer_instance

namespace IterOrder

theorem head?_mem (order : IterOrder) (s : SessionId) {set : Finset PhoneId} (h : set ≠ ∅) :
    ∃ p ∈ set, (order.list s set).head? = some p := by
  obtain ⟨q, hq⟩ := Finset.nonempty_iff_ne_empty.mpr h
  cases hl : order.list s set with
  | nil => simp [← order.mem_iff s set q, hl] at hq
  | cons p rest => exact ⟨p, (order.mem_iff s set p).mp (by simp [hl]), rfl⟩

end IterOrder

namespace Hub

variable {h : Hub} {r : Roster SessionId PhoneId}

theorem Tracks.watches (hr : h.Tracks r) {p : PhoneId} {s : SessionId} :
    h.Watches p s ↔ Roster.Member (r s) p := by
  unfold Watches
  rw [hr.watchers]
  cases r s <;> simp

theorem Tracks.ready_of_watches (hr : h.Tracks r) {p : PhoneId} {s : SessionId}
    (hp : h.Watches p s) : h.phones.lookup p = some .ready := by
  obtain ⟨g, hg, hmem⟩ := hr.watches.mp hp
  exact hr.ready s g p hg hmem

/-! ## 2. Joining and leaving -/

theorem watch_of_ready {p : PhoneId} (hp : h.phones.lookup p = some .ready) (s : SessionId) :
    (h.watch p s).phones = h.phones ∧
      (h.watch p s).watchers = h.watchers.insert s (insert p ((h.watchers.lookup s).getD ∅)) ∧
      ∀ s', (h.watch p s).driver.lookup s' =
        if s' = s then some ((h.driver.lookup s).getD p) else h.driver.lookup s' := by
  unfold Hub.watch
  split
  · refine ⟨rfl, rfl, fun s' => ?_⟩
    cases hd : h.driver.lookup s with
    | none => simp only [Table.lookup_insert_eq, Option.getD_none]
    | some d =>
      simp only [Option.getD_some]
      split
      · rename_i he
        rw [he, hd]
      · rfl
  · exact absurd hp ‹_›

/-- `watch` of a ready phone is joining. -/
theorem Tracks.watch (hr : h.Tracks r) {p : PhoneId} (hp : h.phoneReady p) (s : SessionId) :
    (h.watch p s).Tracks (r.join p s) := by
  have hp : h.phones.lookup p = some .ready := by simpa [phoneReady] using hp
  obtain ⟨hphones, hwatchers, hdriver⟩ := watch_of_ready hp s
  refine ⟨fun s' => ?_, fun s' => ?_, fun s' g q hg hq => ?_⟩
  · simp only [hwatchers, Table.lookup_insert_eq, Roster.join, Function.update_apply, hr.watchers]
    split
    · rw [Option.map_some, Crew.members_join]
    · rfl
  · simp only [hdriver, Roster.join, Function.update_apply, hr.driver]
    split
    · rw [Option.map_some, Crew.leader_join]
    · rfl
  · rw [hphones]
    simp only [Roster.join, Function.update_apply] at hg
    split at hg
    · obtain rfl := Option.some.inj hg
      rw [Crew.members_join, Finset.mem_insert] at hq
      rcases hq with rfl | hq
      · exact hp
      · cases hs : r s with
        | none => simp [hs] at hq
        | some g => exact hr.ready s g q hs (by simpa [hs] using hq)
    · exact hr.ready s' g q hg hq

theorem watch_of_not_ready {p : PhoneId} (hp : ¬ h.phoneReady p) (s : SessionId) :
    h.watch p s = h := by
  unfold Hub.watch
  split
  · rename_i hr
    simp [phoneReady, hr] at hp
  · rfl

/-- `unwatch` is leaving. -/
theorem Tracks.unwatch (hr : h.Tracks r) (order : IterOrder) (p : PhoneId) (s : SessionId) :
    ∃ o, Roster.LeftFrom p (r s) o ∧ (h.unwatch order p s).Tracks (Function.update r s o) := by
  cases hs : r s with
  | none =>
    refine ⟨none, rfl, ?_⟩
    have hw : h.watchers.lookup s = none := by rw [hr.watchers, hs]; rfl
    have heq : h.unwatch order p s = h := by simp only [Hub.unwatch, hw]
    rw [heq, ← hs, Function.update_eq_self]
    exact hr
  | some g =>
    have hw : h.watchers.lookup s = some g.members := by rw [hr.watchers, hs]; rfl
    have hd : h.driver.lookup s = some g.leader := by rw [hr.driver, hs]; rfl
    -- What the new tables hold: the crew `o` under `s`, and everything else as before.
    have htracks : ∀ {watchers : Table SessionId (Finset PhoneId)} {driver : Table SessionId PhoneId}
        {o : Option (Crew PhoneId)}, Crew.Left p g o →
        (∀ s', watchers.lookup s' = if s' = s then o.map Crew.members else h.watchers.lookup s') →
        (∀ s', driver.lookup s' = if s' = s then o.map Crew.leader else h.driver.lookup s') →
        Hub.Tracks { h with watchers, driver } (Function.update r s o) := by
      intro watchers driver o hleft hwatchers hdriver
      refine ⟨fun s' => ?_, fun s' => ?_, fun s' g' q hg' hq => ?_⟩
      · rw [hwatchers, Function.update_apply, hr.watchers]
        split <;> rfl
      · rw [hdriver, Function.update_apply, hr.driver]
        split <;> rfl
      · rw [Function.update_apply] at hg'
        split at hg'
        · subst hg'
          exact hr.ready s g q hs (hleft.mem hq).2
        · exact hr.ready s' g' q hg' hq
    by_cases hempty : g.members.erase p = ∅
    · refine ⟨none, .dissolved hempty, ?_⟩
      have heq : h.unwatch order p s = { h with
          watchers := h.watchers.erase s, driver := h.driver.erase s } := by
        simp only [Hub.unwatch, hw, if_pos hempty]
      rw [heq]
      exact htracks (.dissolved hempty) (fun s' => Table.lookup_erase_eq _ _ _)
        (fun s' => Table.lookup_erase_eq _ _ _)
    · by_cases hlead : g.leader = p
      · obtain ⟨q, hq, hhead⟩ := order.head?_mem s hempty
        refine ⟨_, .succeeded hlead hq, ?_⟩
        have heq : h.unwatch order p s = { h with
            watchers := h.watchers.insert s (g.members.erase p)
            driver := h.driver.insert s q } := by
          simp only [Hub.unwatch, hw, if_neg hempty, hd, hlead, if_true, hhead]
        rw [heq]
        exact htracks (.succeeded hlead hq) (fun s' => Table.lookup_insert_eq _ _ _ _)
          (fun s' => Table.lookup_insert_eq _ _ _ _)
      · refine ⟨_, .continued hlead, ?_⟩
        have hne : some g.leader ≠ some p := fun he => hlead (Option.some.inj he)
        have heq : h.unwatch order p s = { h with
            watchers := h.watchers.insert s (g.members.erase p), driver := h.driver } := by
          simp only [Hub.unwatch, hw, if_neg hempty, hd, if_neg hne]
        rw [heq]
        refine htracks (.continued hlead) (fun s' => Table.lookup_insert_eq _ _ _ _) fun s' => ?_
        split
        · rename_i he
          rw [he, hd]
          rfl
        · rfl

/-- A phone that disconnects leaves every crew. -/
theorem Tracks.onPhoneEof (hr : h.Tracks r) (order : IterOrder) (p : PhoneId) :
    ∃ r' : Roster SessionId PhoneId, (∀ s, Roster.LeftFrom p (r s) (r' s)) ∧
      (h.onPhoneEof order p).Tracks r' := by
  have hwatchers : ∀ s, (h.onPhoneEof order p).watchers.lookup s
      = (r s).bind fun g =>
          if g.members.erase p = ∅ then none else some (g.members.erase p) := by
    intro s
    rw [Hub.onPhoneEof, Table.lookup_retain, hr.watchers]
    cases r s <;> rfl
  have horphaned : ∀ s, s ∈ h.driver.entries.filterMap
        (fun e => if e.2 = p then some e.1 else none) ↔ h.driver.lookup s = some p := by
    intro s
    rw [← Table.mem_entries_iff, List.mem_filterMap]
    constructor
    · rintro ⟨⟨s', q⟩, he, hif⟩
      split at hif
      · rename_i hq
        obtain rfl : s' = s := Option.some.inj hif
        obtain rfl : q = p := hq
        exact he
      · cases hif
    · exact fun he => ⟨_, he, if_pos rfl⟩
  have hdriver : ∀ s, (h.onPhoneEof order p).driver.lookup s
      = if h.driver.lookup s = some p then
          ((h.onPhoneEof order p).watchers.lookup s).bind fun set => (order.list s set).head?
        else h.driver.lookup s := by
    intro s
    simp only [Hub.onPhoneEof, Table.lookup_assign, horphaned]
  have hone : ∀ s, ∃ o, Roster.LeftFrom p (r s) o ∧
      (h.onPhoneEof order p).watchers.lookup s = o.map Crew.members ∧
      (h.onPhoneEof order p).driver.lookup s = o.map Crew.leader := by
    intro s
    have hd := hdriver s
    rw [hwatchers, hr.driver] at hd
    cases hs : r s with
    | none => exact ⟨none, rfl, by simp [hwatchers, hs], by simpa [hs] using hd⟩
    | some g =>
      simp only [hs, Option.map_some, Option.some.injEq, Option.bind_some] at hd
      by_cases hempty : g.members.erase p = ∅
      · have hlead : g.leader = p := by
          by_contra hne
          have := Finset.mem_erase.mpr ⟨hne, g.leader_mem⟩
          simp [hempty] at this
        exact ⟨none, .dissolved hempty, by simp [hwatchers, hs, hempty],
          by simpa [hempty, hlead] using hd⟩
      · have hw : (h.onPhoneEof order p).watchers.lookup s = some (g.members.erase p) := by
          rw [hwatchers, hs, Option.bind_some, if_neg hempty]
        rw [if_neg hempty, Option.bind_some] at hd
        by_cases hlead : g.leader = p
        · obtain ⟨q, hq, hhead⟩ := order.head?_mem s hempty
          rw [if_pos hlead, hhead] at hd
          exact ⟨_, .succeeded hlead hq, hw, hd⟩
        · rw [if_neg hlead] at hd
          exact ⟨_, .continued hlead, hw, hd⟩
  choose r' hleft hw hd using hone
  refine ⟨r', hleft, hw, hd, fun s g q hg hq => ?_⟩
  have hl := hleft s
  rw [hg] at hl
  cases hs : r s with
  | none => rw [hs] at hl; cases hl
  | some g₀ =>
    rw [hs] at hl
    obtain ⟨hne, hq₀⟩ := Crew.Left.mem hl hq
    have hready := hr.ready s g₀ q hs hq₀
    simpa only [Hub.onPhoneEof, Table.lookup_erase_eq, if_neg hne] using hready

/-! ## 3. The other updates -/

/-- The roster depends on the session tables, and on who is ready. -/
theorem Tracks.frame {h' : Hub} (hr : h.Tracks r) (hwatchers : h'.watchers = h.watchers)
    (hdriver : h'.driver = h.driver)
    (hready : ∀ p, h.phones.lookup p = some .ready → h'.phones.lookup p = some .ready) :
    h'.Tracks r :=
  ⟨fun s => hwatchers ▸ hr.watchers s, fun s => hdriver ▸ hr.driver s,
    fun s g q hg hq => hready q (hr.ready s g q hg hq)⟩

/-- The phones a request from home is put to are on the roster. -/
theorem Tracks.mem_of_targets (hr : h.Tracks r) {order : IterOrder} {method : String}
    {s : SessionId} {p : PhoneId} (hp : p ∈ h.targets order method s) :
    ∃ g, r s = some g ∧ p ∈ g.members := by
  unfold targets at hp
  cases hs : r s with
  | none => split at hp <;> simp [hr.watchers, hr.driver, hs] at hp
  | some g =>
    refine ⟨g, rfl, ?_⟩
    split at hp
    · simpa [hr.watchers, hs, order.mem_iff] using hp
    · obtain rfl : p = g.leader := by simpa [hr.driver, hs, eq_comm] using hp
      exact g.leader_mem

end Hub

/-! ## 4. What a step does to the roster -/

/-- The turn makes the phone `p` a watcher of `s`: by a request of its own, or because home
answers one. -/
def Attaches (t : Turn) (h : Hub) (p : PhoneId) (s : SessionId) : Prop :=
  h.phoneReady p ∧
    ((∃ obj, t.PhoneSays p obj ∧ obj.id.isSome ∧
        (obj.method = some "session/load" ∨ obj.method = some "session/resume") ∧
        sessionIdIn obj = some s) ∨
      ∃ g id obj origin, Settles t h g id obj (.forwarded p origin) ∧ h.home.mux = some g ∧
        sessionIdIn obj = some s)

/-- The turn is the phone `p` closing the session `s`. -/
def Closes (t : Turn) (p : PhoneId) (s : SessionId) : Prop :=
  ∃ obj, t.PhoneSays p obj ∧ obj.id.isSome ∧ obj.method = some "session/close" ∧
    sessionIdIn obj = some s

/-- How a step can change the roster. -/
inductive Attendance (t : Turn) (h : Hub) (r r' : Roster SessionId PhoneId) : Prop
  | kept (heq : r' = r)
  | joined {p : PhoneId} {s : SessionId} (ha : Attaches t h p s) (heq : r' = r.join p s)
  | closed {p : PhoneId} {s : SessionId} {o : Option (Crew PhoneId)} (hc : Closes t p s)
      (hl : Roster.LeftFrom p (r s) o) (heq : r' = Function.update r s o)
  | gone {p : PhoneId} (ht : t.input = .recv (.phoneEof p))
      (hl : ∀ s, Roster.LeftFrom p (r s) (r' s))

/-- `watch` for a session that a message names. -/
theorem Hub.Tracks.attach {t : Turn} {h : Hub} {r : Roster SessionId PhoneId} (hr : h.Tracks r)
    {p : PhoneId} {obj : Obj}
    (ha : ∀ s, sessionIdIn obj = some s → h.phoneReady p → Attaches t h p s) :
    ∃ r', Attendance t h r r' ∧ (h.attach p obj).Tracks r' := by
  unfold Hub.attach
  cases hs : sessionIdIn obj with
  | none => exact ⟨r, .kept rfl, hr⟩
  | some s =>
    by_cases hp : h.phoneReady p
    · exact ⟨_, .joined (ha s hs hp) rfl, hr.watch hp s⟩
    · refine ⟨r, .kept rfl, ?_⟩
      change (h.watch p s).Tracks r
      rwa [Hub.watch_of_not_ready hp]

/-- What a request does to the session tables before it is forwarded. -/
theorem Hub.Tracks.prepare {t : Turn} {h : Hub} {r : Roster SessionId PhoneId} (hr : h.Tracks r)
    {p : PhoneId} {method : String} {obj : Obj} (hspoke : t.PhoneSays p obj)
    (hmethod : obj.method = some method) (hid : obj.id.isSome) :
    ∃ r', Attendance t h r r' ∧ (h.prepare t.order p method obj).Tracks r' := by
  unfold Hub.prepare
  split
  · rename_i hload
    refine hr.attach fun s hs hp => ⟨hp, .inl ⟨obj, hspoke, hid, ?_, hs⟩⟩
    simpa [hmethod] using hload
  · split
    · rename_i hclose
      unfold Hub.detach
      cases hs : sessionIdIn obj with
      | none => exact ⟨r, .kept rfl, hr⟩
      | some s =>
        obtain ⟨o, hleft, htracks⟩ := hr.unwatch t.order p s
        exact ⟨_, .closed ⟨obj, hspoke, hid, by rw [hmethod, hclose], hs⟩ hleft rfl, htracks⟩
    · exact ⟨r, .kept rfl, hr⟩

namespace HubStep

variable {t : Turn} {h h' : Hub} {out : List Effect} {r : Roster SessionId PhoneId}

/-- **Every step takes the roster to a roster.** -/
theorem attendance (hs : HubStep t h h' out) (hr : h.Tracks r)
    (hbelow : ∀ p, p ∈ h.phones → p ≤ h.nextPhone) :
    ∃ r', Attendance t h r r' ∧ h'.Tracks r' := by
  cases hs with
  | @relayed g id obj p origin hset hm =>
    have hattach : ∀ s, sessionIdIn obj = some s → h.phoneReady p → Attaches t h p s :=
      fun s hs hp => ⟨hp, .inr ⟨g, id, obj, origin, hset, hm, hs⟩⟩
    obtain ⟨r', ha, htracks⟩ := hr.attach hattach
    rw [Hub.attach_eq] at htracks
    exact ⟨r', ha, htracks.frame rfl rfl fun _ hq => hq⟩
  | hello ht =>
    refine ⟨r, .kept rfl, hr.frame rfl rfl fun p hp => ?_⟩
    have hle := hbelow p (Table.mem_iff_exists.mpr ⟨_, hp⟩)
    rw [Table.lookup_insert_eq, if_neg (by lia), hp]
  | initialized ht hid hmethod hp =>
    refine ⟨r, .kept rfl, hr.frame rfl rfl fun q hq => ?_⟩
    rw [Table.lookup_insert_eq]
    split
    · rfl
    · rename_i hne
      rw [Table.lookup_erase_eq, if_neg hne, hq]
  | requestAway ht hp hmethod hid hf hm =>
    obtain ⟨r', ha, htracks⟩ := hr.prepare ht hmethod (by simp [hid])
    rw [Hub.prepare_eq] at htracks
    exact ⟨r', ha, htracks.frame rfl rfl fun _ hq => hq⟩
  | requestForwarded ht hp hmethod hid hf hm =>
    obtain ⟨r', ha, htracks⟩ := hr.prepare ht hmethod (by simp [hid])
    rw [Hub.prepare_eq] at htracks
    exact ⟨r', ha, htracks.frame rfl rfl fun _ hq => hq⟩
  | phoneLeft ht =>
    obtain ⟨r', hleft, htracks⟩ := hr.onPhoneEof t.order _
    exact ⟨r', .gone ht hleft, htracks⟩
  | _ => exact ⟨r, .kept rfl, hr.frame rfl rfl fun _ hq => hq⟩

end HubStep

/-- Who is in a crew after a step was in it before, or has attached in the step. -/
theorem Attendance.member {t : Turn} {h : Hub} {r r' : Roster SessionId PhoneId}
    (ha : Attendance t h r r') {p : PhoneId} {s : SessionId} (hp : Roster.Member (r' s) p) :
    Roster.Member (r s) p ∨ Attaches t h p s := by
  cases ha with
  | kept heq => exact .inl (heq ▸ hp)
  | @joined q s' hatt heq =>
    rw [heq, Roster.join, Function.update_apply] at hp
    split at hp
    · rename_i hs
      subst hs
      rcases Roster.member_join.mp hp with rfl | hold
      · exact .inr hatt
      · exact .inl hold
    · exact .inl hp
  | @closed q s' o hc hl heq =>
    rw [heq, Function.update_apply] at hp
    split at hp
    · rename_i hs
      subst hs
      exact .inl (hl.member.mp hp).2
    · exact .inl hp
  | gone ht hl => exact .inl ((hl s).member.mp hp).2

/-! ## 5. Copies of requests from home -/

namespace Hub

@[simp] theorem map_fst_copies (n : Nat) (ps : List PhoneId) :
    (copies n ps).map Prod.fst = ps := by
  induction ps generalizing n with
  | nil => rfl
  | cons p ps ih => simp [copies, ih]

theorem map_snd_copies (n : Nat) (ps : List PhoneId) :
    (copies n ps).map Prod.snd = (List.range' (n + 1) ps.length).map reverseId := by
  induction ps generalizing n with
  | nil => rfl
  | cons p ps ih => simp [copies, ih, List.range'_succ]

theorem id_of_mem_copies {n : Nat} {ps : List PhoneId} {c : PhoneId × JsonId}
    (hc : c ∈ copies n ps) : ∃ k, n < k ∧ k ≤ n + ps.length ∧ c.2 = reverseId k := by
  have hmem : c.2 ∈ (copies n ps).map Prod.snd := List.mem_map_of_mem hc
  rw [map_snd_copies] at hmem
  obtain ⟨k, hk, hid⟩ := List.mem_map.mp hmem
  rw [List.mem_range'_1] at hk
  exact ⟨k, by lia, by lia, hid.symm⟩

theorem mem_of_mem_copies {n : Nat} {ps : List PhoneId} {c : PhoneId × JsonId}
    (hc : c ∈ copies n ps) : c.1 ∈ ps := by
  rw [← map_fst_copies n ps]
  exact List.mem_map_of_mem hc

/-- Every copy that can be answered belongs to a phone that is connected and to a claim that
exists. -/
def ReverseKnown (h : Hub) : Prop :=
  ∀ p id key, h.reverse.lookup (p, id) = some key →
    (h.phones.lookup p).isSome ∧ (h.claims.lookup key).isSome

end Hub

theorem HubStep.reverseKnown {t : Turn} {h h' : Hub} {out : List Effect}
    {r : Roster SessionId PhoneId} (hs : HubStep t h h' out) (hr : h.Tracks r)
    (hi : h.ReverseKnown) : h'.ReverseKnown := by
  intro p id key hkey
  cases hs with
  | @asked g obj method homeId session hm ht hmethod hid hsession hne =>
    simp only [Table.lookup_insertAll] at hkey
    simp only [Table.lookup_insert_eq]
    split at hkey
    · rename_i hc
      obtain rfl := Option.some.inj hkey
      obtain ⟨g', hg', hp⟩ := hr.mem_of_targets (Hub.mem_of_mem_copies hc)
      exact ⟨by rw [hr.ready _ g' _ hg' hp]; rfl, by simp⟩
    · obtain ⟨hp, hclaim⟩ := hi p id key hkey
      refine ⟨hp, ?_⟩
      split
      · rfl
      · exact hclaim
  | hello ht =>
    obtain ⟨hp, hclaim⟩ := hi p id key hkey
    refine ⟨?_, hclaim⟩
    rw [Table.lookup_insert_eq]
    split
    · rfl
    · exact hp
  | initialized ht hid hmethod hp =>
    obtain ⟨hp, hclaim⟩ := hi p id key hkey
    refine ⟨?_, hclaim⟩
    rw [Table.lookup_insert_eq]
    split
    · rfl
    · rename_i hne
      rwa [Table.lookup_erase_eq, if_neg hne]
  | replied ht hp hmethod hreply hid hrev hopen =>
    simp only [Table.lookup_erase_eq] at hkey
    split at hkey
    · cases hkey
    · obtain ⟨hp, hclaim⟩ := hi p id key hkey
      refine ⟨hp, ?_⟩
      rw [Table.lookup_insert_eq]
      split
      · rfl
      · exact hclaim
  | replyDropped ht hp hmethod hreply hid hrev htaken hclaims =>
    simp only [Table.lookup_erase_eq] at hkey
    split at hkey
    · cases hkey
    · rw [hclaims]
      exact hi p id key hkey
  | phoneLeft ht =>
    simp only [Hub.onPhoneEof, Table.lookup_retain, Option.bind_eq_some_iff] at hkey
    obtain ⟨key', hkey', hif⟩ := hkey
    split at hif
    · rename_i hne
      obtain rfl := Option.some.inj hif
      obtain ⟨hp, hclaim⟩ := hi p id key' hkey'
      exact ⟨by rwa [Hub.onPhoneEof, Table.lookup_erase_eq, if_neg hne], hclaim⟩
    · cases hif
  | _ => exact hi p id key hkey

/-! ## 6. Along a run -/

/-- What the session tables rest on. -/
structure Hub.WellKept (h : Hub) : Prop where
  below : ∀ p, p ∈ h.phones → p ≤ h.nextPhone
  roster : ∃ r, h.Tracks r
  reverse : h.ReverseKnown

theorem HubStep.nextPhone_le {t : Turn} {h h' : Hub} {out : List Effect}
    (hs : HubStep t h h' out) : h.nextPhone ≤ h'.nextPhone := by
  cases hs with
  | hello ht => exact Nat.le_succ _
  | _ => exact le_rfl

/-- A phone is old, or it has just connected, under the id that was free. -/
theorem HubStep.mem_phones {t : Turn} {h h' : Hub} {out : List Effect} (hs : HubStep t h h' out)
    {p : PhoneId} (hp : p ∈ h'.phones) :
    p ∈ h.phones ∨ (p = h.nextPhone + 1 ∧ h'.nextPhone = p) := by
  cases hs with
  | hello ht =>
    rw [AList.mem_insert] at hp
    exact hp.symm.imp_right fun heq => ⟨heq, heq.symm⟩
  | initialized ht hid hmethod hphone =>
    rw [AList.mem_insert, AList.mem_erase] at hp
    rcases hp with rfl | hp
    · exact .inl (Table.mem_iff_exists.mpr ⟨_, hphone⟩)
    · exact .inl hp.2
  | phoneLeft ht =>
    simp only [Hub.onPhoneEof, AList.mem_erase] at hp
    exact .inl hp.2
  | _ => exact .inl hp

/-- Phone ids are handed out in turn. -/
theorem HubStep.phones_below {t : Turn} {h h' : Hub} {out : List Effect}
    (hs : HubStep t h h' out) (hi : ∀ p, p ∈ h.phones → p ≤ h.nextPhone) :
    ∀ p, p ∈ h'.phones → p ≤ h'.nextPhone := by
  intro p hp
  obtain hp | ⟨-, hnext⟩ := hs.mem_phones hp
  · exact (hi p hp).trans hs.nextPhone_le
  · exact hnext.ge

theorem Run.wellKept {hist : List Line} {h : Hub} (hr : Run hist h) : h.WellKept := by
  refine hr.invariant (P := fun _ h => h.WellKept) ?_ fun _ hs hi => ?_
  · exact ⟨fun p hp => absurd hp (AList.notMem_empty p), ⟨fun _ => none, fun _ => rfl,
      fun _ => rfl, fun _ _ _ hg => by cases hg⟩, fun _ _ _ hkey => by cases hkey⟩
  · obtain ⟨r, hr⟩ := hi.roster
    obtain ⟨r', -, hr'⟩ := hs.attendance hr hi.below
    exact ⟨hs.phones_below hi.below, ⟨r', hr'⟩, hs.reverseKnown hr hi.reverse⟩

/-! ## 7. The session tables -/

/-- What the hub promises of its session tables and of its table of copies. -/
structure Hub.SessionTables (h : Hub) : Prop where
  nonempty : ∀ s set, h.watchers.lookup s = some set → set ≠ ∅
  ready : ∀ s set p, h.watchers.lookup s = some set → p ∈ set → h.phones.lookup p = some .ready
  keys : ∀ s, s ∈ h.driver ↔ s ∈ h.watchers
  driver_watches : ∀ s p, h.driver.lookup s = some p →
    ∃ set, h.watchers.lookup s = some set ∧ p ∈ set
  reverse : ∀ p id key, h.reverse.lookup (p, id) = some key → p ∈ h.phones ∧ key ∈ h.claims

/-- Tables that hold a roster are session tables. -/
theorem Hub.WellKept.tables {h : Hub} (hw : h.WellKept) : h.SessionTables := by
  obtain ⟨r, hr⟩ := hw.roster
  have hcrew : ∀ {s set}, h.watchers.lookup s = some set → ∃ g, r s = some g ∧ g.members = set :=
    fun hs => by rwa [hr.watchers, Option.map_eq_some_iff] at hs
  refine ⟨fun s set hs hempty => ?_, fun s set p hs hp => ?_, fun s => ?_, fun s p hs => ?_,
    fun p id key hkey => ?_⟩
  · obtain ⟨g, -, rfl⟩ := hcrew hs
    have hlead := g.leader_mem
    simp [hempty] at hlead
  · obtain ⟨g, hg, rfl⟩ := hcrew hs
    exact hr.ready s g p hg hp
  · rw [← AList.lookup_isSome, ← AList.lookup_isSome, hr.driver, hr.watchers, Option.isSome_map,
      Option.isSome_map]
  · rw [hr.driver, Option.map_eq_some_iff] at hs
    obtain ⟨g, hg, rfl⟩ := hs
    exact ⟨g.members, by rw [hr.watchers, hg]; rfl, g.leader_mem⟩
  · obtain ⟨hp, hclaim⟩ := hw.reverse p id key hkey
    exact ⟨AList.lookup_isSome.mp hp, AList.lookup_isSome.mp hclaim⟩

/-- Who watches a session after a step watched it before, or has attached in the step. -/
theorem HubStep.watches {t : Turn} {h h' : Hub} {out : List Effect} (hs : HubStep t h h' out)
    (hw : h.WellKept) {p : PhoneId} {s : SessionId} (hp : h'.Watches p s) :
    h.Watches p s ∨ Attaches t h p s := by
  obtain ⟨r, hr⟩ := hw.roster
  obtain ⟨r', hatt, hr'⟩ := hs.attendance hr hw.below
  rw [hr'.watches] at hp
  rw [hr.watches]
  exact hatt.member hp

theorem Hub.WellKept.ready_of_watches {h : Hub} (hw : h.WellKept) {p : PhoneId} {s : SessionId}
    (hp : h.Watches p s) : h.phones.lookup p = some .ready := by
  obtain ⟨r, hr⟩ := hw.roster
  exact hr.ready_of_watches hp

/-- A driver that is replaced while its session has watchers has left it. -/
theorem HubStep.driver_changes {t : Turn} {h h' : Hub} {out : List Effect}
    (hs : HubStep t h h' out) (hw : h.WellKept) {s : SessionId} {p : PhoneId}
    (hd : h.driver.lookup s = some p) (hw' : s ∈ h'.watchers) (hd' : h'.driver.lookup s ≠ some p) :
    t.input = .recv (.phoneEof p) ∨ Closes t p s := by
  obtain ⟨r, hr⟩ := hw.roster
  obtain ⟨r', hatt, hr'⟩ := hs.attendance hr hw.below
  rw [hr.driver] at hd
  rw [hr'.driver] at hd'
  rw [← AList.lookup_isSome, hr'.watchers, Option.isSome_map] at hw'
  cases hatt with
  | kept heq => exact absurd (heq ▸ hd) hd'
  | @joined q s' ha heq =>
    subst heq
    simp only [Roster.join, Function.update_apply] at hd'
    split at hd'
    · rename_i he
      subst he
      rw [Option.map_some, Crew.leader_join, hd] at hd'
      exact absurd rfl hd'
    · exact absurd hd hd'
  | @closed q s' o hc hl heq =>
    subst heq
    simp only [Function.update_apply] at hd' hw'
    split at hd'
    · rename_i he
      subst he
      rw [if_pos rfl] at hw'
      obtain rfl := hl.leader hd hw' hd'
      exact .inr hc
    · exact absurd hd hd'
  | gone ht hl =>
    obtain rfl := (hl s).leader hd hw' hd'
    exact .inl ht

/-- **The session tables stay in step**, in every state the loop reaches: no watcher set is
empty, watchers are ready phones, the two tables have the same sessions, a driver watches what
it drives, and copies that can be answered have a phone and a claim.  A session that keeps its
watchers keeps its driver, unless the driver disconnects or closes it. -/
theorem session_tables (ts : List Turn) (hl : (Hub.run.final ts).stopped = false) :
    (Hub.run.final ts).hub.SessionTables ∧
      ∀ t s p, (Hub.run.final ts).hub.driver.lookup s = some p →
        s ∈ (Hub.run.step (Hub.run.final ts) t).1.hub.watchers →
        (Hub.run.step (Hub.run.final ts) t).1.hub.driver.lookup s ≠ some p →
        t.input = .recv (.phoneEof p) ∨ Closes t p s := by
  have hw := (running hl).wellKept
  refine ⟨hw.tables, fun t s p hd hw' hd' => ?_⟩
  obtain ⟨-, heq⟩ | ⟨-, -, heq⟩ | ⟨-, h', out, heq, hs⟩ := turn_cases ts t <;> rw [heq] at hw' hd'
  · exact absurd hd hd'
  · exact absurd (by rw [Hub.shutdown_eq]; exact hd) hd'
  · exact hs.driver_changes hw hd hw' hd'

/-- Phone 1 attaches to the session `a`, and drives it. -/
theorem session_tables_of_attach :
    (Hub.run.final (Turn.bringUp ++
        [.phone 1 (request (.ofU64 1) "session/load" "a")])).hub.driver.lookup "a" = some 1 ∧
      Hub.SessionTables (Hub.run.final (Turn.bringUp ++
        [.phone 1 (request (.ofU64 1) "session/load" "a")])).hub :=
  ⟨by decide +kernel, (session_tables _ (by decide +kernel)).1⟩

end Aqualung
