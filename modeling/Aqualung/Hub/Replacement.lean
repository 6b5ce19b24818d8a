/-
# Load before drop

A candidate is to be promoted when the link has loaded every session that has watchers: an
old link that is dropped earlier takes the sessions with it.  The sessions are those that had
watchers when the candidate answered `initialize`.  A phone that attaches to another session
after that, through the old link or while home is away, is not waited for.

`load_before_drop` therefore has a condition, that while a candidate waits for its loads phones only
attach to sessions that are among them, and `drop_before_load` is a run without it.  There are two
parts to the proof: whatever has been asked is answered before the promotion
(`Run.answered_of_promoting`, without any condition), and under the condition everything with
watchers has been asked (`Run.loads_sent`).
-/
import Aqualung.Hub.Handshake

namespace Aqualung

open Lib

/-! ## 1. The promise and its condition -/

/-- The line promotes the candidate, whose link is `g`. -/
def Promotes (e : Line) (g : HomeGen) : Prop :=
  (hubOf e).home.candidate.map Incoming.gen = some g ∧
    (Hub.run.step e.before e.input).1.hub.home.mux = some g

/-- The session `s` has been loaded on the link `g`: the load was sent, and answered. -/
def LoadedOn (g : HomeGen) (hist : List Line) (s : SessionId) : Prop :=
  ∃ n, sessionLoad n s ∈ queued g hist ∧ Answered g hist n

/-- At every promotion, all sessions with watchers have been loaded on the new link. -/
def LoadBeforeDrop (hist : List Line) : Prop :=
  ∀ pre e post, hist = pre ++ e :: post → ∀ g, Promotes e g →
    ∀ s, s ∈ (Hub.run.step e.before e.input).1.hub.watchers → LoadedOn g (pre ++ [e]) s

/-- While a candidate waits for its loads, phones attach only to sessions whose load has been
sent on the candidate's link. -/
def AttachesLoaded (hist : List Line) : Prop :=
  ∀ pre e post, hist = pre ++ e :: post → ∀ link pending,
    (hubOf e).home.candidate = some (.waitLoads link pending) →
    ∀ p s, Attaches e.input (hubOf e) p s → ∃ n, sessionLoad n s ∈ queued link.homeGen pre

/-! ## 2. Sessions with watchers -/

/-- A session gets its first watcher by an attachment. -/
theorem HubStep.watched_new {t : Turn} {h h' : Hub} {out : List Effect}
    (hs : HubStep t h h' out) (hw : h.WellKept) {s : SessionId} (hs' : s ∈ h'.watchers) :
    s ∈ h.watchers ∨ ∃ p, Attaches t h p s := by
  obtain ⟨r, hr⟩ := hw.roster
  obtain ⟨r', hatt, hr'⟩ := hs.attendance hr hw.below
  rw [← AList.lookup_isSome, hr'.watchers, Option.isSome_map] at hs'
  rw [← AList.lookup_isSome, hr.watchers, Option.isSome_map]
  have hleft : ∀ {p}, Roster.LeftFrom p (r s) (r' s) → (r s).isSome := by
    intro p hl
    cases hg : r s with
    | none =>
      rw [hg] at hl
      rw [show r' s = none from hl] at hs'
      cases hs'
    | some g => rfl
  cases hatt with
  | kept heq => exact .inl (heq ▸ hs')
  | @joined p s' ha heq =>
    by_cases he : s = s'
    · exact .inr ⟨p, he ▸ ha⟩
    · rw [heq, Roster.join, Function.update_of_ne he] at hs'
      exact .inl hs'
  | @closed p s' o hc hl heq =>
    refine .inl ?_
    by_cases he : s = s'
    · subst he
      exact hleft (p := p) (by rw [heq, Function.update_self]; exact hl)
    · rwa [heq, Function.update_of_ne he] at hs'
  | gone ht hl => exact .inl (hleft (hl s))

/-! ## 3. Loads and their answers -/

theorem sessionLoad_inj {m n : HomeReqId} {s s' : SessionId}
    (h : sessionLoad m s = sessionLoad n s') : m = n ∧ s = s' := by
  have hid := congrArg Obj.id h
  have hsession := congrArg sessionIdIn h
  exact ⟨Json.ofU64_inj.mp (by simpa using hid), by simpa using hsession⟩

theorem sessionLoad_ne_followerInitialize (m n : HomeReqId) (s : SessionId) :
    sessionLoad m s ≠ followerInitialize n := fun h => by
  have hmethod := congrArg Obj.method h
  simp at hmethod

/-- At a promotion every load that was sent on the link has been answered. -/
theorem Run.answered_of_promoting {hist : List Line} {h : Hub} (hr : Run hist h) {c : Incoming}
    (hc : h.home.candidate = some c) {t : Turn} {id : HomeReqId} {obj : Obj}
    (why : Promoting t h c id obj) {n : HomeReqId} {s : SessionId}
    (hload : sessionLoad n s ∈ queued c.gen hist) (l : Loop) (out : List Effect) :
    Answered c.gen (hist ++ [⟨l, t, out⟩]) n := by
  have hp := hr.phase c hc
  obtain ⟨hphase, -⟩ | ⟨pending, hphase, hset, hdone⟩ := why
  · rw [hphase] at hp
    cases hp with
    | waitInitialize hq =>
      rw [show queued c.gen hist = _ from hq, List.mem_singleton] at hload
      exact absurd hload (sessionLoad_ne_followerInitialize _ _ _)
  · rw [hphase] at hp
    cases hp with
    | @waitLoads link pending pre mid e loads k hsplit hg hq hcover =>
      rw [show queued c.gen hist = _ from hq] at hload
      rcases List.mem_cons.mp hload with heq | hload
      · exact absurd heq (sessionLoad_ne_followerInitialize _ _ _)
      obtain ⟨l', hl', heq⟩ := List.mem_map.mp hload
      obtain ⟨rfl, rfl⟩ := sessionLoad_inj heq
      have hall := hcover.loaded id
      rw [hdone] at hall
      rcases hall l' hl' with ⟨e', he', hans⟩ | hid
      · exact ⟨e', by rw [hsplit]; simp [he'], hans⟩
      · exact ⟨_, List.mem_append_right _ (List.mem_singleton_self _), obj, hset.said,
          hset.answer, hid ▸ hset.id_eq⟩

/-! ## 4. The promise under its condition -/

theorem AttachesLoaded.of_append {hist hist' : List Line} (h : AttachesLoaded (hist ++ hist')) :
    AttachesLoaded hist := fun pre e post heq =>
  h pre e (post ++ hist') (by rw [heq]; simp)

/-- While the candidate waits for its loads, every session with watchers has had its load
sent. -/
theorem Run.loads_sent {hist : List Line} {h : Hub} (hr : Run hist h)
    (hcond : AttachesLoaded hist) :
    ∀ link pending, h.home.candidate = some (.waitLoads link pending) →
      ∀ s ∈ h.watchers, ∃ n, sessionLoad n s ∈ queued link.homeGen hist := by
  induction hr with
  | start => exact fun _ _ hc => by cases hc
  | @turn hist h h' t out hr hturn ih =>
    intro link pending hc' s hs'
    have hs := step_of_turn hturn
    have hlater : ∀ pending₀, h.home.candidate = some (.waitLoads link pending₀) →
        ∃ n, sessionLoad n s ∈ queued link.homeGen (hist ++ [⟨⟨h, false⟩, t, out⟩]) := by
      intro pending₀ hc
      have hbefore : ∃ n, sessionLoad n s ∈ queued link.homeGen hist := by
        obtain hold | ⟨p, ha⟩ := hs.watched_new hr.wellKept hs'
        · exact ih hcond.of_append link pending₀ hc s hold
        · exact hcond hist _ [] rfl link pending₀ hc p s ha
      obtain ⟨n, hn⟩ := hbefore
      exact ⟨n, by rw [queued_append]; exact List.mem_append_left _ hn⟩
    cases hs.candidateStep with
    | kept heq hout => exact hlater pending (heq ▸ hc')
    | gone heq => rw [heq] at hc'; cases hc'
    | accepted heq hnext hout ht => rw [heq] at hc'; cases hc'
    | registered hc ht heq hout => rw [heq] at hc'; cases hc'
    | initializing hc why heq hout => rw [heq] at hc'; cases hc'
    | @loading link₀ id obj hc hset he heq hwatchers hout =>
      obtain ⟨rfl, -⟩ := Incoming.waitLoads.inj (Option.some.inj (heq.symm.trans hc'))
      subst hout
      have hsession : s ∈ h.loads.map Prod.snd := by
        rw [Hub.loads, PendingLoads.map_snd_numbered, mem_sorted, Hub.watched, List.mem_toFinset,
          ← AList.mem_keys, ← hwatchers]
        exact hs'
      obtain ⟨l, hl, rfl⟩ := List.mem_map.mp hsession
      refine ⟨l.1, ?_⟩
      rw [queued_append, queued_loads]
      exact List.mem_append_right _ (List.mem_map.mpr ⟨l, hl, rfl⟩)
    | @loadAnswered link₀ pending₀ pending' id obj hc hset hp heq hout =>
      obtain ⟨rfl, -⟩ := Incoming.waitLoads.inj (Option.some.inj (heq.symm.trans hc'))
      exact hlater pending₀ hc

/-- **Every session is loaded before the old link is dropped**, in every run in which phones,
while a candidate waits for its loads, attach only to sessions that are being loaded.  What has
watchers at the promotion had them when the loads were sent, or has got them since by attaching, and
then the condition says that its load was among those sent; and all that were sent are answered. -/
theorem load_before_drop (ts : List Turn) (hcond : AttachesLoaded (Hub.run.history ts)) :
    LoadBeforeDrop (Hub.run.history ts) := by
  intro pre e post hsplit g ⟨hcand, hmux⟩ s hs'
  rw [hsplit] at hcond
  obtain ⟨js, t, -, -, rfl, rfl⟩ := Hub.run.history_eq_append hsplit
  obtain ⟨c, hc, rfl⟩ := Option.map_eq_some_iff.mp hcand
  obtain ⟨-, heq⟩ | ⟨-, -, heq⟩ | ⟨hr, h', out, heq, hs⟩ := turn_cases js t
  · rw [heq] at hmux
    exact absurd hmux (candidate_ne_mux js hc)
  · rw [heq, Hub.shutdown_eq] at hmux
    cases hmux
  · rw [heq] at hmux hs' ⊢
    cases hs.muxStep with
    | kept hkept => exact absurd (hkept ▸ hmux) (hr.candidate_ne_mux hc)
    | lost hm ht hlost hout => simp [hlost] at hmux
    | promoted hc₀ why hprom hout =>
      obtain rfl := Option.some.inj (hc.symm.trans hc₀)
      have hold : s ∈ (Hub.run.final js).hub.watchers := by rwa [hprom] at hs'
      obtain ⟨n, hn⟩ : ∃ n, sessionLoad n s ∈ queued c.gen (Hub.run.history js) := by
        obtain ⟨hphase, -, -, hempty⟩ | ⟨pending, hphase, -⟩ := why
        · rw [Hub.watched, List.toFinset_eq_empty_iff] at hempty
          have hmem := AList.mem_keys.mp hold
          rw [hempty] at hmem
          exact absurd hmem List.not_mem_nil
        · exact hr.loads_sent hcond.of_append _ pending (hc.trans (congrArg some hphase)) s hold
      refine ⟨n, ?_, hr.answered_of_promoting hc why hn _ _⟩
      rw [queued_append]
      exact List.mem_append_left _ hn

/-- While the candidate waits for its loads, neither a phone nor the serving link speaks. -/
def Calm (e : Line) : Bool :=
  match (hubOf e).home.candidate, e.input.input with
  | some (.waitLoads _ _), .recv (.phoneText _ _) => false
  | some (.waitLoads _ _), .recv (.homeFrame g _) => (hubOf e).home.mux ≠ some g
  | _, _ => true

theorem attachesLoaded_of_calm {hist : List Line} (h : hist.all Calm) : AttachesLoaded hist := by
  rintro pre e post rfl link pending hc p s ⟨-, hspoke | hset⟩
  · have hcalm := List.all_eq_true.mp h e (by simp)
    obtain ⟨obj, ht, -⟩ := hspoke
    simp [Calm, hc, show e.input.input = _ from ht] at hcalm
  · have hcalm := List.all_eq_true.mp h e (by simp)
    obtain ⟨g, id, obj, origin, hset, hm, -⟩ := hset
    simp [Calm, hc, show e.input.input = _ from hset.said, hm] at hcalm

/-- The session `a` is loaded on the second link, which then takes the place of the first. -/
theorem load_before_drop_of_cutover :
    (Hub.run.final (Turn.bringUp ++ [.phone 1 (request (.ofU64 1) "session/load" "a"),
        .get .accepted, .register 2, .home 2 (answer (.ofU64 3)),
        .home 2 (answer (.ofU64 4))])).hub.home.mux = some 2 ∧
      LoadBeforeDrop (Hub.run.history (Turn.bringUp ++
        [.phone 1 (request (.ofU64 1) "session/load" "a"), .get .accepted, .register 2,
          .home 2 (answer (.ofU64 3)), .home 2 (answer (.ofU64 4))])) :=
  ⟨by decide +kernel, load_before_drop _ (attachesLoaded_of_calm (by decide +kernel))⟩

/-! ## 5. A run without the condition -/

/-- A phone attaches to the session `b` through the old link while the new one is loading the
session `a`. -/
def lateAttachment : List Turn :=
  Turn.bringUp ++
    [.phone 1 (request (.ofU64 1) "session/load" "a"), .get .accepted, .register 2,
      .home 2 (answer (.ofU64 3)), .phone 1 (request (.ofU64 2) "session/load" "b")]

/-- **The old link is dropped before the new one has loaded `b`**, when the new one answers
the load of `a`. -/
theorem drop_before_load :
    ¬ LoadBeforeDrop (Hub.run.history (lateAttachment ++ [.home 2 (answer (.ofU64 4))])) := by
  intro h
  obtain ⟨n, hn, -⟩ := h _ _ [] (Hub.run.history_snoc _ _) 2
    ⟨by decide +kernel, by decide +kernel⟩ "b" (by decide +kernel)
  have hqueue : queued 2 (Hub.run.history lateAttachment
        ++ [⟨Hub.run.final lateAttachment, .home 2 (answer (.ofU64 4)),
          (Hub.run.step (Hub.run.final lateAttachment) (.home 2 (answer (.ofU64 4)))).2⟩])
      = [followerInitialize 3, sessionLoad 4 "a"] := by decide +kernel
  rw [hqueue] at hn
  rcases List.mem_cons.mp hn with heq | hn
  · exact sessionLoad_ne_followerInitialize _ _ _ heq
  · exact absurd (sessionLoad_inj (List.mem_singleton.mp hn)).2 (by decide)

end Aqualung
