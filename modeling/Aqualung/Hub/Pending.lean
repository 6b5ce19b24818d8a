/-
# Pending loads finish with the last answer

`PendingLoads` keeps two containers, the sessions that remain and the session of each load id.
Answers come in any order, some twice and some under an id that was never issued.  `Paired` is
what keeps the containers together: ids and sessions are one to one, and what remains is the
sessions of the ids.

It survives because `loaded` takes an id and its session out TOGETHER (`Paired.loaded_of_mem`), and
leaves everything as it is for an id that is not there (`Paired.loaded_of_notMem`).  So what is left
after any answers does not depend on their order or their number: `left`, the loads whose id is not
among them (`Paired.feed_eq`).  Every answer is then judged by two questions about the ids that have
come, whether it is the `First` under its id and whether now `AllSeen`.

`loads_finish_with_last` is the consequence for the hub, which ends the replacement of a link when
`loaded` says `Done`.  It holds for every allocator that does not repeat itself: were an id issued
twice, `load_ids` would forget a session that remains.
-/
import Aqualung.Hub.Loads
import Mathlib.Logic.Function.Iterate

namespace Aqualung

open Lib

/-- What `after_load_result` keeps of the loads; at `Done` it finishes the replacement. -/
def LoadProgress.kept : LoadProgress → Option PendingLoads
  | .more pending | .ignore pending => some pending
  | .done => none

namespace PendingLoads

/-! ## 1. One id for each session -/

section

variable {σ : Type*} (alloc : σ → HomeReqId × σ)

/-- What the allocator keeps after `n` calls. -/
def afterCalls (s : σ) (n : ℕ) : σ := (fun t => (alloc t).2)^[n] s

/-- The id that the call after `n` others gives. -/
def idAt (s : σ) (n : ℕ) : HomeReqId := (alloc (afterCalls alloc s n)).1

/-- The first `n` calls give `n` different ids. -/
def NeverRepeats (s : σ) (n : ℕ) : Prop :=
  ∀ i < n, ∀ j < n, idAt alloc s i = idAt alloc s j → i = j

instance (s : σ) (n : ℕ) : Decidable (NeverRepeats alloc s n) :=
  inferInstanceAs (Decidable (∀ i < n, ∀ j < n, idAt alloc s i = idAt alloc s j → i = j))

theorem afterCalls_succ (s : σ) (n : ℕ) :
    afterCalls alloc s (n + 1) = afterCalls alloc (alloc s).2 n :=
  Function.iterate_succ_apply _ n s

theorem map_snd_allocate (s : σ) (ss : List SessionId) :
    (allocate alloc s ss).1.map Prod.snd = ss := by
  induction ss generalizing s with
  | nil => rfl
  | cons session ss ih => simp [allocate, ih]

theorem map_fst_allocate (s : σ) (ss : List SessionId) :
    (allocate alloc s ss).1.map Prod.fst = (List.range ss.length).map (idAt alloc s) := by
  induction ss generalizing s with
  | nil => rfl
  | cons session ss ih =>
    have hshift : idAt alloc s ∘ Nat.succ = idAt alloc (alloc s).2 := by
      funext n
      exact congrArg (fun t => (alloc t).1) (afterCalls_succ alloc s n)
    rw [List.length_cons, List.range_succ_eq_map, List.map_cons, List.map_map, hshift, ← ih]
    rfl

theorem snd_allocate (s : σ) (ss : List SessionId) :
    (allocate alloc s ss).2 = afterCalls alloc s ss.length := by
  induction ss generalizing s with
  | nil => rfl
  | cons session ss ih =>
    rw [List.length_cons, afterCalls_succ, ← ih]
    rfl

variable {alloc}

theorem NeverRepeats.nodup {s : σ} {n : ℕ} (h : NeverRepeats alloc s n) :
    ((List.range n).map (idAt alloc s)).Nodup := by
  refine List.Nodup.map_on ?_ List.nodup_range
  intro i hi j hj
  exact h i (List.mem_range.mp hi) j (List.mem_range.mp hj)

end

/-- Each watched session has one request, and the ids of the requests are what the allocator has
given, each once. -/
structure OneEach {σ : Type*} (alloc : σ → HomeReqId × σ) (s : σ) (watched : List SessionId)
    (p : PendingLoads) : Prop where
  sessions : (p.requests.map Prod.snd).Perm (sorted watched.toFinset)
  ids : (p.requests.map Prod.fst).Perm ((List.range watched.toFinset.card).map (idAt alloc s))
  distinct : (p.requests.map Prod.fst).Nodup
  remaining : p.remaining = watched.toFinset

theorem start_eq_none_iff {σ : Type*} (alloc : σ → HomeReqId × σ) (s : σ)
    (watched : List SessionId) : (start watched alloc s).1 = none ↔ watched = [] := by
  rw [← List.toFinset_eq_empty_iff]
  by_cases hempty : watched.toFinset = ∅
  · simp [start, hempty]
  · simp [start, hempty]

/-- **`start` asks for each watched session once, each time under an id of its own.** -/
theorem start_oneEach {σ : Type*} {alloc : σ → HomeReqId × σ} {s : σ} {watched : List SessionId}
    (hids : NeverRepeats alloc s watched.toFinset.card) {p : PendingLoads}
    (hstart : (start watched alloc s).1 = some p) :
    OneEach alloc s watched p ∧
      (start watched alloc s).2 = afterCalls alloc s watched.toFinset.card := by
  by_cases hempty : watched.toFinset = ∅
  · simp [start, hempty] at hstart
  · simp only [start, if_neg hempty, Option.some.injEq] at hstart ⊢
    have hfst : (allocate alloc s (sorted watched.toFinset)).1.map Prod.fst
        = (List.range watched.toFinset.card).map (idAt alloc s) := by
      rw [map_fst_allocate, length_sorted]
    have hnodup := hids.nodup
    rw [← hfst] at hnodup
    have hperm := foldl_binsert_perm (l := []) hnodup
    rw [List.nil_append] at hperm
    subst hstart
    refine ⟨⟨?_, ?_, (hperm.map _).nodup_iff.mpr hnodup, rfl⟩, ?_⟩
    · exact (hperm.map _).trans (.of_eq (map_snd_allocate alloc s _))
    · exact (hperm.map _).trans (.of_eq hfst)
    · rw [snd_allocate, length_sorted]

/-! ## 2. Sessions and ids together -/

/-- The two containers belong together: each id in use stands for one session that remains, and
each session that remains has one id. -/
structure Paired (p : PendingLoads) : Prop where
  ids : (p.loadIds.map Prod.fst).Nodup
  sessions : (p.loadIds.map Prod.snd).Nodup
  remaining : p.remaining = (p.loadIds.map Prod.snd).toFinset

theorem OneEach.paired {σ : Type*} {alloc : σ → HomeReqId × σ} {s : σ} {watched : List SessionId}
    {p : PendingLoads} (h : OneEach alloc s watched p) : p.Paired where
  ids := h.distinct
  sessions := h.sessions.nodup_iff.mpr (nodup_sorted _)
  remaining := by
    rw [h.remaining]
    ext session
    have hmem : session ∈ p.loadIds.map Prod.snd ↔ session ∈ sorted watched.toFinset :=
      h.sessions.mem_iff
    rw [List.mem_toFinset (l := p.loadIds.map Prod.snd), hmem, mem_sorted]

theorem Paired.remaining_eq_empty_iff {p : PendingLoads} (hp : p.Paired) :
    p.remaining = ∅ ↔ p.loadIds = [] := by
  rw [hp.remaining, List.toFinset_eq_empty_iff, List.map_eq_nil_iff]

theorem bget_eq_none_iff {l : List (HomeReqId × SessionId)} (hl : (l.map Prod.fst).Nodup)
    {id : HomeReqId} : bget l id = none ↔ id ∉ l.map Prod.fst := by
  rw [Option.eq_none_iff_forall_ne_some, List.mem_map]
  constructor
  · rintro hnone ⟨e, he, rfl⟩
    exact hnone e.2 ((bget_eq_some_iff hl).mpr he)
  · intro hid session hsome
    exact hid ⟨_, (bget_eq_some_iff hl).mp hsome, rfl⟩

/-- The loads whose id is not among `ids`. -/
def left (p : PendingLoads) (ids : List HomeReqId) : PendingLoads :=
  let loads := p.loadIds.filter fun e => e.1 ∉ ids
  ⟨(loads.map Prod.snd).toFinset, loads⟩

theorem mem_loadIds_left {p : PendingLoads} {ids : List HomeReqId} {e : HomeReqId × SessionId} :
    e ∈ (p.left ids).loadIds ↔ e ∈ p.loadIds ∧ e.1 ∉ ids := by
  simp [left]

theorem Paired.left {p : PendingLoads} (hp : p.Paired) (ids : List HomeReqId) :
    (p.left ids).Paired where
  ids := hp.ids.sublist (List.filter_sublist.map _)
  sessions := hp.sessions.sublist (List.filter_sublist.map _)
  remaining := rfl

/-- Ids that are not in use take nothing away. -/
theorem Paired.left_eq_self {p : PendingLoads} (hp : p.Paired) {ids : List HomeReqId}
    (hids : ∀ id ∈ p.loadIds.map Prod.fst, id ∉ ids) : p.left ids = p := by
  have hall : p.loadIds.filter (fun e => e.1 ∉ ids) = p.loadIds :=
    List.filter_eq_self.mpr fun e he => decide_eq_true (hids _ (List.mem_map_of_mem he))
  obtain ⟨remaining, loadIds⟩ := p
  have hremaining : remaining = (loadIds.map Prod.snd).toFinset := hp.remaining
  simp only [PendingLoads.left, hall, hremaining]

/-- What is left does not depend on the order of the answers. -/
theorem left_snoc (p : PendingLoads) (ids : List HomeReqId) (id : HomeReqId) :
    p.left (ids ++ [id]) = (p.left ids).left [id] := by
  have hfilter : p.loadIds.filter (fun e => e.1 ∉ ids ++ [id])
      = (p.loadIds.filter fun e => e.1 ∉ ids).filter fun e => e.1 ∉ [id] := by
    rw [List.filter_filter]
    refine List.filter_congr fun e _ => ?_
    simp [not_or, and_comm]
  simp only [left, hfilter]

theorem Paired.loaded_of_notMem {p : PendingLoads} (hp : p.Paired) {id : HomeReqId}
    (hid : id ∉ p.loadIds.map Prod.fst) : p.loaded id = .ignore p := by
  rw [loaded, (bget_eq_none_iff hp.ids).mpr hid]

/-- An id in use takes its load out of both containers. -/
theorem Paired.loaded_of_mem {p : PendingLoads} (hp : p.Paired) {id : HomeReqId}
    (hid : id ∈ p.loadIds.map Prod.fst) :
    p.loaded id = if (p.left [id]).loadIds = [] then .done else .more (p.left [id]) := by
  obtain ⟨⟨id, session⟩, hmem, rfl⟩ := List.mem_map.mp hid
  have hget := (bget_eq_some_iff hp.ids).mpr hmem
  -- The session goes with its id, and with no other.
  have herase : p.remaining.erase session = (p.left [id]).remaining := by
    ext other
    simp only [hp.remaining, PendingLoads.left, Finset.mem_erase, List.mem_toFinset, List.mem_map,
      List.mem_filter, List.mem_singleton, decide_eq_true_eq]
    constructor
    · rintro ⟨hne, e, he, rfl⟩
      refine ⟨e, ⟨he, fun heq => hne ?_⟩, rfl⟩
      exact congrArg Prod.snd (List.inj_on_of_nodup_map hp.ids he hmem heq)
    · rintro ⟨e, ⟨he, hne⟩, rfl⟩
      refine ⟨fun heq => hne ?_, e, he, rfl⟩
      exact congrArg Prod.fst (List.inj_on_of_nodup_map hp.sessions he hmem heq)
  have hleft : (⟨p.remaining.erase session, p.loadIds.filter fun e => e.1 ≠ id⟩ : PendingLoads)
      = p.left [id] := by
    rw [herase]
    simp [PendingLoads.left]
  have hempty : p.remaining.erase session = ∅ ↔ (p.left [id]).loadIds = [] := by
    rw [herase]
    exact (hp.left [id]).remaining_eq_empty_iff
  simp only [loaded, hget, hleft, hempty]

/-! ## 3. The answers in any order -/

/-- What is kept of the loads after the answers `ids`, each given to `loaded` in turn; nothing
once one of them was `Done`. -/
def feed (p : PendingLoads) (ids : List HomeReqId) : Option PendingLoads :=
  ids.foldl (fun kept id => kept.bind fun p => (p.loaded id).kept) (some p)

theorem feed_snoc (p : PendingLoads) (ids : List HomeReqId) (id : HomeReqId) :
    p.feed (ids ++ [id]) = (p.feed ids).bind fun p => (p.loaded id).kept := by
  rw [feed, List.foldl_append]
  rfl

/-- **After any answers the loads whose id is not among them are kept, and nothing is when there
are none.** -/
theorem Paired.feed_eq {p : PendingLoads} (hp : p.Paired) (hne : p.loadIds ≠ [])
    (ids : List HomeReqId) :
    p.feed ids = if (p.left ids).loadIds = [] then none else some (p.left ids) := by
  induction ids using List.reverseRecOn with
  | nil =>
    rw [hp.left_eq_self fun _ _ => List.not_mem_nil, if_neg hne]
    rfl
  | append_singleton ids id ih =>
    have hleft := hp.left ids
    rw [feed_snoc, ih, left_snoc]
    by_cases hdone : (p.left ids).loadIds = []
    · have hnil : ((p.left ids).left [id]).loadIds = [] := by
        rw [PendingLoads.left, hdone, List.filter_nil]
      rw [if_pos hdone, if_pos hnil]
      rfl
    rw [if_neg hdone, Option.bind_some]
    by_cases hid : id ∈ (p.left ids).loadIds.map Prod.fst
    · rw [hleft.loaded_of_mem hid, apply_ite LoadProgress.kept]
      rfl
    · have hsame : (p.left ids).left [id] = p.left ids := by
        refine hleft.left_eq_self fun j hj hmem => hid ?_
        rwa [← List.mem_singleton.mp hmem]
      rw [hleft.loaded_of_notMem hid, hsame, if_neg hdone]
      rfl

def issued (p : PendingLoads) : List HomeReqId := p.requests.map Prod.fst

/-- Every issued id is among `ids`. -/
def AllSeen (p : PendingLoads) (ids : List HomeReqId) : Prop := ∀ id ∈ p.issued, id ∈ ids

/-- After the answers `ids`, the answer `id` is the first one under an issued id. -/
def First (p : PendingLoads) (ids : List HomeReqId) (id : HomeReqId) : Prop :=
  id ∈ p.issued ∧ id ∉ ids

instance (p : PendingLoads) (ids : List HomeReqId) : Decidable (p.AllSeen ids) :=
  inferInstanceAs (Decidable (∀ id ∈ p.issued, id ∈ ids))

instance (p : PendingLoads) (ids : List HomeReqId) (id : HomeReqId) : Decidable (p.First ids id) :=
  inferInstanceAs (Decidable (id ∈ p.issued ∧ id ∉ ids))

theorem left_loadIds_eq_nil_iff (p : PendingLoads) (ids : List HomeReqId) :
    (p.left ids).loadIds = [] ↔ p.AllSeen ids := by
  rw [List.eq_nil_iff_forall_not_mem]
  simp only [mem_loadIds_left, not_and, not_not, AllSeen, issued, requests, List.mem_map]
  constructor
  · rintro hnone id ⟨e, he, rfl⟩
    exact hnone e he
  · intro hall e he
    exact hall e.1 ⟨e, he, rfl⟩

theorem mem_left_issued {p : PendingLoads} {ids : List HomeReqId} {id : HomeReqId} :
    id ∈ (p.left ids).loadIds.map Prod.fst ↔ p.First ids id := by
  simp only [First, issued, requests, List.mem_map, mem_loadIds_left]
  constructor
  · rintro ⟨e, ⟨he, hid⟩, rfl⟩
    exact ⟨⟨e, he, rfl⟩, hid⟩
  · rintro ⟨⟨e, he, rfl⟩, hid⟩
    exact ⟨e, ⟨he, hid⟩, rfl⟩

/-- `Done` comes with the last id that has been issued, `More` with every other one the first
time, and every other answer is ignored. -/
structure FinishesWithLast (p : PendingLoads) : Prop where
  /-- Nothing is kept once every issued id has come, and not before. -/
  finished : ∀ ids, p.feed ids = none ↔ p.AllSeen ids
  /-- The sessions that remain are those of the ids that have not come. -/
  remaining : ∀ ids p', p.feed ids = some p' → ∀ session,
    session ∈ p'.remaining ↔ ∃ id, (id, session) ∈ p.requests ∧ id ∉ ids
  done : ∀ ids p', p.feed ids = some p' → ∀ id,
    p'.loaded id = .done ↔ p.First ids id ∧ p.AllSeen (ids ++ [id])
  more : ∀ ids p', p.feed ids = some p' → ∀ id,
    (∃ p'', p'.loaded id = .more p'') ↔ p.First ids id ∧ ¬ p.AllSeen (ids ++ [id])
  ignore : ∀ ids p', p.feed ids = some p' → ∀ id,
    p'.loaded id = .ignore p' ↔ ¬ p.First ids id

/-- What `loaded` says after the answers `ids`. -/
theorem Paired.loaded_left {p : PendingLoads} (hp : p.Paired) (ids : List HomeReqId)
    (id : HomeReqId) :
    (p.left ids).loaded id =
      if p.First ids id then
        if p.AllSeen (ids ++ [id]) then .done else .more (p.left (ids ++ [id]))
      else .ignore (p.left ids) := by
  by_cases hfirst : p.First ids id
  · rw [if_pos hfirst, (hp.left ids).loaded_of_mem (mem_left_issued.mpr hfirst), ← left_snoc]
    exact if_congr (left_loadIds_eq_nil_iff p _) rfl rfl
  · rw [if_neg hfirst, (hp.left ids).loaded_of_notMem (mt mem_left_issued.mp hfirst)]

theorem Paired.finishesWithLast {p : PendingLoads} (hp : p.Paired) (hne : p.loadIds ≠ []) :
    p.FinishesWithLast := by
  -- What is kept is what is left.
  have hkept : ∀ ids p', p.feed ids = some p' → p' = p.left ids := by
    intro ids p' hfeed
    rw [hp.feed_eq hne] at hfeed
    split at hfeed
    · cases hfeed
    · exact (Option.some.inj hfeed).symm
  constructor
  case finished =>
    intro ids
    rw [hp.feed_eq hne, ← left_loadIds_eq_nil_iff]
    simp
  case remaining =>
    intro ids p' hfeed session
    rw [hkept ids p' hfeed, (hp.left ids).remaining, List.mem_toFinset, List.mem_map]
    constructor
    · rintro ⟨e, he, rfl⟩
      exact ⟨e.1, mem_loadIds_left.mp he⟩
    · rintro ⟨id, hid⟩
      exact ⟨(id, session), mem_loadIds_left.mpr hid, rfl⟩
  all_goals
    intro ids p' hfeed id
    rw [hkept ids p' hfeed, hp.loaded_left]
    by_cases hfirst : p.First ids id
    · by_cases hall : p.AllSeen (ids ++ [id])
      · simp [hfirst, hall]
      · simp [hfirst, hall]
    · simp [hfirst]

/-- **Pending loads finish exactly when the last load is answered.**  `start` has nothing to do
when nothing is watched, and otherwise asks for each watched session once, under an id of its
own; the answers may come in any order, with strangers and repetitions among them. -/
theorem loads_finish_with_last {σ : Type*} (alloc : σ → HomeReqId × σ) (s : σ)
    (watched : List SessionId) (hids : NeverRepeats alloc s watched.toFinset.card) :
    ((start watched alloc s).1 = none ↔ watched = []) ∧
      ∀ p, (start watched alloc s).1 = some p →
        OneEach alloc s watched p ∧
        (start watched alloc s).2 = afterCalls alloc s watched.toFinset.card ∧
        p.FinishesWithLast := by
  refine ⟨start_eq_none_iff alloc s watched, fun p hstart => ?_⟩
  obtain ⟨heach, hcalls⟩ := start_oneEach hids hstart
  refine ⟨heach, hcalls, heach.paired.finishesWithLast fun hnil => ?_⟩
  have hempty : watched.toFinset = ∅ := by
    rw [← heach.remaining, heach.paired.remaining_eq_empty_iff]
    exact hnil
  rw [start, if_pos hempty] at hstart
  cases hstart

/-- Two sessions, one of them named twice, and an allocator that counts on from 6. -/
theorem two_loads_finish :
    ((start ["b", "a", "b"] countUp 6).1 = none ↔ ["b", "a", "b"] = []) ∧
      ∀ p, (start ["b", "a", "b"] countUp 6).1 = some p →
        OneEach countUp 6 ["b", "a", "b"] p ∧
        (start ["b", "a", "b"] countUp 6).2
          = afterCalls countUp 6 (List.toFinset ["b", "a", "b"]).card ∧
        p.FinishesWithLast :=
  loads_finish_with_last countUp 6 ["b", "a", "b"] (by decide +kernel)

/-- Answers out of order, one of them a stranger and one of them twice. -/
example :
    (start ["b", "a", "b"] countUp 6).1.map (fun p => p.feed [9, 8, 8]) =
      some (some ⟨{"a"}, [(7, "a")]⟩) := by
  decide +kernel

end PendingLoads

end Aqualung
