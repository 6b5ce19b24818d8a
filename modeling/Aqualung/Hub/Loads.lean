/-
# Pending loads

`PendingLoads`: the sessions a new link has been asked to load and has not loaded yet, and
which load id stands for which session.

The source keeps the two in two containers and takes an allocator as an argument; the hub's own
allocator counts up from `next_req`, so the ids of its loads are `next_req + 1` and so on.  `Covers`
is what ties the containers together: the sessions that remain are those of the ids that are left,
and every load is left or has been answered.  It is what the proofs about the handshake know of a
link that waits for its loads.  `Hub/Pending.lean` goes further, for any allocator and any answers.

The counters behind the ids are `u64` in the source and natural numbers here; the header of
`Hub/State.lean` says why.
-/
import Aqualung.Wire.Message

namespace Aqualung

open Lib

/-! ## 1. Names of the hub's tables -/

/-- `PhoneId`.  The hub's 64-bit counters are natural numbers throughout: a run makes fewer than
2^64 of each. -/
abbrev PhoneId := Nat

/-- `HomeGen`: the generation of a home link. -/
abbrev HomeGen := Nat

abbrev HomeReqId := Nat

abbrev SessionId := String

abbrev JsonId := Json

/-! ## 2. The loads -/

structure PendingLoads where
  remaining : Finset SessionId
  loadIds : List (HomeReqId × SessionId)
  deriving DecidableEq

inductive LoadProgress
  | more (pending : PendingLoads)
  | done
  | ignore (pending : PendingLoads)
  deriving DecidableEq

namespace PendingLoads

/-- The `map` of `PendingLoads::start`: one call of the allocator for each session in turn.
`σ` is what the allocator keeps between calls. -/
def allocate {σ : Type*} (alloc : σ → HomeReqId × σ) :
    σ → List SessionId → List (HomeReqId × SessionId) × σ
  | s, [] => ([], s)
  | s, session :: rest =>
    let (id, s') := alloc s
    let (ids, s'') := allocate alloc s' rest
    ((id, session) :: ids, s'')

def start {σ : Type*} (watched : List SessionId) (alloc : σ → HomeReqId × σ) (s : σ) :
    Option PendingLoads × σ :=
  let remaining := watched.toFinset
  if remaining = ∅ then (none, s)
  else
    let (ids, s') := allocate alloc s (sorted remaining)
    (some { remaining, loadIds := ids.foldl (fun m e => binsert e.1 e.2 m) [] }, s')

def loaded (p : PendingLoads) (id : HomeReqId) : LoadProgress :=
  match bget p.loadIds id with
  | none => .ignore p
  | some session =>
    let p' : PendingLoads :=
      { remaining := p.remaining.erase session
        loadIds := p.loadIds.filter fun e => e.1 ≠ id }
    if p'.remaining = ∅ then .done else .more p'

def requests (p : PendingLoads) : List (HomeReqId × SessionId) := p.loadIds

/-! ## 3. Loads numbered in turn -/

/-- The allocator `after_follower_initialize` hands to `PendingLoads::start`: it counts on
from its own copy of `next_req`. -/
def countUp (n : HomeReqId) : HomeReqId × HomeReqId := (n + 1, n + 1)

/-- The sessions numbered from `n + 1` on. -/
def numbered (n : HomeReqId) : List SessionId → List (HomeReqId × SessionId)
  | [] => []
  | session :: rest => (n + 1, session) :: numbered (n + 1) rest

@[simp] theorem length_numbered (n : HomeReqId) (ss : List SessionId) :
    (numbered n ss).length = ss.length := by
  induction ss generalizing n with
  | nil => rfl
  | cons s ss ih => simp [numbered, ih]

@[simp] theorem map_snd_numbered (n : HomeReqId) (ss : List SessionId) :
    (numbered n ss).map Prod.snd = ss := by
  induction ss generalizing n with
  | nil => rfl
  | cons s ss ih => simp [numbered, ih]

theorem map_fst_numbered (n : HomeReqId) (ss : List SessionId) :
    (numbered n ss).map Prod.fst = List.range' (n + 1) ss.length := by
  induction ss generalizing n with
  | nil => rfl
  | cons s ss ih => simp [numbered, ih, List.range'_succ]

theorem mem_numbered_bounds {n : HomeReqId} {ss : List SessionId} {e : HomeReqId × SessionId}
    (h : e ∈ numbered n ss) : n < e.1 ∧ e.1 ≤ n + ss.length := by
  have hmem : e.1 ∈ List.range' (n + 1) ss.length :=
    map_fst_numbered n ss ▸ List.mem_map_of_mem h
  rw [List.mem_range'_1] at hmem
  lia

theorem nodup_numbered (n : HomeReqId) (ss : List SessionId) :
    ((numbered n ss).map Prod.fst).Nodup := by
  rw [map_fst_numbered]
  exact List.nodup_range'

theorem allocate_countUp (n : HomeReqId) (ss : List SessionId) :
    allocate countUp n ss = (numbered n ss, n + ss.length) := by
  induction ss generalizing n with
  | nil => rfl
  | cons s ss ih =>
    simp only [allocate, countUp, numbered, ih, List.length_cons, Prod.mk.injEq, true_and]
    lia

theorem foldl_binsert_numbered (n : HomeReqId) (ss : List SessionId)
    (l : List (HomeReqId × SessionId)) (hl : ∀ e ∈ l, e.1 ≤ n) :
    (numbered n ss).foldl (fun m e => binsert e.1 e.2 m) l = l ++ numbered n ss := by
  induction ss generalizing n l with
  | nil => simp [numbered]
  | cons s ss ih =>
    have hlast : binsert (n + 1) s l = l ++ [(n + 1, s)] :=
      binsert_of_forall_lt fun e he => Nat.lt_succ_of_le (hl e he)
    rw [numbered, List.foldl_cons, hlast, ih]
    · simp
    · intro e he
      rcases List.mem_append.mp he with he | he
      · exact Nat.le_succ_of_le (hl e he)
      · simp only [List.mem_singleton] at he
        simp [he]

/-- What the hub's own call of `start` gives: nothing to load, or every watched session under
the next free numbers. -/
theorem start_countUp (watched : List SessionId) (n : HomeReqId) :
    start watched countUp n =
      if watched.toFinset = ∅ then (none, n)
      else (some ⟨watched.toFinset, numbered n (sorted watched.toFinset)⟩,
        n + (sorted watched.toFinset).length) := by
  by_cases h : watched.toFinset = ∅
  · simp only [start, if_pos h]
  · simp only [start, if_neg h, allocate_countUp,
      foldl_binsert_numbered n _ [] (fun _ he => absurd he (List.not_mem_nil)), List.nil_append]

/-! ## 4. Loads in progress -/

/-- The loads that have not come back are in `pending`, each under its own id and for its own
session; `answered` tells which have. -/
structure Covers (p : PendingLoads) (loads : List (HomeReqId × SessionId))
    (answered : HomeReqId → Prop) : Prop where
  ids : (p.loadIds.map Prod.fst).Nodup
  sessions : (p.loadIds.map Prod.snd).Nodup
  remaining : ∀ s, s ∈ p.remaining ↔ s ∈ p.loadIds.map Prod.snd
  cover : ∀ e ∈ loads, e ∈ p.loadIds ∨ answered e.1

/-- At the start nothing has come back. -/
theorem covers_numbered (n : HomeReqId) (watched : Finset SessionId) (answered : HomeReqId → Prop) :
    Covers ⟨watched, numbered n (sorted watched)⟩ (numbered n (sorted watched)) answered where
  ids := nodup_numbered n _
  sessions := by rw [map_snd_numbered]; exact nodup_sorted watched
  remaining s := by rw [map_snd_numbered, mem_sorted]
  cover _ he := .inl he

theorem Covers.mono {p : PendingLoads} {loads : List (HomeReqId × SessionId)}
    {answered answered' : HomeReqId → Prop} (hc : p.Covers loads answered)
    (himp : ∀ n, answered n → answered' n) : p.Covers loads answered' :=
  ⟨hc.ids, hc.sessions, hc.remaining, fun e he => (hc.cover e he).imp_right (himp e.1)⟩

theorem Covers.erase {p : PendingLoads} {loads : List (HomeReqId × SessionId)}
    {answered : HomeReqId → Prop} (hc : p.Covers loads answered) {id : HomeReqId}
    {session : SessionId} (hget : bget p.loadIds id = some session) :
    Covers ⟨p.remaining.erase session, p.loadIds.filter fun e => e.1 ≠ id⟩ loads
      fun n => answered n ∨ n = id := by
  have hmem : (id, session) ∈ p.loadIds := (bget_eq_some_iff hc.ids).mp hget
  -- The session of any other load in progress is another session.
  have hother : ∀ e ∈ p.loadIds, e.1 ≠ id → e.2 ≠ session := fun e he hne heq => by
    have hpair := List.inj_on_of_nodup_map hc.sessions he hmem heq
    exact hne (congrArg Prod.fst hpair)
  refine ⟨hc.ids.sublist (List.filter_sublist.map _),
    hc.sessions.sublist (List.filter_sublist.map _), fun s => ?_, fun e he => ?_⟩
  · simp only [Finset.mem_erase, hc.remaining, List.mem_map, List.mem_filter, decide_eq_true_eq]
    constructor
    · rintro ⟨hne, e, he, rfl⟩
      refine ⟨e, ⟨he, fun hid => hne ?_⟩, rfl⟩
      have hpair := List.inj_on_of_nodup_map hc.ids he hmem hid
      rw [hpair]
    · rintro ⟨e, ⟨he, hid⟩, rfl⟩
      exact ⟨hother e he hid, e, he, rfl⟩
  · by_cases hid : e.1 = id
    · exact .inr (.inr hid)
    · exact (hc.cover e he).imp (fun he => List.mem_filter.mpr ⟨he, by simpa using hid⟩) .inl

/-- What `loaded` leaves to do, or that there is nothing left. -/
theorem Covers.loaded {p : PendingLoads} {loads : List (HomeReqId × SessionId)}
    {answered : HomeReqId → Prop} (hc : p.Covers loads answered) (id : HomeReqId) :
    match p.loaded id with
    | .more p' | .ignore p' => p'.Covers loads fun n => answered n ∨ n = id
    | .done => ∀ e ∈ loads, answered e.1 ∨ e.1 = id := by
  unfold PendingLoads.loaded
  cases hget : bget p.loadIds id with
  | none => exact hc.mono fun _ => .inl
  | some session =>
    have herase := hc.erase hget
    by_cases hempty : p.remaining.erase session = ∅
    · simp only [if_pos hempty]
      intro e he
      refine (herase.cover e he).resolve_left fun hleft => ?_
      have hs : e.2 ∈ p.remaining.erase session :=
        (herase.remaining e.2).mpr (List.mem_map_of_mem hleft)
      simp [hempty] at hs
    · simpa only [if_neg hempty] using herase

end PendingLoads

end Aqualung
