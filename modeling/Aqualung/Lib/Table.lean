/-
# Finite tables

A hash map is Mathlib's `AList`: pairs with pairwise distinct keys, read through `lookup`.
This module adds what a program does with one besides inserting and erasing: keeping the
entries a test passes (`retain`, which may also rewrite a value), and overwriting or dropping
a list of keys in turn (`assign`).  Every operation is characterised by what `lookup` says
afterwards, so later proofs never look inside.

Ordered containers come next.  A B-tree map is a list of pairs in increasing key order, and
`binsert` keeps it there; where a proof is not about the order, `binsert_perm` forgets it.  A
finite set is enumerated in increasing order by `sorted`, which makes "one for each" a list that
can be counted and mapped.
-/
import Mathlib.Data.List.AList
import Mathlib.Data.Finset.Card
import Mathlib.Data.Multiset.Sort
import Mathlib.Data.List.Sort

namespace Aqualung.Lib

/-! ## 1. Hash maps -/

/-- A hash map with keys `K` and values `V`. -/
abbrev Table (K V : Type*) := AList (fun _ : K => V)

namespace Table

variable {K V : Type*} [DecidableEq K]

theorem lookup_insert_eq (m : Table K V) (k a : K) (v : V) :
    (m.insert k v).lookup a = if a = k then some v else m.lookup a := by
  by_cases h : a = k
  · subst h; simp
  · simp [h, AList.lookup_insert_ne h]

theorem lookup_erase_eq (m : Table K V) (k a : K) :
    (m.erase k).lookup a = if a = k then none else m.lookup a := by
  by_cases h : a = k
  · subst h; simp
  · simp [h, AList.lookup_erase_ne h]

/-- A key that is taken out and put back has its new value, and the others have theirs. -/
theorem lookup_insert_erase (m : Table K V) (k k' : K) (v : V) :
    ((m.erase k).insert k v).lookup k' = if k' = k then some v else m.lookup k' := by
  rw [lookup_insert_eq]
  split
  · rfl
  · rename_i hne
    rw [lookup_erase_eq, if_neg hne]

theorem mem_iff_exists {m : Table K V} {k : K} : k ∈ m ↔ ∃ v, m.lookup k = some v := by
  rw [← AList.lookup_isSome, Option.isSome_iff_exists]

theorem mem_entries_iff {m : Table K V} {k : K} {v : V} :
    (⟨k, v⟩ : Sigma fun _ => V) ∈ m.entries ↔ m.lookup k = some v :=
  (AList.mem_lookup_iff (s := m)).symm

/-- Keep the entries `f` does not send to `none`, with the values `f` gives. -/
def retain (f : K → V → Option V) (m : Table K V) : Table K V where
  entries := m.entries.filterMap fun e => (f e.1 e.2).map fun v => ⟨e.1, v⟩
  nodupKeys := by
    rw [List.nodupKeys_iff_pairwise]
    refine (List.nodupKeys_iff_pairwise.mp m.nodupKeys).filterMap _ ?_
    intro a b hab a' ha b' hb
    simp only [Option.map_eq_some_iff] at ha hb
    obtain ⟨v, -, rfl⟩ := ha
    obtain ⟨w, -, rfl⟩ := hb
    exact hab

/-- An entry of `retain f m` is an entry of `m` that `f` keeps. -/
theorem lookup_retain (f : K → V → Option V) (m : Table K V) (k : K) :
    (m.retain f).lookup k = (m.lookup k).bind (f k) := by
  have hmem : ∀ v, (m.retain f).lookup k = some v ↔ (m.lookup k).bind (f k) = some v := by
    intro v
    rw [← mem_entries_iff]
    simp only [retain, List.mem_filterMap, Option.map_eq_some_iff, Option.bind_eq_some_iff]
    constructor
    · rintro ⟨⟨k', w⟩, he, u, hu, heq⟩
      obtain ⟨rfl, rfl⟩ := Sigma.mk.inj_iff.mp heq |>.imp id eq_of_heq
      exact ⟨w, mem_entries_iff.mp he, hu⟩
    · rintro ⟨w, hw, hu⟩
      exact ⟨⟨k, w⟩, mem_entries_iff.mpr hw, v, hu, rfl⟩
  cases h : (m.lookup k).bind (f k) with
  | none =>
    cases h' : (m.retain f).lookup k with
    | none => rfl
    | some v => rw [(hmem v).mp h'] at h; cases h
  | some v => exact (hmem v).mpr h

/-- Give each key of the list its new value, or drop it where there is none. -/
def assign (f : K → Option V) : List K → Table K V → Table K V
  | [], m => m
  | k :: ks, m =>
    assign f ks (match f k with
      | some v => m.insert k v
      | none => m.erase k)

theorem lookup_assign (f : K → Option V) (ks : List K) (m : Table K V) (k : K) :
    (assign f ks m).lookup k = if k ∈ ks then f k else m.lookup k := by
  induction ks generalizing m with
  | nil => simp [assign]
  | cons k' ks ih =>
    rw [assign, ih]
    by_cases hk : k ∈ ks
    · simp [hk]
    · by_cases he : k = k'
      · subst he
        cases hf : f k <;> simp [hk]
      · cases hf : f k' <;> simp [hk, he, AList.lookup_insert_ne he, AList.lookup_erase_ne he]

/-- Give every key of the list the same value. -/
def insertAll (ks : List K) (v : V) (m : Table K V) : Table K V :=
  ks.foldl (fun m k => m.insert k v) m

theorem lookup_insertAll (ks : List K) (v : V) (m : Table K V) (k : K) :
    (m.insertAll ks v).lookup k = if k ∈ ks then some v else m.lookup k := by
  induction ks generalizing m with
  | nil => simp [insertAll]
  | cons k' ks ih =>
    rw [insertAll, List.foldl_cons, ← insertAll, ih, lookup_insert_eq]
    by_cases hk : k ∈ ks <;> by_cases he : k = k' <;> simp [hk, he]

end Table

/-! ## 2. Ordered containers -/

section Ordered

variable {K V : Type*} [LinearOrder K]

/-- `BTreeMap::get`, on the list of entries. -/
def bget : List (K × V) → K → Option V
  | [], _ => none
  | (k', v) :: rest, k => if k = k' then some v else bget rest k

/-- `BTreeMap::insert`, on the list of entries: a new key goes where the order puts it, a
present one keeps its place. -/
def binsert (k : K) (v : V) : List (K × V) → List (K × V)
  | [] => [(k, v)]
  | (k', v') :: rest =>
    if k < k' then (k, v) :: (k', v') :: rest
    else if k = k' then (k, v) :: rest
    else (k', v') :: binsert k v rest

@[simp] theorem bget_binsert_self (k : K) (v : V) (l : List (K × V)) :
    bget (binsert k v l) k = some v := by
  induction l with
  | nil => simp [binsert, bget]
  | cons e l ih =>
    simp only [binsert]
    split
    · simp [bget]
    · split
      · simp [bget]
      · rename_i hne
        simp [bget, hne, ih]

@[simp] theorem bget_binsert_of_ne {k a : K} (h : a ≠ k) (v : V) (l : List (K × V)) :
    bget (binsert k v l) a = bget l a := by
  induction l with
  | nil => simp [binsert, bget, h]
  | cons e l ih =>
    simp only [binsert]
    split
    · simp [bget, h]
    · split
      · rename_i he
        subst he
        simp [bget, h]
      · simp only [bget, ih]

@[simp] theorem binsert_binsert_self (k : K) (v w : V) (l : List (K × V)) :
    binsert k w (binsert k v l) = binsert k w l := by
  induction l with
  | nil => simp [binsert]
  | cons e l ih =>
    simp only [binsert]
    split
    · simp [binsert]
    · split
      · simp [binsert]
      · rename_i hlt hne
        simp only [binsert, if_neg hlt, if_neg hne, ih]

/-- A key above all others goes to the end. -/
theorem binsert_of_forall_lt {k : K} {v : V} {l : List (K × V)} (h : ∀ e ∈ l, e.1 < k) :
    binsert k v l = l ++ [(k, v)] := by
  induction l with
  | nil => rfl
  | cons e l ih =>
    have he : e.1 < k := h e List.mem_cons_self
    have hl : binsert k v l = l ++ [(k, v)] := ih fun e' he' => h e' (List.mem_cons_of_mem _ he')
    simp only [binsert, if_neg (not_lt.mpr he.le), if_neg he.ne', hl, List.cons_append]

/-- A new key adds its entry, wherever the order puts it. -/
theorem binsert_perm {k : K} {v : V} {l : List (K × V)} (h : k ∉ l.map Prod.fst) :
    (binsert k v l).Perm ((k, v) :: l) := by
  induction l with
  | nil => exact .refl _
  | cons e l ih =>
    rw [List.map_cons, List.mem_cons, not_or] at h
    simp only [binsert]
    split
    · exact .refl _
    · rw [if_neg h.1]
      exact ((ih h.2).cons e).trans (.swap _ _ _)

/-- Entries with different keys are all kept, in some order. -/
theorem foldl_binsert_perm {es l : List (K × V)} (h : ((l ++ es).map Prod.fst).Nodup) :
    (es.foldl (fun m e => binsert e.1 e.2 m) l).Perm (l ++ es) := by
  induction es generalizing l with
  | nil => simp
  | cons e es ih =>
    have hmove : (l ++ e :: es).Perm ((e :: l) ++ es) := List.perm_middle
    have hnodup : (((e :: l) ++ es).map Prod.fst).Nodup := (hmove.map _).nodup_iff.mp h
    have hnew : e.1 ∉ l.map Prod.fst := by
      rw [List.cons_append, List.map_cons, List.nodup_cons, List.map_append] at hnodup
      exact fun hmem => hnodup.1 (List.mem_append_left _ hmem)
    have hins : (binsert e.1 e.2 l ++ es).Perm ((e :: l) ++ es) :=
      (binsert_perm hnew).append_right es
    rw [List.foldl_cons]
    exact (ih ((hins.map _).nodup_iff.mpr hnodup)).trans (hins.trans hmove.symm)

theorem bget_eq_some_iff {l : List (K × V)} (h : (l.map Prod.fst).Nodup) {k : K} {v : V} :
    bget l k = some v ↔ (k, v) ∈ l := by
  induction l with
  | nil => simp [bget]
  | cons e l ih =>
    rw [List.map_cons, List.nodup_cons] at h
    simp only [bget, List.mem_cons]
    by_cases hk : k = e.1
    · subst hk
      have hnot : (e.1, v) ∉ l := fun hm => h.1 (List.mem_map.mpr ⟨_, hm, rfl⟩)
      simp [hnot, Prod.ext_iff, eq_comm]
    · simp [hk, ih h.2, Prod.ext_iff]

/-- The elements of a finite set in increasing order.  `Finset.sort` gives the same list, but
by a merge sort that does not evaluate inside a proof; this one does. -/
def sorted (s : Finset K) : List K :=
  Quot.liftOn s.val (fun l => l.insertionSort (· ≤ ·)) fun l l' (h : l.Perm l') =>
    ((l.perm_insertionSort (· ≤ ·)).trans (h.trans (l'.perm_insertionSort (· ≤ ·)).symm)).eq_of_pairwise'
      (l.pairwise_insertionSort _) (l'.pairwise_insertionSort _)

theorem coe_sorted (s : Finset K) : (sorted s : Multiset K) = s.val := by
  obtain ⟨⟨l⟩, hl⟩ := s
  exact Quot.sound (l.perm_insertionSort (· ≤ ·))

@[simp] theorem mem_sorted {s : Finset K} {k : K} : k ∈ sorted s ↔ k ∈ s := by
  rw [← Multiset.mem_coe, coe_sorted, Finset.mem_val]

theorem nodup_sorted (s : Finset K) : (sorted s).Nodup := by
  rw [← Multiset.coe_nodup, coe_sorted]
  exact s.nodup

@[simp] theorem length_sorted (s : Finset K) : (sorted s).length = s.card := by
  rw [← Multiset.coe_card, coe_sorted, Finset.card_val]

end Ordered

end Aqualung.Lib
