/-
# Crews with a leader

A crew is a set of members and one of them who leads it; the leader is a member by the type,
so a crew is never empty.  Members join and leave.  The first to join leads; a leader who
leaves is succeeded by SOME remaining member, and which one is left open, so leaving is a
relation.  A roster holds the crew of each topic, where there is one.

What this buys a program that keeps the two halves in separate tables: once its tables are
shown to be the halves of a roster, that they have the same keys, that no set is empty and
that the leader is in the set need no further proof.

The rest is what joining and leaving do to anybody's place:

* `member_join` and `LeftFrom.member`: who is in a crew afterwards;
* `LeftFrom.keeps` and `LeftFrom.succeeds`: a leader goes on unless it is the one who leaves, and
  whoever leads instead was in the crew;
* `LeftFrom.stranger` and `join_of_member`: to leave where one is not, and to join where one is,
  changes nothing.
-/
import Mathlib.Data.Finset.Basic

namespace Aqualung.Lib

/-- A set of members and the one who leads it. -/
structure Crew (M : Type*) where
  members : Finset M
  leader : M
  leader_mem : leader ∈ members

/-- The crews of the topics that have one. -/
abbrev Roster (T M : Type*) := T → Option (Crew M)

namespace Crew

variable {M : Type*} [DecidableEq M]

/-- The crew after `p` has joined. -/
def join (p : M) : Option (Crew M) → Crew M
  | none => ⟨{p}, p, Finset.mem_singleton_self p⟩
  | some g => ⟨insert p g.members, g.leader, Finset.mem_insert_of_mem g.leader_mem⟩

/-- What can be left of a crew when `p` leaves it. -/
inductive Left (p : M) (g : Crew M) : Option (Crew M) → Prop
  /-- Nobody remains. -/
  | dissolved (h : g.members.erase p = ∅) : Left p g none
  /-- The leader is someone else and goes on. -/
  | continued (h : g.leader ≠ p) :
      Left p g (some ⟨g.members.erase p, g.leader, Finset.mem_erase.mpr ⟨h, g.leader_mem⟩⟩)
  /-- The leader leaves, and a remaining member leads. -/
  | succeeded (h : g.leader = p) {q : M} (hq : q ∈ g.members.erase p) :
      Left p g (some ⟨g.members.erase p, q, hq⟩)

theorem members_join (p : M) (o : Option (Crew M)) :
    (join p o).members = insert p ((o.map members).getD ∅) := by
  cases o <;> rfl

theorem leader_join (p : M) (o : Option (Crew M)) :
    (join p o).leader = (o.map leader).getD p := by
  cases o <;> rfl

theorem Left.mem {p q : M} {g g' : Crew M} (h : Left p g (some g')) (hq : q ∈ g'.members) :
    q ≠ p ∧ q ∈ g.members := by
  cases h <;> exact Finset.mem_erase.mp hq

/-- **The leader changes only by leaving.** -/
theorem Left.leader {p : M} {g g' : Crew M} (h : Left p g (some g'))
    (hne : g'.leader ≠ g.leader) : g.leader = p := by
  cases h with
  | continued h => exact absurd rfl hne
  | succeeded h hq => exact h

end Crew

namespace Roster

variable {T M : Type*} [DecidableEq T] [DecidableEq M]

/-- The roster after `p` has joined the crew of the topic `s`. -/
def join (r : Roster T M) (p : M) (s : T) : Roster T M :=
  Function.update r s (some (Crew.join p (r s)))

/-- One crew of the roster has lost `p`, or does not exist. -/
def LeftFrom (p : M) : Option (Crew M) → Option (Crew M) → Prop
  | none, o => o = none
  | some g, o => Crew.Left p g o

/-- A leader who leads on elsewhere, or not at all, after `p` has left the crew, is `p`. -/
theorem LeftFrom.leader {p q : M} {o o' : Option (Crew M)} (h : LeftFrom p o o')
    (hq : o.map Crew.leader = some q) (ho' : o'.isSome) (hne : o'.map Crew.leader ≠ some q) :
    q = p := by
  obtain ⟨g', rfl⟩ := Option.isSome_iff_exists.mp ho'
  cases o with
  | none => cases h
  | some g =>
    obtain rfl : g.leader = q := Option.some.inj hq
    exact Crew.Left.leader h fun heq => hne (by rw [Option.map_some, heq])

/-- `q` is in the crew, where there is one. -/
def Member (o : Option (Crew M)) (q : M) : Prop := ∃ g, o = some g ∧ q ∈ g.members

omit [DecidableEq M] in
@[simp] theorem member_none (q : M) : ¬ Member none q := by
  rintro ⟨g, hg, -⟩
  cases hg

omit [DecidableEq M] in
@[simp] theorem member_some {g : Crew M} {q : M} : Member (some g) q ↔ q ∈ g.members := by
  simp [Member]

omit [DecidableEq M] in
/-- Who leads a crew is in it. -/
theorem member_of_leader {o : Option (Crew M)} {q : M} (h : o.map Crew.leader = some q) :
    Member o q := by
  obtain ⟨g, rfl, rfl⟩ := Option.map_eq_some_iff.mp h
  exact member_some.mpr g.leader_mem

theorem member_join {p q : M} {o : Option (Crew M)} :
    Member (some (Crew.join p o)) q ↔ q = p ∨ Member o q := by
  rw [member_some, Crew.members_join, Finset.mem_insert]
  cases o <;> simp

/-- Leaving takes away the one who leaves, and nobody else. -/
theorem LeftFrom.member {p q : M} {o o' : Option (Crew M)} (h : LeftFrom p o o') :
    Member o' q ↔ q ≠ p ∧ Member o q := by
  cases o with
  | none =>
    cases h
    simp
  | some g =>
    cases h with
    | dissolved hempty => simp [← Finset.mem_erase, hempty]
    | continued hlead => simp [Finset.mem_erase]
    | succeeded hlead hq => simp [Finset.mem_erase]

/-- A crew that `p` is not in loses nothing when `p` leaves. -/
theorem LeftFrom.stranger {p : M} {o o' : Option (Crew M)} (h : LeftFrom p o o')
    (hp : ¬ Member o p) : o' = o := by
  cases o with
  | none => exact h
  | some g =>
    have herase : g.members.erase p = g.members :=
      Finset.erase_eq_of_notMem fun hmem => hp (member_some.mpr hmem)
    cases h with
    | dissolved hempty =>
      have hlead := g.leader_mem
      rw [← herase, hempty] at hlead
      cases hlead
    | continued hlead => simp only [herase]
    | succeeded hlead hq =>
      subst hlead
      exact absurd (member_some.mpr g.leader_mem) hp

theorem join_of_member {r : Roster T M} {p : M} {s : T} (hp : Member (r s) p) :
    r.join p s = r := by
  obtain ⟨g, hg, hmem⟩ := hp
  have hjoin : Crew.join p (some g) = g := by
    simp only [Crew.join, Finset.insert_eq_of_mem hmem]
  rw [join, hg, hjoin, ← hg, Function.update_eq_self]

/-- A leader stays when somebody else leaves. -/
theorem LeftFrom.keeps {p q : M} {o o' : Option (Crew M)} (h : LeftFrom p o o')
    (hq : o.map Crew.leader = some q) (hne : q ≠ p) : o'.map Crew.leader = some q := by
  cases o with
  | none => cases hq
  | some g =>
    obtain rfl : g.leader = q := Option.some.inj hq
    have hmem : g.leader ∈ g.members.erase p := Finset.mem_erase.mpr ⟨hne, g.leader_mem⟩
    cases h with
    | dissolved hempty =>
      rw [hempty] at hmem
      cases hmem
    | continued hlead => rfl
    | succeeded hlead hq' => exact absurd hlead hne

/-- Who leads after somebody has left, and did not before, was in the crew, and the one who left
led it. -/
theorem LeftFrom.succeeds {p q : M} {o o' : Option (Crew M)} (h : LeftFrom p o o')
    (hq : o'.map Crew.leader = some q) (hne : o.map Crew.leader ≠ some q) :
    o.map Crew.leader = some p ∧ Member o q := by
  cases o with
  | none =>
    cases h
    cases hq
  | some g =>
    cases h with
    | dissolved hempty => cases hq
    | continued hlead => exact absurd hq hne
    | succeeded hlead hq' =>
      obtain rfl := Option.some.inj hq
      exact ⟨congrArg some hlead, member_some.mpr (Finset.mem_erase.mp hq').2⟩

end Roster

end Aqualung.Lib
