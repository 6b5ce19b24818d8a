/-
# Text

A text is a list of characters.  A program that looks into one trims it, splits it at a separator
and reads a decimal number; a lower-level one searches for the OFFSET of a character, in bytes of
the UTF-8 form, and cuts the text there, which fails when the offset is beyond the end or inside a
character.

Each operation comes with the rule that says what it does to a text given in pieces, which is how
the proofs about a grammar meet it: they know the pieces, because the grammar has put them
together, and have to show that the program finds them again.

* `strip_append`: of a text between two ends that go, the middle is left, if it has no such ends of
  its own (`Stripped`).
* `splitOnce_eq_some_iff` and `rsplitOnce_eq_some_iff`: the split at the first and at the last
  separator, with the side on which the separator does not occur.
* `sliceOffsets_append`: a cut at the offset of a character boundary does not fail, and gives the
  piece.  Here a program would panic, so this is a fact about safety too.
* `decimal_toDigits`: what is printed is read back.
-/
import Mathlib.Data.List.DropRight

namespace Aqualung.Lib

/-! ## 1. Trimming -/

section Strip

variable {α : Type*} {p : α → Bool} {l m a b : List α}

/-- The list without the longest ends on which `p` holds. -/
def strip (p : α → Bool) (l : List α) : List α := (l.dropWhile p).rdropWhile p

/-- The list has no end to strip. -/
structure Stripped (p : α → Bool) (l : List α) : Prop where
  head : ∀ x ∈ l.head?, p x = false
  last : ∀ x ∈ l.getLast?, p x = false

theorem rdropWhile_append_of_pos (hb : ∀ x ∈ b, p x) :
    (l ++ b).rdropWhile p = l.rdropWhile p := by
  rw [List.rdropWhile, List.reverse_append,
    List.dropWhile_append_of_pos fun x hx => hb x (List.mem_reverse.mp hx)]
  rfl

theorem dropWhile_eq_self_of_head (h : ∀ x ∈ l.head?, p x = false) : l.dropWhile p = l := by
  cases l with
  | nil => rfl
  | cons x l => exact List.dropWhile_cons_of_neg (by simp [h x rfl])

theorem Stripped.strip_eq (h : Stripped p l) : strip p l = l := by
  rw [strip, dropWhile_eq_self_of_head h.head, List.rdropWhile,
    dropWhile_eq_self_of_head (by simpa using h.last), List.reverse_reverse]

theorem stripped_of_forall (h : ∀ x ∈ l, p x = false) : Stripped p l :=
  ⟨fun x hx => h x (List.mem_of_head? hx), fun x hx => h x (List.mem_of_getLast? hx)⟩

theorem Stripped.map {β : Type*} {q : β → Bool} {f : α → β} (h : Stripped p l)
    (hf : ∀ x ∈ l, q (f x) = p x) : Stripped q (l.map f) where
  head y hy := by
    rw [List.head?_map, Option.mem_def, Option.map_eq_some_iff] at hy
    obtain ⟨x, hx, rfl⟩ := hy
    rw [hf x (List.mem_of_head? hx)]
    exact h.head x hx
  last y hy := by
    rw [List.getLast?_map, Option.mem_def, Option.map_eq_some_iff] at hy
    obtain ⟨x, hx, rfl⟩ := hy
    rw [hf x (List.mem_of_getLast? hx)]
    exact h.last x hx

theorem Stripped.append (ha : Stripped p a) (hb : Stripped p b) (hne : a ≠ []) (hne' : b ≠ []) :
    Stripped p (a ++ (m ++ b)) where
  head x hx := by
    rw [List.head?_append_of_ne_nil _ hne] at hx
    exact ha.head x hx
  last x hx := by
    rw [← List.append_assoc, List.getLast?_append_of_ne_nil _ hne'] at hx
    exact hb.last x hx

/-- What is left of a text between two ends that go. -/
theorem strip_append (ha : ∀ x ∈ a, p x) (hm : Stripped p m) (hb : ∀ x ∈ b, p x) :
    strip p (a ++ m ++ b) = m := by
  rw [strip, List.append_assoc, List.dropWhile_append_of_pos ha]
  cases m with
  | nil =>
    have hnil : b.dropWhile p = [] := List.dropWhile_eq_nil_iff.mpr hb
    rw [List.nil_append, hnil, List.rdropWhile_nil]
  | cons x m =>
    have hhead : ∀ y ∈ (x :: m ++ b).head?, p y = false := fun y hy => hm.head y hy
    rw [dropWhile_eq_self_of_head hhead, rdropWhile_append_of_pos hb]
    have hself := hm.strip_eq
    rwa [strip, dropWhile_eq_self_of_head hm.head] at hself

theorem stripped_strip (p : α → Bool) (l : List α) : Stripped p (strip p l) where
  head x hx := by
    obtain ⟨rest, hrest⟩ := List.rdropWhile_prefix p (l.dropWhile p)
    have hhead : (l.dropWhile p).head? = some x := by
      rw [← hrest, List.head?_append]
      change (strip p l).head?.or _ = _
      rw [Option.mem_def.mp hx]
      rfl
    have hnot := List.head?_dropWhile_not p l
    rw [hhead] at hnot
    simpa using hnot
  last x hx := by
    have hne : strip p l ≠ [] := by
      rintro hnil
      simp [hnil] at hx
    have hlast := List.rdropWhile_last_not p (l.dropWhile p) hne
    rw [List.getLast?_eq_getLast_of_ne_nil hne, Option.mem_def, Option.some.injEq] at hx
    rw [← hx]
    exact Bool.eq_false_iff.mpr hlast

/-- What goes are two ends on which `p` holds. -/
theorem exists_strip (p : α → Bool) (l : List α) :
    ∃ a b, l = a ++ strip p l ++ b ∧ (∀ x ∈ a, p x) ∧ ∀ x ∈ b, p x := by
  refine ⟨l.takeWhile p, (l.dropWhile p).rtakeWhile p, ?_, ?_, ?_⟩
  · rw [List.append_assoc, strip, List.rdropWhile_append_rtakeWhile,
      List.takeWhile_append_dropWhile]
  · exact fun x hx => List.mem_takeWhile_imp hx
  · exact fun x hx => List.mem_rtakeWhile_imp hx

end Strip

/-! ## 2. Splitting at a separator -/

section Split

variable {α : Type*} [DecidableEq α] {c : α} {t a b : List α}

/-- What stands before and after the first `c`. -/
def splitOnce (c : α) : List α → Option (List α × List α)
  | [] => none
  | d :: t => if d = c then some ([], t) else (splitOnce c t).map fun e => (d :: e.1, e.2)

/-- What stands before and after the last `c`. -/
def rsplitOnce (c : α) (t : List α) : Option (List α × List α) :=
  (splitOnce c t.reverse).map fun e => (e.2.reverse, e.1.reverse)

theorem splitOnce_append (ha : c ∉ a) : splitOnce c (a ++ c :: b) = some (a, b) := by
  induction a with
  | nil => simp [splitOnce]
  | cons d a ih =>
    rw [List.mem_cons, not_or] at ha
    simp [splitOnce, Ne.symm ha.1, ih ha.2]

theorem splitOnce_eq_none (ht : c ∉ t) : splitOnce c t = none := by
  induction t with
  | nil => rfl
  | cons d t ih =>
    rw [List.mem_cons, not_or] at ht
    simp [splitOnce, Ne.symm ht.1, ih ht.2]

theorem splitOnce_eq_some_iff : splitOnce c t = some (a, b) ↔ t = a ++ c :: b ∧ c ∉ a := by
  constructor
  · intro h
    by_cases ht : c ∈ t
    · obtain ⟨a', b', rfl, ha'⟩ := List.eq_append_cons_of_mem ht
      rw [splitOnce_append ha', Option.some.injEq, Prod.mk.injEq] at h
      obtain ⟨rfl, rfl⟩ := h
      exact ⟨rfl, ha'⟩
    · rw [splitOnce_eq_none ht] at h
      cases h
  · rintro ⟨rfl, ha⟩
    exact splitOnce_append ha

theorem rsplitOnce_append (hb : c ∉ b) : rsplitOnce c (a ++ c :: b) = some (a, b) := by
  have hrev : (a ++ c :: b).reverse = b.reverse ++ c :: a.reverse := by simp
  rw [rsplitOnce, hrev, splitOnce_append (by simpa using hb)]
  simp

theorem rsplitOnce_eq_none (ht : c ∉ t) : rsplitOnce c t = none := by
  rw [rsplitOnce, splitOnce_eq_none (by simpa using ht)]
  rfl

theorem exists_rsplitOnce (ht : c ∈ t) : ∃ e, rsplitOnce c t = some e := by
  obtain ⟨a, b, hrev, ha⟩ := List.eq_append_cons_of_mem (List.mem_reverse.mpr ht)
  rw [rsplitOnce, hrev, splitOnce_append ha]
  exact ⟨_, rfl⟩

theorem rsplitOnce_eq_some_iff : rsplitOnce c t = some (a, b) ↔ t = a ++ c :: b ∧ c ∉ b := by
  constructor
  · intro h
    obtain ⟨⟨b', a'⟩, hsplit, heq⟩ := Option.map_eq_some_iff.mp h
    obtain ⟨ht, hb'⟩ := splitOnce_eq_some_iff.mp hsplit
    rw [Prod.mk.injEq] at heq
    obtain ⟨rfl, rfl⟩ := heq
    refine ⟨?_, by simpa using hb'⟩
    rw [← List.reverse_reverse t, ht]
    simp
  · rintro ⟨rfl, hb⟩
    exact rsplitOnce_append hb

end Split

/-! ## 3. Offsets in bytes -/

def byteSize : List Char → Nat
  | [] => 0
  | c :: t => c.utf8Size + byteSize t

/-- The offset of the first `c`. -/
def findOffset (c : Char) : List Char → Option Nat
  | [] => none
  | d :: t => if d = c then some 0 else (findOffset c t).map (d.utf8Size + ·)

/-- The text from an offset on, if a character begins there or the text ends there. -/
def fromOffset (n : Nat) : List Char → Option (List Char)
  | [] => if n = 0 then some [] else none
  | c :: t =>
    if n = 0 then some (c :: t)
    else if c.utf8Size ≤ n then fromOffset (n - c.utf8Size) t else none

/-- The text up to an offset. -/
def toOffset (n : Nat) : List Char → Option (List Char)
  | [] => if n = 0 then some [] else none
  | c :: t =>
    if n = 0 then some []
    else if c.utf8Size ≤ n then (toOffset (n - c.utf8Size) t).map (c :: ·) else none

/-- The text between two offsets. -/
def sliceOffsets (i j : Nat) (t : List Char) : Option (List Char) :=
  if i ≤ j then (fromOffset i t).bind (toOffset (j - i)) else none

section Offsets

variable {c : Char} {a b t : List Char}

theorem byteSize_append (a b : List Char) : byteSize (a ++ b) = byteSize a + byteSize b := by
  induction a with
  | nil => simp [byteSize]
  | cons c a ih =>
    simp only [List.cons_append, byteSize, ih]
    omega

theorem findOffset_append (ha : c ∉ a) : findOffset c (a ++ c :: b) = some (byteSize a) := by
  induction a with
  | nil => simp [findOffset, byteSize]
  | cons d a ih =>
    rw [List.mem_cons, not_or] at ha
    simp [findOffset, byteSize, Ne.symm ha.1, ih ha.2]

theorem findOffset_eq_none (ht : c ∉ t) : findOffset c t = none := by
  induction t with
  | nil => rfl
  | cons d t ih =>
    rw [List.mem_cons, not_or] at ht
    simp [findOffset, Ne.symm ht.1, ih ht.2]

@[simp] theorem fromOffset_append (a b : List Char) :
    fromOffset (byteSize a) (a ++ b) = some b := by
  induction a with
  | nil => cases b <;> rfl
  | cons c a ih =>
    have hpos := c.utf8Size_pos
    simp only [byteSize, List.cons_append, fromOffset]
    rw [if_neg (by omega), if_pos (by omega), Nat.add_sub_cancel_left, ih]

@[simp] theorem toOffset_append (a b : List Char) : toOffset (byteSize a) (a ++ b) = some a := by
  induction a with
  | nil => cases b <;> rfl
  | cons c a ih =>
    have hpos := c.utf8Size_pos
    simp only [byteSize, List.cons_append, toOffset]
    rw [if_neg (by omega), if_pos (by omega), Nat.add_sub_cancel_left, ih]
    rfl

/-- A slice between two character boundaries. -/
theorem sliceOffsets_append (a t b : List Char) :
    sliceOffsets (byteSize a) (byteSize a + byteSize t) (a ++ (t ++ b)) = some t := by
  rw [sliceOffsets, if_pos (Nat.le_add_right _ _), fromOffset_append, Option.bind_some,
    Nat.add_sub_cancel_left, toOffset_append]

end Offsets

/-! ## 4. Characters and numbers -/

/-- The code points with the Unicode property `White_Space`. -/
def whiteSpace : List Nat :=
  List.range' 9 5 ++ [0x20, 0x85, 0xa0, 0x1680] ++ List.range' 0x2000 11 ++
    [0x2028, 0x2029, 0x202f, 0x205f, 0x3000]

/-- `White_Space`. -/
def isWhitespace (c : Char) : Bool := whiteSpace.elem c.toNat

theorem whitespace_forall {P : Char → Prop} (h : ∀ n ∈ whiteSpace, P (Char.ofNat n)) {c : Char}
    (hc : isWhitespace c) : P c := by
  have hP := h c.toNat (List.elem_iff.mp hc)
  rwa [Char.ofNat_toNat] at hP

/-- The text without the white space at its ends. -/
def trim (t : List Char) : List Char := strip isWhitespace t

/-- The number that decimal digits write. -/
def decimal (t : List Char) : Option Nat :=
  if t ≠ [] ∧ t.all Char.isDigit then some (Nat.ofDigitChars 10 t 0) else none

/-- The digits of a number write the number. -/
theorem decimal_toDigits (n : Nat) : decimal (Nat.toDigits 10 n) = some n := by
  have hdigits : (Nat.toDigits 10 n).all Char.isDigit :=
    List.all_eq_true.mpr fun c hc => Nat.isDigit_of_mem_toDigits (by decide) (le_refl 10) hc
  rw [decimal, if_pos ⟨Nat.toDigits_ne_nil, hdigits⟩, Nat.ofDigitChars_ten_toDigits]

theorem isDigit_of_decimal {t : List Char} {n : Nat} (h : decimal t = some n) :
    ∀ c ∈ t, c.isDigit := by
  unfold decimal at h
  split at h
  · rename_i hdigits
    exact List.all_eq_true.mp hdigits.2
  · cases h

end Aqualung.Lib
