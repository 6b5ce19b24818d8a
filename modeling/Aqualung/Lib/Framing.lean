/-
# Framed streams

Values are written to a stream one after the other, each as its frame, and a reader takes them
off again.  The stream arrives in pieces, so the reader has to say of what it has so far
whether it begins with a frame, may yet do so when more arrives, or never will.

A `Framing` is a pair of writer and reader for which this works.  Its laws are about one frame:
the reader takes off what was written and leaves what follows, it waits for more as long as it
has only a part, and whatever it takes off could have been written.  The rest is about streams,
by induction on the values:

* `decode_of_prefix`: a reader that is given the beginning of a stream finds the first frame of it
  or waits for more.  It never reports a stream as bad that was written, wherever it is cut.
* `stream_append_prefix`: what has been taken off is what was written, and what is left begins the
  stream of what has not been taken off.  So the reader does not lose its place.
-/
import Mathlib.Data.List.Basic
import Mathlib.Data.List.Infix

namespace Aqualung.Lib

/-- What a reader says of the beginning of a stream. -/
inductive Decoded (α β : Type*)
  /-- It may yet begin with a frame. -/
  | more
  /-- It does not begin with a frame, whatever comes. -/
  | bad
  /-- It begins with the frame of `a`. -/
  | frame (a : α) (rest : List β)

/-- A writer and a reader of frames for the valid values of `α`, over the alphabet `β`. -/
structure Framing (α β : Type*) where
  Valid : α → Prop
  encode : α → List β
  decode : List β → Decoded α β
  decode_nil : decode [] = .more
  decode_encode : ∀ a rest, Valid a → decode (encode a ++ rest) = .frame a rest
  decode_part : ∀ a part, Valid a → part <+: encode a → part ≠ encode a → decode part = .more
  decode_sound : ∀ bs a rest, decode bs = .frame a rest → bs = encode a ++ rest ∧ Valid a

namespace Framing

variable {α β : Type*} (F : Framing α β)

/-- The values, written one after the other. -/
def stream (as : List α) : List β := as.flatMap F.encode

@[simp] theorem stream_nil : F.stream [] = [] := rfl

@[simp] theorem stream_cons (a : α) (as : List α) :
    F.stream (a :: as) = F.encode a ++ F.stream as := by
  simp [stream]

@[simp] theorem stream_append (as bs : List α) :
    F.stream (as ++ bs) = F.stream as ++ F.stream bs := by
  simp [stream]

/-- A stream begins with the frame of its first value. -/
theorem decode_stream {as : List α} (has : ∀ a ∈ as, F.Valid a) :
    F.decode (F.stream as) = match as with
      | [] => .more
      | a :: as => .frame a (F.stream as) := by
  cases as with
  | nil => exact F.decode_nil
  | cons a as =>
    rw [stream_cons]
    exact F.decode_encode a _ (has a List.mem_cons_self)

/-- **The beginning of a stream is never bad**: it begins with the frame of the first value, or
there is no telling yet. -/
theorem decode_of_prefix {as : List α} (has : ∀ a ∈ as, F.Valid a) {bs : List β}
    (h : bs <+: F.stream as) :
    F.decode bs = .more ∨ ∃ a as' rest, as = a :: as' ∧ F.decode bs = .frame a rest ∧
      bs = F.encode a ++ rest ∧ rest <+: F.stream as' := by
  cases as with
  | nil =>
    rw [stream_nil, List.prefix_nil] at h
    exact .inl (h ▸ F.decode_nil)
  | cons a as =>
    have ha : F.Valid a := has a List.mem_cons_self
    rw [stream_cons] at h
    by_cases hpart : bs <+: F.encode a ∧ bs ≠ F.encode a
    · exact .inl (F.decode_part a bs ha hpart.1 hpart.2)
    obtain ⟨rest, rfl⟩ : F.encode a <+: bs := by
      rcases List.prefix_or_prefix_of_prefix h (List.prefix_append _ _) with hle | hle
      · have heq : bs = F.encode a := not_ne_iff.mp fun hne => hpart ⟨hle, hne⟩
        rw [heq]
      · exact hle
    rw [List.prefix_append_right_inj] at h
    exact .inr ⟨a, as, rest, rfl, F.decode_encode a rest ha, rfl, h⟩

/-- **What has been taken off a stream is what was written to it**, and the rest is the
beginning of the rest. -/
theorem stream_append_prefix {as ds : List α} (has : ∀ a ∈ as, F.Valid a)
    (hds : ∀ d ∈ ds, F.Valid d) {tail : List β} (h : F.stream ds ++ tail <+: F.stream as) :
    ∃ rest, as = ds ++ rest ∧ tail <+: F.stream rest := by
  induction ds generalizing as with
  | nil => exact ⟨as, rfl, h⟩
  | cons d ds ih =>
    have hd : F.Valid d := hds d List.mem_cons_self
    rw [stream_cons, List.append_assoc] at h
    have hdecode := F.decode_encode d (F.stream ds ++ tail) hd
    rcases F.decode_of_prefix has h with hmore | ⟨a, as', rest, rfl, hframe, -, hrest⟩
    · rw [hdecode] at hmore
      cases hmore
    · rw [hdecode] at hframe
      cases hframe
      obtain ⟨rest, rfl, htail⟩ := ih (fun a ha => has a (List.mem_cons_of_mem _ ha))
        (fun d' hd' => hds d' (List.mem_cons_of_mem _ hd')) hrest
      exact ⟨rest, rfl, htail⟩

end Framing

end Aqualung.Lib
