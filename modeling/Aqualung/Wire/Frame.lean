/-
# Leader frames

A frame is the length of the payload, in four bytes with the highest first, and the payload.
`decodeFrame` is `read_frame` on all the bytes there are, and `framing` puts it together with
`write_frame`: both sides compare with the same `MAX_FRAME`, so what one writes the other takes.

`read_frame` is an async function with two places where it can be suspended, one for each
`read_exact`.  A `ReadFrame` is such a suspended call, with the bytes it has taken from the
stream; the fields of its constructors say that it has not got enough yet, since a call that has
is not suspended.  Polling it again is the same as reading from the start with those bytes put
back (`ReadFrame.poll_reads`), and this is the fact that the proofs about `home_connection` rest
on: a call that is KEPT loses nothing, whatever the pieces, and one that is DROPPED loses what it
held.
-/
import Mathlib.Algebra.Ring.Nat
import Aqualung.Lib.Framing

namespace Aqualung

open Lib

/-- `Vec<u8>`. -/
abbrev Bytes := List UInt8

def MAX_FRAME : Nat := 64 * 1024 * 1024

/-! ## 1. Lengths -/

/-- `(n as u32).to_be_bytes()`. -/
def toBeBytes (n : Nat) : Bytes :=
  [UInt8.ofNat (n / 2 ^ 24), UInt8.ofNat (n / 2 ^ 16), UInt8.ofNat (n / 2 ^ 8), UInt8.ofNat n]

/-- `u32::from_be_bytes(bytes)`. -/
def fromBeBytes (bytes : Bytes) : Nat := bytes.foldl (fun n b => n * 256 + b.toNat) 0

@[simp] theorem length_toBeBytes (n : Nat) : (toBeBytes n).length = 4 := rfl

theorem fromBeBytes_toBeBytes {n : Nat} (h : n < 2 ^ 32) : fromBeBytes (toBeBytes n) = n := by
  simp only [fromBeBytes, toBeBytes, List.foldl_cons, List.foldl_nil, UInt8.toNat_ofNat']
  omega

theorem toBeBytes_fromBeBytes {bytes : Bytes} (h : bytes.length = 4) :
    toBeBytes (fromBeBytes bytes) = bytes := by
  obtain ⟨a, b, c, d, rfl⟩ := List.length_eq_four.mp h
  have ha := a.toNat_lt
  have hb := b.toNat_lt
  have hc := c.toNat_lt
  have hd := d.toNat_lt
  simp only [fromBeBytes, toBeBytes, List.foldl_cons, List.foldl_nil, List.cons.injEq, and_true,
    ← UInt8.toNat_inj, UInt8.toNat_ofNat']
  omega

/-! ## 2. Whole frames -/

/-- The frame of a payload. -/
def frameOf (json : Bytes) : Bytes := toBeBytes json.length ++ json

/-- `write_frame`: what goes out, unless the payload is too large. -/
def writeFrame (json : Bytes) : Option Bytes :=
  if json.length > MAX_FRAME then none else some (frameOf json)

/-- `read_frame` on all the bytes there are. -/
def decodeFrame (bytes : Bytes) : Decoded Bytes UInt8 :=
  if bytes.length < 4 then .more
  else
    let len := fromBeBytes (bytes.take 4)
    let body := bytes.drop 4
    if len > MAX_FRAME then .bad
    else if body.length < len then .more
    else .frame (body.take len) (body.drop len)

theorem decodeFrame_append {header : Bytes} (h : header.length = 4) (body : Bytes) :
    decodeFrame (header ++ body)
      = if fromBeBytes header > MAX_FRAME then .bad
        else if body.length < fromBeBytes header then .more
        else .frame (body.take (fromBeBytes header)) (body.drop (fromBeBytes header)) := by
  have hlen : ¬ (header ++ body).length < 4 := by simp [h]
  rw [decodeFrame, if_neg hlen, List.take_left' h, List.drop_left' h]

theorem decodeFrame_toBeBytes {len : Nat} (hlen : len ≤ MAX_FRAME) (body : Bytes) :
    decodeFrame (toBeBytes len ++ body)
      = if body.length < len then .more else .frame (body.take len) (body.drop len) := by
  have hu32 : len < 2 ^ 32 := hlen.trans_lt (by decide)
  rw [decodeFrame_append (length_toBeBytes len), fromBeBytes_toBeBytes hu32,
    if_neg (not_lt.mpr hlen)]

/-- Leader frames are frames for payloads of at most `MAX_FRAME` bytes. -/
def framing : Framing Bytes UInt8 where
  Valid json := json.length ≤ MAX_FRAME
  encode := frameOf
  decode := decodeFrame
  decode_nil := rfl
  decode_encode json rest h := by
    rw [frameOf, List.append_assoc, decodeFrame_toBeBytes h, if_neg (by simp)]
    simp
  decode_part json part h hpart hne := by
    by_cases hshort : part.length < 4
    · rw [decodeFrame, if_pos hshort]
    -- The length is complete, and the payload is not.
    obtain ⟨body, rfl⟩ : toBeBytes json.length <+: part :=
      List.prefix_of_prefix_length_le (List.prefix_append _ _) hpart
        (by rw [length_toBeBytes]; omega)
    rw [frameOf, List.prefix_append_right_inj] at hpart
    have hlt : body.length < json.length := by
      refine lt_of_le_of_ne hpart.length_le fun heq => hne ?_
      rw [hpart.eq_of_length heq, frameOf]
    rw [decodeFrame_toBeBytes h, if_pos hlt]
  decode_sound bytes json rest h := by
    rw [decodeFrame] at h
    split at h
    · cases h
    rename_i hlong
    have hheader : (bytes.take 4).length = 4 := by
      rw [List.length_take]
      omega
    simp only at h
    split at h
    · cases h
    rename_i hmax
    split at h
    · cases h
    rename_i hbody
    cases h
    have hjson : ((bytes.drop 4).take (fromBeBytes (bytes.take 4))).length
        = fromBeBytes (bytes.take 4) := by
      rw [List.length_take]
      omega
    refine ⟨?_, hjson.trans_le (not_lt.mp hmax)⟩
    rw [frameOf, hjson, toBeBytes_fromBeBytes hheader, List.append_assoc, List.take_append_drop,
      List.take_append_drop]

theorem writeFrame_of_valid {json : Bytes} (h : json.length ≤ MAX_FRAME) :
    writeFrame json = some (framing.encode json) :=
  if_neg (not_lt.mpr h)

/-! ## 3. A suspended call -/

/-- A call of `read_frame` that waits for bytes: in the length, or in the payload. -/
inductive ReadFrame
  | header (lenBuf : Bytes) (hlen : lenBuf.length < 4)
  | body (len : Nat) (hmax : len ≤ MAX_FRAME) (buf : Bytes) (hbuf : buf.length < len)

/-- What a poll of a suspended call comes to. -/
inductive Poll
  | pending (call : ReadFrame)
  | failed
  | ready (json rest : Bytes)

namespace ReadFrame

/-- A call that has taken nothing yet. -/
def start : ReadFrame := .header [] (by decide)

/-- The bytes the call has taken from the stream. -/
def held : ReadFrame → Bytes
  | header lenBuf _ => lenBuf
  | body len _ buf _ => toBeBytes len ++ buf

@[simp] theorem held_start : start.held = [] := rfl

/-- The second `read_exact`. -/
def pollBody (len : Nat) (hmax : len ≤ MAX_FRAME) (buf : Bytes) : Poll :=
  if h : buf.length < len then .pending (.body len hmax buf h)
  else .ready (buf.take len) (buf.drop len)

/-- A poll of the call, with the bytes that the socket has.  It takes them all if it is still
waiting afterwards. -/
def poll : ReadFrame → Bytes → Poll
  | header lenBuf _, socket =>
    let bytes := lenBuf ++ socket
    if h : bytes.length < 4 then .pending (.header bytes h)
    else
      let len := fromBeBytes (bytes.take 4)
      if hmax : len ≤ MAX_FRAME then pollBody len hmax (bytes.drop 4) else .failed
  | body len hmax buf _, socket => pollBody len hmax (buf ++ socket)

end ReadFrame

/-- What a poll comes to, for a reader that has all the bytes at once. -/
def Poll.Reads (bytes : Bytes) : Poll → Prop
  | .pending call => decodeFrame bytes = .more ∧ call.held = bytes
  | .failed => decodeFrame bytes = .bad
  | .ready json rest => decodeFrame bytes = .frame json rest

namespace ReadFrame

theorem pollBody_reads {len : Nat} (hmax : len ≤ MAX_FRAME) (buf : Bytes) :
    Poll.Reads (toBeBytes len ++ buf) (pollBody len hmax buf) := by
  have hdecode := decodeFrame_toBeBytes hmax buf
  unfold pollBody
  split
  · rename_i hlt
    rw [if_pos hlt] at hdecode
    exact ⟨hdecode, rfl⟩
  · rename_i hge
    rw [if_neg hge] at hdecode
    exact hdecode

/-- **A suspended call goes on where it was**: it reads what a new call would read with the
bytes it holds put back. -/
theorem poll_reads (call : ReadFrame) (socket : Bytes) :
    Poll.Reads (call.held ++ socket) (call.poll socket) := by
  cases call with
  | header lenBuf hlen =>
    simp only [poll, held]
    split
    · rename_i hshort
      exact ⟨if_pos hshort, rfl⟩
    rename_i hlong
    have hheader : ((lenBuf ++ socket).take 4).length = 4 := by
      rw [List.length_take]
      omega
    have hsplit := List.take_append_drop 4 (lenBuf ++ socket)
    split
    · rename_i hmax
      have hbody := pollBody_reads hmax ((lenBuf ++ socket).drop 4)
      rwa [toBeBytes_fromBeBytes hheader, hsplit] at hbody
    · rename_i hmax
      have hdecode := decodeFrame_append hheader ((lenBuf ++ socket).drop 4)
      rw [hsplit, if_pos (not_le.mp hmax)] at hdecode
      exact hdecode
  | body len hmax buf hbuf =>
    have hbody := pollBody_reads hmax (buf ++ socket)
    rwa [← List.append_assoc] at hbody

end ReadFrame

end Aqualung
