/-
# The codec of leader frames

`read_frame` and `write_frame` as calls that run to their end, with the errors they return.  The
transport hands a stream over in pieces of any length, and `read_exact` puts them together, so
what a call of `read_frame` returns depends on the bytes of the stream and not on the pieces
(`readFrame_read`).

The rest is what `framing` says of bytes.  `reads_of_prefix` is about a stream that stops
anywhere: the calls give the first payloads, as many as are there in full, and then an error.
With the whole stream this is the round trip, and with a shorter one it says that truncation is
noticed and never makes up a payload.  `leader_codec` collects this for the writer of any list of
payloads and any pieces.
-/
import Aqualung.Wire.Frame

namespace Aqualung

open Lib

/-! ## 1. The two functions -/

/-- `WireError`.  All errors of the transport are one, the end of the stream among them. -/
inductive WireError
  | io
  | tooLarge (n : Nat)
  deriving DecidableEq

/-- `read_exact`, for `n` bytes of a stream that comes in pieces.  An empty piece is a poll that
finds nothing yet; after the last piece the stream has ended. -/
def readExact : Nat → List Bytes → Except WireError Bytes × List Bytes
  | 0, pieces => (.ok [], pieces)
  | _ + 1, [] => (.error .io, [])
  | n + 1, piece :: pieces =>
    if piece.length ≤ n + 1 then
      match readExact (n + 1 - piece.length) pieces with
      | (.ok bytes, pieces) => (.ok (piece ++ bytes), pieces)
      | (.error e, pieces) => (.error e, pieces)
    else (.ok (piece.take (n + 1)), piece.drop (n + 1) :: pieces)

/-- `read_frame`: what it returns, and what it leaves of the stream. -/
def readFrame (pieces : List Bytes) : Except WireError Bytes × List Bytes :=
  match readExact 4 pieces with
  | (.error e, pieces) => (.error e, pieces)
  | (.ok lenBuf, pieces) =>
    let len := fromBeBytes lenBuf
    if len > MAX_FRAME then (.error (.tooLarge len), pieces) else readExact len pieces

/-- What `k` calls of `read_frame`, one after the other, return. -/
def reads : Nat → List Bytes → List (Except WireError Bytes)
  | 0, _ => []
  | k + 1, pieces => (readFrame pieces).1 :: reads k (readFrame pieces).2

/-- `write_frame`, on a writer that has taken the bytes `w` and takes all that it is given. -/
def writeFrameTo (w : Bytes) (json : Bytes) : Except WireError Unit × Bytes :=
  if json.length > MAX_FRAME then (.error (.tooLarge json.length), w)
  else (.ok (), w ++ toBeBytes json.length ++ json)

/-- Calls of `write_frame`, one after the other, up to the first that fails. -/
def writeFrames : Bytes → List Bytes → Except WireError Unit × Bytes
  | w, [] => (.ok (), w)
  | w, json :: rest =>
    match writeFrameTo w json with
    | (.ok (), w) => writeFrames w rest
    | (.error e, w) => (.error e, w)

/-! ## 2. `read_exact` -/

theorem readExact_of_le {n : Nat} {pieces : List Bytes} (h : n ≤ pieces.flatten.length) :
    ∃ rest, readExact n pieces = (.ok (pieces.flatten.take n), rest) ∧
      rest.flatten = pieces.flatten.drop n := by
  induction pieces generalizing n with
  | nil =>
    obtain rfl : n = 0 := by simpa using h
    exact ⟨[], rfl, rfl⟩
  | cons piece pieces ih =>
    cases n with
    | zero => exact ⟨_, rfl, rfl⟩
    | succ n =>
      rw [List.flatten_cons, List.length_append] at h
      rw [List.flatten_cons]
      by_cases hfits : piece.length ≤ n + 1
      · obtain ⟨rest, hread, hrest⟩ := ih (n := n + 1 - piece.length) (by omega)
        refine ⟨rest, ?_, ?_⟩
        · rw [readExact, if_pos hfits, hread, List.take_append, List.take_of_length_le hfits]
        · rw [hrest, List.drop_append, List.drop_eq_nil_of_le hfits, List.nil_append]
      · refine ⟨piece.drop (n + 1) :: pieces, ?_, ?_⟩
        · rw [readExact, if_neg hfits, List.take_append_of_le_length (by omega)]
        · rw [List.flatten_cons, List.drop_append_of_le_length (by omega)]

theorem readExact_of_lt {n : Nat} {pieces : List Bytes} (h : pieces.flatten.length < n) :
    readExact n pieces = (.error .io, []) := by
  induction pieces generalizing n with
  | nil =>
    cases n with
    | zero => exact absurd h (Nat.not_lt_zero _)
    | succ n => rfl
  | cons piece pieces ih =>
    cases n with
    | zero => exact absurd h (Nat.not_lt_zero _)
    | succ n =>
      rw [List.flatten_cons, List.length_append] at h
      have hfits : piece.length ≤ n + 1 := by omega
      rw [readExact, if_pos hfits, ih (by omega)]

/-! ## 3. `read_frame` -/

/-- What a call of `read_frame` can come to, by what the bytes of the stream begin with. -/
inductive FrameRead (pieces : List Bytes) : Except WireError Bytes × List Bytes → Prop
  | ended {rest : List Bytes} (h : decodeFrame pieces.flatten = .more) :
      FrameRead pieces (.error .io, rest)
  | refused {rest : List Bytes} (h : decodeFrame pieces.flatten = .bad) :
      FrameRead pieces (.error (.tooLarge (fromBeBytes (pieces.flatten.take 4))), rest)
  | read {json : Bytes} {rest : List Bytes}
      (h : decodeFrame pieces.flatten = .frame json rest.flatten) :
      FrameRead pieces (.ok json, rest)

/-- **`read_frame` reads the bytes, not the pieces.** -/
theorem readFrame_read (pieces : List Bytes) : FrameRead pieces (readFrame pieces) := by
  unfold readFrame
  by_cases hshort : pieces.flatten.length < 4
  · rw [readExact_of_lt hshort]
    exact .ended (if_pos hshort)
  obtain ⟨rest, hread, hrest⟩ := readExact_of_le (not_lt.mp hshort)
  have hheader : (pieces.flatten.take 4).length = 4 := by
    rw [List.length_take]
    omega
  have hdecode := decodeFrame_append hheader (pieces.flatten.drop 4)
  rw [List.take_append_drop] at hdecode
  rw [hread]
  simp only
  split
  · rename_i hmax
    rw [if_pos hmax] at hdecode
    exact .refused hdecode
  rename_i hmax
  rw [if_neg hmax] at hdecode
  by_cases hbody : rest.flatten.length < fromBeBytes (pieces.flatten.take 4)
  · rw [readExact_of_lt hbody]
    rw [hrest] at hbody
    rw [if_pos hbody] at hdecode
    exact .ended hdecode
  · obtain ⟨rest', hread', hrest'⟩ := readExact_of_le (not_lt.mp hbody)
    rw [hread', hrest]
    rw [hrest] at hbody hrest'
    rw [if_neg hbody, ← hrest'] at hdecode
    exact .read hdecode

namespace FrameRead

variable {pieces : List Bytes} {r : Except WireError Bytes × List Bytes}

/-- A stream that ends in a frame, or before it, gives an I/O error. -/
theorem of_more (h : FrameRead pieces r) (hmore : decodeFrame pieces.flatten = .more) :
    r.1 = .error .io := by
  cases h with
  | ended _ => rfl
  | refused hbad =>
    rw [hmore] at hbad
    cases hbad
  | read hframe =>
    rw [hmore] at hframe
    cases hframe

/-- A length above the limit gives an error that names it. -/
theorem of_bad (h : FrameRead pieces r) (hbad : decodeFrame pieces.flatten = .bad) :
    r.1 = .error (.tooLarge (fromBeBytes (pieces.flatten.take 4))) := by
  cases h with
  | ended hmore =>
    rw [hbad] at hmore
    cases hmore
  | refused _ => rfl
  | read hframe =>
    rw [hbad] at hframe
    cases hframe

/-- A whole frame is read, and what is behind it is left. -/
theorem of_frame (h : FrameRead pieces r) {json rest : Bytes}
    (hframe : decodeFrame pieces.flatten = .frame json rest) :
    r.1 = .ok json ∧ r.2.flatten = rest := by
  cases h with
  | ended hmore =>
    rw [hframe] at hmore
    cases hmore
  | refused hbad =>
    rw [hframe] at hbad
    cases hbad
  | read hframe' =>
    rw [hframe] at hframe'
    obtain ⟨rfl, rfl⟩ := Decoded.frame.inj hframe'
    exact ⟨rfl, rfl⟩

end FrameRead

/-- Reading the beginning of what was written gives the first payloads, and then an error. -/
theorem reads_of_prefix {payloads : List Bytes}
    (hvalid : ∀ json ∈ payloads, json.length ≤ MAX_FRAME) {pieces : List Bytes}
    (h : pieces.flatten <+: framing.stream payloads) :
    ∃ k, k ≤ payloads.length ∧
      reads (k + 1) pieces = (payloads.take k).map .ok ++ [.error .io] ∧
      (k = payloads.length ↔ pieces.flatten = framing.stream payloads) := by
  -- A stream that ends in its first frame gives an error at once.
  have hends : ∀ {pieces : List Bytes}, decodeFrame pieces.flatten = .more →
      reads 1 pieces = [.error .io] := by
    intro pieces hmore
    have hread := (readFrame_read pieces).of_more hmore
    generalize hr : readFrame pieces = r at hread
    obtain ⟨result, rest⟩ := r
    obtain rfl : result = .error .io := hread
    simp [reads, hr]
  induction payloads generalizing pieces with
  | nil =>
    rw [framing.stream_nil, List.prefix_nil] at h
    have hmore : decodeFrame pieces.flatten = .more := by rw [h]; rfl
    exact ⟨0, le_rfl, hends hmore, by simp [h]⟩
  | cons json payloads ih =>
    rcases framing.decode_of_prefix hvalid h with
      hmore | ⟨json', payloads', rest, heq, hframe, -, hrest⟩
    · have hmore : decodeFrame pieces.flatten = .more := hmore
      refine ⟨0, Nat.zero_le _, hends hmore, ?_⟩
      constructor
      · intro hzero
        cases hzero
      · intro hall
        have hdecode := framing.decode_stream hvalid
        rw [← hall, show framing.decode pieces.flatten = _ from hmore] at hdecode
        cases hdecode
    · obtain ⟨rfl, rfl⟩ := List.cons.inj heq
      have hread := (readFrame_read pieces).of_frame hframe
      generalize hr : readFrame pieces = r at hread
      obtain ⟨result, rest'⟩ := r
      obtain ⟨rfl, rfl⟩ : result = .ok json ∧ rest'.flatten = rest := hread
      obtain ⟨k, hk, hreads, hall⟩ :=
        ih (fun j hj => hvalid j (List.mem_cons_of_mem _ hj)) hrest
      refine ⟨k + 1, Nat.succ_le_succ hk, ?_, ?_⟩
      · rw [reads, hr]
        simp only [hreads, List.take_succ_cons, List.map_cons, List.cons_append]
      · obtain ⟨hbytes, -⟩ := framing.decode_sound _ _ _ hframe
        rw [List.length_cons, Nat.succ_inj, hall, hbytes, framing.stream_cons,
          List.append_cancel_left_eq]

/-! ## 4. `write_frame` -/

/-- `write_frame` emits a frame, or nothing. -/
theorem writeFrameTo_eq (w json : Bytes) :
    writeFrameTo w json = match writeFrame json with
      | some bytes => (.ok (), w ++ bytes)
      | none => (.error (.tooLarge json.length), w) := by
  unfold writeFrameTo writeFrame
  split
  · rfl
  · simp [frameOf]

theorem writeFrameTo_of_valid {json : Bytes} (h : json.length ≤ MAX_FRAME) (w : Bytes) :
    writeFrameTo w json = (.ok (), w ++ frameOf json) := by
  rw [writeFrameTo_eq, writeFrame_of_valid h]
  rfl

/-- Valid payloads are written one after the other. -/
theorem writeFrames_of_valid {payloads : List Bytes}
    (hvalid : ∀ json ∈ payloads, json.length ≤ MAX_FRAME) (w : Bytes) :
    writeFrames w payloads = (.ok (), w ++ framing.stream payloads) := by
  induction payloads generalizing w with
  | nil => simp [writeFrames]
  | cons json payloads ih =>
    have hjson := writeFrameTo_of_valid (hvalid json List.mem_cons_self) w
    rw [writeFrames, hjson]
    simp only
    rw [ih (fun j hj => hvalid j (List.mem_cons_of_mem _ hj)), framing.stream_cons,
      ← List.append_assoc]
    rfl

/-! ## 5. The codec -/

/-- What the two sides promise each other. -/
structure LeaderCodec : Prop where
  /-- What has been written is read back, in whatever pieces it comes, and then the stream
  ends. -/
  round_trip : ∀ payloads : List Bytes, (∀ json ∈ payloads, json.length ≤ MAX_FRAME) →
    ∃ w, writeFrames [] payloads = (.ok (), w) ∧ ∀ pieces : List Bytes, pieces.flatten = w →
      reads (payloads.length + 1) pieces = payloads.map .ok ++ [.error .io]
  /-- What has been read would be written as the bytes that were taken for it. -/
  consumed : ∀ pieces json rest, readFrame pieces = (.ok json, rest) →
    ∃ w, writeFrameTo [] json = (.ok (), w) ∧ pieces.flatten = w ++ rest.flatten
  /-- A payload above the limit is refused, and nothing is written. -/
  write_refuses : ∀ w json, MAX_FRAME < json.length →
    writeFrameTo w json = (.error (.tooLarge json.length), w)
  write_accepts : ∀ w json, json.length ≤ MAX_FRAME → (writeFrameTo w json).1 = .ok ()
  /-- A length above the limit is refused. -/
  read_refuses : ∀ pieces : List Bytes, 4 ≤ pieces.flatten.length →
    MAX_FRAME < fromBeBytes (pieces.flatten.take 4) →
    (readFrame pieces).1 = .error (.tooLarge (fromBeBytes (pieces.flatten.take 4)))
  read_accepts : ∀ pieces : List Bytes, fromBeBytes (pieces.flatten.take 4) ≤ MAX_FRAME →
    ∀ n, (readFrame pieces).1 ≠ .error (.tooLarge n)
  /-- Of a stream that is cut off, the whole frames are read, and then comes an error. -/
  truncated : ∀ payloads : List Bytes, (∀ json ∈ payloads, json.length ≤ MAX_FRAME) →
    ∀ w, writeFrames [] payloads = (.ok (), w) → ∀ pieces : List Bytes, pieces.flatten <+: w →
      pieces.flatten ≠ w → ∃ k, k < payloads.length ∧
        reads (k + 1) pieces = (payloads.take k).map .ok ++ [.error .io]

/-- A length of at most `MAX_FRAME` is not refused, whether its payload is there or not. -/
theorem decodeFrame_ne_bad {bytes : Bytes} (h : fromBeBytes (bytes.take 4) ≤ MAX_FRAME) :
    decodeFrame bytes ≠ .bad := by
  rw [decodeFrame]
  split
  · exact nofun
  · simp only [if_neg (not_lt.mpr h)]
    split
    · exact nofun
    · exact nofun

/-- **The codec of leader frames** reads what it writes, and refuses the same lengths on both
sides.  All of it is about the bytes of the stream: the pieces in which they come make no
difference to `read_frame`. -/
theorem leader_codec : LeaderCodec := by
  refine ⟨?round_trip, ?consumed, fun w json h => if_pos h, ?write_accepts, ?read_refuses,
    ?read_accepts, ?truncated⟩
  case round_trip =>
    intro payloads hvalid
    refine ⟨framing.stream payloads, writeFrames_of_valid hvalid [], fun pieces hpieces => ?_⟩
    have hprefix : pieces.flatten <+: framing.stream payloads := by rw [hpieces]
    obtain ⟨k, -, hreads, hall⟩ := reads_of_prefix hvalid hprefix
    rw [hall.mpr hpieces, List.take_length] at hreads
    exact hreads
  case consumed =>
    intro pieces json rest hr
    have hread := readFrame_read pieces
    rw [hr] at hread
    cases hread with
    | read hframe =>
      obtain ⟨hbytes, hvalid⟩ := framing.decode_sound _ _ _ hframe
      exact ⟨frameOf json, writeFrameTo_of_valid hvalid [], hbytes⟩
  case write_accepts =>
    intro w json h
    rw [writeFrameTo_of_valid h]
  case read_refuses =>
    intro pieces hlong hmax
    refine (readFrame_read pieces).of_bad ?_
    rw [decodeFrame, if_neg (not_lt.mpr hlong)]
    exact if_pos hmax
  case read_accepts =>
    intro pieces hmax n
    have hread := readFrame_read pieces
    generalize hr : readFrame pieces = r at hread
    cases hread with
    | ended hmore => exact nofun
    | refused hbad => exact absurd hbad (decodeFrame_ne_bad hmax)
    | read hframe => exact nofun
  case truncated =>
    intro payloads hvalid w hw pieces hprefix hne
    rw [writeFrames_of_valid hvalid, List.nil_append] at hw
    obtain rfl : framing.stream payloads = w := congrArg Prod.snd hw
    obtain ⟨k, hk, hreads, hall⟩ := reads_of_prefix hvalid hprefix
    exact ⟨k, lt_of_le_of_ne hk fun heq => hne (hall.mp heq), hreads⟩

/-- A frame that comes in three pieces, and an empty frame behind it. -/
example : reads 3 [[0, 0], [0, 1, 7, 0], [0, 0, 0]] = [.ok [7], .ok [], .error .io] := by decide

end Aqualung
