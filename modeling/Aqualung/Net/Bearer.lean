/-
# The bearer token of a phone

`phone_connection` lets a WebSocket upgrade pass when its `Authorization` header presents the
token that topside was started with.  The two tokens come different ways: the header is decoded,
trimmed, split at the first space and trimmed again; the configured token is checked to be there
and kept as it is.

`bearerBytes_eq_iff` says what a header presents, on the side of the bytes: the code trims
characters, by their Unicode property, but a header that `to_str` lets pass has only visible ASCII,
spaces and tabs, and there the two agree (section 3).  `bearer_exact_iff` says which configured
tokens a phone can present at all: those that are made of such bytes and have no blank at an end,
for what is trimmed from the header cannot be matched by a token that was not trimmed.

`Cli`, `Config` and `Config.load` are the part of `config.rs` that concerns the token, with `tls`
for whatever comes of the certificates and the key.  `Net/Identity.lean` has `Config::load` in full,
and `load_bearer` and `bearer_of_load` there connect the two.
-/
import Aqualung.Wire.Print
import Aqualung.Lib.Text

namespace Aqualung

open Lib

/-! ## 1. The code -/

/-- `Cli`: the argument `--token`. -/
structure Cli where
  token : String

/-- `Config`: the token. -/
structure Config where
  token : Bytes
  deriving DecidableEq

/-- `ConfigError`: the token is empty, or there is something wrong with a certificate or a key. -/
inductive ConfigError
  | emptyToken
  | tls (error : String)
  deriving DecidableEq

/-- `Config::load`; `tls` is what comes of the certificates and the key. -/
def Config.load (tls : Except ConfigError Unit) (cli : Cli) : Except ConfigError Config :=
  if cli.token = "" then .error .emptyToken
  else tls.map fun _ => { token := utf8 cli.token }

/-- A byte that a header value may have. -/
def isHeaderByte (b : UInt8) : Bool := (32 ≤ b && b != 127) || b == 9

/-- A byte that `to_str` lets pass. -/
def isVisible (b : UInt8) : Bool := (32 ≤ b && b < 127) || b == 9

structure HeaderValue where
  bytes : Bytes
  valid : bytes.all isHeaderByte

/-- The ASCII character of a byte. -/
def charOf (b : UInt8) : Char := Char.ofNat b.toNat

def HeaderValue.toStr (value : HeaderValue) : Option (List Char) :=
  if value.bytes.all isVisible then some (value.bytes.map charOf) else none

def eqIgnoreAsciiCase (s t : List Char) : Bool := s.map Char.toLower == t.map Char.toLower

def bearerBytes (header : List Char) : Option Bytes :=
  let header := trim header
  match splitOnce ' ' header with
  | none => none
  | some (scheme, rest) =>
    if eqIgnoreAsciiCase scheme "Bearer".toList then some (utf8 (.ofList (trim rest))) else none

def tokenEq (provided expected : Bytes) : Bool :=
  if provided.length ≠ expected.length then false
  else (provided.zip expected).foldl (fun diff e => diff ||| (e.1 ^^^ e.2)) 0 == 0

/-- The answer to an upgrade that is refused. -/
structure ErrorResponse where
  status : Nat
  deriving DecidableEq

def unauthorized : ErrorResponse := { status := 401 }

/-- The callback of `phone_connection`, for a request with or without an `Authorization` header. -/
def callback {R : Type} (expected : Bytes) (header : Option HeaderValue) (response : R) :
    Except ErrorResponse R :=
  let header := (header.bind HeaderValue.toStr).getD []
  match bearerBytes header with
  | some provided => if tokenEq provided expected then .ok response else .error unauthorized
  | none => .error unauthorized

/-- The upgrade succeeds. -/
def Upgrades (expected : Bytes) (header : Option HeaderValue) : Prop :=
  callback expected header () = .ok ()

/-! ## 2. The comparison -/

theorem foldl_or_eq_zero_iff (l : List (UInt8 × UInt8)) (diff : UInt8) :
    l.foldl (fun diff e => diff ||| (e.1 ^^^ e.2)) diff = 0 ↔ diff = 0 ∧ ∀ e ∈ l, e.1 = e.2 := by
  induction l generalizing diff with
  | nil => simp
  | cons e l ih =>
    rw [List.foldl_cons, ih, UInt8.or_eq_zero_iff, UInt8.xor_eq_zero_iff, List.forall_mem_cons,
      and_assoc]

/-- **`token_eq` is equality.** -/
theorem tokenEq_iff (provided expected : Bytes) :
    tokenEq provided expected = true ↔ provided = expected := by
  unfold tokenEq
  by_cases hlength : provided.length = expected.length
  · have hall : (∀ e ∈ provided.zip expected, e.1 = e.2) ↔ provided = expected := by
      rw [← List.map_inj_left, List.map_fst_zip hlength.le, List.map_snd_zip hlength.ge]
    rw [if_neg (not_not.mpr hlength), beq_iff_eq, foldl_or_eq_zero_iff, hall]
    exact and_iff_right rfl
  · rw [if_pos hlength]
    constructor
    · intro h
      cases h
    · rintro rfl
      exact absurd rfl hlength

theorem upgrades_iff (expected : Bytes) (header : Option HeaderValue) :
    Upgrades expected header ↔
      bearerBytes ((header.bind HeaderValue.toStr).getD []) = some expected := by
  simp only [Upgrades, callback]
  cases bearerBytes ((header.bind HeaderValue.toStr).getD []) with
  | none => simp
  | some provided => simp [tokenEq_iff]

instance (expected : Bytes) (header : Option HeaderValue) : Decidable (Upgrades expected header) :=
  decidable_of_iff _ (upgrades_iff expected header).symm

/-! ## 3. Bytes and characters -/

theorem byte_forall {P : UInt8 → Prop} (h : ∀ n < 256, P (UInt8.ofNat n)) (b : UInt8) : P b := by
  have hb := h b.toNat b.toNat_lt
  rwa [UInt8.ofNat_toNat] at hb

def byteOf (c : Char) : UInt8 := UInt8.ofNat c.toNat

def isBlank (b : UInt8) : Bool := b == 32 || b == 9

def lower (b : UInt8) : UInt8 := if 65 ≤ b ∧ b ≤ 90 then b + 32 else b

theorem byteOf_charOf (b : UInt8) : byteOf (charOf b) = b :=
  byte_forall (P := fun b => byteOf (charOf b) = b) (by decide +kernel) b

theorem isWhitespace_charOf {b : UInt8} (hb : isVisible b) :
    isWhitespace (charOf b) = isBlank b :=
  byte_forall (P := fun b => isVisible b → isWhitespace (charOf b) = isBlank b)
    (by decide +kernel) b hb

theorem utf8EncodeChar_charOf {b : UInt8} (hb : isVisible b) :
    String.utf8EncodeChar (charOf b) = [b] :=
  byte_forall (P := fun b => isVisible b → String.utf8EncodeChar (charOf b) = [b])
    (by decide +kernel) b hb

theorem toLower_charOf {b : UInt8} (hb : isVisible b) :
    (charOf b).toLower = charOf (lower b) :=
  byte_forall (P := fun b => isVisible b → (charOf b).toLower = charOf (lower b))
    (by decide +kernel) b hb

/-- The text of visible bytes. -/
def textOf (bytes : Bytes) : List Char := bytes.map charOf

theorem mem_textOf {bytes : Bytes} (hbytes : bytes.all isVisible) {c : Char}
    (hc : c ∈ textOf bytes) : ∃ b, isVisible b ∧ c = charOf b := by
  obtain ⟨b, hb, rfl⟩ := List.mem_map.mp hc
  exact ⟨b, List.all_eq_true.mp hbytes b hb, rfl⟩

theorem map_byteOf_textOf (bytes : Bytes) : (textOf bytes).map byteOf = bytes := by
  rw [textOf, List.map_map]
  exact List.map_id'' byteOf_charOf bytes

/-- A text all of whose characters stand for visible bytes. -/
def VisibleText (t : List Char) : Prop := ∀ c ∈ t, ∃ b, isVisible b ∧ c = charOf b

theorem VisibleText.utf8_eq {t : List Char} (ht : VisibleText t) :
    utf8 (.ofList t) = t.map byteOf := by
  rw [utf8, String.toList_ofList]
  induction t with
  | nil => rfl
  | cons c t ih =>
    obtain ⟨b, hb, rfl⟩ := ht c List.mem_cons_self
    rw [List.flatMap_cons, ih fun d hd => ht d (List.mem_cons_of_mem _ hd),
      utf8EncodeChar_charOf hb, List.map_cons, byteOf_charOf]
    rfl

theorem VisibleText.isBlank_byteOf {t : List Char} (ht : VisibleText t) {c : Char} (hc : c ∈ t) :
    isBlank (byteOf c) = isWhitespace c := by
  obtain ⟨b, hb, rfl⟩ := ht c hc
  rw [byteOf_charOf, isWhitespace_charOf hb]

/-! ## 4. What a header presents -/

/-- The word `Bearer`, in any letter case. -/
def IsBearer (scheme : Bytes) : Prop := scheme.map lower = ascii "bearer"

/-- The header presents the token: with nothing but spaces and tabs around, it is the scheme
`Bearer`, a space, more spaces and tabs or none, and the token. -/
def Presents (header token : Bytes) : Prop :=
  ∃ lead scheme pad trail,
    header = lead ++ (scheme ++ 32 :: (pad ++ token)) ++ trail ∧ lead.all isBlank ∧
      IsBearer scheme ∧ pad.all isBlank ∧ Stripped isBlank token ∧ trail.all isBlank

theorem isVisible_of_isBlank {b : UInt8} (hb : isBlank b) : isVisible b :=
  byte_forall (P := fun b => isBlank b → isVisible b) (by decide +kernel) b hb

theorem IsBearer.mem {scheme : Bytes} (h : IsBearer scheme) {b : UInt8} (hb : b ∈ scheme) :
    isVisible b ∧ isBlank b = false := by
  have hlower : lower b ∈ ascii "bearer" := h ▸ List.mem_map_of_mem hb
  exact byte_forall (P := fun b => lower b ∈ ascii "bearer" → isVisible b ∧ isBlank b = false)
    (by decide +kernel) b hlower

theorem bearerBytes_eq_some_iff {t : List Char} {token : Bytes} :
    bearerBytes t = some token ↔ ∃ scheme rest, trim t = scheme ++ ' ' :: rest ∧ ' ' ∉ scheme ∧
      eqIgnoreAsciiCase scheme "Bearer".toList ∧ utf8 (.ofList (trim rest)) = token := by
  simp only [bearerBytes]
  constructor
  · intro h
    split at h
    · cases h
    · rename_i scheme rest hsplit
      obtain ⟨htrim, hspace⟩ := splitOnce_eq_some_iff.mp hsplit
      split at h
      · exact ⟨scheme, rest, htrim, hspace, ‹_›, Option.some.inj h⟩
      · cases h
  · rintro ⟨scheme, rest, htrim, hspace, hscheme, rfl⟩
    simp only [htrim, splitOnce_append hspace, if_pos hscheme]

namespace VisibleText

variable {t : List Char} (ht : VisibleText t)
include ht

theorem all_isBlank (hws : ∀ c ∈ t, isWhitespace c) : (t.map byteOf).all isBlank := by
  refine List.all_eq_true.mpr fun b hb => ?_
  obtain ⟨c, hc, rfl⟩ := List.mem_map.mp hb
  rw [ht.isBlank_byteOf hc]
  exact hws c hc

theorem stripped (hs : Stripped isWhitespace t) : Stripped isBlank (t.map byteOf) :=
  hs.map fun _ hc => ht.isBlank_byteOf hc

theorem isBearer (h : eqIgnoreAsciiCase t "Bearer".toList) : IsBearer (t.map byteOf) := by
  have hlower : (t.map byteOf).map lower = (t.map Char.toLower).map byteOf := by
    rw [List.map_map, List.map_map]
    refine List.map_congr_left fun c hc => ?_
    obtain ⟨b, hb, rfl⟩ := ht c hc
    simp only [Function.comp_apply, byteOf_charOf, toLower_charOf hb]
  rw [IsBearer, hlower, beq_iff_eq.mp h]
  decide

end VisibleText

theorem trim_textOf {lead m trail : Bytes} (hlead : lead.all isBlank) (hm : m.all isVisible)
    (hstripped : Stripped isBlank m) (htrail : trail.all isBlank) :
    trim (textOf (lead ++ m ++ trail)) = textOf m := by
  have hblank : ∀ l : Bytes, l.all isBlank → ∀ c ∈ textOf l, isWhitespace c := by
    intro l hl c hc
    obtain ⟨b, hb, rfl⟩ := List.mem_map.mp hc
    have hbb := List.all_eq_true.mp hl b hb
    rw [isWhitespace_charOf (isVisible_of_isBlank hbb)]
    exact hbb
  rw [trim, textOf, List.map_append, List.map_append]
  refine strip_append (hblank lead hlead) (hstripped.map fun b hb => ?_) (hblank trail htrail)
  exact isWhitespace_charOf (List.all_eq_true.mp hm b hb)

/-- What `bearer_bytes` returns is presented by the header. -/
theorem presents_of_bearerBytes {header token : Bytes} (hvisible : header.all isVisible)
    (h : bearerBytes (textOf header) = some token) : Presents header token := by
  obtain ⟨scheme, rest, htrim, -, hscheme, htoken⟩ := bearerBytes_eq_some_iff.mp h
  obtain ⟨lead, trail, houter, hlead, htrail⟩ := exists_strip isWhitespace (textOf header)
  obtain ⟨pad, trail', hinner, hpad, htrail'⟩ := exists_strip isWhitespace rest
  rw [← trim, htrim] at houter
  rw [← trim] at hinner
  have hall : textOf header
      = lead ++ (scheme ++ ' ' :: (pad ++ trim rest)) ++ (trail' ++ trail) := by
    rw [houter]
    nth_rewrite 1 [hinner]
    simp
  have htext : VisibleText (textOf header) := fun c hc => mem_textOf hvisible hc
  simp only [hall, VisibleText, List.forall_mem_append, List.forall_mem_cons] at htext
  obtain ⟨⟨hleadText, hschemeText, -, hpadText, htokenText⟩, htrailText', htrailText⟩ := htext
  refine ⟨lead.map byteOf, scheme.map byteOf, pad.map byteOf,
    trail'.map byteOf ++ trail.map byteOf, ?_, VisibleText.all_isBlank hleadText hlead,
    VisibleText.isBearer hschemeText hscheme, VisibleText.all_isBlank hpadText hpad, ?_, ?_⟩
  · rw [← htoken, VisibleText.utf8_eq htokenText, ← map_byteOf_textOf header, hall]
    simp [byteOf]
  · rw [← htoken, VisibleText.utf8_eq htokenText]
    exact VisibleText.stripped htokenText (stripped_strip isWhitespace rest)
  · rw [List.all_append, VisibleText.all_isBlank htrailText' htrail',
      VisibleText.all_isBlank htrailText htrail]
    rfl

theorem IsBearer.all_isVisible {scheme : Bytes} (h : IsBearer scheme) : scheme.all isVisible :=
  List.all_eq_true.mpr fun _ hb => (h.mem hb).1

theorem IsBearer.ne_nil {scheme : Bytes} (h : IsBearer scheme) : scheme ≠ [] := by
  rintro rfl
  cases h

theorem IsBearer.stripped {scheme : Bytes} (h : IsBearer scheme) : Stripped isBlank scheme :=
  stripped_of_forall fun _ hb => (h.mem hb).2

theorem IsBearer.space_notMem {scheme : Bytes} (h : IsBearer scheme) : ' ' ∉ textOf scheme := by
  intro hspace
  obtain ⟨b, hb, hchar⟩ := List.mem_map.mp hspace
  have hbyte : b = 32 := by
    rw [← byteOf_charOf b, hchar]
    decide
  have hnot := (h.mem hb).2
  rw [hbyte] at hnot
  cases hnot

theorem IsBearer.eqIgnoreAsciiCase {scheme : Bytes} (h : IsBearer scheme) :
    eqIgnoreAsciiCase (textOf scheme) "Bearer".toList := by
  have hlower : (textOf scheme).map Char.toLower = textOf (scheme.map lower) := by
    rw [textOf, textOf, List.map_map, List.map_map]
    exact List.map_congr_left fun b hb => toLower_charOf (h.mem hb).1
  rw [Aqualung.eqIgnoreAsciiCase, hlower, h]
  decide

theorem utf8_textOf {bytes : Bytes} (hbytes : bytes.all isVisible) :
    utf8 (.ofList (textOf bytes)) = bytes := by
  have htext : VisibleText (textOf bytes) := fun c hc => mem_textOf hbytes hc
  rw [htext.utf8_eq, map_byteOf_textOf]

theorem textOf_append (a b : Bytes) : textOf (a ++ b) = textOf a ++ textOf b := List.map_append

theorem all_isVisible_of_isBlank {bytes : Bytes} (h : bytes.all isBlank) : bytes.all isVisible :=
  List.all_eq_true.mpr fun b hb => isVisible_of_isBlank (List.all_eq_true.mp h b hb)

/-- What the header presents is what `bearer_bytes` returns. -/
theorem bearerBytes_of_presents {header token : Bytes} (hvisible : header.all isVisible)
    (hne : token ≠ []) (h : Presents header token) : bearerBytes (textOf header) = some token := by
  obtain ⟨lead, scheme, pad, trail, rfl, hlead, hscheme, hpad, htoken, htrail⟩ := h
  simp only [List.all_append, List.all_cons, Bool.and_eq_true] at hvisible
  obtain ⟨⟨-, hschemeVisible, hspace, hpadVisible, htokenVisible⟩, -⟩ := hvisible
  rw [bearerBytes_eq_some_iff]
  refine ⟨textOf scheme, textOf (pad ++ token), ?_, hscheme.space_notMem,
    hscheme.eqIgnoreAsciiCase, ?_⟩
  · have hall : (scheme ++ 32 :: (pad ++ token)).all isVisible := by
      simp [hschemeVisible, hspace, hpadVisible, htokenVisible]
    have hstripped : Stripped isBlank (scheme ++ (32 :: pad ++ token)) :=
      hscheme.stripped.append htoken hscheme.ne_nil hne
    rw [trim_textOf hlead hall hstripped htrail, textOf_append]
    rfl
  · have htrim : trim (textOf (pad ++ token ++ [])) = textOf token :=
      trim_textOf hpad htokenVisible htoken rfl
    rw [List.append_nil] at htrim
    rw [htrim, utf8_textOf htokenVisible]

/-- A header that presents nothing after the scheme gives nothing. -/
theorem bearerBytes_of_presents_nil {header : Bytes} (h : Presents header []) :
    bearerBytes (textOf header) = none := by
  obtain ⟨lead, scheme, pad, trail, rfl, hlead, hscheme, hpad, -, htrail⟩ := h
  have htail : (32 :: pad ++ trail).all isBlank := by
    rw [List.all_append, List.all_cons, hpad, htrail]
    rfl
  have hmove : lead ++ (scheme ++ 32 :: (pad ++ [])) ++ trail
      = lead ++ scheme ++ (32 :: pad ++ trail) := by simp
  rw [hmove]
  simp only [bearerBytes, trim_textOf hlead hscheme.all_isVisible hscheme.stripped htail,
    splitOnce_eq_none hscheme.space_notMem]

/-- **What a header presents.** -/
theorem bearerBytes_eq_iff {header token : Bytes} (hvisible : header.all isVisible)
    (hne : token ≠ []) : bearerBytes (textOf header) = some token ↔ Presents header token :=
  ⟨presents_of_bearerBytes hvisible, bearerBytes_of_presents hvisible hne⟩

/-! ## 5. Which tokens can be presented -/

/-- The bearer check accepts exactly the configured token. -/
structure BearerExact (token : Bytes) : Prop where
  upgrades_iff : ∀ header : HeaderValue, Upgrades token (some header) ↔ Presents header.bytes token
  /-- The header formed from the token is a header, and it is accepted. -/
  own : ∃ header : HeaderValue,
    header.bytes = ascii "Bearer " ++ token ∧ Upgrades token (some header)
  noOther : ∀ (header : HeaderValue) (other : Bytes), other ≠ token →
    Presents header.bytes other → ¬ Upgrades token (some header)
  noHeader : ¬ Upgrades token none

/-- The token is made of visible ASCII characters, spaces and tabs, and has no space or tab at
its ends. -/
def Presentable (token : Bytes) : Prop := token.all isVisible ∧ Stripped isBlank token

theorem upgrades_some_iff (token : Bytes) (header : HeaderValue) :
    Upgrades token (some header) ↔
      header.bytes.all isVisible ∧ bearerBytes (textOf header.bytes) = some token := by
  rw [upgrades_iff, Option.bind_some, HeaderValue.toStr]
  by_cases hvisible : header.bytes.all isVisible
  · rw [if_pos hvisible, Option.getD_some, ← textOf]
    exact (and_iff_right hvisible).symm
  · rw [if_neg hvisible]
    constructor
    · intro h
      cases h
    · rintro ⟨h, -⟩
      exact absurd h hvisible

/-- The parts of a header that presents a presentable token are visible. -/
theorem Presents.all_isVisible {header token : Bytes} (h : Presents header token)
    (htoken : token.all isVisible) : header.all isVisible := by
  obtain ⟨lead, scheme, pad, trail, rfl, hlead, hscheme, hpad, -, htrail⟩ := h
  simp only [List.all_append, List.all_cons, all_isVisible_of_isBlank hlead,
    all_isVisible_of_isBlank hpad, all_isVisible_of_isBlank htrail, hscheme.all_isVisible, htoken]
  rfl

theorem presents_own {token : Bytes} (htoken : Stripped isBlank token) :
    Presents (ascii "Bearer " ++ token) token := by
  have hscheme : IsBearer (ascii "Bearer") := by
    unfold IsBearer
    decide
  refine ⟨[], ascii "Bearer", [], [], ?_, rfl, hscheme, rfl, htoken, rfl⟩
  rw [List.append_nil]
  rfl

theorem isHeaderByte_of_isVisible {b : UInt8} (hb : isVisible b) : isHeaderByte b :=
  byte_forall (P := fun b => isVisible b → isHeaderByte b) (by decide +kernel) b hb

theorem bearerExact_iff_presentable {token : Bytes} (hne : token ≠ []) :
    BearerExact token ↔ Presentable token := by
  constructor
  · intro h
    obtain ⟨header, hbytes, hupgrades⟩ := h.own
    have hvisible := ((upgrades_some_iff token header).mp hupgrades).1
    rw [hbytes, List.all_append, Bool.and_eq_true] at hvisible
    obtain ⟨_, _, _, _, _, _, _, _, hstripped, _⟩ := (h.upgrades_iff header).mp hupgrades
    exact ⟨hvisible.2, hstripped⟩
  · rintro ⟨hvisible, hstripped⟩
    have hiff : ∀ header : HeaderValue,
        Upgrades token (some header) ↔ Presents header.bytes token := by
      intro header
      rw [upgrades_some_iff]
      constructor
      · rintro ⟨hheader, hbearer⟩
        exact (bearerBytes_eq_iff hheader hne).mp hbearer
      · intro hpresents
        have hheader := hpresents.all_isVisible hvisible
        exact ⟨hheader, (bearerBytes_eq_iff hheader hne).mpr hpresents⟩
    refine ⟨hiff, ?_, ?_, ?_⟩
    · have hown := presents_own hstripped
      have hvalid : (ascii "Bearer " ++ token).all isHeaderByte :=
        List.all_eq_true.mpr fun b hb =>
          isHeaderByte_of_isVisible (List.all_eq_true.mp (hown.all_isVisible hvisible) b hb)
      exact ⟨⟨_, hvalid⟩, rfl, (hiff ⟨_, hvalid⟩).mpr hown⟩
    · intro header other hother hpresents hupgrades
      obtain ⟨hheader, hbearer⟩ := (upgrades_some_iff token header).mp hupgrades
      by_cases hnil : other = []
      · subst hnil
        rw [bearerBytes_of_presents_nil hpresents] at hbearer
        cases hbearer
      · rw [(bearerBytes_eq_iff hheader hnil).mpr hpresents] at hbearer
        exact hother (Option.some.inj hbearer)
    · rw [upgrades_iff]
      intro h
      cases h

/-- The letter case and the spaces of a header do not matter. -/
example : Upgrades (utf8 "SECRET") (some ⟨ascii " bEARER   SECRET ", by decide⟩) := by
  decide +kernel

theorem utf8_ne_nil {s : String} (hs : s ≠ "") : utf8 s ≠ [] := by
  intro hnil
  refine hs (String.toList_inj.mp (List.eq_nil_iff_forall_not_mem.mpr fun c hc => ?_))
  exact String.utf8EncodeChar_ne_nil (List.flatMap_eq_nil_iff.mp hnil c hc)

theorem Config.token_of_load {tls : Except ConfigError Unit} {cli : Cli} {config : Config}
    (hload : Config.load tls cli = .ok config) :
    cli.token ≠ "" ∧ config.token = utf8 cli.token := by
  unfold Config.load at hload
  split at hload
  · cases hload
  · cases tls with
    | error e => cases hload
    | ok _ => exact ⟨‹_›, congrArg Config.token (Except.ok.inj hload).symm⟩

/-- **The bearer check accepts exactly the configured token when and only when the token is made
of visible ASCII characters, spaces and tabs, and does not begin or end with a space or a tab.**
Any other token cannot be presented in a header, or is trimmed on its way and is then another. -/
theorem bearer_exact_iff {tls : Except ConfigError Unit} {cli : Cli} {config : Config}
    (hload : Config.load tls cli = .ok config) :
    BearerExact config.token ↔ Presentable config.token := by
  obtain ⟨hne, htoken⟩ := Config.token_of_load hload
  refine bearerExact_iff_presentable ?_
  rw [htoken]
  exact utf8_ne_nil hne

theorem bearer_exact_secret :
    Config.load (.ok ()) ⟨"SECRET"⟩ = .ok ⟨utf8 "SECRET"⟩ ∧
      (BearerExact (utf8 "SECRET") ↔ Presentable (utf8 "SECRET")) :=
  ⟨by decide, @bearer_exact_iff (.ok ()) ⟨"SECRET"⟩ ⟨utf8 "SECRET"⟩ (by decide)⟩

/-- The last space of a token is kept when it is configured and lost when it is presented. -/
theorem token_with_space_refused :
    Config.load (.ok ()) ⟨"SECRET "⟩ = .ok ⟨utf8 "SECRET "⟩ ∧ ¬ BearerExact (utf8 "SECRET ") := by
  refine ⟨by decide, fun h => ?_⟩
  obtain ⟨header, hbytes, hupgrades⟩ := h.own
  have hbearer := ((upgrades_some_iff _ header).mp hupgrades).2
  rw [hbytes] at hbearer
  exact absurd hbearer (by decide)

end Aqualung
