/-
# Messages as bytes

What `serde_json` writes for a value and for a message to a leader.  A JSON-RPC object goes to
the leader as a string inside a JSON object, so its text is escaped once more, and the frame can
be longer than the text.  It is at most twice as long: `serde_json` has already escaped the
control characters (`Json.toText_plain`, by induction on the value), and what is left to escape,
quotation marks and backslashes, takes two bytes (`length_toVec_le`).  So a text of less than half
of `MAX_FRAME` always fits in a frame, and one that is longer may not.

The text of a 64-bit float is a parameter: the model does not know what a float stands for.
-/
import Aqualung.Wire.Frame
import Aqualung.Wire.Message

namespace Aqualung

open Lib

/-! ## 1. Texts -/

/-- The bytes of a text of ASCII characters. -/
def ascii (s : String) : Bytes := s.toList.map fun c => UInt8.ofNat c.toNat

/-- `str::as_bytes`. -/
def utf8 (s : String) : Bytes := s.toList.flatMap String.utf8EncodeChar

/-- One of `HEX_DIGITS`. -/
def hexDigit (n : Nat) : UInt8 := UInt8.ofNat (Nat.digitChar n).toNat

/-- What stands for a byte between the quotes of a JSON string. -/
def escapeByte (b : UInt8) : Bytes :=
  if b = 0x22 then [0x5c, 0x22]
  else if b = 0x5c then [0x5c, 0x5c]
  else if b = 0x08 then ascii "\\b"
  else if b = 0x09 then ascii "\\t"
  else if b = 0x0a then ascii "\\n"
  else if b = 0x0c then ascii "\\f"
  else if b = 0x0d then ascii "\\r"
  else if b < 0x20 then
    ascii "\\u00" ++ [hexDigit (b.toNat / 16), hexDigit (b.toNat % 16)]
  else [b]

/-- A JSON string with the given content. -/
def quote (bytes : Bytes) : Bytes := 0x22 :: bytes.flatMap escapeByte ++ [0x22]

def boolText (b : Bool) : Bytes := if b then ascii "true" else ascii "false"

/-- The comma in front of the rest of a list. -/
def comma {α : Type} : List α → Bytes
  | [] => []
  | _ :: _ => [0x2c]

/-! ## 2. Values and messages -/

section

variable (floatText : UInt64 → Bytes)

mutual

/-- `Value::to_string`. -/
def Json.toText : Json → Bytes
  | .null => ascii "null"
  | .bool b => boolText b
  | .num (.posInt n) => ascii (toString n)
  | .num (.negInt i) => ascii (toString i)
  | .num (.float bits) => floatText bits
  | .str s => quote (utf8 s)
  | .arr xs => 0x5b :: itemsText xs ++ [0x5d]
  | .obj fields => 0x7b :: fieldsText fields ++ [0x7d]
termination_by structural v => v

def itemsText : List Json → Bytes
  | [] => []
  | x :: xs => Json.toText x ++ comma xs ++ itemsText xs
termination_by structural xs => xs

def fieldsText : List (String × Json) → Bytes
  | [] => []
  | (k, v) :: fields => quote (utf8 k) ++ 0x3a :: Json.toText v ++ comma fields ++ fieldsText fields
termination_by structural fields => fields

end

/-- `serde_json::to_vec` of a message to a leader. -/
def LeaderClient.toVec : LeaderClient → Bytes
  | .register clientType mode capabilities =>
    ascii "\x7b\"type\":\"register\",\"client_type\":" ++ quote (utf8 clientType) ++
      ascii ",\"mode\":" ++ quote (utf8 mode) ++
      ascii ",\"capabilities\":\x7b\"terminal\":" ++ boolText capabilities.terminal ++
      ascii ",\"fs_read\":" ++ boolText capabilities.fs_read ++
      ascii ",\"fs_write\":" ++ boolText capabilities.fs_write ++ ascii "\x7d\x7d"
  | .acp payload =>
    ascii "\x7b\"type\":\"acp\",\"payload\":" ++ quote (Json.toText floatText (.obj payload)) ++
      ascii "\x7d"
  | .ping => ascii "\x7b\"type\":\"ping\"\x7d"

end

/-! ## 3. Lengths -/

/-- The bytes are none of the control characters that JSON has to escape. -/
def Plain (bytes : Bytes) : Prop := ∀ b ∈ bytes, 0x20 ≤ b

namespace Plain

theorem nil : Plain [] := fun _ hb => absurd hb List.not_mem_nil

theorem cons {b : UInt8} {bytes : Bytes} (hb : 0x20 ≤ b) (h : Plain bytes) :
    Plain (b :: bytes) := by
  intro b' hb'
  rcases List.mem_cons.mp hb' with rfl | hb'
  · exact hb
  · exact h b' hb'

theorem append {bytes bytes' : Bytes} (h : Plain bytes) (h' : Plain bytes') :
    Plain (bytes ++ bytes') := by
  intro b hb
  rcases List.mem_append.mp hb with hb | hb
  · exact h b hb
  · exact h' b hb

theorem ascii {s : String} (h : s.toList.all fun c => 0x20 ≤ UInt8.ofNat c.toNat) :
    Plain (ascii s) := by
  intro b hb
  obtain ⟨c, hc, rfl⟩ := List.mem_map.mp hb
  exact of_decide_eq_true (List.all_eq_true.mp h c hc)

theorem digits (n : Nat) : Plain (Aqualung.ascii (toString n)) := by
  refine ascii (List.all_eq_true.mpr fun c hc => decide_eq_true ?_)
  have hdigit : c.isDigit := by
    refine Nat.isDigit_of_mem_toDigits (b := 10) (n := n) (by decide) (by decide) ?_
    simpa using hc
  have hbounds : 48 ≤ c.toNat ∧ c.toNat ≤ 57 := by
    simpa [Char.isDigit, UInt32.le_iff_toNat_le] using hdigit
  rw [UInt8.le_iff_toNat_le, UInt8.toNat_ofNat']
  have hsmall : c.toNat % 2 ^ 8 = c.toNat := Nat.mod_eq_of_lt (by omega)
  rw [hsmall]
  exact le_trans (by decide) hbounds.1

theorem comma {α : Type} (xs : List α) : Plain (comma xs) := by
  cases xs with
  | nil => exact nil
  | cons x xs => exact cons (by decide) nil

theorem escapeByte (b : UInt8) : Plain (escapeByte b) := by
  have hhex : ∀ n < 16, 0x20 ≤ hexDigit n := by decide
  unfold Aqualung.escapeByte
  split
  · exact cons (by decide) (cons (by decide) nil)
  split
  · exact cons (by decide) (cons (by decide) nil)
  split
  · exact ascii (by decide)
  split
  · exact ascii (by decide)
  split
  · exact ascii (by decide)
  split
  · exact ascii (by decide)
  split
  · exact ascii (by decide)
  split
  · have hb := b.toNat_lt
    exact (ascii (by decide)).append
      (cons (hhex _ (by omega)) (cons (hhex _ (Nat.mod_lt _ (by decide))) nil))
  · rename_i hge
    exact cons (UInt8.not_lt.mp hge) nil

theorem quote (bytes : Bytes) : Plain (quote bytes) := by
  refine cons (by decide) (append (fun b hb => ?_) (cons (by decide) nil))
  obtain ⟨b', -, hb'⟩ := List.mem_flatMap.mp hb
  exact escapeByte b' b hb'

end Plain

section

variable {floatText : UInt64 → Bytes}

mutual

/-- What `serde_json` writes holds no control characters. -/
theorem Json.toText_plain (hfloat : ∀ bits, Plain (floatText bits)) :
    ∀ v : Json, Plain (Json.toText floatText v)
  | .null => Plain.ascii (by decide)
  | .bool true => Plain.ascii (by decide)
  | .bool false => Plain.ascii (by decide)
  | .num (.posInt n) => Plain.digits n
  | .num (.negInt (.ofNat n)) => Plain.digits n
  | .num (.negInt (.negSucc n)) => by
    have hdigits := Plain.digits (n + 1)
    have heq : ascii (toString (Int.negSucc n)) = 0x2d :: ascii (toString (n + 1)) := by
      simp [ascii, toString, Int.repr]
    rw [Json.toText, heq]
    exact hdigits.cons (by decide)
  | .num (.float bits) => hfloat bits
  | .str s => Plain.quote _
  | .arr xs => ((itemsText_plain hfloat xs).cons (by decide)).append (Plain.nil.cons (by decide))
  | .obj fields =>
    ((fieldsText_plain hfloat fields).cons (by decide)).append (Plain.nil.cons (by decide))
termination_by structural v => v

theorem itemsText_plain (hfloat : ∀ bits, Plain (floatText bits)) :
    ∀ xs : List Json, Plain (itemsText floatText xs)
  | [] => Plain.nil
  | x :: xs =>
    ((Json.toText_plain hfloat x).append (Plain.comma xs)).append (itemsText_plain hfloat xs)
termination_by structural xs => xs

theorem fieldsText_plain (hfloat : ∀ bits, Plain (floatText bits)) :
    ∀ fields : List (String × Json), Plain (fieldsText floatText fields)
  | [] => Plain.nil
  | (_, v) :: fields =>
    (((Plain.quote _).append ((Json.toText_plain hfloat v).cons (by decide))).append
      (Plain.comma fields)).append (fieldsText_plain hfloat fields)
termination_by structural fields => fields

end

/-- A byte that is not a control character takes at most two bytes in a JSON string. -/
theorem length_escapeByte_le {b : UInt8} (hb : 0x20 ≤ b) : (escapeByte b).length ≤ 2 := by
  unfold escapeByte
  split
  · decide
  split
  · decide
  split
  · decide
  split
  · decide
  split
  · decide
  split
  · decide
  split
  · decide
  split
  · rename_i hlt
    exact absurd hb (UInt8.not_le.mpr hlt)
  · simp

theorem length_escape_le {bytes : Bytes} (h : Plain bytes) :
    (bytes.flatMap escapeByte).length ≤ 2 * bytes.length := by
  induction bytes with
  | nil => rfl
  | cons b bytes ih =>
    have hb := length_escapeByte_le (h b List.mem_cons_self)
    have hrest := ih fun b' hb' => h b' (List.mem_cons_of_mem _ hb')
    rw [List.flatMap_cons, List.length_append, List.length_cons]
    omega

/-- The length of the frame for a message: its text with the escapes, and what is around it. -/
theorem length_toVec_acp (payload : Obj) :
    (LeaderClient.toVec floatText (.acp payload)).length
      = ((Json.toText floatText (.obj payload)).flatMap escapeByte).length + 27 := by
  have hfront : (ascii "\x7b\"type\":\"acp\",\"payload\":").length = 24 := by decide
  have hback : (ascii "\x7d").length = 1 := by decide
  simp only [LeaderClient.toVec, quote, List.length_append, List.length_cons, List.length_nil,
    hfront, hback]
  omega

/-- **A frame is at most twice as long as the text in it**, and 27 bytes. -/
theorem length_toVec_le (hfloat : ∀ bits, Plain (floatText bits)) (payload : Obj) :
    (LeaderClient.toVec floatText (.acp payload)).length
      ≤ 2 * (Json.toText floatText (.obj payload)).length + 27 := by
  rw [length_toVec_acp]
  have hescape := length_escape_le (Json.toText_plain hfloat (.obj payload))
  omega

end

end Aqualung
