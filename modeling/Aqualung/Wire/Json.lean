/-
# JSON values

`serde_json::Value`, with the four operations the programs use: `get` by key, the readings
`as_str` and `as_u64`, and the assignment `obj[key] = value`.  The crate is built without
`preserve_order`, so a JSON object is a B-tree map: its fields stand in increasing key order,
and an assignment keeps them there.

A number is one of the three forms the crate tells apart, and only the form matters: the id `1`
of an answer is `as_u64` of a `posInt`, and neither `1.0` nor `"1"` is.  The 64-bit float is kept
as its bits: nothing here computes with it.

Equality of values is decided by structural recursion, so that runs of the hub can be evaluated
by `decide`.
-/
import Mathlib.Data.String.Basic
import Aqualung.Lib.Table

namespace Aqualung

open Lib

/-! ## 1. Values -/

/-- `serde_json::Number`: a `u64`, a negative `i64`, or an `f64`. -/
inductive Number
  | posInt (n : Nat)
  | negInt (i : Int)
  | float (bits : UInt64)
  deriving DecidableEq, Repr

/-- `serde_json::Value`. -/
inductive Json
  | null
  | bool (b : Bool)
  | num (n : Number)
  | str (s : String)
  | arr (xs : List Json)
  | obj (fields : List (String × Json))

/-- The fields of a JSON object. -/
abbrev Obj := List (String × Json)

namespace Json

-- The recursion goes through lists of values and lists of fields, so equality is decided by
-- three functions at once, structurally: proofs evaluate them.
mutual

def eq? : (a b : Json) → Decidable (a = b)
  | null, null => isTrue rfl
  | bool a, bool b => decidable_of_iff (a = b) (by simp)
  | num a, num b => decidable_of_iff (a = b) (by simp)
  | str a, str b => decidable_of_iff (a = b) (by simp)
  | arr a, arr b => @decidable_of_iff _ (a = b) (by simp) (eqList? a b)
  | obj a, obj b => @decidable_of_iff _ (a = b) (by simp) (eqFields? a b)
  | null, bool _ | null, num _ | null, str _ | null, arr _ | null, obj _
  | bool _, null | bool _, num _ | bool _, str _ | bool _, arr _ | bool _, obj _
  | num _, null | num _, bool _ | num _, str _ | num _, arr _ | num _, obj _
  | str _, null | str _, bool _ | str _, num _ | str _, arr _ | str _, obj _
  | arr _, null | arr _, bool _ | arr _, num _ | arr _, str _ | arr _, obj _
  | obj _, null | obj _, bool _ | obj _, num _ | obj _, str _ | obj _, arr _ => isFalse nofun
termination_by structural a => a

def eqList? : (a b : List Json) → Decidable (a = b)
  | [], [] => isTrue rfl
  | [], _ :: _ => isFalse nofun
  | _ :: _, [] => isFalse nofun
  | a :: as, b :: bs =>
    match eq? a b, eqList? as bs with
    | isTrue h, isTrue h' => isTrue (by rw [h, h'])
    | isFalse h, _ => isFalse fun e => h (List.cons.inj e).1
    | _, isFalse h => isFalse fun e => h (List.cons.inj e).2
termination_by structural a => a

def eqFields? : (a b : List (String × Json)) → Decidable (a = b)
  | [], [] => isTrue rfl
  | [], _ :: _ => isFalse nofun
  | _ :: _, [] => isFalse nofun
  | (k, a) :: as, (l, b) :: bs =>
    match decEq k l, eq? a b, eqFields? as bs with
    | isTrue hk, isTrue h, isTrue h' => isTrue (by rw [hk, h, h'])
    | isFalse h, _, _ => isFalse fun e => h (Prod.mk.inj (List.cons.inj e).1).1
    | _, isFalse h, _ => isFalse fun e => h (Prod.mk.inj (List.cons.inj e).1).2
    | _, _, isFalse h => isFalse fun e => h (List.cons.inj e).2
termination_by structural a => a

end

instance : DecidableEq Json := eq?

instance : Inhabited Json := ⟨null⟩

/-! ## 2. Reading a value -/

/-- `Value::get` with a string key: `None` unless the value is an object that has the key. -/
def get (v : Json) (key : String) : Option Json :=
  match v with
  | obj fields => bget fields key
  | _ => none

def asStr : Json → Option String
  | str s => some s
  | _ => none

/-- `Value::as_u64`: only the non-negative integer form has one. -/
def asU64 : Json → Option Nat
  | num (.posInt n) => some n
  | _ => none

/-- `Value::from(u64)`. -/
def ofU64 (n : Nat) : Json := num (.posInt n)

theorem asU64_eq_some {v : Json} {n : Nat} : v.asU64 = some n ↔ v = ofU64 n := by
  unfold asU64 ofU64
  split <;> simp_all

theorem ofU64_inj {m n : Nat} : ofU64 m = ofU64 n ↔ m = n := by simp [ofU64]

end Json

/-! ## 3. Objects -/

namespace Obj

/-- `Value::get` on an object. -/
def get (o : Obj) (key : String) : Option Json := bget o key

/-- `obj[key] = value` on an object. -/
def set (o : Obj) (key : String) (value : Json) : Obj := binsert key value o

/-- The object a `json!` literal builds: its fields assigned one after the other. -/
def ofFields (fields : List (String × Json)) : Obj :=
  fields.foldl (fun o f => set o f.1 f.2) []

@[simp] theorem get_nil (key : String) : get [] key = none := rfl

@[simp] theorem get_set_self (o : Obj) (key : String) (value : Json) :
    get (set o key value) key = some value :=
  bget_binsert_self key value o

@[simp] theorem get_set_of_ne {key other : String} (h : other ≠ key) (o : Obj) (value : Json) :
    get (set o key value) other = get o other :=
  bget_binsert_of_ne h value o

end Obj

theorem Json.get_obj (o : Obj) (key : String) : (Json.obj o).get key = o.get key := rfl

end Aqualung
