import Spnr.Lib.Json

/-! What a derived `Deserialize` accepts from a JSON value: the members of a
struct, by name or by position, and the primitive fields with their ranges. -/
namespace Serde

/-- The members of a struct with fields `names`. A field given twice is refused, and
so is an unknown one under `deny_unknown_fields`; an array lists the fields in order. -/
def structMembers (names : List String) (denyUnknown : Bool) : Json → Option (List (String × Json))
  | .obj ms =>
    if denyUnknown ∧ ∃ m ∈ ms, m.1 ∉ names then none
    else if ∃ name ∈ names, 1 < (ms.filter (·.1 = name)).length then none
    else some ms
  | .arr items => if names.length < items.length then none else some (names.zip items)
  | _ => none

def asInt (low high : Int) : Json → Option Int
  | .int n => if low ≤ n ∧ n < high then some n else none
  | _ => none

def asU8 (v : Json) : Option UInt8 := (asInt 0 (2 ^ 8) v).map fun n => UInt8.ofNat n.toNat
def asU32 (v : Json) : Option UInt32 := (asInt 0 (2 ^ 32) v).map fun n => UInt32.ofNat n.toNat
def asU64 (v : Json) : Option Nat := (asInt 0 (2 ^ 64) v).map Int.toNat
def asI64 (v : Json) : Option Int64 := (asInt (-(2 ^ 63)) (2 ^ 63) v).map Int64.ofInt

def asString : Json → Option String
  | .str s => some s
  | _ => none

def asArray : Json → Option (List Json)
  | .arr items => some items
  | _ => none

def field {α : Type} (read : Json → Option α) (ms : List (String × Json))
    (name : String) : Option α :=
  (ms.lookup name).bind read

/-- An `Option` field with `serde(default)`: absent and `null` are `None`. -/
def optionField {α : Type} (read : Json → Option α) (ms : List (String × Json)) (name : String) :
    Option (Option α) :=
  match ms.lookup name with
  | none => some none
  | some .null => some none
  | some v => (read v).map some

/-- A unit variant of an enum: its name, or an object with the name as its one key. -/
def asVariant : Json → Option String
  | .str s => some s
  | .obj [(s, .null)] => some s
  | _ => none

@[simp] theorem asU8_int (n : UInt8) : asU8 (.int n.toNat) = some n := by
  have := n.toNat_lt
  simp [asU8, asInt]
  omega

@[simp] theorem asU32_int (n : UInt32) : asU32 (.int n.toNat) = some n := by
  have := n.toNat_lt
  simp [asU32, asInt]
  omega

theorem asU64_int {n : Nat} (small : n < 2 ^ 64) : asU64 (.int n) = some n := by
  simp [asU64, asInt]
  omega

@[simp] theorem asI64_int (n : Int64) : asI64 (.int n.toInt) = some n := by
  have low := n.le_toInt
  have high := n.toInt_lt
  simp [asI64, asInt]
  omega

@[simp] theorem asString_str (s : String) : asString (.str s) = some s := rfl

theorem field_of_lookup {α : Type} {read : Json → Option α} {ms : List (String × Json)}
    {name : String} {v : Json} (found : ms.lookup name = some v) : field read ms name = read v := by
  rw [field, found, Option.bind_some]

theorem optionField_string {ms : List (String × Json)} {name : String} {o : Option String}
    (found : ms.lookup name = o.map .str) : optionField asString ms name = some o := by
  rw [optionField, found]
  cases o <;> rfl

theorem optionField_u32 {ms : List (String × Json)} {name : String} {o : Option UInt32}
    (found : ms.lookup name = o.map fun n => .int n.toNat) :
    optionField asU32 ms name = some o := by
  rw [optionField, found]
  cases o with
  | none => rfl
  | some n => simp

end Serde
