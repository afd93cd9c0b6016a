import Mathlib.Algebra.Group.Int.Defs
import Mathlib.Algebra.Group.Nat.Defs
import Mathlib.Data.List.Basic

/-! JSON values and the compact texts that denote them. The grammar is the part
of RFC 8259 without insignificant whitespace, fractions and exponents; a text
in it has one meaning. -/

/-- `serde_json::Value` with `preserve_order`: an object keeps its members in order. -/
inductive Json where
  | null
  | bool (b : Bool)
  | int (n : Int)
  | float (bits : UInt64)
  | str (s : String)
  | arr (items : List Json)
  | obj (members : List (String × Json))

namespace Json

abbrev quote : Char := '\x22'
abbrev backslash : Char := '\x5c'

def Plain (c : Char) : Prop := 0x20 ≤ c.toNat ∧ c ≠ quote ∧ c ≠ backslash

instance (c : Char) : Decidable (Plain c) := inferInstanceAs (Decidable (_ ∧ _))

def shortEscape : Char → Option Char
  | '\x22' => some quote
  | '\x5c' => some backslash
  | '/' => some '/'
  | 'b' => some '\x08'
  | 'f' => some '\x0c'
  | 'n' => some '\n'
  | 'r' => some '\r'
  | 't' => some '\t'
  | _ => none

def hexDigit (c : Char) : Option Nat :=
  if '0' ≤ c ∧ c ≤ '9' then some (c.toNat - '0'.toNat)
  else if 'a' ≤ c ∧ c ≤ 'f' then some (c.toNat - 'a'.toNat + 10)
  else if 'A' ≤ c ∧ c ≤ 'F' then some (c.toNat - 'A'.toNat + 10)
  else none

def hexFour (a b c d : Char) : Option Nat := do
  return (((← hexDigit a) * 16 + (← hexDigit b)) * 16 + (← hexDigit c)) * 16 + (← hexDigit d)

inductive Literal : List Char → List Char → Prop where
  | nil : Literal [] []
  | plain {c : Char} {cs ds : List Char} : Plain c → Literal cs ds → Literal (c :: cs) (c :: ds)
  | short {c e : Char} {cs ds : List Char} :
      shortEscape e = some c → Literal cs ds → Literal (c :: cs) (backslash :: e :: ds)
  | code {c h₁ h₂ h₃ h₄ : Char} {cs ds : List Char} :
      hexFour h₁ h₂ h₃ h₄ = some c.toNat → Literal cs ds →
        Literal (c :: cs) (backslash :: 'u' :: h₁ :: h₂ :: h₃ :: h₄ :: ds)

mutual

inductive Text : Json → List Char → Prop where
  | null : Text .null ['n', 'u', 'l', 'l']
  | true : Text (.bool true) ['t', 'r', 'u', 'e']
  | false : Text (.bool false) ['f', 'a', 'l', 's', 'e']
  | int (n : Int) : Text (.int n) (toString n).toList
  | str {s : String} {ds : List Char} : Literal s.toList ds → Text (.str s) (quote :: ds ++ [quote])
  | arr {vs : List Json} {ds : List Char} : Items vs ds → Text (.arr vs) ('[' :: ds ++ [']'])
  | obj {ms : List (String × Json)} {ds : List Char} :
      Members ms ds → Text (.obj ms) ('\x7b' :: ds ++ ['\x7d'])

inductive Items : List Json → List Char → Prop where
  | nil : Items [] []
  | one {v : Json} {cs : List Char} : Text v cs → Items [v] cs
  | cons {v w : Json} {vs : List Json} {cs ds : List Char} :
      Text v cs → Items (w :: vs) ds → Items (v :: w :: vs) (cs ++ ',' :: ds)

inductive Members : List (String × Json) → List Char → Prop where
  | nil : Members [] []
  | one {k : String} {v : Json} {ks cs : List Char} :
      Literal k.toList ks → Text v cs → Members [(k, v)] (quote :: ks ++ quote :: ':' :: cs)
  | cons {k : String} {v : Json} {m : String × Json} {ms : List (String × Json)}
      {ks cs ds : List Char} : Literal k.toList ks → Text v cs → Members (m :: ms) ds →
        Members ((k, v) :: m :: ms) (quote :: ks ++ quote :: ':' :: cs ++ ',' :: ds)

end

/-- `Within d v`: what a reader of `serde_json` takes back without loss. It refuses
a value nested `d` deep or more, reads integers as `i64` or `u64`, and keeps one
member of each name. -/
inductive Within : Nat → Json → Prop where
  | null {d : Nat} : Within d .null
  | bool {d : Nat} (b : Bool) : Within d (.bool b)
  | int {d : Nat} {n : Int} : -(2 ^ 63) ≤ n → n < 2 ^ 64 → Within d (.int n)
  | str {d : Nat} (s : String) : Within d (.str s)
  | arr {d : Nat} {vs : List Json} : (∀ v ∈ vs, Within d v) → Within (d + 1) (.arr vs)
  | obj {d : Nat} {ms : List (String × Json)} :
      (ms.map Prod.fst).Nodup → (∀ m ∈ ms, Within d m.2) → Within (d + 1) (.obj ms)

theorem literal_plain {cs : List Char} (plain : ∀ c ∈ cs, Plain c) : Literal cs cs := by
  induction cs with
  | nil => exact .nil
  | cons c cs ih =>
    exact .plain (plain c List.mem_cons_self) (ih fun d hd => plain d (List.mem_cons_of_mem _ hd))

theorem name_literal {name : String} {cs : List Char} (spelled : name.toList = cs)
    (plain : (cs.all fun c => Plain c) = true) : Literal name.toList cs := by
  rw [spelled]
  exact literal_plain fun c mem => of_decide_eq_true (List.all_eq_true.mp plain c mem)

end Json
