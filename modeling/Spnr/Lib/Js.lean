import Mathlib.Algebra.Order.Ring.Rat
import Mathlib.Data.List.TakeWhile
import Spnr.Lib.Ascii
import Spnr.Lib.Utf16
import Std.Data.String.ToNat

/-! The values of JavaScript and what the program uses of its standard library. Strings are
of UTF-16 units; numbers are exact: a finite one is a rational. -/

inductive Js where
  | undefined
  | null
  | boolean (b : Bool)
  /-- Nothing for `NaN` and the infinities. -/
  | number (x : Option ℚ)
  | string (s : Utf16)
  | array (items : List Js)
  | object (members : List (String × Js))

namespace Js

def get (v : Js) (name : String) : Js :=
  match v with
  | object members => (members.lookup name).getD undefined
  | _ => undefined

def string? : Js → Option Utf16
  | string s => some s
  | _ => none

def finite? : Js → Option ℚ
  | number x => x
  | _ => none

def items : Js → List Js
  | array items => items
  | _ => []

def isObject : Js → Bool
  | array _ => true
  | object _ => true
  | _ => false

mutual

/-- The value that the text of `JSON.stringify` denotes, and that `JSON.parse` returns for it. -/
def stringify : Js → Js
  | number none => null
  | array vs => array (stringifyItems vs)
  | object ms => object (stringifyMembers ms)
  | v => v

def stringifyItems : List Js → List Js
  | [] => []
  | undefined :: vs => null :: stringifyItems vs
  | v :: vs => stringify v :: stringifyItems vs

def stringifyMembers : List (String × Js) → List (String × Js)
  | [] => []
  | (_, undefined) :: ms => stringifyMembers ms
  | (k, v) :: ms => (k, stringify v) :: stringifyMembers ms

end

inductive Data : Js → Prop where
  | null : Data null
  | boolean (b : Bool) : Data (boolean b)
  | number (x : ℚ) : Data (number (some x))
  | string (s : Utf16) : Data (string s)
  | array {vs : List Js} : (∀ v ∈ vs, Data v) → Data (array vs)
  | object {ms : List (String × Js)} : (∀ m ∈ ms, Data m.2) → Data (object ms)

theorem Data.defined {v : Js} (data : v.Data) : v ≠ .undefined := by
  rintro rfl
  cases data

theorem stringifyItems_data {vs : List Js} (defined : ∀ v ∈ vs, v ≠ .undefined)
    (same : ∀ v ∈ vs, v.stringify = v) : stringifyItems vs = vs := by
  induction vs with
  | nil => rfl
  | cons v vs ih =>
    have rest := ih (fun w mem => defined w (List.mem_cons_of_mem _ mem))
      fun w mem => same w (List.mem_cons_of_mem _ mem)
    rw [stringifyItems, same v List.mem_cons_self, rest]
    exact defined v List.mem_cons_self

theorem stringifyMembers_data {ms : List (String × Js)} (defined : ∀ m ∈ ms, m.2 ≠ .undefined)
    (same : ∀ m ∈ ms, m.2.stringify = m.2) : stringifyMembers ms = ms := by
  induction ms with
  | nil => rfl
  | cons m ms ih =>
    obtain ⟨k, v⟩ := m
    have rest := ih (fun w mem => defined w (List.mem_cons_of_mem _ mem))
      fun w mem => same w (List.mem_cons_of_mem _ mem)
    rw [stringifyMembers, same (k, v) List.mem_cons_self, rest]
    exact defined (k, v) List.mem_cons_self

theorem stringify_data {v : Js} (data : v.Data) : v.stringify = v := by
  induction data with
  | null => rfl
  | boolean b => rfl
  | number x => rfl
  | string s => rfl
  | array parts ih => rw [stringify, stringifyItems_data (fun v mem => (parts v mem).defined) ih]
  | object parts ih => rw [stringify, stringifyMembers_data (fun m mem => (parts m mem).defined) ih]

/-- `WhiteSpace` and `LineTerminator`. -/
def isSpace (u : UInt16) : Bool :=
  let n := u.toNat
  (9 ≤ n && n ≤ 13) || n == 0x20 || n == 0xA0 || n == 0x1680 || (0x2000 ≤ n && n ≤ 0x200A) ||
    n == 0x2028 || n == 0x2029 || n == 0x202F || n == 0x205F || n == 0x3000 || n == 0xFEFF

def trim (s : Utf16) : Utf16 := ⟨((s.units.dropWhile isSpace).reverse.dropWhile isSpace).reverse⟩

theorem trim_endsWith {s : Utf16} {u : UInt16} (visible : isSpace u = false) :
    [u] <:+ (trim s).units ↔ ∃ front back, s.units = front ++ u :: back ∧
    ∀ v ∈ back, isSpace v = true := by
  rw [trim, ← List.reverse_prefix, List.reverse_reverse, List.reverse_singleton]
  constructor
  · rintro ⟨rest, left⟩
    rw [List.singleton_append] at left
    have inner :=
      List.takeWhile_append_dropWhile (p := isSpace) (l := (s.units.dropWhile isSpace).reverse)
    have whole := List.takeWhile_append_dropWhile (p := isSpace) (l := s.units)
    rw [← left, ← List.reverse_inj, List.reverse_append, List.reverse_reverse, List.reverse_cons,
      List.append_assoc, List.singleton_append] at inner
    refine ⟨s.units.takeWhile isSpace ++ rest.reverse,
      ((s.units.dropWhile isSpace).reverse.takeWhile isSpace).reverse, ?_, ?_⟩
    · rw [List.append_assoc, inner, whole]
    · intro v mem
      exact List.mem_takeWhile_imp (List.mem_reverse.mp mem)
  · rintro ⟨front, back, whole, spaces⟩
    obtain ⟨kept, start⟩ : ∃ kept, s.units.dropWhile isSpace = kept ++ u :: back := by
      refine ⟨front.dropWhile isSpace, ?_⟩
      rw [whole, List.dropWhile_append]
      split
      · rename_i empty
        rw [List.isEmpty_iff.mp empty,
          List.dropWhile_cons_of_neg (by rw [visible]; exact Bool.false_ne_true)]
        rfl
      · rfl
    rw [start, List.reverse_append, List.reverse_cons, List.append_assoc,
      List.dropWhile_append_of_pos (fun v mem => spaces v (List.mem_reverse.mp mem)),
        List.singleton_append,
      List.dropWhile_cons_of_neg (by rw [visible]; exact Bool.false_ne_true)]
    exact ⟨kept.reverse, rfl⟩

def isDigit (u : UInt16) : Bool := 0x30 ≤ u.toNat && u.toNat ≤ 0x39

/-- `Number.parseInt(s, 10)`, nothing for `NaN`. -/
def parseInt (s : Utf16) : Option ℚ :=
  let digits (us : List UInt16) : Option ℚ :=
    match us.takeWhile isDigit with
    | [] => none
    | ds => some (ds.foldl (fun n d => n * 10 + (d.toNat - 0x30)) 0 : Nat)
  match s.units.dropWhile isSpace with
  | 0x2D :: us => (digits us).map (- ·)
  | 0x2B :: us => digits us
  | us => digits us

/-- `String(x)`: the decimal digits; those after the point are as many as the
denominator has bits. -/
def numeral (x : ℚ) : String :=
  if x.den = 1 then toString x.num
  else
    let places := Nat.log2 x.den
    let fraction := toString (x.num.natAbs % x.den * 10 ^ places / x.den)
    (if x < 0 then "-" else "") ++ toString (x.num.natAbs / x.den) ++ "." ++
      String.ofList (List.replicate (places - fraction.length) '0') ++ fraction

theorem numeral_nat (n : Nat) : numeral (n : ℚ) = n.repr := by
  rw [numeral, if_pos (Rat.den_natCast n), Rat.num_natCast]
  rfl

theorem numeral_nat_injective {m n : Nat} (same : numeral (m : ℚ) = numeral (n : ℚ)) : m = n := by
  rw [numeral_nat, numeral_nat] at same
  exact Nat.repr_injective same

theorem numeral_int (k : Int) : numeral (k : ℚ) = k.repr := by
  rw [numeral, if_pos (Rat.den_intCast k), Rat.num_intCast]
  rfl

theorem repr_digits (n : Nat) : ∀ c ∈ n.repr.toList, c.isDigit = true := by
  intro c mem
  exact Nat.isDigit_of_mem_toDigits (b := 10) (by decide) (by decide) (by simpa using mem)

theorem repr_ne_minus (n : Nat) (s : String) : n.repr ≠ "-" ++ s := by
  intro same
  have minus : '-' ∈ n.repr.toList := by
    rw [same, String.toList_append]
    exact List.mem_append_left _ (by decide)
  exact absurd (repr_digits n '-' minus) (by decide)

theorem numeral_int_injective {j k : Int} (same : numeral (j : ℚ) = numeral (k : ℚ)) : j = k := by
  rw [numeral_int, numeral_int] at same
  cases j with
  | ofNat j =>
    cases k with
    | ofNat k => exact congrArg Int.ofNat (Nat.repr_injective same)
    | negSucc k => exact absurd same (repr_ne_minus j _)
  | negSucc j =>
    cases k with
    | ofNat k => exact absurd same.symm (repr_ne_minus k _)
    | negSucc k =>
      have digits := Nat.repr_injective ((String.append_right_inj _).mp same)
      exact congrArg Int.negSucc (Nat.succ.inj digits)

theorem repr_range (n : Nat) : ∀ c ∈ n.repr.toList, 48 ≤ c.toNat ∧ c.toNat ≤ 57 := by
  intro c mem
  exact Ascii.digit_range (repr_digits n c mem)

theorem repr_small (n : Nat) : ∀ c ∈ n.repr.toList, c.toNat < 0x10000 := by
  intro c mem
  exact Nat.lt_of_le_of_lt (repr_range n c mem).2 (by decide)

theorem units_range (n : Nat) : ∀ u ∈ (Utf16.ofString n.repr).units, 48 ≤ u.toNat ∧
    u.toNat ≤ 57 := by
  intro u mem
  rw [Utf16.units_ofString (repr_small n)] at mem
  obtain ⟨c, there, rfl⟩ := List.mem_map.mp mem
  rw [Utf16.toNat_unit (repr_small n c there)]
  exact repr_range n c there

theorem units_value (n : Nat) :
    (Utf16.ofString n.repr).units.foldl (fun n d => n * 10 + (d.toNat - 0x30)) 0 = n := by
  have chars := Nat.ofDigitChars_toDigits (b := 10) (n := n) (by decide) (by decide)
  rw [Nat.ofDigitChars_eq_foldl] at chars
  rw [Utf16.units_ofString (repr_small n), List.foldl_map,
    List.foldl_ext _ (fun m c => m * 10 + (c.toNat - '0'.toNat)) 0]
  · simpa [Nat.mul_comm] using chars
  · intro m c mem
    rw [Utf16.toNat_unit (repr_small n c mem)]
    rfl

theorem parseInt_digits {us : List UInt16} (some_ : us ≠ [])
    (digits : ∀ u ∈ us, 48 ≤ u.toNat ∧ u.toNat ≤ 57) :
    parseInt ⟨us⟩ = some ((us.foldl (fun n d => n * 10 + (d.toNat - 0x30)) 0 : Nat) : ℚ) := by
  cases us with
  | nil => exact absurd rfl some_
  | cons d ds =>
    have first := digits d List.mem_cons_self
    have blank : isSpace d = false := by
      simp [isSpace]
      omega
    have all : (d :: ds).takeWhile isDigit = d :: ds := by
      apply List.takeWhile_eq_self_iff.mpr
      intro u mem
      simpa [isDigit] using digits u mem
    have start : (d :: ds).dropWhile isSpace = d :: ds :=
      List.dropWhile_cons_of_neg (by rw [blank]; decide)
    rw [parseInt, start]
    split
    · rename_i minus
      rw [(List.cons.inj minus).1] at first
      exact absurd first (by decide)
    · rename_i plus
      rw [(List.cons.inj plus).1] at first
      exact absurd first (by decide)
    · dsimp only
      rw [all]

theorem parseInt_numeral (n : Nat) : parseInt (numeral (n : ℚ)) = some (n : ℚ) := by
  have some_ : (Utf16.ofString n.repr).units ≠ [] := by
    rw [Utf16.units_ofString (repr_small n)]
    simp
  have read := parseInt_digits some_ (units_range n)
  rw [units_value] at read
  rw [numeral_nat]
  exact read

end Js
