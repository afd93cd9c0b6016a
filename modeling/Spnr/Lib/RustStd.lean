import Mathlib.Algebra.Group.Nat.Defs
import Mathlib.Algebra.Ring.Int.Defs
import Mathlib.Data.Int.Init
import Mathlib.Data.List.Basic
import Mathlib.Data.List.DropRight
import Std.Data.String.ToNat

/-! The parts of Rust's standard library the program leans on where Lean's own
types behave differently: two's-complement `i64`, iterator maxima, and the text
functions on `str`. -/
namespace RustStd

def i64 (x : Int) : Int := Int.bmod x (2 ^ 64)

def FitsI64 (x : Int) : Prop := -(2 ^ 63) ≤ x ∧ x < 2 ^ 63

instance (x : Int) : Decidable (FitsI64 x) := inferInstanceAs (Decidable (_ ∧ _))

theorem i64_of_fits {x : Int} (fits : FitsI64 x) : i64 x = x := by
  obtain ⟨low, high⟩ := fits
  exact Int.bmod_eq_of_le (by omega) (by omega)

theorem i64_add_left (x y : Int) : i64 (i64 x + y) = i64 (x + y) := Int.bmod_add_bmod

/-- `Iterator::max_by_key`: among equal maxima the last one wins. -/
def maxByKey {α : Type*} (key : α → Int) : List α → Option α
  | [] => none
  | x :: xs => some (xs.foldl (fun best y => if key best ≤ key y then y else best) x)

theorem maxByKey_fold {α : Type*} (key : α → Int) (xs : List α) (x : α) :
    let m := xs.foldl (fun best y => if key best ≤ key y then y else best) x
    m ∈ x :: xs ∧ ∀ y ∈ x :: xs, key y ≤ key m := by
  induction xs generalizing x with
  | nil => simp
  | cons y ys ih =>
    simp only [List.foldl_cons]
    by_cases h : key x ≤ key y
    · obtain ⟨mem, top⟩ := ih y
      simp only [if_pos h]
      refine ⟨List.mem_cons_of_mem _ mem, fun z hz => ?_⟩
      rcases List.mem_cons.mp hz with rfl | hz
      · exact Int.le_trans h (top y List.mem_cons_self)
      · exact top z hz
    · obtain ⟨mem, top⟩ := ih x
      simp only [if_neg h]
      refine ⟨?_, fun z hz => ?_⟩
      · rcases List.mem_cons.mp mem with hx | hys
        · exact List.mem_cons.mpr (.inl hx)
        · exact List.mem_cons_of_mem _ (List.mem_cons_of_mem _ hys)
      · rcases List.mem_cons.mp hz with rfl | hz
        · exact top z (by simp)
        · rcases List.mem_cons.mp hz with rfl | hz
          · exact Int.le_trans (Int.le_of_lt (Int.not_le.mp h)) (top x List.mem_cons_self)
          · exact top z (List.mem_cons_of_mem _ hz)

theorem maxByKey_mem {α : Type*} {key : α → Int} {xs : List α} {m : α}
    (h : maxByKey key xs = some m) : m ∈ xs := by
  cases xs with
  | nil => cases h
  | cons x xs => exact Option.some.inj h ▸ (maxByKey_fold key xs x).1

theorem maxByKey_max {α : Type*} {key : α → Int} {xs : List α} {m : α}
    (h : maxByKey key xs = some m) : ∀ y ∈ xs, key y ≤ key m := by
  cases xs with
  | nil => cases h
  | cons x xs => exact Option.some.inj h ▸ (maxByKey_fold key xs x).2

def stripPrefix (pre s : String) : Option String :=
  if pre.toList <+: s.toList then some (String.ofList (s.toList.drop pre.toList.length)) else none

@[simp] theorem stripPrefix_append (pre s : String) : stripPrefix pre (pre ++ s) = some s := by
  simp [stripPrefix, String.toList_append]

/-- `str::parse::<u64>` on the digit strings `to_string` prints; the counters
it is used for are unbounded here, as they are everywhere in the model. -/
def parseU64 (s : String) : Option Nat := if s.toList.all Char.isDigit then s.toNat? else none

@[simp] theorem parseU64_repr (n : Nat) : parseU64 n.repr = some n := by
  have digits : n.repr.toList.all Char.isDigit = true := by
    rw [List.all_eq_true]
    intro c hc
    exact Nat.isDigit_of_mem_toDigits (b := 10) (by decide) (by decide) (by simpa using hc)
  simp only [parseU64, digits, if_true]
  exact Nat.toNat?_repr n

/-- `char::is_whitespace`, the Unicode `White_Space` property. -/
def isWhitespace (c : Char) : Bool :=
  let n := c.toNat
  (9 ≤ n && n ≤ 13) || n == 0x20 || n == 0x85 || n == 0xA0 || n == 0x1680 ||
    (0x2000 ≤ n && n ≤ 0x200A) || n == 0x2028 || n == 0x2029 || n == 0x202F ||
    n == 0x205F || n == 0x3000

def trim (s : String) : String :=
  String.ofList (((s.toList.dropWhile isWhitespace).reverse.dropWhile isWhitespace).reverse)

theorem trim_trim (s : String) : trim (trim s) = trim s := by
  have both (t : String) :
    trim t = String.ofList ((t.toList.dropWhile isWhitespace).rdropWhile isWhitespace) := rfl
  have kept : ((s.toList.dropWhile isWhitespace).rdropWhile isWhitespace).dropWhile isWhitespace =
      (s.toList.dropWhile isWhitespace).rdropWhile isWhitespace := by
    rw [List.dropWhile_eq_self_iff]
    intro nonempty
    have front := List.rdropWhile_prefix isWhitespace (l := s.toList.dropWhile isWhitespace)
    rw [front.getElem nonempty]
    exact List.dropWhile_get_zero_not _ _ (nonempty.trans_le front.length_le)
  rw [both (trim s), both s, String.toList_ofList, kept, List.rdropWhile_idempotent]

def trimEndMatches (s : String) (c : Char) : String :=
  String.ofList ((s.toList.reverse.dropWhile (· == c)).reverse)

def asBytes (s : String) : List UInt8 := s.toUTF8.data.toList

theorem asBytes_append (s t : String) : asBytes (s ++ t) = asBytes s ++ asBytes t := by
  simp [asBytes, String.toByteArray_append]

theorem asBytes_cons (c : Char) (cs : List Char) :
    asBytes (String.ofList (c :: cs)) = String.utf8EncodeChar c ++ asBytes (String.ofList cs) := by
  change (List.utf8Encode (c :: cs)).data.toList = _ ++ (List.utf8Encode cs).data.toList
  rw [List.utf8Encode_cons, List.utf8Encode_singleton]
  simp

theorem encode_ascii {c : Char} (ascii : c.toNat < 128) :
    String.utf8EncodeChar c = [UInt8.ofNat c.toNat] := by
  have small : c.val.toNat ≤ 127 := Nat.le_of_lt_succ ascii
  rw [String.utf8EncodeChar, if_pos small]
  rfl

theorem encode_wide {c : Char} (wide : 128 ≤ c.toNat) :
    (∀ b ∈ String.utf8EncodeChar c, 128 ≤ b.toNat) ∧ 2 ≤ (String.utf8EncodeChar c).length := by
  have wide : ¬ c.val.toNat ≤ 127 := Nat.not_le_of_lt wide
  have byte (n : Nat) (low : 128 ≤ n) (high : n < 256) : 128 ≤ (UInt8.ofNat n).toNat := by
    rw [UInt8.toNat_ofNat', Nat.mod_eq_of_lt high]
    exact low
  rw [String.utf8EncodeChar, if_neg wide]
  split
  · constructor
    · intro b mem
      simp only [List.mem_cons, List.not_mem_nil, or_false] at mem
      rcases mem with rfl | rfl <;> exact byte _ (by omega) (by omega)
    · simp
  · split
    · constructor
      · intro b mem
        simp only [List.mem_cons, List.not_mem_nil, or_false] at mem
        rcases mem with rfl | rfl | rfl <;> exact byte _ (by omega) (by omega)
      · simp
    · constructor
      · intro b mem
        simp only [List.mem_cons, List.not_mem_nil, or_false] at mem
        rcases mem with rfl | rfl | rfl | rfl <;> exact byte _ (by omega) (by omega)
      · simp

theorem fromUTF8_asBytes (s : String) : String.fromUTF8? (asBytes s).toByteArray = some s := by
  have bytes : (asBytes s).toByteArray = s.toByteArray := by
    apply ByteArray.ext
    simp [asBytes]
  rw [bytes, String.fromUTF8?, dif_pos s.isValidUTF8]
  rfl

theorem asBytes_injective {s t : String} (same : asBytes s = asBytes t) : s = t := by
  have read := fromUTF8_asBytes s
  rw [same, fromUTF8_asBytes] at read
  exact (Option.some.inj read).symm

end RustStd
