import Spnr.Lib.JsonPrint

/-! Lowercase hex and unpadded base32 of byte strings. -/
namespace Encoding

def hexByte (b : UInt8) : List Char := [Json.hexLower (b.toNat / 16), Json.hexLower (b.toNat % 16)]

def hexEncode (bytes : List UInt8) : String := String.ofList (bytes.flatMap hexByte)

def hexValue (c : Char) : Option Nat :=
  if '0' ≤ c ∧ c ≤ '9' then some (c.toNat - 48)
  else if 'a' ≤ c ∧ c ≤ 'f' then some (c.toNat - 87)
  else none

def hexPairs : List Char → Option (List UInt8)
  | [] => some []
  | a :: b :: rest => do
    let high ← hexValue a
    let low ← hexValue b
    let bytes ← hexPairs rest
    return UInt8.ofNat (16 * high + low) :: bytes
  | [_] => none

def hexDecode (s : String) : Option (List UInt8) := hexPairs s.toList

theorem hexValue_hexLower {n : Nat} (h : n < 16) : hexValue (Json.hexLower n) = some n := by
  revert n
  decide

theorem hexLower_alphanum {n : Nat} (h : n < 16) : (Json.hexLower n).isAlphanum = true := by
  revert n
  decide

theorem hexPairs_hexByte (bytes : List UInt8) : hexPairs (bytes.flatMap hexByte) = some bytes := by
  induction bytes with
  | nil => rfl
  | cons b bytes ih =>
    have bound := b.toNat_lt
    have high : hexValue (Json.hexLower (b.toNat / 16)) = some (b.toNat / 16) :=
      hexValue_hexLower (by omega)
    have low : hexValue (Json.hexLower (b.toNat % 16)) = some (b.toNat % 16) :=
      hexValue_hexLower (by omega)
    have whole : UInt8.ofNat (16 * (b.toNat / 16) + b.toNat % 16) = b := by
      rw [Nat.div_add_mod, UInt8.ofNat_toNat]
    simp only [List.flatMap_cons, hexByte, List.cons_append, List.nil_append, hexPairs,
      high, low, ih]
    exact congrArg (fun b => some (b :: bytes)) whole

theorem hexDecode_hexEncode (bytes : List UInt8) : hexDecode (hexEncode bytes) = some bytes := by
  rw [hexDecode, hexEncode, String.toList_ofList]
  exact hexPairs_hexByte bytes

theorem hexEncode_alphanum (bytes : List UInt8) : ∀ c ∈ (hexEncode bytes).toList, c.isAlphanum := by
  intro c mem
  rw [hexEncode, String.toList_ofList] at mem
  obtain ⟨b, -, digit⟩ := List.mem_flatMap.mp mem
  have bound := b.toNat_lt
  rcases List.mem_pair.mp digit with rfl | rfl
  · exact hexLower_alphanum (by omega)
  · exact hexLower_alphanum (by omega)

def base32Digit (n : Nat) : Char := if n < 26 then Char.ofNat (65 + n) else Char.ofNat (24 + n)

def fiveBits (bits : List Bool) : Nat :=
  (List.range 5).foldl (fun n i => 2 * n + (bits.getD i false).toNat) 0

def base32Bits : List Bool → List Char
  | [] => []
  | a :: b :: c :: d :: e :: rest => base32Digit (fiveBits [a, b, c, d, e]) :: base32Bits rest
  | bits => [base32Digit (fiveBits bits)]

def bitsOf (b : UInt8) : List Bool := (List.range 8).map fun i => b.toNat.testBit (7 - i)

def base32Encode (bytes : List UInt8) : String := String.ofList (base32Bits (bytes.flatMap bitsOf))

theorem base32Digit_alphanum {n : Nat} (h : n < 32) : (base32Digit n).isAlphanum = true := by
  revert n
  decide

theorem fiveBits_lt (bits : List Bool) : fiveBits bits < 32 := by
  have small (b : Bool) : b.toNat < 2 := by cases b <;> decide
  have b0 := small (bits.getD 0 false)
  have b1 := small (bits.getD 1 false)
  have b2 := small (bits.getD 2 false)
  have b3 := small (bits.getD 3 false)
  have b4 := small (bits.getD 4 false)
  simp only [fiveBits, List.range, List.range.loop, List.foldl]
  omega

theorem base32Bits_alphanum (bits : List Bool) : ∀ c ∈ base32Bits bits, c.isAlphanum := by
  intro c mem
  fun_induction base32Bits bits with
  | case1 => cases mem
  | case2 a b c d e rest ih =>
    rcases List.mem_cons.mp mem with rfl | later
    · exact base32Digit_alphanum (fiveBits_lt _)
    · exact ih later
  | case3 bits =>
    rw [List.mem_singleton.mp mem]
    exact base32Digit_alphanum (fiveBits_lt _)

theorem base32Encode_alphanum (bytes : List UInt8) :
    ∀ c ∈ (base32Encode bytes).toList, c.isAlphanum := by
  rw [base32Encode, String.toList_ofList]
  exact base32Bits_alphanum _

end Encoding
