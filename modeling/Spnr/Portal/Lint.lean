import Spnr.Lib.Ascii
import Spnr.Lib.Utf16

/-! The creative lint of the advertiser portal (`server-ts/src/lint.ts`). -/
namespace Spnr.Portal

/-- The classes `\p` of a regular expression with the `u` flag. -/
structure Unicode where
  letter : Char → Bool
  number : Char → Bool

def ARROW : Char := '↗'
def MAX_LEN : Nat := 48

/-- One code point of the allow-list. A surrogate on its own is in no class. -/
def allowed (U : Unicode) : Utf16.CodePoint → Bool
  | .char c => U.letter c || U.number c || [' ', '—', '.', ',', ':', '\'', '&', '+', '/', ARROW,
    '-'].contains c
  | .alone _ => false

def allowList (U : Unicode) (text : Utf16) : Bool :=
  0 < text.codePoints.length && text.codePoints.length ≤ MAX_LEN && text.codePoints.all (allowed U)

def controlCode (n : Nat) : Bool := n ≤ 0x1f || n == 0x7f || (0x80 ≤ n && n ≤ 0x9f)

/-- The violations, in the order of the checks; none means `ok`. Only the length, the count and
the allow-list look at code points, the others at the units. -/
def lintCreative (U : Unicode) (text : Utf16) : List String :=
  (if text.units.any (fun u => controlCode u.toNat) then ["control_or_escape_bytes"] else []) ++
  (if text.units.any (fun u => u == 0x0D || u == 0x0A) then ["not_single_line"] else []) ++
  (if text.codePoints.length = 0 then ["empty"] else []) ++
  (if MAX_LEN < text.codePoints.length then ["too_long"] else []) ++
  (if (Utf16.ofString (String.ofList [' ', ARROW])).units.isSuffixOf text.units then []
    else ["missing_trailing_arrow"]) ++
  (if text.codePoints.count (.char ARROW) = 1 then [] else ["arrow_count_not_one"]) ++
  (if allowList U text then [] else ["charset_not_allowed"])

def isControl (c : Char) : Bool := controlCode c.toNat

def controls (s : String) : List Char := s.toList.filter isControl

@[simp] theorem controls_append (s t : String) : controls (s ++ t) = controls s ++ controls t := by
  simp [controls, String.toList_append]

theorem isControl_small {c : Char} (control : isControl c = true) : c.toNat < 0x10000 := by
  simp only [isControl, controlCode, Bool.or_eq_true, Bool.and_eq_true, decide_eq_true_eq,
    beq_iff_eq] at control
  omega

theorem isControl_of_lint {U : Unicode} {text : Utf16} (ok : lintCreative U text = []) {c : Char}
    (mem : .char c ∈ text.codePoints) : isControl c = false := by
  simp only [lintCreative, List.append_eq_nil_iff] at ok
  obtain ⟨⟨⟨⟨⟨⟨clean, -⟩, -⟩, -⟩, -⟩, -⟩, -⟩ := ok
  by_contra control
  rw [Bool.not_eq_false] at control
  have small := isControl_small control
  have unit : UInt16.ofNat c.toNat ∈ text.units := by
    rw [← Utf16.single_unit small] at mem
    exact (Utf16.mem_decode (Utf16.plain_unit small)).mp mem
  have found : text.units.any (fun u => controlCode u.toNat) = true := by
    refine List.any_eq_true.mpr ⟨_, unit, ?_⟩
    rw [Utf16.toNat_unit small]
    exact control
  rw [if_pos found] at clean
  cases clean

theorem controls_of_lint {U : Unicode} {text : String} (ok : lintCreative U text = []) :
    controls text = [] := by
  rw [controls, List.filter_eq_nil_iff]
  intro c mem
  rw [isControl_of_lint ok]
  · exact Bool.false_ne_true
  · rw [Utf16.codePoints_ofString]
    exact List.mem_map_of_mem mem

theorem isControl_digit {c : Char} (digit : c.isDigit = true) : isControl c = false := by
  have range := Ascii.digit_range digit
  simp only [isControl, controlCode, Bool.or_eq_false_iff, Bool.and_eq_false_iff,
    decide_eq_false_iff_not, beq_eq_false_iff_ne]
  omega

theorem isControl_alpha {c : Char} (alpha : c.isAlpha = true) : isControl c = false := by
  have range := Ascii.alpha_range alpha
  simp only [isControl, controlCode, Bool.or_eq_false_iff, Bool.and_eq_false_iff,
    decide_eq_false_iff_not, beq_eq_false_iff_ne]
  omega

@[simp] theorem controls_nat (n : Nat) : controls (toString n) = [] := by
  rw [controls, List.filter_eq_nil_iff]
  intro c mem
  have digit : c.isDigit = true :=
    Nat.isDigit_of_mem_toDigits (b := 10) (by decide) (by decide) (by simpa [toString] using mem)
  simp [isControl_digit digit]

end Spnr.Portal
