import Mathlib.Data.Nat.Init

/-! The letters and digits of ASCII by their codes. -/
namespace Ascii

theorem digit_range {c : Char} (digit : c.isDigit = true) : 48 ≤ c.toNat ∧ c.toNat ≤ 57 := by
  have parts := (Bool.and_eq_true _ _).mp digit
  exact ⟨of_decide_eq_true parts.1, of_decide_eq_true parts.2⟩

theorem alpha_range {c : Char} (alpha : c.isAlpha = true) :
    65 ≤ c.toNat ∧ c.toNat ≤ 90 ∨ 97 ≤ c.toNat ∧ c.toNat ≤ 122 := by
  rcases (Bool.or_eq_true _ _).mp alpha with upper | lower
  · exact .inl (of_decide_eq_true upper)
  · have parts := (Bool.and_eq_true _ _).mp lower
    exact .inr ⟨of_decide_eq_true parts.1, of_decide_eq_true parts.2⟩

theorem alphanum_range {c : Char} (alphanum : c.isAlphanum = true) :
    (65 ≤ c.toNat ∧ c.toNat ≤ 90 ∨ 97 ≤ c.toNat ∧ c.toNat ≤ 122) ∨ 48 ≤ c.toNat ∧ c.toNat ≤ 57 := by
  rcases (Bool.or_eq_true _ _).mp alphanum with alpha | digit
  · exact .inl (alpha_range alpha)
  · exact .inr (digit_range digit)

end Ascii
