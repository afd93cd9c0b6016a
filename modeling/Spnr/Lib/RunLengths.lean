import Mathlib.Algebra.BigOperators.Group.List.Basic
import Mathlib.Algebra.GroupWithZero.Nat
import Mathlib.Data.List.Count

/-! The runs of a list of flags: what stands between two that are down. -/
namespace RunLengths

def runs (flags : List Bool) : List Nat := (flags.splitOn false).map List.length

theorem sum_runs (flags : List Bool) : (runs flags).sum = flags.count true := by
  induction flags with
  | nil => rfl
  | cons flag flags ih =>
    unfold runs List.splitOn at ih ⊢
    rw [List.splitOnP_cons_eq_if_modifyHead]
    cases flag with
    | false => simpa using ih
    | true =>
      rw [if_neg (by decide)]
      obtain ⟨first, rest, split⟩ :=
        List.exists_cons_of_ne_nil (List.splitOnP_ne_nil (· == false) flags)
      rw [split] at ih ⊢
      simp only [List.modifyHead_cons, List.map_cons, List.sum_cons, List.length_cons,
        List.count_cons_self] at ih ⊢
      omega

theorem sum_div_mod (d : Nat) (lengths : List Nat) :
    lengths.sum = d * (lengths.map (· / d)).sum + (lengths.map (· % d)).sum := by
  induction lengths with
  | nil => rfl
  | cons length lengths ih =>
    have parts := Nat.div_add_mod length d
    rw [List.map_cons, List.map_cons, List.sum_cons, List.sum_cons, List.sum_cons, Nat.mul_add]
    omega

end RunLengths
