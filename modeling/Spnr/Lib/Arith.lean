import Mathlib.Algebra.GroupWithZero.Nat
import Mathlib.Algebra.Order.BigOperators.Group.List
import Mathlib.Algebra.Order.Group.Int
import Spnr.Lib.RustStd

/-! Machine-integer operations by their exact results. An operation whose exact result is
outside its type wraps in a release build and panics in a checked one. -/
namespace RustStd

/-- One addition, subtraction or multiplication of a type, and what it is before it wraps. -/
inductive Arith where
  | i64 (exact : Int)
  | u64 (exact : Nat)

def Arith.Fits : Arith → Prop
  | .i64 x => FitsI64 x
  | .u64 n => n < 2 ^ 64

def AllFit (steps : List Arith) : Prop := ∀ step ∈ steps, step.Fits

@[simp] theorem allFit_nil : AllFit [] := fun _ mem => absurd mem List.not_mem_nil

@[simp] theorem allFit_cons (step : Arith) (steps : List Arith) :
    AllFit (step :: steps) ↔ step.Fits ∧ AllFit steps := by simp [AllFit]

@[simp] theorem allFit_append (steps steps' : List Arith) :
    AllFit (steps ++ steps') ↔ AllFit steps ∧ AllFit steps' := by
  unfold AllFit
  constructor
  · intro all
    constructor
    · exact fun step mem => all step (List.mem_append_left _ mem)
    · exact fun step mem => all step (List.mem_append_right _ mem)
  · rintro ⟨first, second⟩ step mem
    rcases List.mem_append.mp mem with here | there
    · exact first step here
    · exact second step there

def sumI64Arith (acc : Int) : List Int → List Arith
  | [] => []
  | x :: xs => .i64 (acc + x) :: sumI64Arith (i64 (acc + x)) xs

def sumU64Arith (acc : Nat) : List Nat → List Arith
  | [] => []
  | n :: ns => .u64 (acc + n) :: sumU64Arith ((acc + n) % 2 ^ 64) ns

def gains (xs : List Int) : Int := (xs.map (max · 0)).sum
def losses (xs : List Int) : Int := (xs.map fun x => max (-x) 0).sum

theorem gains_nonneg (xs : List Int) : 0 ≤ gains xs := by
  apply List.sum_nonneg
  intro x mem
  obtain ⟨y, -, rfl⟩ := List.mem_map.mp mem
  exact le_max_right _ _

theorem losses_nonneg (xs : List Int) : 0 ≤ losses xs := by
  apply List.sum_nonneg
  intro x mem
  obtain ⟨y, -, rfl⟩ := List.mem_map.mp mem
  exact le_max_right _ _

theorem gains_sub_losses (xs : List Int) : gains xs - losses xs = xs.sum := by
  induction xs with
  | nil => rfl
  | cons x xs ih =>
    simp only [gains, losses, List.map_cons, List.sum_cons] at ih ⊢
    rcases le_total 0 x with up | down
    · rw [max_eq_left up, max_eq_right (by omega)]
      omega
    · rw [max_eq_right down, max_eq_left (by omega)]
      omega

theorem sumI64_fits {xs : List Int} {acc : Int} (low : -(2 ^ 63) ≤ acc - losses xs)
    (high : acc + gains xs < 2 ^ 63) : AllFit (sumI64Arith acc xs) := by
  induction xs generalizing acc with
  | nil => exact allFit_nil
  | cons x xs ih =>
    have up := gains_nonneg xs
    have down := losses_nonneg xs
    simp only [gains, losses, List.map_cons, List.sum_cons] at low high up down
    have fits : FitsI64 (acc + x) := by
      constructor
      · omega
      · omega
    rw [sumI64Arith, allFit_cons]
    refine ⟨fits, ?_⟩
    rw [i64_of_fits fits]
    apply ih
    · unfold losses
      omega
    · unfold gains
      omega

theorem sumI64_exact {xs : List Int} {acc : Int} (start : FitsI64 acc)
    (fits : AllFit (sumI64Arith acc xs)) : FitsI64 (acc + xs.sum) := by
  induction xs generalizing acc with
  | nil =>
    rw [List.sum_nil, Int.add_zero]
    exact start
  | cons x xs ih =>
    obtain ⟨first, rest⟩ := (allFit_cons _ _).mp fits
    rw [i64_of_fits first] at rest
    rw [List.sum_cons, ← Int.add_assoc]
    exact ih first rest

theorem sumI64_front {xs ys : List Int} {acc : Int} (fits : AllFit (sumI64Arith acc (xs ++ ys))) :
    AllFit (sumI64Arith acc xs) := by
  induction xs generalizing acc with
  | nil => exact allFit_nil
  | cons x xs ih =>
    rw [List.cons_append, sumI64Arith, allFit_cons] at fits
    rw [sumI64Arith, allFit_cons]
    exact ⟨fits.1, ih fits.2⟩

theorem sumU64_fits {ns : List Nat} {acc : Nat} (high : acc + ns.sum < 2 ^ 64) :
    AllFit (sumU64Arith acc ns) := by
  induction ns generalizing acc with
  | nil => exact allFit_nil
  | cons n ns ih =>
    rw [List.sum_cons] at high
    have fits : acc + n < 2 ^ 64 := by omega
    rw [sumU64Arith, allFit_cons]
    refine ⟨fits, ?_⟩
    rw [Nat.mod_eq_of_lt fits]
    apply ih
    omega

def sumI64 (xs : List Int) : Int := xs.foldl (fun acc x => i64 (acc + x)) 0

def sumU64 (ns : List Nat) : Nat := ns.foldl (fun acc n => (acc + n) % 2 ^ 64) 0

theorem sumI64_eq (xs : List Int) : sumI64 xs = i64 xs.sum := by
  have from_ (acc : Int) : xs.foldl (fun acc x => i64 (acc + x)) (i64 acc) =
    i64 (acc + xs.sum) := by
    induction xs generalizing acc with
    | nil => rw [List.foldl_nil, List.sum_nil, Int.add_zero]
    | cons x xs ih => rw [List.foldl_cons, i64_add_left, ih, List.sum_cons, Int.add_assoc]
  have start := from_ 0
  rwa [Int.zero_add] at start

theorem sumU64_eq (ns : List Nat) : sumU64 ns = ns.sum % 2 ^ 64 := by
  have from_ (acc : Nat) : ns.foldl (fun acc n => (acc + n) % 2 ^ 64) (acc % 2 ^ 64) =
    (acc + ns.sum) % 2 ^ 64 := by
    induction ns generalizing acc with
    | nil => rw [List.foldl_nil, List.sum_nil, Nat.add_zero]
    | cons n ns ih => rw [List.foldl_cons, Nat.mod_add_mod, ih, List.sum_cons, Nat.add_assoc]
  have start := from_ 0
  rwa [Nat.zero_add] at start

end RustStd
