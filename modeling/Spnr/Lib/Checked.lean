import Spnr.Lib.RustStd

/-! Runs of Rust code with what would end them otherwise than by a result: arithmetic that
leaves its type, an index or a slice out of bounds, a loop that does not stop. -/
namespace RustStd

inductive Fault where
  | overflow
  | bounds
  /-- An end of a `str` slice that is no character boundary. -/
  | boundary
  /-- The loop has not stopped within its fuel. -/
  | stuck
  deriving DecidableEq, Repr

abbrev Checked := Except Fault

namespace Checked

def usize (exact : Nat) : Checked Nat := if exact < 2 ^ 64 then .ok exact else .error .overflow

def u64 (exact : Int) : Checked UInt64 :=
  if 0 ≤ exact ∧ exact < 2 ^ 64 then .ok (UInt64.ofNat exact.toNat) else .error .overflow

def index {α : Type} (xs : List α) (i : Nat) : Checked α :=
  match xs[i]? with
  | some x => .ok x
  | none => .error .bounds

def slice {α : Type} (xs : List α) (start stop : Nat) : Checked (List α) :=
  if start ≤ stop ∧
    stop ≤ xs.length then .ok ((xs.drop start).take (stop - start)) else .error .bounds

theorem usize_ok {n : Nat} (fits : n < 2 ^ 64) : usize n = .ok n := if_pos fits

theorem index_ok {α : Type} {xs : List α} {i : Nat} {x : α} (here : xs[i]? = some x) :
    index xs i = .ok x := by
  rw [index, here]

theorem slice_ok {α : Type} {xs : List α} {start stop : Nat} (order : start ≤ stop)
    (inside : stop ≤ xs.length) :
    slice xs start stop = .ok ((xs.drop start).take (stop - start)) := if_pos ⟨order, inside⟩

@[simp] theorem ok_bind {α β : Type} (a : α) (f : α → Checked β) :
    ((.ok a : Checked α) >>= f) = f a := rfl

@[simp] theorem pure_ok {α : Type} (a : α) : (pure a : Checked α) = .ok a := rfl

/-- One turn of a loop ends in its next state or leaves the loop with a result. -/
inductive Turn (σ β : Type) where
  | next (s : σ)
  | done (b : β)

def loop {σ β : Type} (turn : σ → Checked (Turn σ β)) : Nat → σ → Checked β
  | 0, _ => .error .stuck
  | fuel + 1, s => do
    match ← turn s with
    | .next s => loop turn fuel s
    | .done b => return b

theorem loop_ok {σ β : Type} {turn : σ → Checked (Turn σ β)} {b : β} (Inv : σ → Prop)
    (left : σ → Nat)
    (step : ∀ s, Inv s → turn s = .ok (.done b) ∨ ∃ t, turn s = .ok (.next t) ∧ Inv t ∧
      left t < left s)
    {fuel : Nat} {s : σ} (start : Inv s) (enough : left s < fuel) : loop turn fuel s = .ok b := by
  induction fuel generalizing s with
  | zero => omega
  | succ fuel ih =>
    rw [loop]
    rcases step s start with out | ⟨t, on, inv, nearer⟩
    · rw [out]
      rfl
    · rw [on]
      exact ih inv (by omega)

end Checked

/-- The contents of a `Vec` or a slice: no allocation has more than `isize::MAX` bytes. -/
abbrev Vec (α : Type) := { xs : List α // xs.length < 2 ^ 63 }

abbrev Str := { s : String // (asBytes s).length < 2 ^ 63 }

end RustStd
