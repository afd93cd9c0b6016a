import Spnr.Cli.Audit
import Spnr.Daemon.Socket
import Spnr.Lib.Checked

/-! The two readers of the queue as they run: every addition, index and slice of their loops can
fail. On the contents of any file both come to the records that `readAll` finds. -/
namespace Spnr.Cli

open RustStd Checked Spnrd.Queue
open Spnrd.Socket (checkedAdd checkedAdd_eq)

namespace Run

/-- One turn of `while i + 4 <= bytes.len()`, which both readers repeat. -/
def readTurn (bytes : List UInt8) :
    Nat × List (List UInt8) → Checked (Turn (Nat × List (List UInt8)) (List (List UInt8)))
  | (i, out) => do
    let four ← usize (i + 4)
    if four ≤ bytes.length then
      let a ← index bytes i
      let b ← index bytes (← usize (i + 1))
      let c ← index bytes (← usize (i + 2))
      let d ← index bytes (← usize (i + 3))
      let len := fromBeBytes a b c d
      let start ← usize (i + 4)
      match checkedAdd start len with
      | none => return .done out
      | some stop =>
        if bytes.length < stop then return .done out
        else
          let record ← slice bytes start stop
          return .next (stop, out ++ [record])
    else return .done out

/-- `queue::read_all`; there is nothing of a file that cannot be read. -/
def readAll (file : Option (List UInt8)) : Checked (List (List UInt8)) :=
  match file with
  | none => return []
  | some bytes => loop (readTurn bytes) (bytes.length + 1) (0, [])

def readQueue (file : Option (List UInt8)) : Checked (List (List UInt8)) :=
  match file with
  | none => return []
  | some bytes => loop (readTurn bytes) (bytes.length + 1) (0, [])

end Run

theorem readAll_cons (a b c d : UInt8) (rest : List UInt8) : readAll (a :: b :: c :: d :: rest) =
    if rest.length < fromBeBytes a b c d then []
    else rest.take (fromBeBytes a b c d) :: readAll (rest.drop (fromBeBytes a b c d)) := by
  rw [readAll, List.length_cons, readFrames]
  have enough : (rest.drop (fromBeBytes a b c d)).length ≤ rest.length + 3 := by
    rw [List.length_drop]
    omega
  rw [List.length_cons, List.length_cons, List.length_cons, readFrames_enough enough]

theorem index_getD {bytes : List UInt8} {i : Nat} (inside : i < bytes.length) :
    index bytes i = .ok (bytes.getD i 0) := by
  apply index_ok
  rw [List.getD_eq_getElem?_getD, List.getElem?_eq_getElem inside, Option.getD_some]

def Reading (bytes : List UInt8) : Nat × List (List UInt8) → Prop
  | (i, out) => i ≤ bytes.length ∧ out ++ readAll (bytes.drop i) = readAll bytes

section

variable {bytes : List UInt8} (small : bytes.length < 2 ^ 63)
include small

theorem readTurn_ok {i : Nat} {out : List (List UInt8)} (reading : Reading bytes (i, out)) :
    Run.readTurn bytes (i, out) = .ok (.done (readAll bytes)) ∨
      ∃ next, Run.readTurn bytes (i, out) = .ok (.next next) ∧ Reading bytes next ∧
        bytes.length - next.1 < bytes.length - i := by
  obtain ⟨inside, whole⟩ := reading
  rw [Run.readTurn, usize_ok (show i + 4 < 2 ^ 64 by omega), ok_bind]
  by_cases header : i + 4 ≤ bytes.length
  · have len := fromBeBytes_lt (bytes.getD i 0) (bytes.getD (i + 1) 0) (bytes.getD (i + 2) 0)
      (bytes.getD (i + 3) 0)
    rw [drop_four header, readAll_cons, List.length_drop] at whole
    rw [if_pos header, index_getD (show i < bytes.length by omega), ok_bind,
      usize_ok (show i + 1 < 2 ^ 64 by omega), ok_bind,
        index_getD (show i + 1 < bytes.length by omega), ok_bind,
      usize_ok (show i + 2 < 2 ^ 64 by omega), ok_bind,
        index_getD (show i + 2 < bytes.length by omega), ok_bind,
      usize_ok (show i + 3 < 2 ^ 64 by omega), ok_bind,
        index_getD (show i + 3 < bytes.length by omega), ok_bind,
      ok_bind]
    generalize fromBeBytes (bytes.getD i 0) (bytes.getD (i + 1) 0) (bytes.getD (i + 2) 0)
      (bytes.getD (i + 3) 0) = n at *
    rw [checkedAdd_eq (show i + 4 + n < 2 ^ 64 by omega)]
    dsimp only
    by_cases short : bytes.length < i + 4 + n
    · rw [if_pos (by omega), List.append_nil] at whole
      rw [if_pos short, whole]
      exact .inl rfl
    · rw [if_neg (by omega)] at whole
      rw [if_neg short, slice_ok (by omega) (by omega), ok_bind]
      refine .inr ⟨_, rfl, ⟨by omega, ?_⟩, ?_⟩
      · rw [← whole, List.drop_drop, Nat.add_sub_cancel_left, List.append_assoc,
          List.singleton_append]
      · dsimp only
        omega
  · rw [readAll, readFrames_short _ (by rw [List.length_drop]; omega), List.append_nil] at whole
    rw [if_neg header, whole]
    exact .inl rfl

theorem reads_ok : loop (Run.readTurn bytes) (bytes.length + 1) (0, []) = .ok (readAll bytes) := by
  apply loop_ok (Reading bytes) (fun s => bytes.length - s.1)
  · rintro ⟨i, out⟩ reading
    exact readTurn_ok small reading
  · exact ⟨Nat.zero_le _, rfl⟩
  · dsimp only
    omega

end

theorem truncated_iff (tail : List UInt8) :
    Truncated tail ↔ ∀ r : List UInt8, r.length < 2 ^ 32 → ¬ frame r <+: tail := by
  constructor
  · rintro truncated r small ⟨rest, rfl⟩
    exact not_truncated_frame small rest truncated
  · intro starts
    unfold Truncated
    split
    · rename_i a b c d rest
      by_contra whole
      have len := fromBeBytes_lt a b c d
      have length : (rest.take (fromBeBytes a b c d)).length = fromBeBytes a b c d := by
        rw [List.length_take]
        omega
      apply starts (rest.take (fromBeBytes a b c d))
      · omega
      · rw [frame, length, toBeBytes_fromBeBytes]
        exact ⟨rest.drop (fromBeBytes a b c d), by simp [List.take_append_drop]⟩
    · trivial

structure Parsed (bytes : List UInt8) (records : List (List UInt8)) : Prop where
  /-- A length that the prefix can hold. -/
  framed : ∀ r ∈ records, r.length < 2 ^ 32
  rest : ∃ tail, bytes = records.flatMap frame ++ tail ∧ ∀ r : List UInt8, r.length < 2 ^ 32 →
    ¬ frame r <+: tail
  maximal : ∀ others : List (List UInt8), (∀ r ∈ others, r.length < 2 ^ 32) →
    others.flatMap frame <+: bytes → others <+: records

theorem readAll_parsed (bytes : List UInt8) : Parsed bytes (readAll bytes) := by
  have small := readFrames_small bytes.length bytes
  have frames : FramesThenTail bytes (readAll bytes) :=
    readFrames_spec bytes.length bytes (Nat.le_refl _)
  constructor
  · exact small
  · obtain ⟨tail, split, truncated⟩ := frames
    exact ⟨tail, split, (truncated_iff tail).mp truncated⟩
  · intro others smallOthers fits
    exact frames.maximal small smallOthers fits

/-- The queue readers parse the contents of any file, and alike: neither fails or goes on for ever,
and both find the one longest sequence of frames that the file starts with. -/
theorem queue_readers (bytes : Vec UInt8) :
    ∃ records, Run.readAll (some bytes.val) = .ok records ∧
    Run.readQueue (some bytes.val) = .ok records ∧
      Parsed bytes.val records ∧ ∀ others, Parsed bytes.val others → others = records := by
  have found := readAll_parsed bytes.val
  refine ⟨readAll bytes.val, reads_ok bytes.property, reads_ok bytes.property, found, ?_⟩
  intro others parsed
  have fits {rs : List (List UInt8)} (parsed : Parsed bytes.val rs) :
    rs.flatMap frame <+: bytes.val := by
    obtain ⟨tail, split, -⟩ := parsed.rest
    exact ⟨tail, split.symm⟩
  have before := found.maximal others parsed.framed (fits parsed)
  have after := parsed.maximal _ found.framed (fits found)
  exact before.eq_of_length_le after.length_le

end Spnr.Cli
