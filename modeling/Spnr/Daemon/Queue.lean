import Mathlib.Algebra.Group.Nat.Defs
import Mathlib.Data.List.Basic

/-! The append-only, length-prefixed queue file (`spnrd/src/queue.rs`). -/
namespace Spnr.Spnrd.Queue

def toBeBytes (n : Nat) : List UInt8 :=
  [UInt8.ofNat (n / 2 ^ 24), UInt8.ofNat (n / 2 ^ 16), UInt8.ofNat (n / 2 ^ 8), UInt8.ofNat n]

def fromBeBytes (a b c d : UInt8) : Nat :=
  ((a.toNat * 256 + b.toNat) * 256 + c.toNat) * 256 + d.toNat

def frame (record : List UInt8) : List UInt8 := toBeBytes record.length ++ record

/-- The file after `append`, or nothing when the record is too large for its prefix. -/
def append (file record : List UInt8) : Option (List UInt8) :=
  if record.length < 2 ^ 32 then some (file ++ frame record) else none

/-- The reader's loop; each turn consumes a prefix, so the file's length is fuel enough. -/
def readFrames : Nat → List UInt8 → List (List UInt8)
  | fuel + 1, a :: b :: c :: d :: rest =>
    let len := fromBeBytes a b c d
    if rest.length < len then [] else rest.take len :: readFrames fuel (rest.drop len)
  | _, _ => []

def readAll (bytes : List UInt8) : List (List UInt8) := readFrames bytes.length bytes

theorem fromBeBytes_toBeBytes {n : Nat} (small : n < 2 ^ 32) :
    fromBeBytes (UInt8.ofNat (n / 2 ^ 24)) (UInt8.ofNat (n / 2 ^ 16)) (UInt8.ofNat (n / 2 ^ 8))
      (UInt8.ofNat n) = n := by
  simp only [fromBeBytes, UInt8.toNat_ofNat']
  omega

theorem readFrames_frames (records : List (List UInt8)) (small : ∀ r ∈ records, r.length < 2 ^ 32)
    {fuel : Nat} (enough : records.length < fuel) :
    readFrames fuel (records.flatMap frame) = records := by
  induction records generalizing fuel with
  | nil =>
    cases fuel with
    | zero => omega
    | succ fuel => rfl
  | cons r records ih =>
    obtain ⟨fuel, rfl⟩ : ∃ f, fuel = f + 1 := ⟨fuel - 1, by omega⟩
    have length := fromBeBytes_toBeBytes (small r List.mem_cons_self)
    have left : records.length < fuel := by
      simp only [List.length_cons] at enough
      omega
    have others := ih (fun r mem => small r (List.mem_cons_of_mem _ mem)) left
    simp only [List.flatMap_cons, frame, toBeBytes, List.cons_append, List.nil_append,
      readFrames, length]
    rw [if_neg (by simp), List.take_left, List.drop_left]
    exact congrArg (r :: ·) others

theorem frames_length (records : List (List UInt8)) :
    records.length ≤ (records.flatMap frame).length := by
  induction records with
  | nil => simp
  | cons r records ih =>
    simp only [List.flatMap_cons, List.length_append, List.length_cons, frame, toBeBytes]
    omega

theorem readAll_frames (records : List (List UInt8)) (small : ∀ r ∈ records, r.length < 2 ^ 32) :
    readAll (records.flatMap frame) = records := by
  cases records with
  | nil => rfl
  | cons r records =>
    refine readFrames_frames (r :: records) small ?_
    have rest := frames_length records
    simp only [List.flatMap_cons, List.length_append, List.length_cons, frame, toBeBytes]
    omega

end Spnr.Spnrd.Queue
