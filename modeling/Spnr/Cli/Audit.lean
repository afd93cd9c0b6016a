import Mathlib.Data.List.Infix
import Spnr.Daemon.Torn

/-! The queue reader that `spnr audit` has inlined (`spnr-cli/src/main.rs`). It walks
the file by an index where the daemon's walks it by what is left. -/
namespace Spnr.Cli

open Spnrd.Queue

/-- The loop at index `i`; each turn moves it forward, so the file's length is fuel enough. -/
def readQueueLoop (bytes : List UInt8) : Nat → Nat → List (List UInt8)
  | fuel + 1, i =>
    if i + 4 ≤ bytes.length then
      let len := fromBeBytes (bytes.getD i 0) (bytes.getD (i + 1) 0) (bytes.getD (i + 2) 0)
        (bytes.getD (i + 3) 0)
      let start := i + 4
      let stop := start + len
      if bytes.length < stop then []
      else (bytes.drop start).take (stop - start) :: readQueueLoop bytes fuel stop
    else []
  | 0, _ => []

def readQueue (bytes : List UInt8) : List (List UInt8) := readQueueLoop bytes bytes.length 0

theorem drop_four {bytes : List UInt8} {i : Nat} (inside : i + 4 ≤ bytes.length) :
    bytes.drop i = bytes.getD i 0 :: bytes.getD (i + 1) 0 :: bytes.getD (i + 2) 0 :: bytes.getD
      (i + 3) 0 :: bytes.drop (i + 4) := by
  have one (j : Nat) (here : j < bytes.length) : bytes.drop j = bytes.getD j 0 :: bytes.drop
    (j + 1) := by
    rw [List.drop_eq_getElem_cons here, List.getD_eq_getElem?_getD, List.getElem?_eq_getElem here,
      Option.getD_some]
  rw [one i (by omega), one (i + 1) (by omega), one (i + 2) (by omega), one (i + 3) (by omega)]

theorem readQueueLoop_eq (bytes : List UInt8) (fuel i : Nat) :
    readQueueLoop bytes fuel i = readFrames fuel (bytes.drop i) := by
  induction fuel generalizing i with
  | zero => rfl
  | succ fuel ih =>
    by_cases inside : i + 4 ≤ bytes.length
    · rw [drop_four inside, readQueueLoop, if_pos inside]
      simp only [readFrames, List.length_drop, ih, List.drop_drop, Nat.add_sub_cancel_left]
      split <;> split
      · rfl
      · omega
      · omega
      · rfl
    · rw [readQueueLoop, if_neg inside]
      have short : (bytes.drop i).length < 4 := by
        rw [List.length_drop]
        omega
      rw [readFrames_short _ short]

theorem readQueue_eq (bytes : List UInt8) : readQueue bytes = readAll bytes :=
  readQueueLoop_eq bytes bytes.length 0

/-- Both readers return exactly the completed records if and only if every frame completed
behind torn bytes begins with them and then with itself. Text-like records, as the daemon
writes, they return at every moment if and only if nothing completes behind torn bytes and these
never make up a frame. -/
theorem interrupted_appends (calls : List Call) :
    ((readAll (written calls) = completed calls ∧ readQueue (written calls) = completed calls) ↔
      Harmless [] calls) ∧
    ((∀ record, .completes record ∈ calls → TextLike record.val) →
      ((∀ before, before <+: calls →
        readAll (written before) = completed before ∧
        readQueue (written before) = completed before) ↔
          NothingBehind [] calls)) := by
  have exact_ (calls : List Call) :
      (readAll (written calls) = completed calls ∧ readQueue (written calls) = completed calls) ↔
        Harmless [] calls := by
    rw [readQueue_eq, and_self, readAll_written]
  constructor
  · exact exact_ calls
  · intro text
    constructor
    · intro read
      exact nothingBehind_of text fun before part => (exact_ before).mp (read before part)
    · intro nothing before part
      exact (exact_ before).mpr (nothing.part part).harmless

/-! An append of `["one"]` stops after its prefix, and one of `["two"]` completes behind it. -/

def one : Record := ⟨[0x6f, 0x6e, 0x65], by decide⟩
def two : Record := ⟨[0x74, 0x77, 0x6f], by decide⟩

/-- The first append completes and the two behind it stop, four bytes and one
byte into their frames. -/
def twoTorn : List Call := [.completes one, .cutOff two ⟨4, by decide⟩, .cutOff one ⟨1, by decide⟩]

theorem nothingBehind_twoTorn : NothingBehind [] twoTorn := by
  constructor
  · rintro (_ | ⟨first, _ | ⟨second, _ | ⟨third, before⟩⟩⟩) record after split
    · rfl
    · cases split
    · cases split
    · simp [twoTorn] at split
  · intro before part
    have cases_ := (List.mem_inits before twoTorn).mpr part
    simp only [twoTorn, List.inits, List.map_cons, List.map_nil, List.mem_cons, List.not_mem_nil,
      or_false] at cases_
    rcases cases_ with rfl | rfl | rfl | rfl
    · trivial
    · trivial
    · show 0 < 3
      decide
    · show 1 < 3
      decide

theorem interrupted_appends_twoTorn : ∀ before, before <+: twoTorn →
    readAll (written before) = completed before ∧
    readQueue (written before) = completed before := by
  refine ((interrupted_appends twoTorn).2 ?_).mpr nothingBehind_twoTorn
  intro record mem
  obtain rfl : record = one := by
    simpa [twoTorn] using mem
  exact ⟨by decide, by decide, by decide⟩

/-- The second record is gone, and bytes of its frame are read in place of the first. -/
theorem torn_append_hides_next :
    let calls := [Call.cutOff one ⟨4, by decide⟩, Call.completes two]
    completed calls = [two.val] ∧ readAll (written calls) = [[0, 0, 0]] ∧
      readQueue (written calls) = [[0, 0, 0]] := by decide

end Spnr.Cli
