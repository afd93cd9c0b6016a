import Mathlib.Data.List.TakeWhile
import Spnr.Lib.IndexMap

/-! What a series of `swap_remove`s does to the order of the keys that stay. Each removal
moves the last key into the hole; a later one can move it on. -/
namespace IndexMap

variable {K V : Type} [BEq K]

abbrev keys (m : IndexMap K V) : List K := m.map Prod.fst

variable [LawfulBEq K]

theorem keys_insert {m : IndexMap K V} {k : K} (there : k ∈ keys m) (v : V) :
    keys (insert k v m) = keys m := by
  induction m with
  | nil => cases there
  | cons e m ih =>
    obtain ⟨x, w⟩ := e
    by_cases here : x = k
    · subst here
      simp [insert]
    · have later : k ∈ keys m := by
        rcases List.mem_cons.mp there with same | later
        · exact absurd same.symm here
        · exact later
      have rest := ih later
      simp only [keys, insert, beq_eq_false_iff_ne.mpr here, Bool.false_eq_true, if_false,
        List.map_cons] at rest ⊢
      rw [rest]

end IndexMap
