import Mathlib.Data.List.Basic

/-! What one observer of a system can tell of the steps that are not its own. Where its
own steps answer the same in states that look alike to it, and other steps leave the look as
it is, a whole run answers it as the run of its own steps alone does. -/
namespace Unwinding

variable {S A O : Type*} (step : S → A → S) (mine : A → Bool) (answer : S → A → O)

def answers : S → List A → List O
  | _, [] => []
  | s, a :: as => if mine a then answer s a :: answers (step s a) as else answers (step s a) as

/-- `Alike` is kept by the steps in `Lawful`, on both sides by the observer's own and
on one by the others. -/
structure Unwinds (Lawful : A → Prop) (Alike : S → S → Prop) : Prop where
  own : ∀ s t a, Alike s t → Lawful a → mine a = true → answer s a = answer t a ∧
    Alike (step s a) (step t a)
  other : ∀ s t a, Alike s t → Lawful a → mine a = false → Alike (step s a) t

variable {step mine answer}

theorem Unwinds.run {Lawful : A → Prop} {Alike : S → S → Prop}
    (unwinds : Unwinds step mine answer Lawful Alike)
    {as : List A} (lawful : ∀ a ∈ as, Lawful a) {s t : S} (alike : Alike s t) :
    answers step mine answer s as = answers step mine answer t (as.filter mine) ∧
      Alike (as.foldl step s) ((as.filter mine).foldl step t) := by
  induction as generalizing s t with
  | nil => exact ⟨rfl, alike⟩
  | cons a as ih =>
    obtain ⟨first, rest⟩ := List.forall_mem_cons.mp lawful
    cases own : mine a with
    | true =>
      obtain ⟨same, next⟩ := unwinds.own s t a alike first own
      obtain ⟨later, final⟩ := ih rest next
      rw [List.filter_cons_of_pos own]
      refine ⟨?_, final⟩
      rw [answers, answers, if_pos own, if_pos own, same, later]
    | false =>
      obtain ⟨later, final⟩ := ih rest (unwinds.other s t a alike first own)
      have skip : ¬ mine a = true := by simp [own]
      rw [List.filter_cons_of_neg skip]
      refine ⟨?_, final⟩
      rw [answers, if_neg skip, later]

end Unwinding
