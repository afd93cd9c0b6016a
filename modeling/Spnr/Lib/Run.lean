import Mathlib.Data.List.Basic

/-! Finite runs of a labelled transition relation and of a deterministic step.
An invariant is proved of one step and carried to every state of every run. -/
namespace Transition

variable {S A : Type*}

theorem split_concat {as before after : List A} {a b : A}
    (split : as ++ [a] = before ++ b :: after) :
    (before = as ∧ b = a ∧ after = []) ∨ ∃ rest, after = rest ++ [a] ∧
    as = before ++ b :: rest := by
  rcases List.eq_nil_or_concat' after with rfl | ⟨rest, c, rfl⟩
  · obtain ⟨rfl, last⟩ := List.append_inj' split rfl
    cases last
    exact .inl ⟨rfl, rfl, rfl⟩
  · rw [← List.cons_append, ← List.append_assoc] at split
    obtain ⟨rfl, last⟩ := List.append_inj' split rfl
    cases last
    exact .inr ⟨rest, rfl, rfl⟩

/-- `Run step s as t`: the labels `as`, taken in order from `s`, lead to `t`. -/
inductive Run (step : S → A → S → Prop) : S → List A → S → Prop where
  | nil (s : S) : Run step s [] s
  | cons {s m t : S} {a : A} {as : List A} :
      step s a m → Run step m as t → Run step s (a :: as) t

theorem Run.invariant {step : S → A → S → Prop} (Inv : S → Prop)
    (preserves : ∀ s a t, Inv s → step s a t → Inv t)
    {s t : S} {as : List A} (run : Run step s as t) (initial : Inv s) : Inv t := by
  induction run with
  | nil => exact initial
  | cons first _ ih => exact ih (preserves _ _ _ initial first)

theorem Run.append {step : S → A → S → Prop} {s m t : S} {as bs : List A}
    (first : Run step s as m) (second : Run step m bs t) : Run step s (as ++ bs) t := by
  induction first with
  | nil => exact second
  | cons h _ ih => exact .cons h (ih second)

theorem Run.split {step : S → A → S → Prop} {s t : S} {as bs : List A}
    (run : Run step s (as ++ bs) t) : ∃ m, Run step s as m ∧ Run step m bs t := by
  induction as generalizing s with
  | nil => exact ⟨s, .nil s, run⟩
  | cons a as ih =>
    cases run with
    | cons first rest =>
      obtain ⟨m, before, after⟩ := ih rest
      exact ⟨m, .cons first before, after⟩

theorem Run.keeps {step : S → A → S → Prop} (Q : S → Prop) {s t : S} {as : List A}
    (run : Run step s as t)
    (kept : ∀ a ∈ as, ∀ s t, Q s → step s a t → Q t) (initial : Q s) : Q t := by
  induction run with
  | nil => exact initial
  | cons first _ ih =>
    exact ih (fun a mem => kept a (List.mem_cons_of_mem _ mem))
      (kept _ List.mem_cons_self _ _ initial first)

section

variable {α β ε : Type} {step : α → β → Except ε α}

theorem foldlM_cons_ok {b : β} {bs : List β} {a a' : α} (ok : (b :: bs).foldlM step a = .ok a') :
    ∃ mid, step a b = .ok mid ∧ bs.foldlM step mid = .ok a' := by
  rw [List.foldlM_cons] at ok
  cases first : step a b with
  | error e =>
    rw [first] at ok
    cases ok
  | ok mid =>
    rw [first] at ok
    exact ⟨mid, rfl, ok⟩

theorem foldlM_keeps (Kept : α → Prop) {bs : List β}
    (keeps : ∀ b ∈ bs, ∀ a a', Kept a → step a b = .ok a' → Kept a') {a a' : α} (kept : Kept a)
    (ok : bs.foldlM step a = .ok a') : Kept a' := by
  induction bs generalizing a with
  | nil => exact Except.ok.inj ok ▸ kept
  | cons b bs ih =>
    obtain ⟨mid, first, rest⟩ := foldlM_cons_ok ok
    have later c mem := keeps c (List.mem_cons_of_mem b mem)
    exact ih later (keeps b List.mem_cons_self a mid kept first) rest

theorem foldlM_settled {a : α} {bs : List β} (settled : ∀ b ∈ bs, step a b = .ok a) :
    bs.foldlM step a = .ok a := by
  induction bs with
  | nil => rfl
  | cons b bs ih =>
    rw [List.foldlM_cons, settled b List.mem_cons_self]
    exact ih fun b mem => settled b (List.mem_cons_of_mem _ mem)

end

end Transition
