import Mathlib.Data.List.MinMax

/-! The best element of a list under a price, the first among equals. A fold that breaks ties
by a number finds it when the numbers increase along the list. -/
namespace Argmax

variable {α β γ : Type*} [LinearOrder β] [LinearOrder γ]

section Split

variable {f : α → β}

/-- Strictly above what stands before it, and at least what stands behind it. -/
def FirstBest (f : α → β) (xs : List α) (m : α) : Prop :=
  ∃ before after, xs = before ++ m :: after ∧ (∀ x ∈ before, f x < f m) ∧ ∀ x ∈ after, f x ≤ f m

theorem FirstBest.mem {xs : List α} {m : α} (best : FirstBest f xs m) : m ∈ xs := by
  obtain ⟨before, after, rfl, -⟩ := best
  simp

theorem FirstBest.le {xs : List α} {m x : α} (best : FirstBest f xs m) (mem : x ∈ xs) :
    f x ≤ f m := by
  obtain ⟨before, after, rfl, lower, upper⟩ := best
  rcases List.mem_append.mp mem with early | late
  · exact (lower x early).le
  · rcases List.mem_cons.mp late with rfl | late
    · exact le_rfl
    · exact upper x late

theorem FirstBest.find {xs : List α} {m : α} (best : FirstBest f xs m) :
    xs.find? (fun x => xs.all fun y => f y ≤ f x) = some m := by
  have top : (xs.all fun y => decide (f y ≤ f m)) = true :=
    List.all_eq_true.mpr fun y mem => decide_eq_true (best.le mem)
  have inside := best.mem
  obtain ⟨before, after, split, lower, -⟩ := best
  refine List.find?_eq_some_iff_append.mpr ⟨top, before, after, split, fun x mem => ?_⟩
  rw [Bool.not_eq_true', List.all_eq_false]
  exact ⟨m, inside, by simpa using lower x mem⟩

theorem firstBest_singleton (x : α) : FirstBest f [x] x := ⟨[], [], rfl, nofun, nofun⟩

theorem FirstBest.keep {xs : List α} {m x : α} (best : FirstBest f xs m) (lower : f x ≤ f m) :
    FirstBest f (xs ++ [x]) m := by
  obtain ⟨before, after, rfl, below, upper⟩ := best
  refine ⟨before, after ++ [x], by simp, below, fun y mem => ?_⟩
  rcases List.mem_append.mp mem with old | new
  · exact upper y old
  · rw [List.mem_singleton.mp new]
    exact lower

theorem FirstBest.replace {xs : List α} {m x : α} (best : FirstBest f xs m) (higher : f m < f x) :
    FirstBest f (xs ++ [x]) x :=
  ⟨xs, [], rfl, fun _ mem => (best.le mem).trans_lt higher, nofun⟩

theorem FirstBest.image {δ : Type*} {g : α → δ} {f : δ → β} {xs : List α} {m : α}
    (best : FirstBest (fun a => f (g a)) xs m) : FirstBest f (xs.map g) (g m) := by
  obtain ⟨before, after, rfl, lower, upper⟩ := best
  refine ⟨before.map g, after.map g, by simp, ?_, ?_⟩
  · exact List.forall_mem_map.mpr lower
  · exact List.forall_mem_map.mpr upper

theorem FirstBest.preimage {δ : Type*} {g : α → δ} {f : δ → β} {xs : List α} {m : δ}
    (best : FirstBest f (xs.map g) m) : ∃ x, g x = m ∧ FirstBest (fun a => f (g a)) xs x := by
  obtain ⟨before, after, split, lower, upper⟩ := best
  obtain ⟨early, rest, rfl, rfl, tail⟩ := List.map_eq_append_iff.mp split
  obtain ⟨x, late, rfl, rfl, rfl⟩ := List.map_eq_cons_iff.mp tail
  refine ⟨x, rfl, early, late, rfl, ?_, ?_⟩
  · exact fun a mem => lower (g a) (List.mem_map_of_mem mem)
  · exact fun a mem => upper (g a) (List.mem_map_of_mem mem)

end Split

section Fold

variable (price : α → β) (number : α → γ)

def pick (best x : α) : α :=
  if price best < price x then x
  else if price x = price best ∧ number x < number best then x
  else best

variable {price number}

theorem foldl_pick (x : α) (xs : List α)
    (ordered : (x :: xs).Pairwise fun a b => number a < number b) :
    FirstBest price (x :: xs) (xs.foldl (pick price number) x) := by
  induction xs using List.reverseRecOn with
  | nil => exact firstBest_singleton x
  | append_singleton xs y ih =>
    rw [← List.cons_append, List.pairwise_append] at ordered
    have best := ih ordered.1
    have later := ordered.2.2 _ best.mem y (List.mem_singleton.mpr rfl)
    rw [List.foldl_append, List.foldl_cons, List.foldl_nil, ← List.cons_append, pick]
    split
    · rename_i higher
      exact best.replace higher
    · rename_i lower
      rw [if_neg fun tie => absurd tie.2 later.le.not_gt]
      exact best.keep (not_lt.mp lower)

end Fold

end Argmax
