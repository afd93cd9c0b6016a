import Mathlib.Data.List.Perm.Basic
import Mathlib.Data.List.Nodup

/-! An insertion-ordered map with the operations of the `indexmap` crate, as the list
of its entries. The facts about lookups after a removal need distinct keys. -/

abbrev IndexMap (K V : Type) := List (K × V)

namespace IndexMap

variable {K V : Type}

abbrev Distinct (m : IndexMap K V) : Prop := (m.map Prod.fst).Nodup

variable [BEq K]

/-- `insert`: a key that is there keeps its place, a new one goes to the end. -/
def insert (k : K) (v : V) : IndexMap K V → IndexMap K V
  | [] => [(k, v)]
  | (k', w) :: m => if k' == k then (k', v) :: m else (k', w) :: insert k v m

/-- `swap_remove`: the last entry takes the place of the removed one. -/
def swapRemove (k : K) : IndexMap K V → IndexMap K V
  | [] => []
  | (k', v) :: m =>
    if k' == k then
      match m.getLast? with
      | none => []
      | some last => last :: m.dropLast
    else (k', v) :: swapRemove k m

theorem lookup_entry (m : IndexMap K V) (k' k : K) (v : V) :
    List.lookup k ((k', v) :: m) = if k == k' then some v else m.lookup k := by
  rw [List.lookup_cons]
  cases k == k' <;> rfl

variable [LawfulBEq K]

theorem lookup_insert (m : IndexMap K V) (a k : K) (v : V) :
    (insert a v m).lookup k = if k == a then some v else m.lookup k := by
  induction m with
  | nil => exact lookup_entry [] a k v
  | cons e m ih =>
    obtain ⟨k', w⟩ := e
    by_cases here : k' = a
    · subst here
      simp only [insert, beq_self_eq_true, if_true, lookup_entry]
      by_cases same : k = k' <;> simp [same]
    · simp only [insert, beq_eq_false_iff_ne.mpr here, Bool.false_eq_true, if_false,
        lookup_entry, ih]
      by_cases same : k = k'
      · subst same
        simp [here]
      · simp [same]

theorem mem_insert {m : IndexMap K V} {k : K} {v : V} {e : K × V} (mem : e ∈ insert k v m) :
    e = (k, v) ∨ e ∈ m := by
  induction m with
  | nil => exact .inl (List.mem_singleton.mp mem)
  | cons f m ih =>
    obtain ⟨k', w⟩ := f
    by_cases here : k' = k
    · subst here
      simp only [insert, beq_self_eq_true, if_true, List.mem_cons] at mem
      rcases mem with rfl | later
      · exact .inl rfl
      · exact .inr (List.mem_cons_of_mem _ later)
    · simp only [insert, beq_eq_false_iff_ne.mpr here, Bool.false_eq_true, if_false,
        List.mem_cons] at mem
      rcases mem with rfl | later
      · exact .inr List.mem_cons_self
      · exact (ih later).imp id (List.mem_cons_of_mem _)

theorem distinct_insert {m : IndexMap K V} (distinct : Distinct m) (k : K) (v : V) :
    Distinct (insert k v m) := by
  induction m with
  | nil => simp [insert, Distinct]
  | cons f m ih =>
    obtain ⟨k', w⟩ := f
    obtain ⟨fresh, rest⟩ := List.nodup_cons.mp distinct
    by_cases here : k' = k
    · subst here
      simpa [insert, Distinct] using distinct
    · have others := ih rest
      simp only [insert, beq_eq_false_iff_ne.mpr here, Bool.false_eq_true, if_false]
      refine List.nodup_cons.mpr ⟨?_, others⟩
      intro twice
      obtain ⟨e, mem, name⟩ := List.mem_map.mp twice
      rcases mem_insert mem with rfl | old
      · exact here name.symm
      · exact fresh (List.mem_map.mpr ⟨e, old, name⟩)

theorem insert_self {m : IndexMap K V} {k : K} {v : V} (there : m.lookup k = some v) :
    insert k v m = m := by
  induction m with
  | nil => cases there
  | cons f m ih =>
    obtain ⟨k', w⟩ := f
    by_cases here : k' = k
    · subst here
      rw [List.lookup_cons_self] at there
      simp [insert, Option.some.inj there]
    · have later : m.lookup k = some v := by simpa [lookup_entry, Ne.symm here] using there
      simp [insert, here, ih later]

theorem swapRemove_absent {m : IndexMap K V} {k : K} (absent : m.lookup k = none) :
    swapRemove k m = m := by
  induction m with
  | nil => rfl
  | cons f m ih =>
    obtain ⟨k', w⟩ := f
    by_cases here : k' = k
    · subst here
      simp at absent
    · have later : m.lookup k = none := by
        rw [lookup_entry, if_neg (by simpa using Ne.symm here)] at absent
        exact absent
      simp [swapRemove, here, ih later]

theorem swapRemove_perm {m : IndexMap K V} (distinct : Distinct m) (k : K) :
    (swapRemove k m).Perm (m.filter fun e => !(e.1 == k)) := by
  induction m with
  | nil => exact .nil
  | cons f m ih =>
    obtain ⟨k', w⟩ := f
    obtain ⟨fresh, rest⟩ := List.nodup_cons.mp distinct
    by_cases here : k' = k
    · subst here
      have others : m.filter (fun e => !(e.1 == k')) = m := by
        rw [List.filter_eq_self]
        intro e mem
        have apart : e.1 ≠ k' := fun same => fresh (List.mem_map.mpr ⟨e, mem, same⟩)
        simp [apart]
      have head : ((k', w) :: m).filter (fun e => !(e.1 == k')) = m := by
        rw [List.filter_cons_of_neg (by simp), others]
      rw [head]
      cases final : m.getLast? with
      | none =>
        rw [List.getLast?_eq_none_iff.mp final]
        simp [swapRemove]
      | some last =>
        have whole : m.dropLast ++ [last] = m := List.dropLast_append_getLast? last final
        have swap : swapRemove k' ((k', w) :: m) = last :: m.dropLast := by simp [swapRemove, final]
        rw [swap]
        calc (last :: m.dropLast).Perm (m.dropLast ++ [last]) :=
          (List.perm_append_singleton last m.dropLast).symm
          _ = m := whole
    · have skip : swapRemove k ((k', w) :: m) = (k', w) :: swapRemove k m := by
        simp [swapRemove, here]
      rw [skip, List.filter_cons_of_pos (by simp [here])]
      exact (ih rest).cons _

theorem mem_swapRemove {m : IndexMap K V} (distinct : Distinct m) {k : K} {e : K × V} :
    e ∈ swapRemove k m ↔ e ∈ m ∧ e.1 ≠ k := by
  rw [(swapRemove_perm distinct k).mem_iff, List.mem_filter]
  simp

theorem distinct_swapRemove {m : IndexMap K V} (distinct : Distinct m) (k : K) :
    Distinct (swapRemove k m) := by
  have kept : Distinct (m.filter fun e => !(e.1 == k)) :=
    List.Nodup.sublist (List.filter_sublist.map _) distinct
  exact ((swapRemove_perm distinct k).map Prod.fst).nodup_iff.mpr kept

theorem lookup_eq_some_iff {m : IndexMap K V} (distinct : Distinct m) {k : K} {v : V} :
    m.lookup k = some v ↔ (k, v) ∈ m := by
  induction m with
  | nil => simp
  | cons f m ih =>
    obtain ⟨k', w⟩ := f
    obtain ⟨fresh, rest⟩ := List.nodup_cons.mp distinct
    by_cases here : k = k'
    · subst here
      have elsewhere : (k, v) ∉ m := fun mem => fresh (List.mem_map.mpr ⟨_, mem, rfl⟩)
      simp [elsewhere, eq_comm]
    · simp [lookup_entry, here, ih rest]

theorem lookup_swapRemove {m : IndexMap K V} (distinct : Distinct m) (a k : K) :
    (swapRemove a m).lookup k = if k == a then none else m.lookup k := by
  apply Option.ext
  intro v
  rw [lookup_eq_some_iff (distinct_swapRemove distinct a), mem_swapRemove distinct]
  by_cases same : k = a
  · simp [same]
  · simp [same, lookup_eq_some_iff distinct]

theorem lookup_foldl {step : IndexMap K V → K → IndexMap K V} {change : Option V → Option V}
    (keeps : ∀ m a, Distinct m → Distinct (step m a))
    (changes : ∀ m a k,
      Distinct m → (step m a).lookup k = if k == a then change (m.lookup k) else m.lookup k)
    (ks : List K) (apart : ks.Nodup) (m : IndexMap K V) (distinct : Distinct m) (k : K) :
    Distinct (ks.foldl step m) ∧
      (ks.foldl step m).lookup k = if ks.contains k then change (m.lookup k) else m.lookup k := by
  induction ks generalizing m with
  | nil => exact ⟨distinct, by simp⟩
  | cons a ks ih =>
    obtain ⟨fresh, rest⟩ := List.nodup_cons.mp apart
    obtain ⟨kept, later⟩ := ih rest (step m a) (keeps m a distinct)
    constructor
    · exact kept
    · rw [List.foldl_cons, later, changes m a k distinct]
      by_cases same : k = a
      · subst same
        simp [fresh]
      · simp [same]

theorem foldl_unchanged {α β : Type} {step : α → β → α} {a : α} (bs : List β)
    (same : ∀ b ∈ bs, step a b = a) : bs.foldl step a = a := by
  induction bs with
  | nil => rfl
  | cons b bs ih =>
    rw [List.foldl_cons, same b List.mem_cons_self]
    exact ih fun b mem => same b (List.mem_cons_of_mem _ mem)

end IndexMap
