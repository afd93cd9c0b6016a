import Spnr.Lib.SwapOut

/-! What insertions leave alone: the keys that were there keep their places, and the
entries outside the inserted keys stay one by one. -/
namespace IndexMap

variable {K V : Type} [BEq K]

def outside (own : List K) (m : IndexMap K V) : IndexMap K V := m.filter fun e => !own.contains e.1

variable [LawfulBEq K]

theorem outside_insert {own : List K} {k : K} (mine : k ∈ own) (v : V) (m : IndexMap K V) :
    outside own (insert k v m) = outside own m := by
  have dropped (w : V) : (!own.contains ((k, w) : K × V).1) = false := by simpa using mine
  induction m with
  | nil => exact List.filter_cons_of_neg (by rw [dropped]; decide)
  | cons e m ih =>
    obtain ⟨x, w⟩ := e
    by_cases here : x = k
    · subst here
      rw [insert, beq_self_eq_true, if_pos rfl]
      unfold outside
      rw [List.filter_cons_of_neg (by rw [dropped]; decide),
        List.filter_cons_of_neg (by rw [dropped]; decide)]
    · rw [insert, if_neg (by simpa using here)]
      unfold outside at ih ⊢
      rw [List.filter_cons, List.filter_cons, ih]

theorem insert_new {m : IndexMap K V} {k : K} (new : k ∉ keys m) (v : V) :
    insert k v m = m ++ [(k, v)] := by
  induction m with
  | nil => rfl
  | cons e m ih =>
    obtain ⟨x, w⟩ := e
    have here : x ≠ k := fun same => new (List.mem_cons.mpr (.inl same.symm))
    have later : k ∉ keys m := fun mem => new (List.mem_cons_of_mem _ mem)
    rw [insert, if_neg (by simpa using here), ih later]
    rfl

theorem keys_prefix_insert (m : IndexMap K V) (k : K) (v : V) : keys m <+: keys (insert k v m) := by
  by_cases there : k ∈ keys m
  · have same := keys_insert there v
    exact ⟨[], by rw [List.append_nil, same]⟩
  · rw [insert_new there v, keys, keys, List.map_append]
    exact List.prefix_append _ _

theorem perm_of_lookup {m m' : IndexMap K V} (distinct : Distinct m) (distinct' : Distinct m')
    (same : ∀ k, m.lookup k = m'.lookup k) : m.Perm m' := by
  apply (List.perm_ext_iff_of_nodup (List.Nodup.of_map _ distinct)
    (List.Nodup.of_map _ distinct')).mpr
  rintro ⟨k, v⟩
  rw [← lookup_eq_some_iff distinct, same, lookup_eq_some_iff distinct']

end IndexMap
