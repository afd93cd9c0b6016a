import Mathlib.Algebra.BigOperators.Group.Multiset.Basic
import Mathlib.Algebra.Order.BigOperators.Group.Multiset
import Mathlib.Data.Finmap

/-! `HashMap<K, V>` and a keyed SQL table: a finite map without an order, with
the order an iteration happens to use as a separate argument. -/

/-- A finite map; two maps with the same lookups are equal. -/
abbrev HashMap (K V : Type) := Finmap fun _ : K => V

namespace HashMap

variable {K V W : Type} [DecidableEq K]

theorem lookup_insert (m : HashMap K V) (a k : K) (v : V) :
    Finmap.lookup k (m.insert a v) = if k = a then some v else m.lookup k := by
  split
  · next h => subst h; exact Finmap.lookup_insert m
  · next h => exact Finmap.lookup_insert_of_ne m h

theorem lookup_erase (m : HashMap K V) (a k : K) :
    Finmap.lookup k (m.erase a) = if k = a then none else m.lookup k := by
  split
  · next h => subst h; exact Finmap.lookup_erase k m
  · next h => exact Finmap.lookup_erase_ne h

theorem insert_erase {m : HashMap K V} {a : K} {v : V} (found : m.lookup a = some v) :
    (m.erase a).insert a v = m := by
  apply Finmap.ext_lookup
  intro k
  rw [lookup_insert, lookup_erase]
  split
  · next h => rw [h, found]
  · rfl

def filterMap (f : V → Option W) (m : HashMap K V) : HashMap K W :=
  Finmap.keysLookupEquiv.symm
    ⟨(m.keys.filter fun k => ((m.lookup k).bind f).isSome, fun k => (m.lookup k).bind f), by
      intro k
      simp only [Finset.mem_filter, Finmap.mem_keys, ← Finmap.lookup_isSome]
      cases m.lookup k <;> simp⟩

@[simp] theorem lookup_filterMap (f : V → Option W) (m : HashMap K V) (k : K) :
    Finmap.lookup k (filterMap f m) = (m.lookup k).bind f := by
  simp [filterMap]

theorem filterMap_insert (f : V → Option W) (m : HashMap K V) (k : K) (v : V) :
    filterMap f (m.insert k v) = match f v with
      | some w => (filterMap f m).insert k w
      | none => (filterMap f m).erase k := by
  apply Finmap.ext_lookup
  intro x
  by_cases h : x = k <;> cases hv : f v <;>
    simp [lookup_insert, lookup_erase, h, hv]

/-- An iteration order: some listing of the entries of each map. Which one a
`HashMap` uses is unspecified, so results are proved for all of them. -/
structure Order (K V : Type) where
  entries : HashMap K V → List (Σ _ : K, V)
  lists : ∀ m : HashMap K V, (entries m : Multiset (Σ _ : K, V)) = m.entries

theorem Order.mem_entries (o : Order K V) (m : HashMap K V) (k : K) (v : V) :
    ⟨k, v⟩ ∈ o.entries m ↔ m.lookup k = some v := by
  rw [← Multiset.mem_coe, o.lists, Finmap.lookup_eq_some_iff]

theorem Order.last (m : HashMap K V) {a : K} {v : V} (found : m.lookup a = some v) :
    ∃ o : Order K V, o.entries m = (m.erase a).entries.toList ++ [⟨a, v⟩] := by
  classical
  let visits : List (Σ _ : K, V) := (m.erase a).entries.toList ++ [⟨a, v⟩]
  have lists : (visits : Multiset (Σ _ : K, V)) = m.entries := by
    have whole :=
      Finmap.entries_insert_of_notMem (b := v) (Finmap.notMem_erase_self (a := a) (s := m))
    rw [insert_erase found] at whole
    rw [whole, ← Multiset.coe_add, Multiset.coe_toList, Multiset.coe_singleton, add_comm,
      Multiset.singleton_add]
  refine ⟨⟨fun m' => if m' = m then visits else m'.entries.toList, ?_⟩, if_pos rfl⟩
  intro m'
  split
  · next same => rw [same, lists]
  · exact Multiset.coe_toList _

noncomputable instance : Inhabited (Order K V) := ⟨⟨fun m => m.entries.toList, by simp⟩⟩

section Sums

variable {M : Type} [AddCommMonoid M]

def valueAt (f : V → M) (m : HashMap K V) (k : K) : M := (m.lookup k).elim 0 f

def sum (f : V → M) (m : HashMap K V) : M := (m.entries.map fun entry => f entry.2).sum

omit [DecidableEq K] in
theorem Order.sum (o : Order K V) (f : V → M) (m : HashMap K V) :
    ((o.entries m).map fun entry => f entry.2).sum = HashMap.sum f m := by
  rw [HashMap.sum, ← o.lists, Multiset.map_coe, Multiset.sum_coe]

theorem sum_insert_new (f : V → M) {m : HashMap K V} {a : K} (new : a ∉ m) (v : V) :
    sum f (m.insert a v) = f v + sum f m := by
  rw [sum, Finmap.entries_insert_of_notMem new, Multiset.map_cons, Multiset.sum_cons, sum]

theorem sum_erase (f : V → M) (m : HashMap K V) (a : K) :
    valueAt f m a + sum f (m.erase a) = sum f m := by
  unfold valueAt
  cases found : m.lookup a with
  | none =>
    have same : m.erase a = m := by
      apply Finmap.ext_lookup
      intro k
      rw [lookup_erase]
      split
      · next h => rw [h, found]
      · rfl
    rw [same]
    exact zero_add _
  | some v =>
    have whole := sum_insert_new f (Finmap.notMem_erase_self (a := a) (s := m)) v
    rw [insert_erase found] at whole
    exact whole.symm

theorem erase_insert (m : HashMap K V) (a : K) (v : V) : (m.insert a v).erase a = m.erase a := by
  apply Finmap.ext_lookup
  intro k
  rw [lookup_erase, lookup_erase, lookup_insert]
  split <;> rfl

theorem sum_insert (f : V → M) (m : HashMap K V) (a : K) (v : V) :
    valueAt f m a + sum f (m.insert a v) = f v + sum f m := by
  have after := sum_erase f (m.insert a v) a
  have before := sum_erase f m a
  have new : valueAt f (m.insert a v) a = f v := by
    rw [valueAt, Finmap.lookup_insert, Option.elim_some]
  rw [new, erase_insert] at after
  rw [← after, ← before, add_left_comm]

end Sums

section Nonnegative

variable (f : V → Int) (m : HashMap K V)

theorem valueAt_nonneg (nonneg : ∀ k v, m.lookup k = some v → 0 ≤ f v) (a : K) :
    0 ≤ valueAt f m a := by
  unfold valueAt
  cases found : m.lookup a with
  | none => exact Int.le_refl 0
  | some v => exact nonneg a v found

theorem sum_nonneg (nonneg : ∀ k v, m.lookup k = some v → 0 ≤ f v) : 0 ≤ sum f m := by
  apply Multiset.sum_nonneg
  intro x mem
  obtain ⟨⟨k, v⟩, entry, rfl⟩ := Multiset.mem_map.mp mem
  exact nonneg k v (Finmap.lookup_eq_some_iff.mpr entry)

theorem nonneg_erase (nonneg : ∀ k v, m.lookup k = some v → 0 ≤ f v) (a : K) :
    ∀ k v, (m.erase a).lookup k = some v → 0 ≤ f v := by
  intro k v found
  rw [lookup_erase] at found
  split at found
  · cases found
  · exact nonneg k v found

theorem valueAt_le_sum (nonneg : ∀ k v, m.lookup k = some v → 0 ≤ f v) (a : K) :
    valueAt f m a ≤ sum f m := by
  have parts := sum_erase f m a
  have rest := sum_nonneg f (m.erase a) (nonneg_erase f m nonneg a)
  omega

theorem nonneg_insert (nonneg : ∀ k v, m.lookup k = some v → 0 ≤ f v) {a : K} {v : V}
    (new : 0 ≤ f v) : ∀ k w, (m.insert a v).lookup k = some w → 0 ≤ f w := by
  intro k w found
  rw [lookup_insert] at found
  split at found
  · cases found
    exact new
  · exact nonneg k w found

theorem sum_grow {a : K} {v : V} {x : Int} (new : f v = valueAt f m a + x) :
    sum f (m.insert a v) = sum f m + x := by
  have parts := sum_insert f m a v
  omega

theorem two_le_sum (nonneg : ∀ k v, m.lookup k = some v → 0 ≤ f v) {a b : K} (apart : b ≠ a) :
    valueAt f m a + valueAt f m b ≤ sum f m := by
  have parts := sum_erase f m a
  have rest := valueAt_le_sum f (m.erase a) (nonneg_erase f m nonneg a) b
  have same : valueAt f (m.erase a) b = valueAt f m b := by
    rw [valueAt, lookup_erase, if_neg apart, valueAt]
  omega

end Nonnegative

end HashMap
