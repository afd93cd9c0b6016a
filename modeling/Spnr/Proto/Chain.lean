import Spnr.Proto.Crates

/-! Hash chains of events (`spnr-proto/src/chain.rs`): consecutive counters, each event
naming the digest of the one before it. -/
namespace Spnr

variable (C : Crates)

def headAfter (head : String) (es : List Event) : String :=
  es.foldl (fun _ e => chainNext C (canonicalBytes C e)) head

/-- The events continue a chain whose next counter is `ctr` and whose head is `head`. -/
def Chained : Nat → String → List Event → Prop
  | _, _, [] => True
  | ctr, head, e :: es =>
    e.ctr = ctr ∧ e.prev = head ∧ Chained (ctr + 1) (chainNext C (canonicalBytes C e)) es

variable {C}

@[simp] theorem headAfter_nil (head : String) : headAfter C head [] = head := rfl

theorem headAfter_append (head : String) (es fs : List Event) :
    headAfter C head (es ++ fs) = headAfter C (headAfter C head es) fs := List.foldl_append

theorem chained_append {es fs : List Event} {ctr : Nat} {head : String} :
    Chained C ctr head (es ++ fs) ↔
      Chained C ctr head es ∧ Chained C (ctr + es.length) (headAfter C head es) fs := by
  induction es generalizing ctr head with
  | nil => simp [Chained]
  | cons e es ih =>
    simp only [List.cons_append, Chained, ih, List.length_cons, and_assoc, headAfter,
      List.foldl_cons]
    rw [Nat.add_assoc, Nat.add_comm 1]

theorem Chained.ctr_le {es : List Event} {ctr : Nat} {head : String}
    (chained : Chained C ctr head es) : ∀ e ∈ es, ctr ≤ e.ctr := by
  induction es generalizing ctr head with
  | nil => simp
  | cons e es ih =>
    obtain ⟨first, -, rest⟩ := chained
    intro e' mem
    rcases List.mem_cons.mp mem with rfl | later
    · exact Nat.le_of_eq first.symm
    · have := ih rest e' later
      omega

theorem Chained.get {es : List Event} {head : String} (chained : Chained C 0 head es)
    {k : Nat} {e : Event}
    (here : es[k]? = some e) : e.ctr = k ∧ e.prev = headAfter C head (es.take k) := by
  obtain ⟨inside, rfl⟩ := List.getElem?_eq_some_iff.mp here
  have split : es = es.take k ++ es[k] :: es.drop (k + 1) := by
    rw [List.getElem_cons_drop, List.take_append_drop]
  rw [split] at chained
  obtain ⟨-, ctr, prev, -⟩ := chained_append.mp chained
  rw [List.length_take, Nat.min_eq_left (by omega), Nat.zero_add] at ctr
  exact ⟨ctr, prev⟩

theorem Chained.prev_succ {es : List Event} {head : String}
    (chained : Chained C 0 head es) {k : Nat}
    {e before : Event} (here : es[k + 1]? = some e) (last : es[k]? = some before) :
    e.prev = chainNext C (canonicalBytes C before) := by
  obtain ⟨inside, rfl⟩ := List.getElem?_eq_some_iff.mp last
  rw [(chained.get here).2, List.take_succ_eq_append_getElem inside, headAfter_append]
  rfl

theorem Chained.eq_of_ctr {es : List Event} {head : String}
    (chained : Chained C 0 head es) {e : Event} (mem : e ∈ es) : es[e.ctr]? = some e := by
  obtain ⟨k, here⟩ := List.mem_iff_getElem?.mp mem
  rw [(chained.get here).1]
  exact here

theorem Chained.nodup {es : List Event} {head : String} (chained : Chained C 0 head es) :
    (es.map Event.ctr).Nodup := by
  have counters : es.map Event.ctr = List.range es.length := by
    apply List.ext_getElem (by simp)
    intro k inside _
    rw [List.length_map] at inside
    rw [List.getElem_map, List.getElem_range]
    exact (chained.get (List.getElem?_eq_getElem inside)).1
  rw [counters]
  exact List.nodup_range

theorem Chained.prefix_of_subset {es fs : List Event} {head : String}
    (chained : Chained C 0 head es)
    (whole : Chained C 0 head fs) (among : ∀ e ∈ es, e ∈ fs) : es <+: fs := by
  rw [List.prefix_iff_getElem?]
  intro k inside
  have here : es[k]? = some es[k] := List.getElem?_eq_getElem inside
  have there := whole.eq_of_ctr (among _ (List.getElem_mem inside))
  rwa [(chained.get here).1] at there

end Spnr
