import Spnr.Settings.Wired

/-! One object is another without the groups of spnr: an event whose groups are all spnr's is
gone, and so is a `hooks` object of which nothing is left. It is what `remove_hooks` gives, and
wiring the hooks before makes no difference to it. -/
namespace Spnr.Settings

open IndexMap Json Transition

inductive EventWithout : Option Json → Option Json → Prop where
  | gone {groups : List Json} : (∀ g ∈ groups, groupIsSpnrHook g = true) →
      EventWithout (some (.arr groups)) none
  | groups {groups left : List Json} : left ≠ [] →
      Same (.arr (groups.filter fun g => !groupIsSpnrHook g)) (.arr left) →
      EventWithout (some (.arr groups)) (some (.arr left))
  | odd {o o' : Option Json} : (∀ groups, o ≠ some (.arr groups)) → Option.Rel Same o o' →
      EventWithout o o'

def MemberWithout (k : String) (o o' : Option Json) : Prop :=
  if k ∈ spnrHookEvents then EventWithout o o' else Option.Rel Same o o'

inductive HooksWithout : Option Json → Option Json → Prop where
  | gone {hooks : Map} : (∀ k, MemberWithout k (hooks.lookup k) none) →
      HooksWithout (some (.obj hooks)) none
  | members {hooks left : Map} : left ≠ [] →
      (∀ k, MemberWithout k (hooks.lookup k) (left.lookup k)) →
      HooksWithout (some (.obj hooks)) (some (.obj left))
  | odd {o o' : Option Json} : (∀ hooks, o ≠ some (.obj hooks)) → Option.Rel Same o o' →
      HooksWithout o o'

/-- `rest` is `map` without spnr's groups. -/
structure WithoutSpnr (map rest : Map) : Prop where
  keys : ∀ k, k ≠ "hooks" → Option.Rel Same (map.lookup k) (rest.lookup k)
  hooks : HooksWithout (map.lookup "hooks") (rest.lookup "hooks")

theorem rel_none {o : Option Json} : Option.Rel Same none o ↔ o = none := by
  constructor
  · intro same
    cases same
    rfl
  · rintro rfl
    exact .none

theorem rel_refl (o : Option Json) : Option.Rel Same o o := by
  cases o with
  | none => exact .none
  | some v => exact .some (.refl v)

theorem pruned_full {groups : List Json} (full : groups ≠ []) :
    pruned (some (.arr groups)) = some (.arr groups) := by
  unfold pruned
  split
  · rename_i empty
    injection empty with empty
    injection empty with empty
    exact absurd empty full
  · rfl

theorem retained_odd {o : Option Json} (odd : ∀ groups, o ≠ some (.arr groups)) :
    pruned (retained o) = o := by
  have kept : retained o = o := by
    unfold retained
    split
    · exact absurd rfl (odd _)
    · rfl
  rw [kept]
  unfold pruned
  split
  · exact absurd rfl (odd [])
  · rfl

theorem rel_groups {groups : List Json} {o : Option Json} (full : groups ≠ []) :
    Option.Rel Same (some (.arr groups)) o ↔ ∃ left, o = some (.arr left) ∧ left ≠ [] ∧
    Same (.arr groups) (.arr left) := by
  constructor
  · intro same
    have occupied {left : List Json} (same : Same (.arr groups) (.arr left)) : left ≠ [] := by
      rintro rfl
      exact full (List.length_eq_zero_iff.mp same.length_eq)
    cases same with
    | some same =>
      cases same with
      | refl => exact ⟨groups, rfl, full, .refl _⟩
      | arr items => exact ⟨_, rfl, occupied (.arr items), .arr items⟩
  · rintro ⟨left, rfl, -, same⟩
    exact .some same

theorem eventWithout_arr {groups : List Json} {o : Option Json} :
    EventWithout (some (.arr groups)) o ↔ (∀ g ∈ groups, groupIsSpnrHook g = true) ∧ o = none ∨
      ∃ left, o = some (.arr left) ∧ left ≠ [] ∧
        Same (.arr (groups.filter fun g => !groupIsSpnrHook g)) (.arr left) := by
  constructor
  · rintro (own | ⟨full, same⟩ | ⟨odd, -⟩)
    · exact .inl ⟨own, rfl⟩
    · exact .inr ⟨_, rfl, full, same⟩
    · exact absurd rfl (odd groups)
  · rintro (⟨own, rfl⟩ | ⟨left, rfl, full, same⟩)
    · exact .gone own
    · exact .groups full same

theorem eventWithout_iff {o o' : Option Json} : EventWithout o o' ↔
    Option.Rel Same (pruned (retained o)) o' := by
  by_cases array : ∃ groups, o = some (.arr groups)
  · obtain ⟨groups, rfl⟩ := array
    rw [eventWithout_arr]
    change _ ↔ Option.Rel Same (pruned (some (.arr (groups.filter fun g => !groupIsSpnrHook g)))) o'
    by_cases own : ∀ g ∈ groups, groupIsSpnrHook g = true
    · have none_ : (groups.filter fun g => !groupIsSpnrHook g) = [] := by
        rw [List.filter_eq_nil_iff]
        intro g mem
        rw [own g mem]
        decide
      rw [none_]
      change _ ↔ Option.Rel Same none o'
      rw [rel_none]
      constructor
      · rintro (⟨-, gone⟩ | ⟨left, -, full, same⟩)
        · exact gone
        · exact absurd (List.length_eq_zero_iff.mp same.length_eq.symm) full
      · intro gone
        exact .inl ⟨own, gone⟩
    · have full : (groups.filter fun g => !groupIsSpnrHook g) ≠ [] := by
        intro none_
        apply own
        intro g mem
        simpa using List.filter_eq_nil_iff.mp none_ g mem
      rw [pruned_full full, rel_groups full]
      constructor
      · rintro (⟨all, -⟩ | left)
        · exact absurd all own
        · exact left
      · exact .inr
  · have odd (groups : List Json) : o ≠ some (.arr groups) := fun same => array ⟨groups, same⟩
    rw [retained_odd odd]
    constructor
    · rintro (_ | _ | ⟨-, same⟩)
      · exact absurd rfl (odd _)
      · exact absurd rfl (odd _)
      · exact same
    · exact .odd odd

theorem memberWithout_iff {hooks : Map} (distinct : Distinct hooks) (k : String) (o : Option Json) :
    MemberWithout k (hooks.lookup k) o ↔ Option.Rel Same ((removeEvents hooks).lookup k) o := by
  rw [(removeEvents_spec distinct k).2, MemberWithout]
  by_cases event : k ∈ spnrHookEvents
  · rw [if_pos event, if_pos (List.contains_iff_mem.mpr event), eventWithout_iff]
  · rw [if_neg event, if_neg (fun there => event (List.contains_iff_mem.mp there))]

theorem eq_nil_of_lookup {map : Map} (none_ : ∀ k, map.lookup k = none) : map = [] := by
  cases map with
  | nil => rfl
  | cons e map =>
    have first := none_ e.1
    rw [List.lookup_cons_self] at first
    cases first

theorem hooksWithout_obj {hooks : Map} {o : Option Json} : HooksWithout (some (.obj hooks)) o ↔
    (∀ k, MemberWithout k (hooks.lookup k) none) ∧ o = none ∨
      ∃ left, o = some (.obj left) ∧ left ≠ [] ∧
      ∀ k, MemberWithout k (hooks.lookup k) (left.lookup k) := by
  constructor
  · rintro (gone | ⟨full, members⟩ | ⟨odd, -⟩)
    · exact .inl ⟨gone, rfl⟩
    · exact .inr ⟨_, rfl, full, members⟩
    · exact absurd rfl (odd hooks)
  · rintro (⟨gone, rfl⟩ | ⟨left, rfl, full, members⟩)
    · exact .gone gone
    · exact .members full members

theorem removedHooks_odd {o : Option Json} (odd : ∀ hooks, o ≠ some (.obj hooks)) :
    removedHooks o = o := by
  unfold removedHooks
  split
  · exact absurd rfl (odd _)
  · rfl

theorem hooksWithout_iff {o o' : Option Json}
    (distinct : ∀ hooks, o = some (.obj hooks) → Distinct hooks) :
    HooksWithout o o' ↔ Option.Rel Same (removedHooks o) o' := by
  by_cases object : ∃ hooks, o = some (.obj hooks)
  · obtain ⟨hooks, rfl⟩ := object
    simp only [hooksWithout_obj, memberWithout_iff (distinct hooks rfl), removedHooks]
    by_cases empty : (removeEvents hooks).isEmpty
    · rw [if_pos empty, List.isEmpty_iff.mp empty, rel_none]
      constructor
      · rintro (⟨-, gone⟩ | ⟨left, -, full, members⟩)
        · exact gone
        · exact absurd (eq_nil_of_lookup fun k => rel_none.mp (members k)) full
      · intro gone
        exact .inl ⟨fun k => .none, gone⟩
    · rw [if_neg empty]
      have full : removeEvents hooks ≠ [] := fun none_ => empty (List.isEmpty_iff.mpr none_)
      constructor
      · rintro (⟨members, -⟩ | ⟨left, rfl, -, members⟩)
        · refine absurd (eq_nil_of_lookup fun k => ?_) full
          have one := members k
          generalize (removeEvents hooks).lookup k = held at one ⊢
          cases one
          rfl
        · exact .some (.obj members)
      · intro same
        cases same with
        | some same =>
          cases same with
          | refl => exact .inr ⟨_, rfl, full, fun k => rel_refl _⟩
          | @obj _ left members =>
            refine .inr ⟨left, rfl, ?_, members⟩
            rintro rfl
            refine full (eq_nil_of_lookup fun k => ?_)
            have one := members k
            change Option.Rel Same _ none at one
            generalize (removeEvents hooks).lookup k = held at one ⊢
            cases one
            rfl
  · have odd (hooks : Map) : o ≠ some (.obj hooks) := fun same => object ⟨hooks, same⟩
    rw [removedHooks_odd odd]
    constructor
    · rintro (_ | _ | ⟨-, same⟩)
      · exact absurd rfl (odd _)
      · exact absurd rfl (odd _)
      · exact same
    · exact .odd odd

theorem withoutSpnr_iff {F : UInt64 → Prop} {d : Nat} {map rest : Map}
    (stored : Stored F d (.obj map)) :
    WithoutSpnr map rest ↔ Option.Rel Same (some (.obj (removed map))) (some (.obj rest)) := by
  obtain ⟨_, _, distinct, _⟩ := stored.members
  have hooks : HooksWithout (map.lookup "hooks") (rest.lookup "hooks") ↔ _ :=
    hooksWithout_iff fun hooks found => hooks_distinct stored found
  constructor
  · intro without
    refine .some (.obj fun k => ?_)
    rw [lookup_removed distinct]
    split
    · rename_i here
      rw [eq_of_beq here]
      exact hooks.mp without.hooks
    · rename_i other
      exact without.keys k (by simpa using other)
  · intro same
    have members : Same (.obj (removed map)) (.obj rest) := by
      cases same with
      | some members => exact members
    constructor
    · intro k other
      have one := members.members k
      rw [lookup_removed distinct, if_neg (by simpa using other)] at one
      exact one
    · have one := members.members "hooks"
      rw [lookup_removed distinct, beq_self_eq_true, if_pos rfl] at one
      exact hooks.mpr one

theorem withoutSpnr_self {F : UInt64 → Prop} {d : Nat} {map : Map}
    (stored : Stored F d (.obj map)) : WithoutSpnr map map ↔ NoneEmpty map ∧ Unwired map := by
  rw [withoutSpnr_iff stored]
  constructor
  · intro same
    obtain ⟨_, _, distinct, _⟩ := stored.members
    have members : Same (.obj (removed map)) (.obj map) := by
      cases same with
      | some members => exact members
    have hooks := members.members "hooks"
    rw [lookup_removed distinct, beq_self_eq_true, if_pos rfl] at hooks
    exact of_same_removed stored hooks
  · rintro ⟨full, unwired⟩
    rw [removed_eq full unwired]
    exact .some (.refl _)

theorem pruned_injectEvent {command : String} (spnr : isSpnrHookCommand command = true)
    {hooks hooks' : Map} {event : String} (ok : injectEvent command hooks event = .ok hooks') :
    pruned (retained (hooks'.lookup event)) = pruned (retained (hooks.lookup event)) := by
  obtain ⟨groups, before, rfl⟩ := injectEvent_ok ok
  have own : groupIsSpnrHook (spnrGroup command) = true := (groupRuns_spnrGroup _ _).trans spnr
  have filtered : (if groups.any (groupHasExactCommand · command) then groups
      else groups ++ [spnrGroup command]).filter (fun g => !groupIsSpnrHook g) =
        groups.filter fun g => !groupIsSpnrHook g := by
    split
    · rfl
    · simp [List.filter_append, own]
  have after :
    retained ((insert event (.arr (if groups.any (groupHasExactCommand · command) then groups
      else groups ++ [spnrGroup command])) hooks).lookup event) =
        some (.arr (groups.filter fun g => !groupIsSpnrHook g)) := by
    rw [lookup_insert, beq_self_eq_true, if_pos rfl, retained, filtered]
  rw [after]
  cases found : hooks.lookup event with
  | none =>
    rw [found] at before
    injection before with before
    subst before
    rfl
  | some v =>
    rw [found] at before
    obtain rfl : v = .arr groups := before
    rfl

theorem memberWithout_injectEvent {command : String} (spnr : isSpnrHookCommand command = true)
    {hooks hooks' : Map}
    {event : String} (own : event ∈ spnrHookEvents)
    (ok : injectEvent command hooks event = .ok hooks') (k : String)
    (o : Option Json) : MemberWithout k (hooks'.lookup k) o ↔
    MemberWithout k (hooks.lookup k) o := by
  by_cases here : k = event
  · subst here
    rw [MemberWithout, MemberWithout, if_pos own, if_pos own, eventWithout_iff, eventWithout_iff,
      pruned_injectEvent spnr ok]
  · obtain ⟨groups, -, rfl⟩ := injectEvent_ok ok
    rw [lookup_insert, if_neg (by simpa using here)]

theorem hooksWithout_none {o : Option Json} : HooksWithout none o ↔ o = none := by
  rw [hooksWithout_iff (o := none) (by rintro hooks ⟨⟩)]
  exact rel_none

theorem memberWithout_none {k : String} {o : Option Json} : MemberWithout k none o ↔ o = none := by
  unfold MemberWithout
  split
  · rw [eventWithout_iff]
    exact rel_none
  · exact rel_none

theorem hooksWithout_injectHooksMap {command : String} (spnr : isSpnrHookCommand command = true)
    {map map' : Map} (ok : injectHooksMap command map = .ok map') (o : Option Json) :
    HooksWithout (map'.lookup "hooks") o ↔ HooksWithout (map.lookup "hooks") o := by
  obtain ⟨hooks, hooks', before, pass, rfl⟩ := injectHooksMap_ok ok
  let Kept (now : Map) : Prop := ∀ k o, MemberWithout k (now.lookup k) o ↔
    MemberWithout k (hooks.lookup k) o
  have members : ∀ k o, MemberWithout k (hooks'.lookup k) o ↔ MemberWithout k (hooks.lookup k) o :=
    foldlM_keeps Kept
    (fun _ own _ _ kept ok k o => (memberWithout_injectEvent spnr own ok k o).trans (kept k o))
    (fun _ _ => .rfl) pass
  rw [lookup_insert, beq_self_eq_true, if_pos rfl, hooksWithout_obj]
  simp only [members]
  cases found : map.lookup "hooks" with
  | none =>
    rw [found] at before
    injection before with before
    subst before
    have absent (k : String) : List.lookup k ([] : Map) = none := rfl
    simp only [absent, memberWithout_none, hooksWithout_none]
    constructor
    · rintro (⟨-, gone⟩ | ⟨left, -, full, none_⟩)
      · exact gone
      · exact absurd (eq_nil_of_lookup none_) full
    · intro gone
      exact .inl ⟨fun _ => trivial, gone⟩
  | some v =>
    rw [found] at before
    obtain rfl : v = .obj hooks := before
    exact hooksWithout_obj.symm

end Spnr.Settings
