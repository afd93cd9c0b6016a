import Spnr.Settings.Files

/-! What `remove_hooks` and the fallback of `restore` leave of the settings object, name
by name, and when they leave it as it is. -/
namespace Spnr.Settings

open IndexMap Json

def retained : Option Json → Option Json
  | some (.arr groups) => some (.arr (groups.filter fun g => !groupIsSpnrHook g))
  | o => o

def pruned : Option Json → Option Json
  | some (.arr []) => none
  | o => o

theorem distinct_retainForeign {hooks : Map} (distinct : Distinct hooks) (event : String) :
    Distinct (retainForeign hooks event) := by
  unfold retainForeign
  split
  · exact distinct_insert distinct _ _
  · exact distinct

theorem lookup_retainForeign (hooks : Map) (event k : String) :
    (retainForeign hooks event).lookup k = if k == event then retained
      (hooks.lookup k) else hooks.lookup k := by
  by_cases here : k = event
  · subst here
    rw [beq_self_eq_true, if_pos rfl]
    unfold retainForeign
    split
    · rename_i groups found
      rw [lookup_insert, beq_self_eq_true, if_pos rfl, found]
      rfl
    · rename_i odd
      unfold retained
      split
      · rename_i groups found
        exact absurd found (odd groups)
      · rfl
  · have other : (k == event) = false := beq_eq_false_iff_ne.mpr here
    unfold retainForeign
    split
    · rw [lookup_insert]
      simp [other]
    · simp [other]

theorem distinct_pruneEvent {hooks : Map} (distinct : Distinct hooks) (event : String) :
    Distinct (pruneEvent hooks event) := by
  unfold pruneEvent
  split
  · exact distinct_swapRemove distinct _
  · exact distinct

theorem lookup_pruneEvent {hooks : Map} (distinct : Distinct hooks) (event k : String) :
    (pruneEvent hooks event).lookup k = if k == event then pruned
      (hooks.lookup k) else hooks.lookup k := by
  by_cases here : k = event
  · subst here
    rw [beq_self_eq_true, if_pos rfl]
    unfold pruneEvent
    split
    · rename_i found
      rw [lookup_swapRemove distinct, beq_self_eq_true, if_pos rfl, found]
      rfl
    · rename_i kept
      unfold pruned
      split
      · rename_i found
        exact absurd found kept
      · rfl
  · have other : (k == event) = false := beq_eq_false_iff_ne.mpr here
    unfold pruneEvent
    split
    · rw [lookup_swapRemove distinct]
      simp [other]
    · simp [other]

theorem removeEvents_spec {hooks : Map} (distinct : Distinct hooks) (k : String) :
    Distinct (removeEvents hooks) ∧ (removeEvents hooks).lookup k =
      if spnrHookEvents.contains k then pruned (retained (hooks.lookup k)) else hooks.lookup k := by
  have apart : spnrHookEvents.Nodup := by decide
  have first := lookup_foldl (fun _ a d => distinct_retainForeign d a)
    (fun m a k _ => lookup_retainForeign m a k)
    spnrHookEvents apart hooks distinct
  have second :=
    lookup_foldl (fun _ a d => distinct_pruneEvent d a) (fun m a k d => lookup_pruneEvent d a k)
    spnrHookEvents apart _ (first k).1
  constructor
  · exact (second k).1
  · have value := (second k).2
    rw [(first k).2] at value
    rw [removeEvents, value]
    split <;> rfl

theorem stored_retainForeign {F : UInt64 → Prop} {d : Nat} {hooks : Map}
    (stored : Stored F (d + 1) (.obj hooks))
    (event : String) : Stored F (d + 1) (.obj (retainForeign hooks event)) := by
  unfold retainForeign
  split
  · rename_i found
    exact stored.insert ((stored.lookup found).filter _) event
  · exact stored

theorem stored_pruneEvent {F : UInt64 → Prop} {d : Nat} {hooks : Map}
    (stored : Stored F d (.obj hooks))
    (event : String) : Stored F d (.obj (pruneEvent hooks event)) := by
  unfold pruneEvent
  split
  · exact stored.swapRemove event
  · exact stored

theorem stored_removeEvents {F : UInt64 → Prop} {d : Nat} {hooks : Map}
    (stored : Stored F (d + 1) (.obj hooks)) : Stored F (d + 1) (.obj (removeEvents hooks)) := by
  let Kept (hooks : Map) : Prop := Stored F (d + 1) (.obj hooks)
  have retained : Kept (spnrHookEvents.foldl retainForeign hooks) :=
    List.foldlRecOn spnrHookEvents retainForeign stored fun _ kept event _ =>
      stored_retainForeign kept event
  exact List.foldlRecOn (motive := Kept) spnrHookEvents pruneEvent retained
    fun _ kept event _ => stored_pruneEvent kept event

def removed (map : Map) : Map := (removeHooksMap map).getD map

def removedHooks : Option Json → Option Json
  | some (.obj hooks) =>
    if (removeEvents hooks).isEmpty then none else some (.obj (removeEvents hooks))
  | o => o

theorem lookup_removed {map : Map} (distinct : Distinct map) (k : String) :
    (removed map).lookup k = if k == "hooks" then removedHooks
      (map.lookup k) else map.lookup k := by
  unfold removed removeHooksMap
  split
  · rename_i hooks found
    by_cases here : k = "hooks"
    · subst here
      simp only [Option.getD_some, beq_self_eq_true, if_true, found, removedHooks]
      split
      · rw [lookup_swapRemove (distinct_insert distinct _ _), beq_self_eq_true, if_pos rfl]
      · rw [lookup_insert, beq_self_eq_true, if_pos rfl]
    · have other : (k == "hooks") = false := beq_eq_false_iff_ne.mpr here
      simp only [Option.getD_some, other, Bool.false_eq_true, if_false]
      split
      · rw [lookup_swapRemove (distinct_insert distinct _ _), lookup_insert]
        simp [other]
      · rw [lookup_insert]
        simp [other]
  · rename_i odd
    rw [Option.getD_none]
    by_cases here : k = "hooks"
    · subst here
      rw [beq_self_eq_true, if_pos rfl]
      unfold removedHooks
      split
      · rename_i hooks found
        exact absurd found (odd hooks)
      · rfl
    · rw [if_neg (by simpa using here)]

theorem stored_removed {F : UInt64 → Prop} {d : Nat} {map : Map}
    (stored : Stored F (d + 2) (.obj map)) : Stored F (d + 2) (.obj (removed map)) := by
  unfold removed removeHooksMap
  split
  · rename_i hooks found
    have written := stored.insert (stored_removeEvents (stored.lookup found)) "hooks"
    rw [Option.getD_some]
    split
    · exact written.swapRemove "hooks"
    · exact written
  · exact stored

def Unwired (map : Map) : Prop :=
  ∀ hooks, map.lookup "hooks" = some (.obj hooks) → ∀ event ∈ spnrHookEvents, ∀ groups,
    hooks.lookup event = some (.arr groups) → ∀ g ∈ groups, groupIsSpnrHook g = false

/-- There is no empty `hooks` object and none of the three events has an empty array. -/
def NoneEmpty (map : Map) : Prop :=
  ∀ hooks, map.lookup "hooks" = some (.obj hooks) →
    hooks ≠ [] ∧ ∀ event ∈ spnrHookEvents, hooks.lookup event ≠ some (.arr [])

theorem retainForeign_eq {hooks : Map} {event : String}
    (foreign : ∀ groups, hooks.lookup event = some (.arr groups) → ∀ g ∈ groups,
      groupIsSpnrHook g = false) :
    retainForeign hooks event = hooks := by
  unfold retainForeign
  split
  · rename_i groups found
    have all : groups.filter (fun g => !groupIsSpnrHook g) = groups := by
      rw [List.filter_eq_self]
      intro g mem
      rw [foreign groups found g mem]
      rfl
    rw [all]
    exact insert_self found
  · rfl

theorem pruneEvent_eq {hooks : Map} {event : String} (full : hooks.lookup event ≠ some (.arr [])) :
    pruneEvent hooks event = hooks := by
  unfold pruneEvent
  split
  · rename_i found
    exact absurd found full
  · rfl

theorem removed_eq {map : Map} (full : NoneEmpty map) (unwired : Unwired map) :
    removed map = map := by
  unfold removed removeHooksMap
  split
  · rename_i hooks found
    obtain ⟨some_, arrays⟩ := full hooks found
    have retained : spnrHookEvents.foldl retainForeign hooks = hooks :=
      foldl_unchanged _ fun event mem => retainForeign_eq (unwired hooks found event mem)
    have events : removeEvents hooks = hooks := by
      rw [removeEvents, retained]
      exact foldl_unchanged _ fun event mem => pruneEvent_eq (arrays event mem)
    have occupied : hooks.isEmpty = false := by simpa using some_
    simp only [events, Option.getD_some, insert_self found, occupied, Bool.false_eq_true, if_false]
  · rfl

theorem hooks_distinct {F : UInt64 → Prop} {d : Nat} {map hooks : Map}
    (stored : Stored F d (.obj map))
    (found : map.lookup "hooks" = some (.obj hooks)) : Distinct hooks := by
  obtain ⟨e, rfl, -, -⟩ := stored.members
  obtain ⟨_, _, distinct, _⟩ := (stored.lookup found).members
  exact distinct

theorem same_event {hooks : Map} {event : String} {groups : List Json}
    (found : hooks.lookup event = some (.arr groups))
    (same : Option.Rel Same (pruned (retained (hooks.lookup event))) (hooks.lookup event)) :
    groups ≠ [] ∧ ∀ g ∈ groups, groupIsSpnrHook g = false := by
  rw [found] at same
  let kept := groups.filter fun g => !groupIsSpnrHook g
  change Option.Rel Same (pruned (some (.arr kept))) (some (.arr groups)) at same
  have occupied : kept ≠ [] := by
    intro none_
    rw [none_] at same
    cases same
  have whole : pruned (some (.arr kept)) = some (.arr kept) := by
    unfold pruned
    split
    · rename_i none_
      injection none_ with none_
      injection none_ with none_
      exact absurd none_ occupied
    · rfl
  rw [whole] at same
  have lengths : kept.length = groups.length := by
    cases same with
    | some arrays => exact arrays.length_eq
  have all : kept = groups := List.filter_sublist.eq_of_length lengths
  constructor
  · exact all ▸ occupied
  · intro g mem
    have foreign := List.filter_eq_self.mp all g mem
    simpa using foreign

theorem of_same_removed {F : UInt64 → Prop} {d : Nat} {map : Map} (stored : Stored F d (.obj map))
    (same : Option.Rel Same (removedHooks (map.lookup "hooks")) (map.lookup "hooks")) :
    NoneEmpty map ∧ Unwired map := by
  have events (hooks : Map) (found : map.lookup "hooks" = some (.obj hooks)) :
      hooks ≠ [] ∧ ∀ event ∈ spnrHookEvents, ∀ groups, hooks.lookup event = some (.arr groups) →
        groups ≠ [] ∧ ∀ g ∈ groups, groupIsSpnrHook g = false := by
    rw [found, removedHooks] at same
    split at same
    · cases same
    · rename_i occupied
      constructor
      · rintro rfl
        exact occupied rfl
      · intro event mem groups there
        have members : Same (.obj (removeEvents hooks)) (.obj hooks) := by
          cases same with
          | some members => exact members
        have one := members.members event
        rw [(removeEvents_spec (hooks_distinct stored found) event).2,
          if_pos (List.contains_iff_mem.mpr mem)] at one
        exact same_event there one
  constructor
  · intro hooks found
    obtain ⟨some_, arrays⟩ := events hooks found
    constructor
    · exact some_
    · intro event mem empty
      exact (arrays event mem [] empty).1 rfl
  · intro hooks found event mem groups there
    exact ((events hooks found).2 event mem groups there).2

def NoneOwned (map : Map) : Prop := ∀ k ∈ spnrOwnedKeys, map.lookup k = none

theorem hadAny_eq_false {map : Map} : hadAny map = false ↔ NoneOwned map := by
  simp only [hadAny, NoneOwned, List.any_eq_false, Bool.not_eq_true, Option.isSome_eq_false_iff,
    Option.isNone_iff_eq_none]

theorem stripMap_eq {map : Map} (unowned : NoneOwned map) : stripMap map = map :=
  foldl_unchanged _ fun k mem => swapRemove_absent (unowned k mem)

theorem lookup_stripMap {map : Map} (distinct : Distinct map) (k : String) :
    (stripMap map).lookup k = if spnrOwnedKeys.contains k then none else map.lookup k := by
  let gone (_ : Option Json) : Option Json := none
  have changes (m : Map) (a k : String) (distinct : Distinct m) :
      (swapRemove a m).lookup k = if k == a then gone (m.lookup k) else m.lookup k :=
        lookup_swapRemove distinct a k
  exact (lookup_foldl (fun _ a d => distinct_swapRemove d a) changes spnrOwnedKeys (by decide)
    map distinct k).2

theorem stored_stripMap {F : UInt64 → Prop} {d : Nat} {map : Map} (stored : Stored F d (.obj map)) :
    Stored F d (.obj (stripMap map)) := by
  let Kept (map : Map) : Prop := Stored F d (.obj map)
  exact List.foldlRecOn (motive := Kept) spnrOwnedKeys _ stored fun _ kept k _ => kept.swapRemove k

end Spnr.Settings
