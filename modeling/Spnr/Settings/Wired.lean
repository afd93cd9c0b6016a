import Spnr.Settings.Foreign

/-! The groups that `inject_hooks` puts under the three events, and what keeps them there. -/
namespace Spnr.Settings

open IndexMap Json Transition

def HasGroup (p : String → Bool) (hooks : Map) (event : String) : Prop :=
  ∃ groups, hooks.lookup event = some (.arr groups) ∧ groups.any (groupRuns p) = true

/-- Each of the three events has such a group. -/
def Wired (p : String → Bool) (map : Map) : Prop :=
  ∃ hooks, map.lookup "hooks" = some (.obj hooks) ∧ ∀ event ∈ spnrHookEvents, HasGroup p hooks event

theorem groupRuns_of_exact {p : String → Bool} {command : String} (accepts : p command = true)
    {group : Json}
    (exact_ : groupHasExactCommand group command = true) : groupRuns p group = true := by
  unfold groupHasExactCommand groupRuns at exact_
  unfold groupRuns
  obtain ⟨hook, mem, runs⟩ := List.any_eq_true.mp exact_
  refine List.any_eq_true.mpr ⟨hook, mem, ?_⟩
  obtain ⟨text, found, same⟩ := (Option.any_eq_true _ _).mp runs
  rw [found, Option.any_some, eq_of_beq same]
  exact accepts

theorem injectEvent_wires {p : String → Bool} {command : String} (accepts : p command = true)
    {hooks hooks' : Map}
    {event : String} (ok : injectEvent command hooks event = .ok hooks') :
    HasGroup p hooks' event := by
  obtain ⟨groups, -, rfl⟩ := injectEvent_ok ok
  refine ⟨_, by rw [lookup_insert, beq_self_eq_true, if_pos rfl], ?_⟩
  split
  · rename_i there
    obtain ⟨group, mem, exact_⟩ := List.any_eq_true.mp there
    exact List.any_eq_true.mpr ⟨group, mem, groupRuns_of_exact accepts exact_⟩
  · rw [List.any_append, List.any_cons, groupRuns_spnrGroup, accepts, Bool.true_or, Bool.or_true]

theorem injectEvent_keeps {p : String → Bool} {command : String} {hooks hooks' : Map}
    {event k : String}
    (kept : HasGroup p hooks k) (ok : injectEvent command hooks event = .ok hooks') :
    HasGroup p hooks' k := by
  obtain ⟨before, old, rfl⟩ := injectEvent_ok ok
  obtain ⟨groups, found, runs⟩ := kept
  unfold HasGroup
  rw [lookup_insert]
  by_cases here : k = event
  · subst here
    rw [found] at old
    obtain rfl : groups = before := Json.arr.inj old
    refine ⟨_, by rw [beq_self_eq_true, if_pos rfl], ?_⟩
    split
    · exact runs
    · rw [List.any_append, runs, Bool.true_or]
  · rw [if_neg (by simpa using here)]
    exact ⟨groups, found, runs⟩

theorem injectPass_wires {p : String → Bool} {command : String} (accepts : p command = true)
    {events : List String}
    {hooks hooks' : Map} (ok : events.foldlM (injectEvent command) hooks = .ok hooks') :
    ∀ event ∈ events, HasGroup p hooks' event := by
  induction events generalizing hooks with
  | nil => exact fun event mem => absurd mem List.not_mem_nil
  | cons first events ih =>
    obtain ⟨mid, turn, rest⟩ := foldlM_cons_ok ok
    intro event mem
    rcases List.mem_cons.mp mem with rfl | later
    · exact foldlM_keeps (HasGroup p · event) (fun _ _ _ _ kept ok => injectEvent_keeps kept ok)
        (injectEvent_wires accepts turn) rest
    · exact ih rest event later

theorem injectHooksMap_wires {p : String → Bool} {command : String} (accepts : p command = true)
    {map map' : Map} (ok : injectHooksMap command map = .ok map') : Wired p map' := by
  obtain ⟨hooks, hooks', -, pass, rfl⟩ := injectHooksMap_ok ok
  exact ⟨hooks', by rw [lookup_insert, beq_self_eq_true, if_pos rfl], injectPass_wires accepts pass⟩

theorem Wired.congr {p : String → Bool} {map map' : Map} (wired : Wired p map)
    (same : map'.lookup "hooks" = map.lookup "hooks") : Wired p map' := by
  obtain ⟨hooks, found, groups⟩ := wired
  exact ⟨hooks, same.trans found, groups⟩

theorem lookup_injectHooksMap {command : String} {map map' : Map}
    (ok : injectHooksMap command map = .ok map')
    {k : String} (other : k ≠ "hooks") : map'.lookup k = map.lookup k := by
  obtain ⟨hooks, hooks', -, -, rfl⟩ := injectHooksMap_ok ok
  rw [lookup_insert, if_neg (by simpa using other)]

end Spnr.Settings
