import Spnr.Lib.Run
import Spnr.Settings.Removal

/-! The part of the settings that is not spnr's: every key but the owned ones, and under `hooks`
the groups that do not refer to the hook binary. Injecting and removing keep it. -/
namespace Spnr.Settings

open IndexMap Json Transition

/-- What one event holds for others: its groups, or a value of another shape. -/
inductive Slot where
  | groups (foreign : List Json)
  | odd (v : Json)

def slot : Option Json → Slot
  | none => .groups []
  | some (.arr groups) => .groups (groups.filter fun g => !groupIsSpnrHook g)
  | some v => .odd v

def eventSlot (map : Map) (event : String) : Slot :=
  match map.lookup "hooks" with
  | none => .groups []
  | some (.obj hooks) => slot (hooks.lookup event)
  | some v => .odd v

/-- The foreign parts of two objects are the same. -/
structure SameForeign (map map' : Map) : Prop where
  keys : ∀ k, k ∉ spnrOwnedKeys → k ≠ "hooks" → map.lookup k = map'.lookup k
  events : ∀ event, eventSlot map event = eventSlot map' event

namespace SameForeign

theorem rfl (map : Map) : SameForeign map map := ⟨fun _ _ _ => Eq.refl _, fun _ => Eq.refl _⟩

theorem symm {map map' : Map} (h : SameForeign map map') : SameForeign map' map :=
  ⟨fun k foreign other => (h.keys k foreign other).symm, fun event => (h.events event).symm⟩

theorem trans {map map' map'' : Map} (h : SameForeign map map') (h' : SameForeign map' map'') :
    SameForeign map map'' :=
  ⟨fun k foreign other => (h.keys k foreign other).trans (h'.keys k foreign other),
    fun event => (h.events event).trans (h'.events event)⟩

end SameForeign

theorem lookup_injectMap (verbs : List String) (statusline : Option String) (map : Map) {k : String}
    (foreign : k ∉ spnrOwnedKeys) : (injectMap verbs statusline map).lookup k = map.lookup k := by
  have verbsOther : (k == "spinnerVerbs") = false := by
    rw [beq_eq_false_iff_ne]
    rintro rfl
    exact foreign (by decide)
  have lineOther : (k == "statusLine") = false := by
    rw [beq_eq_false_iff_ne]
    rintro rfl
    exact foreign (by decide)
  cases statusline <;> simp [injectMap, lookup_insert, verbsOther, lineOther]

theorem injectMap_verbs (verbs : List String) (statusline : Option String) (map : Map) :
    (injectMap verbs statusline map).lookup "spinnerVerbs" = some (spinnerVerbs verbs) := by
  cases statusline with
  | none => rw [injectMap, lookup_insert, beq_self_eq_true, if_pos rfl]
  | some cmd =>
    rw [injectMap, lookup_insert, if_neg (by decide), lookup_insert, beq_self_eq_true, if_pos rfl]

theorem injectMap_line (verbs : List String) (cmd : String) (map : Map) :
    (injectMap verbs (some cmd) map).lookup "statusLine" = some (statusLine cmd) := by
  rw [injectMap, lookup_insert, beq_self_eq_true, if_pos rfl]

theorem injectMap_foreign (verbs : List String) (statusline : Option String) (map : Map) :
    SameForeign (injectMap verbs statusline map) map := by
  constructor
  · intro k foreign _
    exact lookup_injectMap verbs statusline map foreign
  · intro event
    unfold eventSlot
    rw [lookup_injectMap verbs statusline map (by decide)]

theorem groupRuns_spnrGroup (p : String → Bool) (command : String) :
    groupRuns p (spnrGroup command) = p command := by
  simp [groupRuns, spnrGroup, get, List.lookup_cons, Serde.asArray, Serde.asString]

theorem injectEvent_ok {command : String} {hooks hooks' : Map} {event : String}
    (ok : injectEvent command hooks event = .ok hooks') :
    ∃ groups, (hooks.lookup event).getD (.arr []) = .arr groups ∧
      hooks' = insert event (.arr (if groups.any (groupHasExactCommand · command) then groups
        else groups ++ [spnrGroup command])) hooks := by
  unfold injectEvent at ok
  split at ok
  · rename_i groups before
    exact ⟨groups, before, (Except.ok.inj ok).symm⟩
  · cases ok

theorem slot_injectEvent {command : String} (spnr : isSpnrHookCommand command = true)
    {hooks hooks' : Map}
    {event : String} (ok : injectEvent command hooks event = .ok hooks') (k : String) :
    slot (hooks'.lookup k) = slot (hooks.lookup k) := by
  obtain ⟨groups, before, rfl⟩ := injectEvent_ok ok
  rw [lookup_insert]
  split
  · rename_i here
    obtain rfl : k = event := eq_of_beq here
    have held : slot (hooks.lookup k) = .groups (groups.filter fun g => !groupIsSpnrHook g) := by
      cases found : hooks.lookup k with
      | none =>
        rw [found] at before
        injection before with before
        subst before
        rfl
      | some v =>
        rw [found] at before
        obtain rfl : v = .arr groups := before
        rfl
    have own : groupIsSpnrHook (spnrGroup command) = true := (groupRuns_spnrGroup _ _).trans spnr
    rw [held]
    change Slot.groups (List.filter _ _) = _
    split
    · rfl
    · simp [List.filter_append, own]
  · rfl

theorem stored_hook (F : UInt64 → Prop) (command : String) :
    Stored F 1 (.obj [("type", .str "command"), ("command", .str command)]) := by
  apply Stored.obj (by simp [Distinct])
  intro m mem
  rcases List.mem_pair.mp mem with rfl | rfl
  · exact .str _
  · exact .str _

theorem stored_spnrGroup (F : UInt64 → Prop) (command : String) :
    Stored F 3 (spnrGroup command) := by
  apply Stored.obj (by simp [Distinct])
  intro m mem
  rcases List.mem_pair.mp mem with rfl | rfl
  · exact .str _
  · apply Stored.arr
    intro v mem
    rw [List.mem_singleton.mp mem]
    exact stored_hook F command

theorem stored_injectEvent {F : UInt64 → Prop} {d : Nat} {command : String} {hooks hooks' : Map}
    {event : String}
    (ok : injectEvent command hooks event = .ok hooks') (stored : Stored F (d + 5) (.obj hooks)) :
    Stored F (d + 5) (.obj hooks') := by
  obtain ⟨groups, before, rfl⟩ := injectEvent_ok ok
  have old : Stored F (d + 4) (.arr groups) := by
    cases found : hooks.lookup event with
    | none =>
      rw [found] at before
      injection before with before
      subst before
      exact .arr (by simp)
    | some v =>
      rw [found] at before
      obtain rfl : v = .arr groups := before
      exact stored.lookup found
  apply stored.insert
  split
  · exact old
  · obtain ⟨e, depth, items⟩ := old.items
    obtain rfl : d + 3 = e := by omega
    apply Stored.arr
    intro v mem
    rcases List.mem_append.mp mem with there | new
    · exact items v there
    · rw [List.mem_singleton.mp new]
      exact (stored_spnrGroup F command).mono (by omega)

theorem injectHooksMap_ok {command : String} {map map' : Map}
    (ok : injectHooksMap command map = .ok map') :
    ∃ hooks hooks', (map.lookup "hooks").getD (.obj []) = .obj hooks ∧
      spnrHookEvents.foldlM (injectEvent command) hooks = .ok hooks' ∧
      map' = insert "hooks" (.obj hooks') map := by
  unfold injectHooksMap at ok
  split at ok
  · rename_i hooks before
    cases pass : spnrHookEvents.foldlM (injectEvent command) hooks with
    | error e =>
      rw [pass] at ok
      cases ok
    | ok hooks' =>
      rw [pass] at ok
      exact ⟨hooks, hooks', before, pass, (Except.ok.inj ok).symm⟩
  · cases ok

theorem injectHooksMap_foreign {command : String} (spnr : isSpnrHookCommand command = true)
    {map map' : Map} (ok : injectHooksMap command map = .ok map') : SameForeign map' map := by
  obtain ⟨hooks, hooks', before, pass, rfl⟩ := injectHooksMap_ok ok
  let Kept (now : Map) : Prop := ∀ k, slot (now.lookup k) = slot (hooks.lookup k)
  have slots : Kept hooks' := foldlM_keeps Kept
    (fun _ _ _ _ kept ok k => (slot_injectEvent spnr ok k).trans (kept k)) (fun _ => rfl) pass
  constructor
  · intro k _ other
    rw [lookup_insert, if_neg (by simpa using other)]
  · intro event
    unfold eventSlot
    rw [lookup_insert, beq_self_eq_true, if_pos rfl]
    change slot (hooks'.lookup event) = _
    rw [slots event]
    cases found : map.lookup "hooks" with
    | none =>
      rw [found] at before
      injection before with before
      subst before
      rfl
    | some v =>
      rw [found] at before
      obtain rfl : v = .obj hooks := before
      rfl

theorem stored_injectHooksMap {F : UInt64 → Prop} {d : Nat} {command : String} {map map' : Map}
    (ok : injectHooksMap command map = .ok map') (stored : Stored F (d + 6) (.obj map)) :
    Stored F (d + 6) (.obj map') := by
  obtain ⟨hooks, hooks', before, pass, rfl⟩ := injectHooksMap_ok ok
  have old : Stored F (d + 5) (.obj hooks) := by
    cases found : map.lookup "hooks" with
    | none =>
      rw [found] at before
      injection before with before
      subst before
      exact .obj List.nodup_nil (by simp)
    | some v =>
      rw [found] at before
      obtain rfl : v = .obj hooks := before
      exact stored.lookup found
  let Kept (now : Map) : Prop := Stored F (d + 5) (.obj now)
  have new : Kept hooks' :=
    foldlM_keeps Kept (fun _ _ _ _ kept ok => stored_injectEvent ok kept) old pass
  exact stored.insert new "hooks"

theorem stored_statusLine {F : UInt64 → Prop} {d : Nat} (cmd : String) :
    Stored F (d + 1) (statusLine cmd) := by
  apply Stored.obj (by simp [Distinct])
  intro m mem
  simp only [List.mem_cons, List.not_mem_nil, or_false] at mem
  rcases mem with rfl | rfl | rfl
  · exact .str _
  · exact .str _
  · exact .int (by decide) (by decide)

theorem stored_injectMap {F : UInt64 → Prop} {d : Nat} {map : Map}
    (stored : Stored F (d + 3) (.obj map))
    (verbs : List String) (statusline : Option String) :
    Stored F (d + 3) (.obj (injectMap verbs statusline map)) := by
  have verbsValue : Stored F (d + 2) (spinnerVerbs verbs) := by
    apply Stored.obj (by simp [Distinct])
    intro m mem
    rcases List.mem_pair.mp mem with rfl | rfl
    · exact .str _
    · apply Stored.arr
      intro v mem
      obtain ⟨s, -, rfl⟩ := List.mem_map.mp mem
      exact .str s
  have first := stored.insert verbsValue "spinnerVerbs"
  cases statusline with
  | none => exact first
  | some cmd => exact first.insert (stored_statusLine cmd) "statusLine"

end Spnr.Settings
