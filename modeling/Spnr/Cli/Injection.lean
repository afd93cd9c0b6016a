import Spnr.Cli.KeyOrder
import Spnr.Lib.InsertOrder
import Spnr.Settings.Atomic
import Spnr.Settings.Wired

/-! Both injections only add to the settings file. They fail and leave it, or they
succeed; a second one changes nothing, and they may come in either order. -/
namespace Spnr.Cli

open IndexMap Json Settings Transition

variable {J : SerdeJson} {place : Place}

def injectedKeys : Option String → List String
  | some _ => ["spinnerVerbs", "statusLine"]
  | none => ["spinnerVerbs"]

structure KeepsInject (verbs : List String) (statusline : Option String)
    (map map' : Map) : Prop where
  rest : outside (injectedKeys statusline) map' = outside (injectedKeys statusline) map
  places : keys map <+: keys map'
  verbs : map'.lookup "spinnerVerbs" = some (spinnerVerbs verbs)
  line : ∀ cmd, statusline = some cmd → map'.lookup "statusLine" = some (statusLine cmd)

/-- The groups of the event stay, and at most the one of the command comes behind them. -/
def Grown (command : String) (hooks hooks' : Map) (event : String) : Prop :=
  ∃ groups added, (hooks.lookup event).getD (.arr []) = .arr groups ∧
    (added = [] ∨ added = [spnrGroup command]) ∧ hooks'.lookup event = some (.arr (groups ++ added))

structure KeepsHooks (command : String) (map map' : Map) : Prop where
  rest : outside ["hooks"] map' = outside ["hooks"] map
  places : keys map <+: keys map'
  events : ∃ hooks hooks', (map.lookup "hooks").getD (.obj []) = .obj hooks ∧
    map'.lookup "hooks" = some (.obj hooks') ∧
    outside spnrHookEvents hooks' = outside spnrHookEvents hooks ∧ keys hooks <+: keys hooks' ∧
    ∀ event ∈ spnrHookEvents, Grown command hooks hooks' event
  wired : Wired (· == command) map'

/-- An operation on the file that keeps of the object what `Keeps` says. -/
structure AppendOnly (J : SerdeJson) (place : Place)
    (op : Os → Disk → Disk × Except UpdateError Unit) (Keeps : Map → Map → Prop) : Prop where
  fails : ∀ os disk e, (op os disk).2 = .error e → (op os disk).1.target = disk.target
  succeeds : ∀ os disk, (op os disk).2 = .ok () →
    ∃ map map', readObject J place.path disk.target = .ok map ∧
    readObject J place.path (op os disk).1.target = .ok map' ∧ Keeps map map'
  twice : ∀ os disk, (op os (op os disk).1).1.target = (op os disk).1.target
  again : ∀ os os' disk, (op os disk).2 = .ok () →
    (op os' (op os disk).1).1.target = (op os disk).1.target

structure SameValues (map one two : Map) : Prop where
  values : ∀ k, one.lookup k = two.lookup k
  places : keys map <+: keys one ∧ keys map <+: keys two
  members : one.Perm two

/-- Two operations that both succeed on the file can follow each other in either order. -/
def Commute (J : SerdeJson) (place : Place) (op op' : Os → Disk → Disk × Except UpdateError Unit) :
    Prop :=
  ∀ os disk, (op os disk).2 = .ok () → (op' os disk).2 = .ok () →
    ∃ map one two, readObject J place.path disk.target = .ok map ∧
      op' os (op os disk).1 = (⟨some (serialize J one), none⟩, .ok ()) ∧
      op os (op' os disk).1 = (⟨some (serialize J two), none⟩, .ok ()) ∧
      readObject J place.path (some (serialize J one)) = .ok one ∧
      readObject J place.path (some (serialize J two)) = .ok two ∧ SameValues map one two

theorem injectMap_keeps (verbs : List String) (statusline : Option String) (map : Map) :
    KeepsInject verbs statusline map (injectMap verbs statusline map) := by
  constructor
  · cases statusline with
    | none => exact outside_insert List.mem_cons_self _ _
    | some cmd =>
      have verbsMine : "spinnerVerbs" ∈ ["spinnerVerbs", "statusLine"] := by decide
      have lineMine : "statusLine" ∈ ["spinnerVerbs", "statusLine"] := by decide
      exact (outside_insert lineMine _ _).trans (outside_insert verbsMine _ _)
  · have first := keys_prefix_insert map "spinnerVerbs" (spinnerVerbs verbs)
    cases statusline with
    | none => exact first
    | some cmd => exact first.trans (keys_prefix_insert _ _ _)
  · exact injectMap_verbs verbs statusline map
  · rintro cmd rfl
    exact injectMap_line verbs cmd map

theorem injectMap_twice (verbs : List String) (statusline : Option String) (map : Map) :
    injectMap verbs statusline (injectMap verbs statusline map) =
      injectMap verbs statusline map := by
  have same := injectMap_verbs verbs statusline map
  cases statusline with
  | none => exact insert_self same
  | some cmd =>
    calc injectMap verbs (some cmd) (injectMap verbs (some cmd) map)
        = insert "statusLine" (statusLine cmd) (injectMap verbs (some cmd) map) :=
          congrArg (insert "statusLine" (statusLine cmd)) (insert_self same)
      _ = injectMap verbs (some cmd) map := insert_self (injectMap_line verbs cmd map)

theorem grown_of_injectEvent {command : String} {hooks hooks' : Map} {event : String}
    (ok : injectEvent command hooks event = .ok hooks') : Grown command hooks hooks' event := by
  obtain ⟨groups, before, rfl⟩ := injectEvent_ok ok
  by_cases there : groups.any (groupHasExactCommand · command) = true
  · refine ⟨groups, [], before, .inl rfl, ?_⟩
    rw [lookup_insert, beq_self_eq_true, if_pos rfl, if_pos there, List.append_nil]
  · refine ⟨groups, [spnrGroup command], before, .inr rfl, ?_⟩
    rw [lookup_insert, beq_self_eq_true, if_pos rfl, if_neg there]

theorem lookup_injectEvent {command : String} {hooks hooks' : Map} {event k : String}
    (ok : injectEvent command hooks event = .ok hooks') (other : k ≠ event) :
    hooks'.lookup k = hooks.lookup k := by
  obtain ⟨groups, -, rfl⟩ := injectEvent_ok ok
  rw [lookup_insert, if_neg (by simpa using other)]

theorem lookup_injectPass {command : String} {events : List String} {hooks hooks' : Map}
    {k : String}
    (ok : events.foldlM (injectEvent command) hooks = .ok hooks') (other : k ∉ events) :
    hooks'.lookup k = hooks.lookup k := by
  apply foldlM_keeps (fun now => now.lookup k = hooks.lookup k) ?_ rfl ok
  intro event mem now now' kept turn
  exact (lookup_injectEvent turn fun same => other (by rwa [same])).trans kept

theorem injectPass_grows {command : String} {events : List String} (apart : events.Nodup)
    {hooks hooks' : Map}
    (ok : events.foldlM (injectEvent command) hooks = .ok hooks') :
    ∀ event ∈ events, Grown command hooks hooks' event := by
  induction events generalizing hooks with
  | nil => exact fun event mem => absurd mem List.not_mem_nil
  | cons first events ih =>
    obtain ⟨fresh, rest⟩ := List.nodup_cons.mp apart
    obtain ⟨mid, turn, later⟩ := foldlM_cons_ok ok
    intro event mem
    rcases List.mem_cons.mp mem with rfl | behind
    · obtain ⟨groups, added, before, few, after⟩ := grown_of_injectEvent turn
      exact ⟨groups, added, before, few, (lookup_injectPass later fresh).trans after⟩
    · obtain ⟨groups, added, before, few, after⟩ := ih rest later event behind
      rw [lookup_injectEvent turn fun same => fresh (same ▸ behind)] at before
      exact ⟨groups, added, before, few, after⟩

theorem injectPass_outside {command : String} {hooks hooks' : Map}
    (ok : spnrHookEvents.foldlM (injectEvent command) hooks = .ok hooks') :
    outside spnrHookEvents hooks' = outside spnrHookEvents hooks ∧ keys hooks <+: keys hooks' := by
  apply foldlM_keeps
    (fun now => outside spnrHookEvents now = outside spnrHookEvents hooks ∧ keys hooks <+: keys now)
    ?_ ⟨rfl, List.prefix_rfl⟩ ok
  rintro event mem now now' ⟨rest, places⟩ turn
  obtain ⟨groups, -, rfl⟩ := injectEvent_ok turn
  constructor
  · rw [outside_insert mem, rest]
  · exact places.trans (keys_prefix_insert _ _ _)

theorem injectHooksMap_keeps_others {command : String} {map map' : Map}
    (ok : injectHooksMap command map = .ok map') : KeepsHooks command map map' := by
  have wired : Wired (· == command) map' :=
    injectHooksMap_wires (p := (· == command)) (beq_self_eq_true command) ok
  obtain ⟨hooks, hooks', before, pass, rfl⟩ := injectHooksMap_ok ok
  obtain ⟨others, places⟩ := injectPass_outside pass
  constructor
  · exact outside_insert List.mem_cons_self _ _
  · exact keys_prefix_insert _ _ _
  · refine ⟨hooks, hooks', before, ?_, others, places, injectPass_grows (by decide) pass⟩
    rw [lookup_insert, beq_self_eq_true, if_pos rfl]
  · exact wired

theorem injectEvent_settled {command : String} {hooks : Map} {event : String}
    (has : HasGroup (· == command) hooks event) : injectEvent command hooks event = .ok hooks := by
  obtain ⟨groups, found, runs⟩ := has
  have there : groups.any (groupHasExactCommand · command) = true := runs
  simp only [injectEvent, found, Option.getD_some, if_pos there]
  rw [insert_self found]

theorem injectHooksMap_settled {command : String} {map : Map} (wired : Wired (· == command) map) :
    injectHooksMap command map = .ok map := by
  obtain ⟨hooks, found, has⟩ := wired
  have pass : spnrHookEvents.foldlM (injectEvent command) hooks = .ok hooks :=
    foldlM_settled fun event mem => injectEvent_settled (has event mem)
  simp only [injectHooksMap, found, Option.getD_some, pass]
  change Except.ok (insert "hooks" (.obj hooks) map) = _
  rw [insert_self found]

section

variable {change : Map → Except SettingsError (Option Map)} (writes : ∀ map, change map ≠ .ok none)
include writes

theorem updateOn_wrote {os : Os} {disk : Disk} (ok : (updateOn J place change os disk).2 = .ok ()) :
    ∃ map map', os.Calm ∧ readObject J place.path disk.target = .ok map ∧
    change map = .ok (some map') ∧
      updateOn J place change os disk = (⟨some (serialize J map'), none⟩, .ok ()) := by
  rcases updateOn_cases (J := J) os disk with ⟨e, error, -⟩ | ⟨map, nothing, -⟩ | wrote
  · rw [error] at ok
    cases ok
  · exact absurd nothing (writes map)
  · exact wrote

theorem updateOn_failed {os : Os} {disk : Disk} {e : UpdateError}
    (error : (updateOn J place change os disk).2 = .error e) :
    (updateOn J place change os disk).1.target = disk.target := by
  rcases updateOn_cases (J := J) os disk with ⟨_, -, same⟩ | ⟨map, nothing, -⟩ | ⟨_, _, -,
    -, -, wrote⟩
  · exact same
  · exact absurd nothing (writes map)
  · rw [wrote] at error
    cases error

theorem updateOn_settled {os : Os} {disk : Disk} {map : Map}
    (stored : Stored J.IsFloat 127 (.obj map))
    (held : disk.target = some (serialize J map)) (settled : change map = .ok (some map)) :
    (updateOn J place change os disk).1.target = disk.target := by
  cases result : (updateOn J place change os disk).2 with
  | error e => exact updateOn_failed writes result
  | ok _ =>
    obtain ⟨now, now', -, reads, changes, wrote⟩ := updateOn_wrote writes result
    rw [held, readObject_serialize stored] at reads
    obtain rfl : map = now := Except.ok.inj reads
    obtain rfl : map = now' := Option.some.inj (Except.ok.inj (settled.symm.trans changes))
    rw [wrote, held]

theorem appendOnly_of {Keeps : Map → Map → Prop}
    (keeps : ∀ map map', change map = .ok (some map') → Keeps map map')
    (stays : ∀ map map', Stored J.IsFloat 127 (.obj map) → change map = .ok (some map') →
      Stored J.IsFloat 127 (.obj map'))
    (settled : ∀ map map', change map = .ok (some map') → change map' = .ok (some map')) :
    AppendOnly J place (updateOn J place change) Keeps := by
  have again (os os' : Os) (disk : Disk) (ok : (updateOn J place change os disk).2 = .ok ()) :
      (updateOn J place change os' (updateOn J place change os disk).1).1.target =
        (updateOn J place change os disk).1.target := by
    obtain ⟨map, map', -, reads, changes, wrote⟩ := updateOn_wrote writes ok
    rw [wrote]
    exact updateOn_settled writes (stays map map' (readObject_stored reads) changes) rfl
      (settled map map' changes)
  constructor
  · exact fun os disk e error => updateOn_failed writes error
  · intro os disk ok
    obtain ⟨map, map', -, reads, changes, wrote⟩ := updateOn_wrote writes ok
    refine ⟨map, map', reads, ?_, keeps map map' changes⟩
    rw [wrote]
    exact readObject_serialize (stays map map' (readObject_stored reads) changes) place.path
  · intro os disk
    cases first : (updateOn J place change os disk).2 with
    | ok _ => exact again os os disk first
    | error e =>
      cases second : (updateOn J place change os (updateOn J place change os disk).1).2 with
      | error e => exact updateOn_failed writes second
      | ok _ =>
        -- a success on the same bytes would have been one the first time
        obtain ⟨map, map', calm, reads, changes, -⟩ := updateOn_wrote writes second
        rw [updateOn_failed writes first] at reads
        rw [updateOn_writes calm reads changes] at first
        cases first
  · exact again

end

theorem changes_injectHooks {command : String} {map map' : Map}
    (changes : (injectHooksMap command map).map some = .ok (some map')) :
    injectHooksMap command map = .ok map' := by
  cases pass : injectHooksMap command map with
  | error e =>
    rw [pass] at changes
    cases changes
  | ok out =>
    rw [pass] at changes
    rw [Option.some.inj (Except.ok.inj changes)]

theorem inject_writes (verbs : List String) (statusline : Option String) (map : Map) :
    (Except.ok (some (injectMap verbs statusline map)) : Except SettingsError (Option Map)) ≠
      .ok none := nofun

theorem injectHooks_writes (command : String) (map : Map) :
    (injectHooksMap command map).map some ≠ .ok none := by
  intro nothing
  cases pass : injectHooksMap command map with
  | error e =>
    rw [pass] at nothing
    cases nothing
  | ok out =>
    rw [pass] at nothing
    cases nothing

theorem inject_appends (verbs : List String) (statusline : Option String) :
    AppendOnly J place (injectOn J place verbs statusline) (KeepsInject verbs statusline) := by
  apply appendOnly_of (inject_writes verbs statusline)
  · intro map map' changes
    obtain rfl := Option.some.inj (Except.ok.inj changes)
    exact injectMap_keeps verbs statusline map
  · intro map map' stored changes
    obtain rfl := Option.some.inj (Except.ok.inj changes)
    exact stored_injectMap (d := 124) stored verbs statusline
  · intro map map' changes
    obtain rfl := Option.some.inj (Except.ok.inj changes)
    exact congrArg (fun now => Except.ok (some now)) (injectMap_twice verbs statusline map)

theorem injectHooks_appends (command : String) :
    AppendOnly J place (injectHooksOn J place command) (KeepsHooks command) := by
  apply appendOnly_of (injectHooks_writes command)
  · exact fun map map' changes => injectHooksMap_keeps_others (changes_injectHooks changes)
  · exact fun map map' stored changes =>
      stored_injectHooksMap (d := 121) (changes_injectHooks changes) stored
  · intro map map' changes
    have wired := (injectHooksMap_keeps_others (changes_injectHooks changes)).wired
    rw [injectHooksMap_settled wired]
    rfl

theorem injectHooksMap_congr {command : String} {map map' other : Map}
    (ok : injectHooksMap command map = .ok map')
    (same : other.lookup "hooks" = map.lookup "hooks") :
    ∃ hooks, map' = insert "hooks" hooks map ∧
    injectHooksMap command other = .ok (insert "hooks" hooks other) := by
  obtain ⟨hooks, hooks', before, pass, rfl⟩ := injectHooksMap_ok ok
  refine ⟨.obj hooks', rfl, ?_⟩
  simp only [injectHooksMap, same, before, pass]
  rfl

theorem lookup_either (verbs : List String) (statusline : Option String) (hooks : Json) (map : Map)
    (k : String) : (insert "hooks" hooks (injectMap verbs statusline map)).lookup k =
      (injectMap verbs statusline (insert "hooks" hooks map)).lookup k := by
  by_cases here : k = "hooks"
  · subst here
    rw [lookup_injectMap verbs statusline _ (by decide), lookup_insert, lookup_insert]
    rfl
  · have other : ¬(k == "hooks") = true := by simpa using here
    rw [lookup_insert, if_neg other]
    cases statusline <;> simp only [injectMap, lookup_insert, if_neg other]

theorem injections_commute (verbs : List String) (statusline : Option String) (command : String) :
    Commute J place (injectOn J place verbs statusline) (injectHooksOn J place command) := by
  intro os disk ok ok'
  obtain ⟨map, verbsOnly, calm, reads, change, wrote⟩ :=
    updateOn_wrote (inject_writes verbs statusline) ok
  obtain ⟨map', hooksOnly, -, reads', changes, wrote'⟩ :=
    updateOn_wrote (injectHooks_writes command) ok'
  obtain rfl : injectMap verbs statusline map = verbsOnly := Option.some.inj (Except.ok.inj change)
  obtain rfl : map = map' := Except.ok.inj (reads.symm.trans reads')
  have change' := changes_injectHooks changes
  have stored := readObject_stored reads
  have storedVerbs : Stored J.IsFloat 127 (.obj (injectMap verbs statusline map)) :=
    stored_injectMap (d := 124) stored verbs statusline
  have storedHooks : Stored J.IsFloat 127 (.obj hooksOnly) :=
    stored_injectHooksMap (d := 121) change' stored
  obtain ⟨hooks, rfl, later⟩ :=
    injectHooksMap_congr change' (lookup_injectMap verbs statusline map (by decide))
  have storedOne := stored_injectHooksMap (d := 121) later storedVerbs
  have storedTwo := stored_injectMap (d := 124) storedHooks verbs statusline
  refine ⟨map, insert "hooks" hooks (injectMap verbs statusline map),
    injectMap verbs statusline (insert "hooks" hooks map),
    reads, ?_, ?_, readObject_serialize storedOne _, readObject_serialize storedTwo _, ?_⟩
  · rw [injectOn, wrote]
    exact updateOn_writes calm (readObject_serialize storedVerbs place.path)
      (congrArg (Except.map some) later)
  · rw [injectHooksOn, wrote']
    exact updateOn_writes calm (readObject_serialize storedHooks place.path) rfl
  · obtain ⟨_, _, distinctOne, _⟩ := storedOne.members
    obtain ⟨_, _, distinctTwo, _⟩ := storedTwo.members
    have values := lookup_either verbs statusline hooks map
    refine ⟨values, ⟨?_, ?_⟩, perm_of_lookup distinctOne distinctTwo values⟩
    · exact (injectMap_keeps verbs statusline map).places.trans (keys_prefix_insert _ _ _)
    · exact (keys_prefix_insert _ _ _).trans (injectMap_keeps verbs statusline _).places

/-- What a successful injection adds, and that it adds nothing else, on every file
and with every failure. -/
theorem injections_append (J : SerdeJson) (place : Place) (verbs : List String)
    (statusline : Option String) (command : String) :
    AppendOnly J place (injectOn J place verbs statusline) (KeepsInject verbs statusline) ∧
      AppendOnly J place (injectHooksOn J place command) (KeepsHooks command) ∧
      Commute J place (injectOn J place verbs statusline) (injectHooksOn J place command) :=
  ⟨inject_appends verbs statusline, injectHooks_appends command,
    injections_commute verbs statusline command⟩

end Spnr.Cli
