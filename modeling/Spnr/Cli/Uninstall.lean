import Spnr.Cli.Commands
import Spnr.Settings.Without

/-! What pausing and uninstalling give back: the settings as they were when the first
snapshot was taken, less what `remove_hooks` takes from them. -/
namespace Spnr.Cli

open IndexMap Json Settings

variable {J : SerdeJson}

theorem same_removed {map : Map} (stored : Json.Stored J.IsFloat 127 (.obj map)) :
    Option.Rel Same (some (.obj (removed map))) (some (.obj map)) ↔ NoneEmpty map ∧ Unwired map :=
  (withoutSpnr_iff stored).symm.trans (withoutSpnr_self stored)

theorem same_stripped {map left : Map} (stored : Json.Stored J.IsFloat 127 (.obj map))
    (owned : ∀ k ∈ spnrOwnedKeys, left.lookup k = (stripMap map).lookup k)
    (same : Option.Rel Same (some (.obj left)) (some (.obj map))) : NoneOwned map := by
  intro k mem
  obtain ⟨_, _, distinct, _⟩ := stored.members
  have members : Same (.obj left) (.obj map) := by
    cases same with
    | some members => exact members
  have one := members.members k
  rw [owned k mem, lookup_stripMap distinct, if_pos (List.contains_iff_mem.mpr mem)] at one
  generalize map.lookup k = value at one ⊢
  cases one
  rfl

theorem removed_owned {map : Map} (distinct : Distinct map) {k : String} (mem : k ∈ spnrOwnedKeys) :
    (removed map).lookup k = map.lookup k := by
  have other : k ≠ "hooks" := by
    rintro rfl
    revert mem
    decide
  rw [lookup_removed distinct, if_neg (by simpa using other)]

theorem same_uninstalled {map : Map} (stored : Json.Stored J.IsFloat 127 (.obj map)) :
    Option.Rel Same (some (.obj (removed (stripMap map)))) (some (.obj map)) ↔
      NoneOwned map ∧ NoneEmpty map ∧ Unwired map := by
  constructor
  · intro same
    obtain ⟨_, _, distinct, _⟩ := (stored_stripMap stored).members
    have unowned := same_stripped stored (fun k mem => removed_owned distinct mem) same
    rw [stripMap_eq unowned] at same
    exact ⟨unowned, (same_removed stored).mp same⟩
  · rintro ⟨unowned, rest⟩
    rw [stripMap_eq unowned]
    exact (same_removed stored).mpr rest

theorem restored_parsed {f : Files} {map : Map} (stored : Json.Stored J.IsFloat 127 (.obj map))
    (taken : f.backup = some (serialize J map)) :
    parsed J (restore J f).1.settings = some (.obj map) := by
  have reads : J.fromSlice (serialize J map) = .ok (.obj map) :=
    parsed_some.mp (parsed_serialize stored)
  rw [restore_snapshot taken reads]
  exact parsed_serialize stored

theorem steps_backup {f : Files} {snap : List UInt8} (taken : f.backup = some snap)
    (steps : List SpnrStep) : (steps.foldl (spnrStep J) f).backup = some snap := by
  induction steps generalizing f with
  | nil => exact taken
  | cons s steps ih => exact ih ((spnrStep_backup (snapshot_kept taken) s).trans taken)

theorem first_backup {f : Files} {map : Map} (fresh : f.backup = none)
    (reads : parsed J f.settings = some (.obj map)) (s : SpnrStep) :
    (spnrStep J f s).backup = some (serialize J map) :=
  spnrStep_backup (snapshot_fresh fresh reads) s

theorem update_odd {f : Files} {v : Json} (reads : parsed J f.settings = some v)
    (odd : ∀ map, v ≠ .obj map)
    (change : Map → Except SettingsError (Option Map)) : (update J change f).1 = f := by
  cases there : f.settings with
  | none =>
    rw [there] at reads
    cases reads
  | some bytes =>
    rw [there] at reads
    unfold update readObject
    rw [there]
    simp only [parsed_some.mp reads]

theorem doUninstall_odd {f : Files} {v : Json}
    (restored : parsed J (restore J f).1.settings = some v)
    (odd : ∀ map, v ≠ .obj map) : (doUninstall J f).settings = (restore J f).1.settings := by
  have same := update_odd restored odd (fun map => .ok (removeHooksMap map))
  change (removeHooks J (restore J f).1).1.settings = _
  rw [removeHooks, same]

def setOwned (k : String) (o : Option Json) : SpnrStep → Option Json
  | .install _ => o
  | .start verbs line =>
    if k = "spinnerVerbs" then some (spinnerVerbs verbs) else (line.map statusLine).or o

def lastOwned (map : Map) (steps : List SpnrStep) (k : String) : Option Json :=
  steps.foldl (setOwned k) (map.lookup k)

/-- What an uninstall after these steps of spnr gives back is the object from before them. A backup
that is there stays, so that it has to be this object with nothing but groups of spnr in addition;
where it cannot be read, the settings stay as spnr left them. -/
def Undoes (J : SerdeJson) (f : Files) (map : Map) (steps : List SpnrStep) : Prop :=
  match f.backup with
  | none => NoneEmpty map ∧ (steps = [] → NoneOwned map)
  | some snap =>
    match parsed J (some snap) with
    | some v => ∃ original, v = .obj original ∧ WithoutSpnr original map
    | none => NoneEmpty map ∧
        ∀ k ∈ spnrOwnedKeys, Option.Rel Same (lastOwned map steps k) (map.lookup k)

/-- What steps of spnr make of the object. -/
structure Since (map : Map) (steps : List SpnrStep) (now : Map) : Prop where
  keys : ∀ k, k ∉ spnrOwnedKeys → k ≠ "hooks" → now.lookup k = map.lookup k
  owned : ∀ k ∈ spnrOwnedKeys, now.lookup k = lastOwned map steps k
  hooks : ∀ o, HooksWithout (now.lookup "hooks") o ↔ HooksWithout (map.lookup "hooks") o

theorem hooks_not_owned : "hooks" ∉ spnrOwnedKeys := by decide

theorem lookup_injectMap_owned (verbs : List String) (line : Option String) (map : Map) {k : String}
    (own : k ∈ spnrOwnedKeys) :
    (injectMap verbs line map).lookup k = setOwned k (map.lookup k) (.start verbs line) := by
  rcases List.mem_pair.mp own with rfl | rfl
  · exact injectMap_verbs verbs line map
  · cases line with
    | none => rw [injectMap, lookup_insert, if_neg (by decide), setOwned, if_neg (by decide)]; rfl
    | some cmd => exact injectMap_line verbs cmd map

theorem spnrStep_since {f : Files} {snap : List UInt8} {map : Map} (taken : f.backup = some snap)
    (reads : parsed J f.settings = some (.obj map)) (s : SpnrStep) :
    ∃ now, parsed J (spnrStep J f s).settings = some (.obj now) ∧ Since map [s] now := by
  have kept := snapshot_kept (J := J) taken
  cases s with
  | install bindir =>
    obtain ⟨now, reads', same | ok⟩ := injectHooks_parsed reads (bindir ++ "/spnr-hook")
    · refine ⟨now, by rw [spnrStep, doInstall_eq bindir kept, reads'], ?_⟩
      subst same
      exact ⟨fun _ _ _ => rfl, fun _ _ => rfl, fun _ => .rfl⟩
    · refine ⟨now, by rw [spnrStep, doInstall_eq bindir kept, reads'], ?_, ?_, ?_⟩
      · exact fun k _ other => lookup_injectHooksMap ok other
      · intro k own
        exact lookup_injectHooksMap ok (fun same => hooks_not_owned (same ▸ own))
      · exact hooksWithout_injectHooksMap (isSpnrHookCommand_append bindir) ok
  | start verbs line =>
    refine ⟨_, by rw [spnrStep, tryInject_eq verbs line kept, inject_parsed reads], ?_, ?_, ?_⟩
    · exact fun k foreign _ => lookup_injectMap verbs line map foreign
    · exact fun k own => lookup_injectMap_owned verbs line map own
    · intro o
      rw [lookup_injectMap verbs line map hooks_not_owned]

theorem steps_since {f : Files} {snap : List UInt8} {map : Map} (taken : f.backup = some snap)
    (reads : parsed J f.settings = some (.obj map)) (steps : List SpnrStep) :
    ∃ now, parsed J (steps.foldl (spnrStep J) f).settings = some (.obj now) ∧
    Since map steps now := by
  induction steps generalizing f map with
  | nil => exact ⟨map, reads, fun _ _ _ => rfl, fun _ _ => rfl, fun _ => .rfl⟩
  | cons s steps ih =>
    obtain ⟨mid, readsMid, first⟩ := spnrStep_since taken reads s
    obtain ⟨now, readsNow, rest⟩ :=
      ih ((spnrStep_backup (snapshot_kept taken) s).trans taken) readsMid
    refine ⟨now, readsNow, ?_, ?_, ?_⟩
    · exact fun k foreign other => (rest.keys k foreign other).trans (first.keys k foreign other)
    · intro k own
      rw [rest.owned k own, lastOwned, first.owned k own]
      rfl
    · exact fun o => (rest.hooks o).trans (first.hooks o)

theorem Since.withoutSpnr {map now : Map} {steps : List SpnrStep} (since : Since map steps now)
    (stored : Json.Stored J.IsFloat 127 (.obj map)) (unwired : Unwired map) : WithoutSpnr now map ↔
      NoneEmpty map ∧
      ∀ k ∈ spnrOwnedKeys, Option.Rel Same (lastOwned map steps k) (map.lookup k) := by
  constructor
  · intro without
    have own : WithoutSpnr map map := ⟨fun k _ => rel_refl _, (since.hooks _).mp without.hooks⟩
    refine ⟨((withoutSpnr_self stored).mp own).1, fun k mem => ?_⟩
    rw [← since.owned k mem]
    exact without.keys k fun same => hooks_not_owned (same ▸ mem)
  · rintro ⟨full, owned⟩
    have own := (withoutSpnr_self stored).mpr ⟨full, unwired⟩
    refine ⟨fun k other => ?_, (since.hooks _).mpr own.hooks⟩
    by_cases mem : k ∈ spnrOwnedKeys
    · rw [since.owned k mem]
      exact owned k mem
    · rw [since.keys k mem other]
      exact rel_refl _

theorem uninstall_kept {f : Files} {snap : List UInt8} {map : Map} (taken : f.backup = some snap)
    (reads : parsed J f.settings = some (.obj map)) (unwired : Unwired map)
    (steps : List SpnrStep) :
    Option.Rel Same (parsed J (doUninstall J (steps.foldl (spnrStep J) f)).settings)
      (some (.obj map)) ↔ Undoes J f map steps := by
  obtain ⟨now, readsNow, since⟩ := steps_since taken reads steps
  have back := restored_or (J := J) (steps_backup (J := J) taken steps)
  unfold Undoes
  rw [taken]
  dsimp only
  cases held : parsed J (some snap) with
  | none =>
    rw [held, Option.none_or, readsNow] at back
    rw [doUninstall_parsed back, ← withoutSpnr_iff (stored_of_parsed readsNow)]
    exact since.withoutSpnr (stored_of_parsed reads) unwired
  | some v =>
    rw [held, Option.some_or] at back
    by_cases object : ∃ original, v = .obj original
    · obtain ⟨original, rfl⟩ := object
      rw [doUninstall_parsed back, ← withoutSpnr_iff (stored_of_parsed held)]
      constructor
      · exact fun without => ⟨original, rfl, without⟩
      · rintro ⟨_, same, without⟩
        injection same with same
        exact same ▸ without
    · have odd (original : Map) : v ≠ .obj original := fun same => object ⟨original, same⟩
      rw [doUninstall_odd back odd, back]
      constructor
      · intro same
        cases same with
        | some same =>
          cases same with
          | refl => exact absurd rfl (odd map)
          | obj => exact absurd rfl (odd _)
      · rintro ⟨original, same, -⟩
        exact absurd same (odd original)

/-- Steps of spnr and an uninstall give back the object they started from exactly under `Undoes`:
without a backup before, where it has no empty `hooks` object and no empty array under spnr's
events, and, where spnr took no step at all, none of the keys spnr owns. -/
theorem uninstall_undoes {f : Files} {map : Map} (reads : parsed J f.settings = some (.obj map))
    (unwired : Unwired map) (steps : List SpnrStep) :
    Option.Rel Same (parsed J (doUninstall J (steps.foldl (spnrStep J) f)).settings)
      (some (.obj map)) ↔ Undoes J f map steps := by
  have stored := stored_of_parsed reads
  cases there : f.backup with
  | some snap => exact uninstall_kept there reads unwired steps
  | none =>
    unfold Undoes
    rw [there]
    dsimp only
    cases steps with
    | nil =>
      rw [List.foldl_nil, doUninstall_parsed (restore_fallback there reads),
        same_uninstalled stored]
      constructor
      · rintro ⟨unowned, full, -⟩
        exact ⟨full, fun _ => unowned⟩
      · rintro ⟨full, unowned⟩
        exact ⟨unowned rfl, full, unwired⟩
    | cons s steps =>
      have taken : (steps.foldl (spnrStep J) (spnrStep J f s)).backup = some (serialize J map) :=
        steps_backup (first_backup there reads s) steps
      rw [List.foldl_cons, doUninstall_parsed (restored_parsed stored taken), same_removed stored]
      constructor
      · rintro ⟨full, -⟩
        exact ⟨full, fun none_ => nomatch none_⟩
      · rintro ⟨full, -⟩
        exact ⟨full, unwired⟩

noncomputable def machine (map : Map) : Files where
  settingsPath := "/home/u/.claude/settings.json"
  backupPath := "/home/u/.spnr/backup.json"
  settings := some (serialize .reference map)
  backup := none

theorem machine_parsed {map : Map} (stored : Json.Stored (fun _ => False) 127 (.obj map)) :
    parsed .reference (machine map).settings = some (.obj map) :=
  parsed_serialize (J := .reference) stored

def plain : Map := [("model", .str "m"), ("theme", .str "dark")]

theorem stored_plain : Json.Stored (fun _ => False) 127 (.obj plain) := by
  apply Stored.obj (by decide)
  intro m mem
  rcases List.mem_pair.mp mem with rfl | rfl
  · exact .str _
  · exact .str _

theorem uninstall_undoes_plain :
    Option.Rel Same (parsed .reference (doUninstall .reference ([.install "/opt/spnr",
      .start ["Sponsored"] (some "spnr-status"), .install "/opt/spnr"].foldl (spnrStep .reference)
        (machine plain))).settings)
      (some (.obj plain)) := by
  have absent : plain.lookup "hooks" = none := by decide
  apply (uninstall_undoes (f := machine plain) (machine_parsed stored_plain) ?_ _).mpr
  · constructor
    · intro hooks found
      rw [absent] at found
      cases found
    · intro none_
      cases none_
  · intro hooks found
    rw [absent] at found
    cases found

def emptyStop : Map := [("hooks", .obj [("Stop", .arr [])])]

theorem lookup_emptyStop : emptyStop.lookup "hooks" = some (.obj [("Stop", .arr [])]) :=
  List.lookup_cons_self

theorem stored_emptyStop : Json.Stored (fun _ => False) 127 (.obj emptyStop) := by
  apply Stored.obj (by decide)
  intro m mem
  rw [List.mem_singleton.mp mem]
  apply Stored.obj (by decide)
  intro m mem
  rw [List.mem_singleton.mp mem]
  exact .arr (by simp)

theorem unwired_emptyStop : Unwired emptyStop := by
  intro hooks found event _ groups there g inside
  rw [lookup_emptyStop] at found
  injection found with found
  injection found with found
  subst found
  rw [lookup_entry] at there
  split at there
  · injection there with there
    injection there with there
    subst there
    cases inside
  · cases there

/-- An install and an uninstall take the user's `hooks` away. -/
theorem empty_array_pruned :
    let f := spnrStep .reference (machine emptyStop) (.install "/opt/spnr")
    parsed .reference (machine emptyStop).settings = some (.obj emptyStop) ∧ Unwired emptyStop ∧
      ¬ Option.Rel Same (parsed .reference (doUninstall .reference f).settings)
        (some (.obj emptyStop)) := by
  have reads := machine_parsed stored_emptyStop
  have taken := first_backup (J := .reference) rfl reads (.install "/opt/spnr")
  have left := doUninstall_parsed (restored_parsed (J := .reference) stored_emptyStop taken)
  have pruned : ¬ NoneEmpty emptyStop := by
    intro full
    exact (full _ lookup_emptyStop).2 "Stop" (by decide) List.lookup_cons_self
  constructor
  · exact reads
  constructor
  · exact unwired_emptyStop
  · rw [left, same_removed (J := .reference) stored_emptyStop]
    rintro ⟨full, -⟩
    exact pruned full

end Spnr.Cli
