import Spnr.Settings.Foreign

/-! The commands of `spnr` and the networked start of the daemon, as far as they touch
the host's settings, and what each leaves in the two files. -/
namespace Spnr.Cli

open IndexMap Json Settings

section

variable (J : SerdeJson)

/-- `do_install`, once the hook binary is found in `bindir`. -/
def doInstall (bindir : String) (f : Files) : Files × Except String Unit :=
  match snapshot J f with
  | (f, .error e) => (f, .error s!"snapshot settings ({f.settingsPath}): {e.display}")
  | (f, .ok ()) =>
    match injectHooks J (bindir ++ "/spnr-hook") f with
    | (f, .error e) => (f, .error s!"wire hooks into {f.settingsPath}: {e.display}")
    | (f, .ok ()) => (f, .ok ())

/-- `try_inject` of the adapter, which the daemon calls when it starts. -/
def tryInject (verbs : List String) (statusline : Option String) (f : Files) :
    Files × Except SettingsError Unit :=
  match snapshot J f with
  | (f, .error e) => (f, .error e)
  | (f, .ok ()) => inject J verbs statusline f

def pause (f : Files) : Files := (restore J f).1

/-- The errors of both steps are dropped, and `~/.spnr` goes with the backup in it. -/
def doUninstall (f : Files) : Files :=
  let f := (restore J f).1
  let f := (removeHooks J f).1
  { f with backup := none }

inductive SpnrStep where
  | install (bindir : String)
  | start (verbs : List String) (statusline : Option String)

def spnrStep (f : Files) : SpnrStep → Files
  | .install bindir => (doInstall J bindir f).1
  | .start verbs statusline => (tryInject J verbs statusline f).1

def parsed (file : Option (List UInt8)) : Option Json :=
  file.bind fun bytes => (J.fromSlice bytes).toOption

/-- What the snapshot has that an install keeps or takes, if it can be read. -/
def snapshotOf (f : Files) : Option Json :=
  match f.backup with
  | some snap => parsed J (some snap)
  | none => (readObject J f.settingsPath f.settings).toOption.map .obj

end

variable {J : SerdeJson}

theorem parsed_some {bytes : List UInt8} {v : Json} : parsed J (some bytes) = some v ↔
    J.fromSlice bytes = .ok v := by
  unfold parsed
  rw [Option.bind_some]
  cases J.fromSlice bytes <;> simp [Except.toOption]

theorem stored_of_parsed {file : Option (List UInt8)} {v : Json} (reads : parsed J file = some v) :
    v.Stored J.IsFloat 127 := by
  cases file with
  | none => cases reads
  | some bytes => exact J.fromSlice_stored bytes v (parsed_some.mp reads)

theorem readObject_of_parsed {file : Option (List UInt8)} {map : Map}
    (reads : parsed J file = some (.obj map))
    (path : String) : readObject J path file = .ok map := by
  cases file with
  | none => cases reads
  | some bytes => rw [readObject, parsed_some.mp reads]

theorem readObject_stored {path : String} {file : Option (List UInt8)} {map : Map}
    (reads : readObject J path file = .ok map) : Json.Stored J.IsFloat 127 (.obj map) := by
  cases file with
  | none =>
    cases Except.ok.inj reads
    exact .obj List.Pairwise.nil fun m mem => absurd mem List.not_mem_nil
  | some bytes =>
    unfold readObject at reads
    dsimp only at reads
    split at reads
    · cases reads
    · rename_i parsed
      cases Except.ok.inj reads
      exact J.fromSlice_stored bytes _ parsed
    · cases reads

theorem parsed_serialize {map : Map} (stored : Json.Stored J.IsFloat 127 (.obj map)) :
    parsed J (some (serialize J map)) = some (.obj map) :=
  parsed_some.mpr (J.fromSlice_toVecPretty _ stored)

theorem update_backup (change : Map → Except SettingsError (Option Map)) (f : Files) :
    (update J change f).1.backup = f.backup := by
  unfold update
  split
  · rfl
  · split <;> rfl

theorem inject_parsed {f : Files} {map : Map} (reads : parsed J f.settings = some (.obj map))
    (verbs : List String) (statusline : Option String) :
    parsed J (inject J verbs statusline f).1.settings =
      some (.obj (injectMap verbs statusline map)) := by
  simp only [inject, update, readObject_of_parsed reads]
  exact parsed_serialize (stored_injectMap (stored_of_parsed reads) verbs statusline)

theorem injectHooks_parsed {f : Files} {map : Map} (reads : parsed J f.settings = some (.obj map))
    (command : String) : ∃ map', parsed J (injectHooks J command f).1.settings = some (.obj map') ∧
      (map' = map ∨ injectHooksMap command map = .ok map') := by
  simp only [injectHooks, update, readObject_of_parsed reads]
  cases ok : injectHooksMap command map with
  | error e => exact ⟨map, reads, .inl rfl⟩
  | ok map' =>
    exact ⟨map', parsed_serialize (stored_injectHooksMap ok (stored_of_parsed reads)), .inr rfl⟩

theorem removeHooks_parsed {f : Files} {map : Map} (reads : parsed J f.settings = some (.obj map)) :
    parsed J (removeHooks J f).1.settings = some (.obj (removed map)) := by
  have stored : Json.Stored J.IsFloat 127 (.obj (removed map)) :=
    stored_removed (stored_of_parsed reads)
  simp only [removeHooks, update, readObject_of_parsed reads]
  unfold removed at stored ⊢
  cases change : removeHooksMap map with
  | none => exact reads
  | some map' =>
    rw [change] at stored
    exact parsed_serialize stored

theorem snapshot_kept {f : Files} {snap : List UInt8} (there : f.backup = some snap) :
    snapshot J f = (f, .ok ()) := by
  rw [snapshot, there, Option.isSome_some, if_pos rfl]

theorem snapshot_fresh {f : Files} {map : Map} (fresh : f.backup = none)
    (reads : parsed J f.settings = some (.obj map)) :
    snapshot J f = ({ f with backup := some (serialize J map) }, .ok ()) := by
  simp [snapshot, fresh, readObject_of_parsed reads]

theorem snapshot_cases {f : Files} (fresh : f.backup = none) :
    (snapshot J f).2 ≠ .ok () ∧ snapshot J f = (f, (snapshot J f).2) ∨
      ∃ original, readObject J f.settingsPath f.settings = .ok original ∧
        snapshot J f = ({ f with backup := some (serialize J original) }, .ok ()) := by
  unfold snapshot
  rw [fresh, Option.isSome_none, if_neg Bool.false_ne_true]
  cases readObject J f.settingsPath f.settings with
  | error e => exact .inl ⟨nofun, rfl⟩
  | ok original => exact .inr ⟨original, rfl, rfl⟩

theorem snapshot_ok {f : Files} (taken : (snapshot J f).2 = .ok ()) :
    ∃ snap, snapshot J f = ({ f with backup := some snap }, .ok ()) ∧
    parsed J (some snap) = snapshotOf J f := by
  cases there : f.backup with
  | some snap =>
    refine ⟨snap, ?_, ?_⟩
    · rw [snapshot_kept there, ← there]
    · rw [snapshotOf, there]
  | none =>
    rcases snapshot_cases (J := J) there with ⟨fails, -⟩ | ⟨original, reads, written⟩
    · exact absurd taken fails
    · refine ⟨serialize J original, written, ?_⟩
      rw [parsed_serialize (readObject_stored reads), snapshotOf, there, reads]
      rfl

theorem doInstall_eq (bindir : String) {f g : Files} (taken : snapshot J f = (g, .ok ())) :
    (doInstall J bindir f).1 = (injectHooks J (bindir ++ "/spnr-hook") g).1 := by
  unfold doInstall
  rw [taken]
  dsimp only
  split <;> simp [*]

theorem tryInject_eq (verbs : List String) (statusline : Option String) {f g : Files}
    (taken : snapshot J f = (g, .ok ())) :
    (tryInject J verbs statusline f).1 = (inject J verbs statusline g).1 := by
  rw [tryInject, taken]

theorem spnrStep_backup {f g : Files} (taken : snapshot J f = (g, .ok ())) (s : SpnrStep) :
    (spnrStep J f s).backup = g.backup := by
  cases s with
  | install bindir =>
    exact (congrArg Files.backup (doInstall_eq bindir taken)).trans (update_backup _ g)
  | start verbs statusline =>
    exact (congrArg Files.backup (tryInject_eq verbs statusline taken)).trans (update_backup _ g)

theorem isSpnrHookCommand_append (bindir : String) :
    isSpnrHookCommand (bindir ++ "/spnr-hook") = true := by
  have tail : "/spnr-hook".toList.isSuffixOf (bindir ++ "/spnr-hook").toList = true := by
    rw [List.isSuffixOf_iff_suffix, String.toList_append]
    exact List.suffix_append _ _
  rw [isSpnrHookCommand, tail, Bool.or_true]

theorem restore_snapshot {f : Files} {snap : List UInt8} {v : Json} (there : f.backup = some snap)
    (reads : J.fromSlice snap = .ok v) :
    restore J f = ({ f with settings := some snap }, .ok ()) := by
  simp [restore, there, reads]

theorem restored_or {f : Files} {snap : List UInt8} (there : f.backup = some snap) :
    parsed J (restore J f).1.settings = (parsed J (some snap)).or (parsed J f.settings) := by
  unfold restore
  rw [there]
  cases reads : J.fromSlice snap with
  | error e => simp [parsed, reads, Except.toOption]
  | ok v => simp [parsed, reads, Except.toOption]

theorem restore_fallback {f : Files} {map : Map} (none_ : f.backup = none)
    (reads : parsed J f.settings = some (.obj map)) :
    parsed J (restore J f).1.settings = some (.obj (stripMap map)) := by
  simp only [restore, none_, readObject_of_parsed reads]
  split
  · exact parsed_serialize (stored_stripMap (stored_of_parsed reads))
  · rename_i unowned
    rw [stripMap_eq (hadAny_eq_false.mp (Bool.eq_false_iff.mpr unowned))]
    exact reads

theorem doUninstall_parsed {f : Files} {map : Map}
    (restored : parsed J (restore J f).1.settings = some (.obj map)) :
    parsed J (doUninstall J f).settings = some (.obj (removed map)) := removeHooks_parsed restored

end Spnr.Cli
