import Spnr.Settings.Object

/-! The operations of `spnr-settings` on the settings file and its backup. A write
replaces the whole file, and a step that fails writes nothing after the failure. -/
namespace Spnr.Settings

structure Files where
  settingsPath : String
  backupPath : String
  settings : Option (List UInt8)
  backup : Option (List UInt8)

section

variable (J : SerdeJson)

def readObject (path : String) : Option (List UInt8) → Except SettingsError Map
  | none => .ok []
  | some bytes =>
    match J.fromSlice bytes with
    | .error e => .error (.parse s!"{path}: {e}")
    | .ok (.obj map) => .ok map
    | .ok other => .error (.schemaDrift s!"{path} is a JSON {typeName other}, expected an object")

def serialize (map : Map) : List UInt8 := J.toVecPretty (.obj map) ++ [10]

def snapshot (f : Files) : Files × Except SettingsError Unit :=
  if f.backup.isSome then (f, .ok ())
  else
    match readObject J f.settingsPath f.settings with
    | .error e => (f, .error e)
    | .ok original => ({ f with backup := some (serialize J original) }, .ok ())

/-- Read the settings, change the object, and write it back if there is anything to write. -/
def update (change : Map → Except SettingsError (Option Map)) (f : Files) :
    Files × Except SettingsError Unit :=
  match readObject J f.settingsPath f.settings with
  | .error e => (f, .error e)
  | .ok map =>
    match change map with
    | .error e => (f, .error e)
    | .ok none => (f, .ok ())
    | .ok (some map) => ({ f with settings := some (serialize J map) }, .ok ())

def inject (verbs : List String) (statusline : Option String) : Files →
    Files × Except SettingsError Unit :=
  update J fun map => .ok (some (injectMap verbs statusline map))

def injectHooks (command : String) : Files → Files × Except SettingsError Unit :=
  update J fun map => (injectHooksMap command map).map some

def removeHooks : Files → Files × Except SettingsError Unit :=
  update J fun map => .ok (removeHooksMap map)

def restore (f : Files) : Files × Except SettingsError Unit :=
  match f.backup with
  | none =>
    match readObject J f.settingsPath f.settings with
    | .error e => (f, .error e)
    | .ok map =>
      let f' := if hadAny map then { f with settings := some (serialize J (stripMap map)) } else f
      (f', .error (.snapshotMissing s!"{f.backupPath} (stripped spnr keys as a fallback)"))
  | some snap =>
    match J.fromSlice snap with
    | .error e => (f, .error (.snapshotMissing s!"backup unparseable: {e}"))
    | .ok _ => ({ f with settings := some snap }, .ok ())

end

end Spnr.Settings
