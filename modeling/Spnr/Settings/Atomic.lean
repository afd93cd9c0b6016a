import Spnr.Settings.Files

/-! `atomic_write` call by call: a temp file beside the settings file, which takes its
place in the last call. Any call to the operating system can fail. -/
namespace Spnr.Settings

inductive Call where
  | read
  | tempfile
  | write
  | fsync
  | rename

/-- What the operating system says to each call: the text of a failure, or nothing. -/
abbrev Os := Call → Option String

inductive UpdateError where
  | settings (e : SettingsError)
  | io (text : String)

structure Place where
  path : String
  dir : String

/-- The file, and the writer's temp file while there is one. -/
structure Disk where
  target : Option (List UInt8)
  temp : Option (List UInt8)

def Disk.dropTemp (disk : Disk) : Disk := { disk with temp := none }

def atomicWrite (os : Os) (place : Place) (bytes : List UInt8) (disk : Disk) :
    Disk × Except UpdateError Unit :=
  match os .tempfile with
  | some e => (disk, .error (.io s!"tempfile in {place.dir}: {e}"))
  | none =>
    let opened : Disk := { disk with temp := some [] }
    match os .write with
    | some e => (opened.dropTemp, .error (.io s!"write temp: {e}"))
    | none =>
      let written : Disk := { opened with temp := some bytes }
      match os .fsync with
      | some e => (written.dropTemp, .error (.io s!"fsync temp: {e}"))
      | none =>
        match os .rename with
        | some e => (written.dropTemp, .error (.io s!"rename onto {place.path}: {e}"))
        | none => ({ target := written.temp, temp := none }, .ok ())

section

variable (J : SerdeJson) (place : Place)

/-- `update` with the calls it makes. -/
def updateOn (change : Map → Except SettingsError (Option Map)) (os : Os) (disk : Disk) :
    Disk × Except UpdateError Unit :=
  match os .read with
  | some e => (disk, .error (.io s!"read {place.path}: {e}"))
  | none =>
    match readObject J place.path disk.target with
    | .error e => (disk, .error (.settings e))
    | .ok map =>
      match change map with
      | .error e => (disk, .error (.settings e))
      | .ok none => (disk, .ok ())
      | .ok (some map) => atomicWrite os place (serialize J map) disk

def injectOn (verbs : List String) (statusline : Option String) : Os → Disk →
    Disk × Except UpdateError Unit :=
  updateOn J place fun map => .ok (some (injectMap verbs statusline map))

def injectHooksOn (command : String) : Os → Disk → Disk × Except UpdateError Unit :=
  updateOn J place fun map => (injectHooksMap command map).map some

end

def Os.Calm (os : Os) : Prop := ∀ call, os call = none

theorem atomicWrite_calm {os : Os} (tempfile : os .tempfile = none) (write : os .write = none)
    (fsync : os .fsync = none) (rename : os .rename = none) (place : Place) (bytes : List UInt8)
    (disk : Disk) : atomicWrite os place bytes disk = (⟨some bytes, none⟩, .ok ()) := by
  simp only [atomicWrite, tempfile, write, fsync, rename]

theorem atomicWrite_cases (os : Os) (place : Place) (bytes : List UInt8) (disk : Disk) :
    (∃ e, (atomicWrite os place bytes disk).2 = .error e ∧
      (atomicWrite os place bytes disk).1.target = disk.target) ∨
      (os .read = none → os.Calm) ∧
      atomicWrite os place bytes disk = (⟨some bytes, none⟩, .ok ()) := by
  unfold atomicWrite
  cases tempfile : os .tempfile with
  | some e => exact .inl ⟨_, rfl, rfl⟩
  | none =>
    cases write : os .write with
    | some e => exact .inl ⟨_, rfl, rfl⟩
    | none =>
      cases fsync : os .fsync with
      | some e => exact .inl ⟨_, rfl, rfl⟩
      | none =>
        cases rename : os .rename with
        | some e => exact .inl ⟨_, rfl, rfl⟩
        | none =>
          refine .inr ⟨fun read call => ?_, rfl⟩
          cases call <;> assumption

section

variable {J : SerdeJson} {place : Place} {change : Map → Except SettingsError (Option Map)}

theorem updateOn_cases (os : Os) (disk : Disk) :
    (∃ e, (updateOn J place change os disk).2 = .error e ∧
        (updateOn J place change os disk).1.target = disk.target) ∨
      (∃ map, change map = .ok none ∧ updateOn J place change os disk = (disk, .ok ())) ∨
      ∃ map map', os.Calm ∧ readObject J place.path disk.target = .ok map ∧
      change map = .ok (some map') ∧
        updateOn J place change os disk = (⟨some (serialize J map'), none⟩, .ok ()) := by
  unfold updateOn
  cases read : os .read with
  | some e => exact .inl ⟨_, rfl, rfl⟩
  | none =>
    cases reads : readObject J place.path disk.target with
    | error e => exact .inl ⟨_, rfl, rfl⟩
    | ok map =>
      dsimp only
      cases changes : change map with
      | error e => exact .inl ⟨_, rfl, rfl⟩
      | ok out =>
        cases out with
        | none => exact .inr (.inl ⟨map, changes, rfl⟩)
        | some map' =>
          rcases atomicWrite_cases os place (serialize J map') disk with fails | ⟨calm, wrote⟩
          · exact .inl fails
          · exact .inr (.inr ⟨map, map', calm read, rfl, changes, wrote⟩)

theorem updateOn_writes {os : Os} {disk : Disk} {map map' : Map} (calm : os.Calm)
    (reads : readObject J place.path disk.target = .ok map)
    (changes : change map = .ok (some map')) :
    updateOn J place change os disk = (⟨some (serialize J map'), none⟩, .ok ()) := by
  simp only [updateOn, calm .read, reads, changes]
  exact atomicWrite_calm (calm _) (calm _) (calm _) (calm _) place _ disk

theorem updateOn_calm {os : Os} (calm : os.Calm) (f : Files) (dir : String)
    (temp : Option (List UInt8)) :
    (updateOn J ⟨f.settingsPath, dir⟩ change os ⟨f.settings, temp⟩).1.target =
      (update J change f).1.settings := by
  unfold updateOn update
  rw [calm .read]
  cases readObject J f.settingsPath f.settings with
  | error e => rfl
  | ok map =>
    dsimp only
    cases change map with
    | error e => rfl
    | ok out =>
      cases out with
      | none => rfl
      | some map' =>
        dsimp only
        rw [atomicWrite_calm (calm _) (calm _) (calm _) (calm _)]

end

end Spnr.Settings
