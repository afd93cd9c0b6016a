import Spnr.Cli.Pristine
import Spnr.Lib.Replace
import Spnr.Settings.Wired

/-! Several writers on one settings file, each as a read and a later atomic replacement:
`inject_hooks`, `inject`, `remove_hooks` and the host itself. -/
namespace Spnr.Cli

open IndexMap Json Settings Transition

def spnrKeys : List String := "hooks" :: spnrOwnedKeys

structure HostWrite (J : SerdeJson) where
  edits : List (String × Option Json)
  foreign : ∀ e ∈ edits, e.1 ∉ spnrKeys
  stored : ∀ e ∈ edits, ∀ v, e.2 = some v → v.Stored J.IsFloat 126

def setKey (k : String) : Option Json → Map → Map
  | some v, map => insert k v map
  | none, map => swapRemove k map

def applyEdits : List (String × Option Json) → Map → Map
  | [], map => map
  | (k, o) :: edits, map => applyEdits edits (setKey k o map)

def given (k : String) : List (String × Option Json) → Option (Option Json)
  | [] => none
  | (k', o) :: edits => given k edits <|> if k' = k then some o else none

inductive Writer (J : SerdeJson) where
  | injectHooks (command : String)
  | inject (verbs : List String) (statusline : Option String)
  | removeHooks
  | host (w : HostWrite J)

variable {J : SerdeJson}

/-- What a writer makes of the object it has read; `none` when it writes nothing. -/
def Writer.change (w : Writer J) (map : Map) : Except SettingsError (Option Map) :=
  match w with
  | .injectHooks command => (injectHooksMap command map).map some
  | .inject verbs statusline => .ok (some (injectMap verbs statusline map))
  | .removeHooks => .ok (removeHooksMap map)
  | .host w => .ok (some (applyEdits w.edits map))

/-- The same on the bytes of the file, which may be missing. -/
def changeFile (path : String) (w : Writer J) (file : Option (List UInt8)) :
    Option (Option (List UInt8)) :=
  match readObject J path file with
  | .error _ => none
  | .ok map =>
    match w.change map with
    | .ok (some map') => some (some (serialize J map'))
    | _ => none

theorem update_changeFile (w : Writer J) (f : Files) :
    (update J w.change f).1.settings =
      (changeFile f.settingsPath w f.settings).getD f.settings := by
  unfold update changeFile
  cases readObject J f.settingsPath f.settings with
  | error e => rfl
  | ok map =>
    dsimp only
    cases w.change map with
    | error e => rfl
    | ok o => cases o <;> rfl

theorem lookup_setKey {map : Map} (distinct : Distinct map) (a k : String) (o : Option Json) :
    (setKey a o map).lookup k = if k == a then o else map.lookup k := by
  cases o with
  | none => exact lookup_swapRemove distinct a k
  | some v => exact lookup_insert map a k v

theorem distinct_setKey {map : Map} (distinct : Distinct map) (k : String) (o : Option Json) :
    Distinct (setKey k o map) := by
  cases o with
  | none => exact distinct_swapRemove distinct k
  | some v => exact distinct_insert distinct k v

theorem lookup_applyEdits (edits : List (String × Option Json)) {map : Map}
    (distinct : Distinct map) (k : String) :
    (applyEdits edits map).lookup k = (given k edits).getD (map.lookup k) := by
  induction edits generalizing map with
  | nil => rfl
  | cons e edits ih =>
    obtain ⟨k', o⟩ := e
    rw [applyEdits, ih (distinct_setKey distinct k' o), lookup_setKey distinct, given]
    by_cases here : k' = k
    · subst here
      cases given k' edits <;> simp
    · have other : (k == k') = false := beq_eq_false_iff_ne.mpr fun same => here same.symm
      cases given k edits <;> simp [here, other]

theorem removeHooksMap_some {map map' : Map} (some_ : removeHooksMap map = some map') :
    removed map = map' := by
  rw [removed, some_]
  rfl

def Applied (map : Map) (w : Writer J) (map' : Map) : Prop :=
  Distinct map ∧ w.change map = .ok (some map')

/-- The value that a writer of the host gives to a key. -/
def Writer.gives (k : String) : Writer J → Option (Option Json)
  | .host w => given k w.edits
  | _ => none

def Writer.line : Writer J → Option String
  | .inject _ statusline => statusline
  | _ => none

theorem Applied.injectHooks {map map' : Map} {command : String}
    (applied : Applied (J := J) map (.injectHooks command) map') :
    injectHooksMap command map = .ok map' := by
  have ok := applied.2
  rw [Writer.change] at ok
  cases pass : injectHooksMap command map with
  | error e =>
    rw [pass] at ok
    cases ok
  | ok map'' =>
    rw [pass] at ok
    cases ok
    rfl

theorem Applied.removeHooks {map map' : Map} (applied : Applied (J := J) map .removeHooks map')
    {k : String} (other : k ≠ "hooks") : map'.lookup k = map.lookup k := by
  rw [← removeHooksMap_some (Except.ok.inj applied.2), lookup_removed applied.1,
    if_neg (by simpa using other)]

theorem Applied.host {map map' : Map} {w : HostWrite J} (applied : Applied map (.host w) map')
    (k : String) : map'.lookup k = (given k w.edits).getD (map.lookup k) := by
  cases applied.2
  exact lookup_applyEdits w.edits applied.1 k

theorem Applied.inject {map map' : Map} {verbs : List String} {statusline : Option String}
    (applied : Applied (J := J) map (.inject verbs statusline) map') :
    map' = injectMap verbs statusline map := by
  cases applied.2
  rfl

end Spnr.Cli
