import Spnr.Cli.Processes
import Spnr.Cli.Uninstall

/-! Commands that fail or die at any system call. The settings file can always be read and has
all that is not spnr's, the snapshot is the original or not there, and one uninstall that
comes to its end gives the original back. -/
namespace Spnr.Cli

open Crash Crash.Process IndexMap Json Settings Transition

section

variable (J : SerdeJson) (place : Target → Place)

def Command.effect (f : Files) : Command → Files
  | .install bindir => (doInstall J bindir f).1
  | .start verbs statusline => (tryInject J verbs statusline f).1
  | .pause => Cli.pause J f
  | .uninstall => doUninstall J f

end

variable {J : SerdeJson} {place : Target → Place}

theorem calm_snapshotP (h : Host) :
    (((snapshotP J place).calm h).1.files place, ((snapshotP J place).calm h).2) =
      ((snapshot J (h.files place)).1, (snapshot J (h.files place)).2.mapError .settings) := by
  obtain ⟨settings, backup, temps⟩ := h
  cases backup with
  | some snap => rfl
  | none =>
    simp only [snapshotP, calm, snapshot, Host.files, readSettings, Call.atomic, id,
      Option.isSome_none, Bool.false_eq_true, if_false]
    cases readObject J (place .settings).path settings <;> rfl

theorem calm_updateP (change : Map → Except SettingsError (Option Map)) (h : Host) :
    ((updateP J place change).calm h).1.files place = (update J change (h.files place)).1 := by
  simp only [updateP, readSettings, calm, update, Call.atomic, id, Host.files]
  cases readObject J (place .settings).path h.settings with
  | error e => rfl
  | ok map =>
    dsimp only
    cases change map with
    | error e => rfl
    | ok out => cases out <;> rfl

theorem calm_restoreP (h : Host) :
    ((restoreP J place).calm h).1.files place = (restore J (h.files place)).1 := by
  obtain ⟨settings, backup, temps⟩ := h
  cases backup with
  | none =>
    simp only [restoreP, readSettings, calm, restore, Call.atomic, id, Host.files]
    cases readObject J (place .settings).path settings with
    | error e => rfl
    | ok map =>
      dsimp only
      split <;> rfl
  | some snap =>
    simp only [restoreP, calm, restore, Call.atomic, id, Host.files]
    cases J.fromSlice snap <;> rfl

theorem calm_andThenP (h : Host) (change : Map → Except SettingsError (Option Map)) :
    ((andThenP (snapshotP J place) (updateP J place change)).calm h).1.files place =
      match snapshot J (h.files place) with
      | (f, .error _) => f
      | (f, .ok ()) => (update J change f).1 := by
  have taken : (((snapshotP J place).calm h).1.files place, ((snapshotP J place).calm h).2) = _ :=
    calm_snapshotP h
  rw [andThenP, calm_bind]
  generalize snapshot J (h.files place) = out at taken
  obtain ⟨f, said⟩ := out
  obtain ⟨left, answer⟩ := Prod.ext_iff.mp taken
  cases said with
  | error e =>
    rw [show ((snapshotP J place).calm h).2 = .error (.settings e) from answer]
    exact left
  | ok _ =>
    rw [show ((snapshotP J place).calm h).2 = .ok () from answer]
    exact (calm_updateP change _).trans (congrArg (fun f => (update J change f).1) left)

theorem calm_process (c : Command) (h : Host) :
    ((c.process J place).calm h).1.files place = c.effect J (h.files place) := by
  cases c with
  | install bindir =>
    rw [Command.process, calm_andThenP, Command.effect, doInstall, injectHooks]
    rcases snapshot J (h.files place) with ⟨f, e | ok⟩
    · rfl
    · dsimp only
      split <;> simp [*]
  | start verbs statusline =>
    rw [Command.process, calm_andThenP, Command.effect, tryInject, inject]
    rcases snapshot J (h.files place) with ⟨f, e | ok⟩ <;> rfl
  | pause => exact calm_restoreP h
  | uninstall =>
    rw [Command.process, calm_bind, calm_bind, Command.effect, doUninstall, removeHooks,
      ← calm_restoreP, ← calm_updateP]
    rfl

section

variable {May : Syscall → Verdict → Prop} {Good : Except UpdateError Unit → Host → Prop}
  {Left : Host → Prop}

/-- What a process that dies, or cannot delete its temp file, leaves of it. -/
def Litter (h g : Host) : Prop := g = h ∨ ∃ temp, g = { h with temps := temp :: h.temps }

def Failing (May : Syscall → Verdict → Prop) : Prop :=
  ∃ name text progress, May name (.fails text progress)

theorem dropTemp_safe {e : UpdateError} {h : Host} {temp : Target × List UInt8}
    (good : ∀ g, Litter h g → Good (.error e) g)
    (left : ∀ g, Litter h g → Left g) :
    (dropTemp e).Safe May Good Left { h with temps := temp :: h.temps } :=
  ⟨fun _ => good h (.inl rfl), fun _ _ _ => good _ (.inr ⟨temp, rfl⟩),
    fun _ _ => left _ (.inr ⟨temp, rfl⟩)⟩

theorem atomicWriteP_safe {h : Host} {target : Target} {bytes : List UInt8}
    (wrote : Good (.ok ()) (h.put bytes target))
    (failed : Failing May → ∀ e g, Litter h g → Good (.error e) g)
    (left : ∀ g, Litter h g → Left g) : (atomicWriteP place target bytes).Safe May Good Left h := by
  have gives {name text progress} (may : May name (.fails text progress)) (e : UpdateError) :
      ∀ g, Litter h g → Good (.error e) g := failed ⟨name, text, progress, may⟩ e
  refine ⟨fun _ => ⟨fun _ => ⟨fun _ => ⟨fun _ => ?_, ?_, ?_⟩, ?_, ?_⟩, ?_, ?_⟩, ?_,
    fun _ _ => left _ (.inl rfl)⟩
  · cases target <;> exact wrote
  · exact fun _ _ may => dropTemp_safe (gives may _) left
  · exact fun _ _ => left _ (.inr ⟨(target, bytes), rfl⟩)
  · exact fun _ _ may => dropTemp_safe (gives may _) left
  · exact fun _ _ => left _ (.inr ⟨(target, bytes), rfl⟩)
  · exact fun _ _ may => dropTemp_safe (gives may _) left
  · exact fun progress _ => left _ (.inr ⟨(target, bytes.take progress), rfl⟩)
  · exact fun _ _ may => gives may _ h (.inl rfl)

theorem readSettings_safe {h : Host} {f : Map → Program (Except UpdateError Unit)} {map : Map}
    (reads : readObject J (place .settings).path h.settings = .ok map)
    (next : (f map).Safe May Good Left h)
    (failed : Failing May → ∀ e, Good (.error e) h) (left : Left h) :
    (readSettings J place f).Safe May Good Left h := by
  refine ⟨fun _ => ?_, fun _ _ may => failed ⟨_, _, _, may⟩ _, fun _ _ => left⟩
  dsimp only [Call.atomic, id]
  rw [reads]
  exact next

end

/-- An object of which an uninstall takes nothing. -/
structure Stock (map : Map) : Prop where
  owned : NoneOwned map
  full : NoneEmpty map
  unwired : Unwired map

/-- The settings are readable and differ from the original in what is spnr's only, and not at
all where there is no snapshot; a snapshot is the original. -/
structure Sound (J : SerdeJson) (place : Target → Place) (original : Map) (h : Host) : Prop where
  readable : ∃ map, readObject J (place .settings).path h.settings = .ok map ∧
    SameForeign map original ∧ (h.backup = none → map = original)
  pristine : ∀ snap, h.backup = some snap → snap = serialize J original

section

variable {original : Map} {h g : Host}

theorem Sound.temps (sound : Sound J place original h) (temps : List (Target × List UInt8)) :
    Sound J place original { h with temps } := ⟨sound.readable, sound.pristine⟩

theorem Sound.litter (sound : Sound J place original h) (litter : Litter h g) :
    Sound J place original g := by
  rcases litter with rfl | ⟨temp, rfl⟩
  · exact sound
  · exact sound.temps _

theorem Litter.length (litter : Litter h g) : g.temps.length ≤ h.temps.length + 1 := by
  rcases litter with rfl | ⟨temp, rfl⟩
  · exact Nat.le_succ _
  · exact Nat.le_refl _

theorem reads_serialize {map : Map} (stored : Json.Stored J.IsFloat 127 (.obj map)) :
    readObject J (place .settings).path (some (serialize J map)) = .ok map :=
  readObject_of_parsed (parsed_serialize stored) _

theorem Sound.put (sound : Sound J place original h) (there : h.backup.isSome) {map : Map}
    (stored : Json.Stored J.IsFloat 127 (.obj map)) (foreign : SameForeign map original) :
    Sound J place original (h.put (serialize J map) .settings) := by
  refine ⟨⟨map, reads_serialize stored, foreign, fun gone => ?_⟩, sound.pristine⟩
  rw [show h.backup = none from gone] at there
  cases there

theorem Sound.putBack (sound : Sound J place original h)
    (stored : Json.Stored J.IsFloat 127 (.obj original)) :
    Sound J place original (h.put (serialize J original) .settings) :=
  ⟨⟨original, reads_serialize stored, .rfl original, fun _ => rfl⟩, sound.pristine⟩

theorem Sound.back (reads : readObject J (place .settings).path h.settings = .ok original)
    (pristine : ∀ snap, h.backup = some snap → snap = serialize J original) :
    Sound J place original h :=
  ⟨⟨original, reads, .rfl original, fun _ => rfl⟩, pristine⟩

theorem removeSome_length (progress : Nat) (h : Host) :
    (h.removeSome progress).temps.length ≤ h.temps.length := by
  have few := List.length_filter_le
    (fun temp => temp.1.1 ≠ Target.backup || !progress.testBit (temp.2 + 1)) h.temps.zipIdx
  rw [List.length_zipIdx] at few
  rw [Host.removeSome, List.length_map]
  exact few

def unfinished : Except UpdateError Unit → Nat
  | .ok _ => 0
  | .error _ => 1

/-- A process that ends well leaves no temp file, one that fails or dies at most one. -/
structure Kept (J : SerdeJson) (place : Target → Place) (original : Map) (h : Host)
    (r : Except UpdateError Unit) (g : Host) : Prop where
  sound : Sound J place original g
  temps : g.temps.length ≤ h.temps.length + unfinished r

def Cut (J : SerdeJson) (place : Target → Place) (original : Map) (h g : Host) : Prop :=
  Sound J place original g ∧ g.temps.length ≤ h.temps.length + 1

theorem Sound.cut (sound : Sound J place original h) : ∀ g, Litter h g → Cut J place original h g :=
  fun _ litter => ⟨sound.litter litter, litter.length⟩

theorem Sound.kept (sound : Sound J place original h) (r : Except UpdateError Unit) :
    Kept J place original h r h :=
  ⟨sound, Nat.le_add_right _ _⟩

theorem Sound.failed (sound : Sound J place original h) (e : UpdateError) :
    ∀ g, Litter h g → Kept J place original h (.error e) g :=
  fun _ litter => ⟨sound.litter litter, litter.length⟩

end

section

variable {May : Syscall → Verdict → Prop} {original : Map} {h : Host}

theorem snapshotP_safe (honest : ∀ text progress, May .stat (.fails text progress) →
    h.backup = none)
    (sound : Sound J place original h) :
    (snapshotP J place).Safe May
      (fun r g => Kept J place original h r g ∧ (r = .ok () → g.backup.isSome))
      (Cut J place original h) h := by
  obtain ⟨map, reads, foreign, only⟩ := sound.readable
  have anew (none_ : h.backup = none) :
      (readSettings J place fun map => atomicWriteP place .backup (serialize J map)).Safe May
        (fun r g => Kept J place original h r g ∧ (r = .ok () → g.backup.isSome))
        (Cut J place original h) h := by
    obtain rfl := only none_
    refine readSettings_safe reads ?_ (fun _ e => ⟨sound.kept _, nofun⟩) (sound.cut h (.inl rfl))
    refine atomicWriteP_safe ?_ (fun _ e g litter => ⟨sound.failed e g litter, nofun⟩) sound.cut
    refine ⟨⟨⟨⟨map, reads, foreign, fun _ => rfl⟩, ?_⟩, Nat.le_refl _⟩, fun _ => rfl⟩
    intro snap written
    exact (Option.some.inj written).symm
  refine ⟨fun _ => ?_, fun text progress may => anew (honest text progress may),
    fun _ _ => sound.cut h (.inl rfl)⟩
  dsimp only [Call.atomic, id]
  split
  · rename_i there
    exact ⟨sound.kept _, fun _ => there⟩
  · rename_i absent
    exact anew (Option.not_isSome_iff_eq_none.mp absent)

theorem updateP_safe (sound : Sound J place original h) (there : h.backup.isSome)
    {change : Map → Except SettingsError (Option Map)}
    (keeps : ∀ map map', Json.Stored J.IsFloat 127 (.obj map) → SameForeign map original →
      change map = .ok (some map') →
      Json.Stored J.IsFloat 127 (.obj map') ∧ SameForeign map' original) :
    (updateP J place change).Safe May (Kept J place original h) (Cut J place original h) h := by
  obtain ⟨map, reads, foreign, only⟩ := sound.readable
  refine readSettings_safe reads ?_ (fun _ _ => sound.kept _) (sound.cut h (.inl rfl))
  split
  · exact sound.kept _
  · exact sound.kept _
  · rename_i map' changes
    obtain ⟨stored, same⟩ := keeps map map' (readObject_stored reads) foreign changes
    exact atomicWriteP_safe ⟨sound.put there stored same, Nat.le_refl _⟩
      (fun _ => sound.failed) sound.cut

theorem restoreP_safe (stored : Json.Stored J.IsFloat 127 (.obj original)) (stock : Stock original)
    (sound : Sound J place original h) :
    (restoreP J place).Safe May
      (fun r g => Kept J place original h r g ∧ (¬ Failing May →
        g.temps.length ≤ h.temps.length ∧
        readObject J (place .settings).path g.settings = .ok original))
      (Cut J place original h) h := by
  obtain ⟨map, reads, foreign, only⟩ := sound.readable
  have failed (failing : Failing May) (e : UpdateError) (g : Host) (litter : Litter h g) :
      Kept J place original h (.error e) g ∧ (¬ Failing May →
        g.temps.length ≤ h.temps.length ∧
          readObject J (place .settings).path g.settings = .ok original) :=
    ⟨sound.failed e g litter, fun none_ => absurd failing none_⟩
  refine ⟨fun _ => ?_, fun _ _ may => failed ⟨_, _, _, may⟩ _ h (.inl rfl),
    fun _ _ => sound.cut h (.inl rfl)⟩
  dsimp only [Call.atomic, id]
  cases backup : h.backup with
  | none =>
    obtain rfl := only backup
    refine readSettings_safe reads ?_ (fun failing e => failed failing e h (.inl rfl))
      (sound.cut h (.inl rfl))
    rw [if_neg (Bool.eq_false_iff.mp (hadAny_eq_false.mpr stock.owned))]
    exact ⟨sound.kept _, fun _ => ⟨Nat.le_refl _, reads⟩⟩
  | some snap =>
    obtain rfl := sound.pristine snap backup
    dsimp only
    rw [parsed_some.mp (parsed_serialize stored)]
    refine atomicWriteP_safe ?_ failed sound.cut
    exact ⟨⟨sound.putBack stored, Nat.le_refl _⟩, fun _ => ⟨Nat.le_refl _, reads_serialize stored⟩⟩

theorem Command.may_honest (c : Command) {text : String} {progress : Nat}
    (may : c.May h.backup.isSome .stat (.fails text progress)) : h.backup = none := by
  have absent : h.backup.isSome = false := by
    cases c with
    | uninstall => exact may.elim
    | _ => exact may
  simpa using absent

theorem uninstall_unfailing (there : Bool) : ¬ Failing (Command.uninstall.May there) :=
  fun ⟨_, _, _, may⟩ => may

theorem andThenP_safe {c : Command} (sound : Sound J place original h)
    {change : Map → Except SettingsError (Option Map)}
    (keeps : ∀ map map', Json.Stored J.IsFloat 127 (.obj map) → SameForeign map original →
      change map = .ok (some map') →
      Json.Stored J.IsFloat 127 (.obj map') ∧ SameForeign map' original) :
    (andThenP (snapshotP J place) (updateP J place change)).Safe (c.May h.backup.isSome)
    (Kept J place original h)
      (Cut J place original h) h := by
  refine (snapshotP_safe (fun _ _ => c.may_honest) sound).bind ?_
  rintro r g ⟨kept, taken⟩
  cases r with
  | error e => exact kept
  | ok _ =>
    have few : g.temps.length ≤ h.temps.length := kept.temps
    refine (updateP_safe kept.sound (taken rfl) keeps).mono ?_ ?_
    · exact fun r g' later => ⟨later.sound, later.temps.trans (Nat.add_le_add_right few _)⟩
    · rintro g' ⟨later, lost⟩
      exact ⟨later, lost.trans (Nat.succ_le_succ few)⟩

theorem removeHooksP_safe (stored : Json.Stored J.IsFloat 127 (.obj original))
    (stock : Stock original) {there : Bool} {g : Host}
    (sound : Sound J place original g) (few : g.temps.length ≤ h.temps.length)
    (reads : readObject J (place .settings).path g.settings = .ok original) :
    (updateP J place fun map => .ok (removeHooksMap map)).Safe (Command.uninstall.May there)
      (fun _ g => Sound J place original g ∧ g.temps.length ≤ h.temps.length ∧
        readObject J (place .settings).path g.settings = .ok original)
      (Cut J place original h) g := by
  have left (g' : Host) (litter : Litter g g') : Cut J place original h g' := by
    obtain ⟨sound', lost⟩ := sound.cut g' litter
    exact ⟨sound', lost.trans (Nat.succ_le_succ few)⟩
  refine readSettings_safe reads ?_ (fun failing => absurd failing (uninstall_unfailing there))
    (left g (.inl rfl))
  have same : (removeHooksMap original).getD original = original :=
    removed_eq stock.full stock.unwired
  dsimp only
  cases changes : removeHooksMap original with
  | none => exact ⟨sound, few, reads⟩
  | some map' =>
    rw [changes, Option.getD_some] at same
    rw [same]
    refine atomicWriteP_safe ?_ (fun failing => absurd failing (uninstall_unfailing there)) left
    exact ⟨sound.putBack stored, few, reads_serialize stored⟩

theorem process_safe (stored : Json.Stored J.IsFloat 127 (.obj original)) (stock : Stock original)
    (sound : Sound J place original h) (c : Command) :
    (c.process J place).Safe (c.May h.backup.isSome)
      (fun r g => Kept J place original h r g ∧
        (c = .uninstall → readObject J (place .settings).path g.settings = .ok original ∧
          g.backup = none))
      (Cut J place original h) h := by
  cases c with
  | install bindir =>
    refine (andThenP_safe (c := .install bindir) sound ?_).mono
      (fun _ _ kept => ⟨kept, nofun⟩) fun _ => id
    intro map map' stored foreign changes
    cases ok : injectHooksMap (bindir ++ "/spnr-hook") map with
    | error e =>
      rw [ok] at changes
      cases changes
    | ok wired =>
      rw [ok] at changes
      cases changes
      exact ⟨stored_injectHooksMap ok stored,
        (injectHooksMap_foreign (isSpnrHookCommand_append bindir) ok).trans foreign⟩
  | start verbs statusline =>
    refine (andThenP_safe (c := .start verbs statusline) sound ?_).mono
      (fun _ _ kept => ⟨kept, nofun⟩) fun _ => id
    rintro map _ stored foreign ⟨⟩
    exact ⟨stored_injectMap stored verbs statusline,
      (injectMap_foreign verbs statusline map).trans foreign⟩
  | pause =>
    exact (restoreP_safe stored stock sound).mono (fun _ _ kept => ⟨kept.1, nofun⟩) fun _ => id
  | uninstall =>
    refine (restoreP_safe stored stock sound).bind ?_
    rintro r back ⟨kept, restored⟩
    obtain ⟨few, reads⟩ := restored (uninstall_unfailing _)
    refine (removeHooksP_safe stored stock kept.sound few reads).bind ?_
    rintro - g ⟨sound', few, reads⟩
    refine ⟨fun _ => ⟨⟨.back reads nofun, ?_⟩, fun _ => ⟨reads, rfl⟩⟩, nofun,
      fun progress _ => ⟨.back reads ?_, ?_⟩⟩
    · exact (List.length_filter_le _ _).trans few
    · intro snap there
      simp only [Host.removeSome] at there
      split at there
      · cases there
      · exact sound'.pristine snap there
    · exact ((removeSome_length progress g).trans few).trans (Nat.le_succ _)

end

section

variable (J : SerdeJson) (place : Target → Place)

inductive Fate where
  | done
  | failed
  | died
  deriving DecidableEq

def fate : Outcome Host (Except UpdateError Unit) → Fate
  | .ended _ (.ok _) => .done
  | .ended _ (.error _) => .failed
  | .died _ => .died

def Lives (h : Host) (l : Command × Fate) (g : Host) : Prop :=
  ∃ o, (l.1.process J place).Ends (l.1.May h.backup.isSome) h o ∧ fate o = l.2 ∧ o.state = g

end

section

variable {original : Map}

theorem Lives.sound (stored : Json.Stored J.IsFloat 127 (.obj original)) (stock : Stock original)
    {h g : Host}
    {l : Command × Fate} (sound : Sound J place original h) (lives : Lives J place h l g) :
    Sound J place original g ∧ g.temps.length ≤ h.temps.length + if l.2 ≠ .done then 1 else 0 := by
  obtain ⟨o, ends, how, rfl⟩ := lives
  have holds := (safe_iff _ _).mp (process_safe stored stock sound l.1) o ends
  rw [← how]
  cases o with
  | ended g r =>
    obtain ⟨⟨sound', temps⟩, -⟩ := holds
    cases r with
    | ok _ => exact ⟨sound', temps⟩
    | error e => exact ⟨sound', temps⟩
  | died g => exact holds

end

end Spnr.Cli
