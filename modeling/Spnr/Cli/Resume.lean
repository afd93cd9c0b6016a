import Spnr.Cli.Pristine
import Spnr.Daemon.Sessions
import Spnr.Proto.Reference
import Spnr.Settings.Wired

/-! A pause and a resume. The pause rewinds the settings file to the snapshot and the resume
only reaches the daemon, so that what the file has afterwards is what the snapshot had. -/
namespace Spnr.Cli

open IndexMap Json Settings

section

variable (J : SerdeJson) {C : Crates}

/-- The files, and the daemon that is up. -/
structure Machine (C : Crates) where
  files : Files
  daemon : Spnrd.Daemon C

/-- `Command::Pause`, with the receipt of its datagram. -/
def pauseCommand (recvMs : UInt64) (ulid : String) (m : Machine C) : Machine C :=
  ⟨pause J m.files, m.daemon.handle ⟨.cmd .pause, recvMs, ulid⟩⟩

def resumeCommand (recvMs : UInt64) (ulid : String) (m : Machine C) : Machine C :=
  { m with daemon := m.daemon.handle ⟨.cmd .resume, recvMs, ulid⟩ }

def Counts (cmd : String) (v : Json) : Prop :=
  ∃ map, v = .obj map ∧ Wired isSpnrHookCommand map ∧
    ∃ line, map.lookup "statusLine" = some line ∧ get line "command" = some (.str cmd)

structure Accrues (cmd : String) (m : Machine C) : Prop where
  unpaused : m.daemon.paused = false
  sessions : ∀ sid s, m.daemon.sessions.lookup sid = some s → s.paused = false
  settings : ∃ v, parsed J m.files.settings = some v ∧ Counts cmd v

end

variable {J : SerdeJson} {C : Crates}

theorem injectHooks_ok {command : String} {f : Files}
    (wired : (injectHooks J command f).2 = .ok ()) :
    ∃ map map', readObject J f.settingsPath f.settings = .ok map ∧
    injectHooksMap command map = .ok map' ∧
      (injectHooks J command f).1 = { f with settings := some (serialize J map') } := by
  unfold injectHooks update at wired ⊢
  cases reads : readObject J f.settingsPath f.settings with
  | error e =>
    rw [reads] at wired
    cases wired
  | ok map =>
    rw [reads] at wired
    dsimp only at wired ⊢
    cases pass : injectHooksMap command map with
    | error e =>
      rw [pass] at wired
      cases wired
    | ok map' => exact ⟨map, map', rfl, pass, rfl⟩

theorem started_files {bindir : String} {f : Files} (installed : (doInstall J bindir f).2 = .ok ())
    (verbs : List String) (cmd : String) :
    ∃ snap map, (tryInject J verbs (some cmd) (doInstall J bindir f).1).1.backup = some snap ∧
      parsed J (some snap) = snapshotOf J f ∧
      parsed J (tryInject J verbs (some cmd) (doInstall J bindir f).1).1.settings =
        some (.obj map) ∧
      Counts cmd (.obj map) := by
  have taken : (snapshot J f).2 = .ok () := by
    unfold doInstall at installed
    split at installed
    · cases installed
    · rename_i same
      rw [same]
  obtain ⟨snap, same, holds⟩ := snapshot_ok taken
  have wired : (injectHooks J (bindir ++ "/spnr-hook") { f with backup := some snap }).2 =
    .ok () := by
    unfold doInstall at installed
    rw [same] at installed
    dsimp only at installed
    split at installed
    · cases installed
    · rename_i ok
      rw [ok]
  obtain ⟨map, map', reads, pass, files⟩ := injectHooks_ok wired
  have stored := stored_injectHooksMap pass (readObject_stored reads)
  have kept := snapshot_kept (J := J)
    (f := { f with backup := some snap, settings := some (serialize J map') }) rfl
  rw [doInstall_eq bindir same, files, tryInject_eq verbs (some cmd) kept]
  refine ⟨snap, injectMap verbs (some cmd) map', update_backup _ _, holds,
    inject_parsed (parsed_serialize stored) verbs (some cmd), _, rfl, ?_, _,
      injectMap_line verbs cmd map', rfl⟩
  have hooks := injectHooksMap_wires (isSpnrHookCommand_append bindir) pass
  exact hooks.congr (lookup_injectMap verbs (some cmd) map' (by decide))

theorem resumed_files (recvMs recvMs' : UInt64) (ulid ulid' : String) (f : Files)
    (d : Spnrd.Daemon C) :
    (resumeCommand recvMs ulid (pauseCommand J recvMs' ulid' ⟨f, d⟩)).files = pause J f := rfl

theorem resume_unpaused (recvMs : UInt64) (ulid : String) (m : Machine C) :
    (resumeCommand recvMs ulid m).daemon.paused = false ∧
      ∀ sid s, (resumeCommand recvMs ulid m).daemon.sessions.lookup sid = some s →
      s.paused = false := by
  constructor
  · rfl
  · intro sid s found
    simp only [resumeCommand, Spnrd.Daemon.handle, Spnrd.Daemon.setPaused, HashMap.lookup_filterMap,
      Option.bind_eq_some_iff] at found
    obtain ⟨before, -, same⟩ := found
    cases same
    rfl

/-- A pause and a resume bring the accrual back exactly when the snapshot was wired already. -/
theorem resume_accrues (J : SerdeJson) {f : Files} {bindir : String}
    (installed : (doInstall J bindir f).2 = .ok ())
    (verbs : List String) (cmd : String) (d : Spnrd.Daemon C) (pausedMs resumedMs : UInt64)
    (ulid ulid' : String) (between : List Spnrd.Datagram) :
    let paused :=
      pauseCommand J pausedMs ulid ⟨(tryInject J verbs (some cmd) (doInstall J bindir f).1).1, d⟩
    Accrues J cmd
      (resumeCommand resumedMs ulid' { paused with daemon := paused.daemon.run between }) ↔
      ∀ v, snapshotOf J f = some v → Counts cmd v := by
  intro paused
  obtain ⟨snap, map, backup, holds, reads, counts⟩ := started_files installed verbs cmd
  have after : parsed J paused.files.settings = (snapshotOf J f).or (some (.obj map)) := by
    rw [← holds, ← reads]
    exact restored_or backup
  have quiet := resume_unpaused resumedMs ulid' { paused with daemon := paused.daemon.run between }
  constructor
  · rintro ⟨-, -, v, file, here⟩ w snapped
    have file : parsed J paused.files.settings = some v := file
    rw [after, snapped, Option.some_or] at file
    cases file
    exact here
  · intro snapped
    refine ⟨quiet.1, quiet.2, ?_⟩
    change ∃ v, parsed J paused.files.settings = some v ∧ Counts cmd v
    rw [after]
    cases held : snapshotOf J f with
    | none => exact ⟨_, rfl, counts⟩
    | some v => exact ⟨v, rfl, snapped v held⟩

def untouched : Files := ⟨"settings.json", "backup.json", none, none⟩

theorem untouched_installed (J : SerdeJson) : (doInstall J "/opt/spnr" untouched).2 = .ok () := rfl

def someDaemon : Spnrd.Daemon Reference.crates :=
  .new Reference.crates ⟨List.replicate 32 0, rfl⟩ [] none

theorem resume_accrues_untouched : (doInstall .reference "/opt/spnr" untouched).2 = .ok () ∧
    let paused := pauseCommand .reference 1000 "u"
      ⟨(tryInject .reference ["CloakPipe ↗"] (some "/opt/spnr/spnr-status")
        (doInstall .reference "/opt/spnr" untouched).1).1, someDaemon⟩
    Accrues .reference "/opt/spnr/spnr-status"
      (resumeCommand 2000 "u" { paused with daemon := paused.daemon.run [] }) ↔
      ∀ v, snapshotOf .reference untouched = some v → Counts "/opt/spnr/spnr-status" v :=
  ⟨untouched_installed _, resume_accrues .reference (untouched_installed _) ["CloakPipe ↗"]
    "/opt/spnr/spnr-status" someDaemon 1000 2000 "u" "u" []⟩

/-- On a host without spnr the file is stock again, and stays so. -/
theorem accrual_lost : (doInstall .reference "/opt/spnr" untouched).2 = .ok () ∧
    ¬ Accrues .reference "/opt/spnr/spnr-status"
      (resumeCommand 2000 "u" (pauseCommand .reference 1000 "u"
      ⟨(tryInject .reference ["CloakPipe ↗"] (some "/opt/spnr/spnr-status")
        (doInstall .reference "/opt/spnr" untouched).1).1, someDaemon⟩)) := by
  refine ⟨untouched_installed _, ?_⟩
  rintro ⟨-, -, v, file, map, rfl, ⟨hooks, found, -⟩, -⟩
  obtain ⟨snap, map', backup, holds, -, -⟩ :=
    started_files (untouched_installed .reference) ["CloakPipe ↗"] "/opt/spnr/spnr-status"
  have empty : snapshotOf .reference untouched = some (.obj []) := rfl
  have stock := restored_or (J := .reference) backup
  rw [holds, empty, Option.some_or] at stock
  rw [resumed_files, pause, stock] at file
  cases file
  cases found

end Spnr.Cli
