import Spnr.Cli.Pristine
import Spnr.Lib.Crash
import Spnr.Settings.Atomic

/-! The commands of `spnr` and the start of the daemon system call by system call, on the
settings file, the snapshot, and the temp files that a process leaves when it dies. -/
namespace Spnr.Cli

open Crash Settings

inductive Syscall where
  | stat
  | read
  | tempfile
  | write
  | fsync
  | rename
  | unlink
  | removeDir
  deriving DecidableEq

inductive Target where
  | settings
  | backup
  deriving DecidableEq

/-- The two files, and the temp files in their directories, the newest first. -/
structure Host where
  settings : Option (List UInt8)
  backup : Option (List UInt8)
  temps : List (Target × List UInt8)

namespace Host

def files (place : Target → Place) (h : Host) : Files :=
  ⟨(place .settings).path, (place .backup).path, h.settings, h.backup⟩

def create (target : Target) (h : Host) : Host := { h with temps := (target, []) :: h.temps }
def fill (target : Target) (bytes : List UInt8) (h : Host) : Host :=
  { h with temps := (target, bytes) :: h.temps.tail }
def drop (h : Host) : Host := { h with temps := h.temps.tail }

def publish : Target → Host → Host
  | .settings, h => { h with settings := h.temps.head?.map Prod.snd, temps := h.temps.tail }
  | .backup, h => { h with backup := h.temps.head?.map Prod.snd, temps := h.temps.tail }

def put (bytes : List UInt8) : Target → Host → Host
  | .settings, h => { h with settings := some bytes }
  | .backup, h => { h with backup := some bytes }

def removeHome (h : Host) : Host :=
  { h with backup := none, temps := h.temps.filter fun temp => temp.1 ≠ .backup }

/-- The entries go in any order: the bits of `progress` say which have gone. -/
def removeSome (progress : Nat) (h : Host) : Host :=
  { h with
    backup := if progress.testBit 0 then none else h.backup
    temps := (h.temps.zipIdx.filter fun temp => temp.1.1 ≠ .backup || !progress.testBit
      (temp.2 + 1)).map Prod.fst }

end Host

abbrev Program (R : Type) := Process Host Syscall R

section

variable (J : SerdeJson) (place : Target → Place)

/-- A `NamedTempFile` that goes out of scope is deleted, if that works. -/
def dropTemp (e : UpdateError) : Program (Except UpdateError Unit) :=
  .call (.atomic .unlink Host.drop) (fun _ => .ret (.error e)) fun _ => .ret (.error e)

def atomicWriteP (target : Target) (bytes : List UInt8) : Program (Except UpdateError Unit) :=
  .call (.atomic .tempfile (Host.create target))
    (fun _ => .call ⟨.write, Host.fill target bytes,
      fun progress => Host.fill target (bytes.take progress)⟩ (fun _ => .call (.atomic .fsync id)
        (fun _ => .call (.atomic .rename (Host.publish target))
          (fun _ => .ret (.ok ()))
          fun e => dropTemp (.io s!"rename onto {(place target).path}: {e}"))
        fun e => dropTemp (.io s!"fsync temp: {e}"))
      fun e => dropTemp (.io s!"write temp: {e}"))
    fun e => .ret (.error (.io s!"tempfile in {(place target).dir}: {e}"))

def readSettings (f : Map → Program (Except UpdateError Unit)) :
    Program (Except UpdateError Unit) :=
  .call (.atomic .read id)
    (fun h => match readObject J (place .settings).path h.settings with
      | .error e => .ret (.error (.settings e))
      | .ok map => f map)
    fun e => .ret (.error (.io s!"read {(place .settings).path}: {e}"))

/-- `exists` says no when it cannot look. -/
def snapshotP : Program (Except UpdateError Unit) :=
  let anew := readSettings J place fun original => atomicWriteP place .backup (serialize J original)
  .call (.atomic .stat id) (fun h => if h.backup.isSome then .ret (.ok ()) else anew) fun _ => anew

def updateP (change : Map → Except SettingsError (Option Map)) :
    Program (Except UpdateError Unit) :=
  readSettings J place fun map =>
    match change map with
    | .error e => .ret (.error (.settings e))
    | .ok none => .ret (.ok ())
    | .ok (some map) => atomicWriteP place .settings (serialize J map)

def restoreP : Program (Except UpdateError Unit) :=
  let missing : UpdateError :=
    .settings (.snapshotMissing s!"{(place .backup).path} (stripped spnr keys as a fallback)")
  .call (.atomic .read id)
    (fun h => match h.backup with
      | none => readSettings J place fun map =>
        if hadAny map then
          (atomicWriteP place .settings (serialize J (stripMap map))).bind fun
            | .error e => .ret (.error e)
            | .ok () => .ret (.error missing)
        else .ret (.error missing)
      | some snap =>
        match J.fromSlice snap with
        | .error e => .ret (.error (.settings (.snapshotMissing s!"backup unparseable: {e}")))
        | .ok _ => atomicWriteP place .settings snap)
    fun e => .ret (.error (.io s!"read backup: {e}"))

inductive Command where
  | install (bindir : String)
  | start (verbs : List String) (statusline : Option String)
  | pause
  | uninstall

def andThenP (p q : Program (Except UpdateError Unit)) : Program (Except UpdateError Unit) :=
  p.bind fun
    | .error e => .ret (.error e)
    | .ok () => q

def removeHome : Program (Except UpdateError Unit) :=
  .call ⟨.removeDir, Host.removeHome, Host.removeSome⟩ (fun _ => .ret (.ok ())) fun _ =>
    .ret (.ok ())

def Command.process : Command → Program (Except UpdateError Unit)
  | .install bindir =>
    andThenP (snapshotP J place)
      (updateP J place fun map => (injectHooksMap (bindir ++ "/spnr-hook") map).map some)
  | .start verbs statusline =>
    andThenP (snapshotP J place)
      (updateP J place fun map => .ok (some (injectMap verbs statusline map)))
  | .pause => restoreP J place
  | .uninstall =>
    (restoreP J place).bind fun _ =>
      (updateP J place fun map => .ok (removeHooksMap map)).bind fun _ => removeHome

end

/-- What the environment may do to the calls of a command: any of them can be the last
one, and of all but an uninstall any can fail, only that the look for the snapshot never
misses one that is there. -/
def Command.May (there : Bool) : Command → Syscall → Verdict → Prop
  | .uninstall, _, .fails _ _ => False
  | _, .stat, .fails _ _ => there = false
  | _, _, _ => True

end Spnr.Cli
