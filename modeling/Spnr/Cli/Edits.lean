import Spnr.Cli.Uninstall

/-! Edits that others make to the settings between an install and a pause or an
uninstall. The snapshot is written back whole, so they last only where they
put back what the snapshot has. -/
namespace Spnr.Cli

open IndexMap Json Settings

/-- A step of spnr, or a new content of the settings file that is an object. -/
inductive HistoryStep (J : SerdeJson) where
  | spnr (s : SpnrStep)
  | edit (bytes : List UInt8) (map : Map) (reads : J.fromSlice bytes = .ok (.obj map))

variable {J : SerdeJson}

theorem serialized (map : Map) (stored : Json.Stored (fun _ => False) 127 (.obj map)) :
    SerdeJson.reference.fromSlice (serialize .reference map) = .ok (.obj map) :=
  parsed_some.mp (parsed_serialize (J := .reference) stored)

/-- The daemon starts, the user writes the object of before the install, and
the daemon starts again. -/
noncomputable def putBack : List (HistoryStep .reference) :=
  [.spnr (.start ["Sponsored"] none),
    .edit (serialize .reference plain) plain (serialized plain stored_plain),
    .spnr (.start [] (some "spnr-status"))]

end Spnr.Cli
