import Mathlib.Data.List.Flatten
import Spnr.Cli.KeyOrder

/-! Hook entries one by one: `remove_hooks` drops whole groups, and with them the entries of
others that stand in a group of spnr's. -/
namespace Spnr.Cli

open IndexMap Json Settings

variable {J : SerdeJson}

def sharedGroup : Json :=
  .obj [("matcher", .str ""),
    ("hooks", .arr [.obj [("type", .str "command"), ("command", .str "spnr-hook")],
    .obj [("type", .str "command"), ("command", .str "my-notify")]])]

def shared : Map := [("hooks", .obj [("Stop", .arr [sharedGroup])])]

end Spnr.Cli
