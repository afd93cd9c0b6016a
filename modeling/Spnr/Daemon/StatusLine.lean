import Spnr.Cli.KeyOrder
import Spnr.Daemon.Creatives

/-! The status line that the networked start of the daemon sets, and the one that the user had. -/
namespace Spnr.Spnrd

open IndexMap Json RustStd Serde Settings

def mineLine : Json := .obj [("type", .str "command"), ("command", .str "~/mine.sh")]
def mine : Map := [("statusLine", mineLine)]

end Spnr.Spnrd
