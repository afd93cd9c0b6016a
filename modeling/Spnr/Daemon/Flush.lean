import Spnr.Daemon.Daemon

/-! The flush task: batches of envelopes, each posted as one text. -/
namespace Spnr.Spnrd

def postBody (deviceId : String) (batch : List String) : String :=
  "\x7b\"device_id\":\"" ++ deviceId ++ "\",\"events\":[" ++ String.intercalate "," batch ++ "]\x7d"

/-- One POST of the flush task, and whether it reached the server; the daemon does not ask. -/
structure Post where
  batch : List String
  delivered : Bool

end Spnr.Spnrd
