import Spnr.Lib.SerdeJson
import Spnr.Lib.Serde

/-! What `spnr-settings` does to the object in the host's settings file. -/
namespace Spnr.Settings

open IndexMap Serde

abbrev Map := IndexMap String Json

inductive SettingsError where
  | parse (text : String)
  | snapshotMissing (text : String)
  | schemaDrift (text : String)
  deriving DecidableEq

def SettingsError.display : SettingsError → String
  | .parse text => "settings JSON parse error: " ++ text
  | .snapshotMissing text => "settings snapshot missing or unreadable: " ++ text
  | .schemaDrift text => "host settings schema changed unexpectedly: " ++ text

def spnrOwnedKeys : List String := ["spinnerVerbs", "statusLine"]
def spnrHookEvents : List String := ["UserPromptSubmit", "Stop", "SessionEnd"]

def typeName : Json → String
  | .null => "null"
  | .bool _ => "bool"
  | .int _ => "number"
  | .float _ => "number"
  | .str _ => "string"
  | .arr _ => "array"
  | .obj _ => "object"

def get (v : Json) (k : String) : Option Json :=
  match v with
  | .obj members => members.lookup k
  | _ => none

def spinnerVerbs (verbs : List String) : Json :=
  .obj [("mode", .str "replace"), ("verbs", .arr (verbs.map .str))]

def statusLine (cmd : String) : Json :=
  .obj [("type", .str "command"), ("command", .str cmd), ("refreshInterval", .int 1)]

def injectMap (verbs : List String) (statusline : Option String) (map : Map) : Map :=
  let map := insert "spinnerVerbs" (spinnerVerbs verbs) map
  match statusline with
  | some cmd => insert "statusLine" (statusLine cmd) map
  | none => map

/-- The fallback of `restore`, and whether it removed anything. -/
def stripMap (map : Map) : Map := spnrOwnedKeys.foldl (fun map k => swapRemove k map) map
def hadAny (map : Map) : Bool := spnrOwnedKeys.any fun k => (map.lookup k).isSome

def groupRuns (p : String → Bool) (group : Json) : Bool :=
  (((get group "hooks").bind asArray).getD []).any fun hook =>
    ((get hook "command").bind asString).any p

def groupHasExactCommand (group : Json) (command : String) : Bool := groupRuns (· == command) group

def isSpnrHookCommand (command : String) : Bool :=
  command == "spnr-hook" || "/spnr-hook".toList.isSuffixOf command.toList

def groupIsSpnrHook (group : Json) : Bool := groupRuns isSpnrHookCommand group

def spnrGroup (command : String) : Json :=
  .obj [("matcher", .str ""),
    ("hooks", .arr [.obj [("type", .str "command"), ("command", .str command)]])]

def injectEvent (command : String) (hooks : Map) (event : String) : Except SettingsError Map :=
  match (hooks.lookup event).getD (.arr []) with
  | .arr groups =>
    let groups :=
      if groups.any (groupHasExactCommand · command) then groups else groups ++ [spnrGroup command]
    .ok (insert event (.arr groups) hooks)
  | other => .error (.schemaDrift s!"hooks.{event} is a JSON {typeName other}, expected an array")

def injectHooksMap (command : String) (map : Map) : Except SettingsError Map :=
  match (map.lookup "hooks").getD (.obj []) with
  | .obj hooks => do
    let hooks ← spnrHookEvents.foldlM (injectEvent command) hooks
    return insert "hooks" (.obj hooks) map
  | other => .error (.schemaDrift s!"hooks is a JSON {typeName other}, expected an object")

def retainForeign (hooks : Map) (event : String) : Map :=
  match hooks.lookup event with
  | some (.arr groups) => insert event (.arr (groups.filter fun g => !groupIsSpnrHook g)) hooks
  | _ => hooks

def pruneEvent (hooks : Map) (event : String) : Map :=
  match hooks.lookup event with
  | some (.arr []) => swapRemove event hooks
  | _ => hooks

def removeEvents (hooks : Map) : Map :=
  spnrHookEvents.foldl pruneEvent (spnrHookEvents.foldl retainForeign hooks)

/-- `none` when there is no `hooks` object and nothing is written. -/
def removeHooksMap (map : Map) : Option Map :=
  match map.lookup "hooks" with
  | some (.obj hooks) =>
    let hooks := removeEvents hooks
    let map := insert "hooks" (.obj hooks) map
    some (if hooks.isEmpty then swapRemove "hooks" map else map)
  | _ => none

end Spnr.Settings
