import Spnr.Lib.Json
import Mathlib.Algebra.GroupWithZero.Nat
import Mathlib.Data.Option.Basic

/-! The SAP/1 event object and its closed JSON schema (`spnr-proto/src/event.rs`). -/
namespace Spnr

def genesisPrev : String :=
  "b3:0000000000000000000000000000000000000000000000000000000000000000"

inductive EventType where
  | imp | clickHint | sessionStart | sessionEnd | heartbeatSummary | gap
  deriving DecidableEq, Repr

def EventType.wire : EventType → String
  | .imp => "imp"
  | .clickHint => "click_hint"
  | .sessionStart => "session_start"
  | .sessionEnd => "session_end"
  | .heartbeatSummary => "heartbeat_summary"
  | .gap => "gap"

/-- One SAP/1 event. The counter is a `u64` that moves by one for each accepted
event whose id is held in memory, so it never reaches its bound and is a `Nat`. -/
structure Event where
  v : UInt8
  id : String
  ctr : Nat
  prev : String
  t : Int64
  ty : EventType
  session : String
  creative : Option String
  n : Option UInt32
  deriving DecidableEq

def Event.count (e : Event) : Nat := (e.n.getD 0).toNat

def counted (es : List Event) : Nat := (es.map Event.count).sum

@[simp] theorem counted_nil : counted [] = 0 := rfl

@[simp] theorem counted_append (es fs : List Event) :
    counted (es ++ fs) = counted es + counted fs := by
  simp [counted]

/-- The JSON object of an event, members in code-point order and absent options
omitted, which is how the canonical encoder lists them. -/
def Event.toJson (e : Event) : Json :=
  .obj ((e.creative.map fun c => ("creative", Json.str c)).toList ++
    [("ctr", .int e.ctr), ("id", .str e.id)] ++
    (e.n.map fun n => ("n", Json.int n.toNat)).toList ++
    [("prev", .str e.prev), ("session", .str e.session), ("t", .int e.t.toInt),
      ("type", .str e.ty.wire), ("v", .int e.v.toNat)])

end Spnr
