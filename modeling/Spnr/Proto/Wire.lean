import Spnr.Lib.Serde
import Spnr.Proto.Event

/-! The deserialize side of the event schema. It takes back what the canonical
encoder writes, and nothing with a member outside the schema. -/
namespace Spnr

open Serde

def EventType.ofWire : String → Option EventType
  | "imp" => some .imp
  | "click_hint" => some .clickHint
  | "session_start" => some .sessionStart
  | "session_end" => some .sessionEnd
  | "heartbeat_summary" => some .heartbeatSummary
  | "gap" => some .gap
  | _ => none

@[simp] theorem EventType.ofWire_wire (ty : EventType) : ofWire ty.wire = some ty := by
  cases ty <;> rfl

def Event.fields : List String :=
  ["v", "id", "ctr", "prev", "t", "type", "session", "creative", "n"]

def Event.fromJson (j : Json) : Option Event := do
  let ms ← structMembers Event.fields true j
  let v ← field asU8 ms "v"
  let id ← field asString ms "id"
  let ctr ← field asU64 ms "ctr"
  let prev ← field asString ms "prev"
  let t ← field asI64 ms "t"
  let ty ← field (fun v => (asVariant v).bind EventType.ofWire) ms "type"
  let session ← field asString ms "session"
  let creative ← optionField asString ms "creative"
  let n ← optionField asU32 ms "n"
  return { v, id, ctr, prev, t, ty, session, creative, n }

theorem Event.toJson_members (e : Event) :
    ∃ ms, e.toJson = .obj ms ∧ structMembers Event.fields true e.toJson = some ms ∧
      ms.lookup "v" = some (.int e.v.toNat) ∧ ms.lookup "id" = some (.str e.id) ∧
      ms.lookup "ctr" = some (.int e.ctr) ∧ ms.lookup "prev" = some (.str e.prev) ∧
      ms.lookup "t" = some (.int e.t.toInt) ∧ ms.lookup "type" = some (.str e.ty.wire) ∧
      ms.lookup "session" = some (.str e.session) ∧ ms.lookup "creative" = e.creative.map .str ∧
      ms.lookup "n" = e.n.map fun n => .int n.toNat := by
  -- the two optional members make four shapes of the object
  refine ⟨_, rfl, ?_, ?_⟩
  · cases hc : e.creative <;> cases hn : e.n <;> simp [toJson, structMembers, fields, hc, hn]
  · cases hc : e.creative <;> cases hn : e.n <;> simp [List.lookup_cons]

theorem Event.fromJson_toJson {e : Event} (small : e.ctr < 2 ^ 64) :
    Event.fromJson e.toJson = some e := by
  obtain ⟨ms, -, members, v, id, ctr, prev, t, ty, session, creative, n⟩ := e.toJson_members
  have v := (field_of_lookup v).trans (asU8_int e.v)
  have id := (field_of_lookup id).trans (asString_str e.id)
  have ctr := (field_of_lookup ctr).trans (asU64_int small)
  have prev := (field_of_lookup prev).trans (asString_str e.prev)
  have t := (field_of_lookup t).trans (asI64_int e.t)
  have ty : field (fun v => (asVariant v).bind EventType.ofWire) ms "type" = some e.ty :=
    (field_of_lookup ty).trans (EventType.ofWire_wire e.ty)
  have session := (field_of_lookup session).trans (asString_str e.session)
  rw [fromJson, members, Option.bind_eq_bind, Option.bind_some, v, id, ctr, prev, t, ty, session,
    optionField_string creative, optionField_u32 n]
  rfl

theorem Event.toJson_within {e : Event} (small : e.ctr < 2 ^ 64) (d : Nat) :
    Json.Within (d + 1) e.toJson := by
  have v := e.v.toNat_lt
  have low := e.t.le_toInt
  have high := e.t.toInt_lt
  have n (n : UInt32) : Json.Within d (.int n.toNat) := by
    have := n.toNat_lt
    exact .int (by omega) (by omega)
  refine .obj ?_ ?_
  · cases hc : e.creative <;> cases hn : e.n <;> simp
  · intro m mem
    simp only [List.mem_append, List.mem_cons, List.not_mem_nil, or_false, Option.mem_toList,
      Option.map_eq_some_iff] at mem
    rcases mem with ((⟨c, -, rfl⟩ | rfl | rfl) | ⟨k, -, rfl⟩) | rfl | rfl | rfl | rfl | rfl
    · exact .str c
    · exact .int (by omega) (by omega)
    · exact .str e.id
    · exact n k
    · exact .str e.prev
    · exact .str e.session
    · exact .int (by omega) (by omega)
    · exact .str e.ty.wire
    · exact .int (by omega) (by omega)

end Spnr
