import Spnr.Proto.Wire
import Spnr.Server.Handlers

/-! The body of a POST to `/v1/ingest`, read as the handler's extractor reads it. -/
namespace Spnr.Server

open Serde RustStd

/-- The limit that axum sets where an app sets none. -/
def bodyLimit : Nat := 2097152

def WithinLimit (body : String) : Prop := (asBytes body).length ≤ bodyLimit

instance (body : String) : Decidable (WithinLimit body) := inferInstanceAs (Decidable (_ ≤ _))

/-- The `Json` extractor: a body over the limit is answered 413, one that does not parse is refused
as well, and neither reaches the handler. -/
def extract (C : Crates) {α : Type} (read : Json → Option α) (body : String) : Option α :=
  if WithinLimit body then (C.fromStr body).bind read else none

def SignedEvent.fromJson (j : Json) : Option SignedEvent := do
  let ms ← structMembers ["e", "s"] false j
  let e ← field Event.fromJson ms "e"
  let s ← field asString ms "s"
  return { e, s }

def signedEvents (j : Json) : Option (List SignedEvent) :=
  (asArray j).bind fun items => items.mapM SignedEvent.fromJson

def IngestReq.fromJson (j : Json) : Option IngestReq := do
  let ms ← structMembers ["device_id", "events"] false j
  let deviceId ← field asString ms "device_id"
  let events ← field signedEvents ms "events"
  return { deviceId, events }

/-- What a body says, whatever its size. -/
def IngestReq.fromText (C : Crates) (body : String) : Option IngestReq :=
  (C.fromStr body).bind IngestReq.fromJson

def ingestBody (C : Crates) (body : String) : Option IngestReq := extract C IngestReq.fromJson body

def SignedEvent.toJson (se : SignedEvent) : Json := .obj [("e", se.e.toJson), ("s", .str se.s)]

def IngestReq.toJson (req : IngestReq) : Json :=
  .obj [("device_id", .str req.deviceId), ("events", .arr (req.events.map SignedEvent.toJson))]

theorem SignedEvent.fromJson_toJson {se : SignedEvent} (small : se.e.ctr < 2 ^ 64) :
    SignedEvent.fromJson se.toJson = some se := by
  have members : structMembers ["e", "s"] false se.toJson =
    some [("e", se.e.toJson), ("s", .str se.s)] := by
    simp [toJson, structMembers]
  have e : field Event.fromJson [("e", se.e.toJson), ("s", .str se.s)] "e" = some se.e :=
    (field_of_lookup rfl).trans (Event.fromJson_toJson small)
  have s : field asString [("e", se.e.toJson), ("s", .str se.s)] "s" = some se.s :=
    (field_of_lookup rfl).trans (asString_str se.s)
  rw [fromJson, members, Option.bind_eq_bind, Option.bind_some, e, s]
  rfl

theorem signedEvents_arr {ses : List SignedEvent} (small : ∀ se ∈ ses, se.e.ctr < 2 ^ 64) :
    signedEvents (.arr (ses.map SignedEvent.toJson)) = some ses := by
  simp only [signedEvents, asArray, Option.bind_some]
  induction ses with
  | nil => rfl
  | cons se ses ih =>
    have first := SignedEvent.fromJson_toJson (small se List.mem_cons_self)
    have rest := ih fun se' mem => small se' (List.mem_cons_of_mem _ mem)
    rw [List.map_cons, List.mapM_cons, first, rest]
    rfl

theorem IngestReq.fromJson_toJson {req : IngestReq} (small : ∀ se ∈ req.events, se.e.ctr < 2 ^ 64) :
    IngestReq.fromJson req.toJson = some req := by
  have members : structMembers ["device_id", "events"] false req.toJson =
      some [("device_id", .str req.deviceId),
        ("events", .arr (req.events.map SignedEvent.toJson))] := by
    simp [toJson, structMembers]
  have deviceId : field asString [("device_id", .str req.deviceId),
      ("events", .arr (req.events.map SignedEvent.toJson))] "device_id" = some req.deviceId :=
    (field_of_lookup rfl).trans (asString_str req.deviceId)
  have events : field signedEvents [("device_id", .str req.deviceId),
      ("events", .arr (req.events.map SignedEvent.toJson))] "events" = some req.events :=
    (field_of_lookup rfl).trans (signedEvents_arr small)
  rw [fromJson, members, Option.bind_eq_bind, Option.bind_some, deviceId, events]
  rfl

theorem SignedEvent.toJson_within {se : SignedEvent} (small : se.e.ctr < 2 ^ 64) (d : Nat) :
    Json.Within (d + 2) se.toJson := by
  apply Json.Within.obj
  · simp
  · intro m mem
    rcases List.mem_pair.mp mem with rfl | rfl
    · exact Event.toJson_within small d
    · exact .str se.s

theorem IngestReq.toJson_within {req : IngestReq} (small : ∀ se ∈ req.events, se.e.ctr < 2 ^ 64) :
    Json.Within 127 req.toJson := by
  apply Json.Within.obj
  · simp
  · intro m mem
    rcases List.mem_pair.mp mem with rfl | rfl
    · exact .str req.deviceId
    · apply Json.Within.arr
      intro v mem
      obtain ⟨se, sent, rfl⟩ := List.mem_map.mp mem
      exact SignedEvent.toJson_within (small se sent) 123

theorem extract_within {C : Crates} {α : Type} {read : Json → Option α} {body : String}
    (within : WithinLimit body) : extract C read body = (C.fromStr body).bind read := if_pos within

end Spnr.Server
