import Spnr.Lib.SerdeJson
import Spnr.EndToEnd.Delivery
import Spnr.Server.Telemetry

/-! The registration a daemon posts when it starts, from the machine it runs on to the row the
operator sees: the values are printed as JSON text, read back by the server's extractor
and merged into what earlier registrations said. -/
namespace Spnr.Spnrd

open RustStd

/-- What `register` reads of the machine: variables that are text, `/etc/hostname`, and
constants of the build. -/
structure Machine where
  hostnameVar : Option String
  etcHostname : Option String
  email : Option String
  os : String
  arch : String
  version : String

namespace Machine

variable (m : Machine)

def hostname : String :=
  ((m.hostnameVar.filter fun s => trim s ≠ "") <|> ((m.etcHostname.map trim).filter (· ≠ ""))).getD
    "unknown"

/-- The body of `register`; the field `email` is there only when there is one. -/
def registerBody (deviceId pubkeyHex : String) : Json :=
  .obj ([("device_id", .str deviceId), ("pubkey", .str pubkeyHex), ("os", .str m.os),
    ("arch", .str m.arch),
      ("version", .str m.version), ("hostname", .str m.hostname)] ++
    ((m.email.filter (· ≠ "")).map fun email => ("email", Json.str email)).toList)

def registerText (deviceId pubkeyHex : String) : String :=
  String.ofList (Json.print .compact 0 (m.registerBody deviceId pubkeyHex))

end Machine

end Spnr.Spnrd

namespace Spnr.Server

open Serde

def RegisterReq.fromJson (j : Json) : Option RegisterReq := do
  let ms ← structMembers ["device_id", "pubkey", "os", "arch", "hostname", "version",
    "email"] false j
  let deviceId ← field asString ms "device_id"
  let pubkey ← field asString ms "pubkey"
  let os ← optionField asString ms "os"
  let arch ← optionField asString ms "arch"
  let hostname ← optionField asString ms "hostname"
  let version ← optionField asString ms "version"
  let email ← optionField asString ms "email"
  return { deviceId, pubkey, os, arch, hostname, version, email }

def RegisterReq.fromText (C : Crates) (body : String) : Option RegisterReq :=
  (C.fromStr body).bind RegisterReq.fromJson

def registerRequest (C : Crates) (body : String) : Option RegisterReq :=
  extract C RegisterReq.fromJson body

end Spnr.Server

namespace Spnr.EndToEnd

open RustStd Transition Server Spnrd

variable {C : Crates}

theorem registerBody_within (m : Machine) (deviceId pubkeyHex : String) :
    (m.registerBody deviceId pubkeyHex).Stored (fun _ => False) 127 ∧
    (m.registerBody deviceId pubkeyHex).Within 127 := by
  have distinct : IndexMap.Distinct
    ([("device_id", Json.str deviceId), ("pubkey", .str pubkeyHex), ("os", .str m.os),
      ("arch", .str m.arch), ("version", .str m.version), ("hostname", .str m.hostname)] ++
        ((m.email.filter (· ≠ "")).map fun email => ("email", Json.str email)).toList) := by
    cases m.email.filter (· ≠ "") <;> simp [IndexMap.Distinct]
  have text : ∀ v ∈ [("device_id", Json.str deviceId), ("pubkey", .str pubkeyHex),
    ("os", .str m.os),
      ("arch", .str m.arch), ("version", .str m.version), ("hostname", .str m.hostname)] ++
        ((m.email.filter (· ≠ "")).map fun email => ("email", Json.str email)).toList, ∃ t,
          v.2 = Json.str t := by
    cases m.email.filter (· ≠ "") <;> simp
  constructor
  · refine .obj distinct fun v mem => ?_
    obtain ⟨t, same⟩ := text v mem
    rw [same]
    exact .str t
  · refine .obj distinct fun v mem => ?_
    obtain ⟨t, same⟩ := text v mem
    rw [same]
    exact .str t

theorem fromText_registerText (C : Crates) (m : Machine) (deviceId pubkeyHex : String) :
    RegisterReq.fromText C (m.registerText deviceId pubkeyHex) =
      some ⟨deviceId, pubkeyHex, some m.os, some m.arch, some m.hostname, some m.version,
        m.email.filter (· ≠ "")⟩ := by
  obtain ⟨stored, within⟩ := registerBody_within m deviceId pubkeyHex
  have text : Json.Text (m.registerBody deviceId pubkeyHex)
    (m.registerText deviceId pubkeyHex).toList := by
    rw [Machine.registerText, String.toList_ofList]
    exact Json.compact_text stored 0
  rw [RegisterReq.fromText, C.fromStr_text _ _ within text, Option.bind_some]
  cases email : m.email.filter (· ≠ "") with
  | none =>
    have same : m.registerBody deviceId pubkeyHex = .obj [("device_id", .str deviceId),
      ("pubkey", .str pubkeyHex),
        ("os", .str m.os), ("arch", .str m.arch), ("version", .str m.version),
          ("hostname", .str m.hostname)] := by
      rw [Machine.registerBody, email]
      rfl
    rw [same]
    rfl
  | some email' =>
    have same : m.registerBody deviceId pubkeyHex = .obj [("device_id", .str deviceId),
      ("pubkey", .str pubkeyHex),
        ("os", .str m.os), ("arch", .str m.arch), ("version", .str m.version),
          ("hostname", .str m.hostname),
        ("email", .str email')] := by
      rw [Machine.registerBody, email]
      rfl
    rw [same]
    rfl

theorem hostname_visible (m : Machine) : trim m.hostname ≠ "" := by
  unfold Machine.hostname
  cases set : m.hostnameVar.filter fun s => trim s ≠ "" with
  | some s =>
    have visible := (Option.filter_eq_some_iff.mp set).2
    simpa using visible
  | none =>
    cases file : (m.etcHostname.map trim).filter (· ≠ "") with
    | some s =>
      obtain ⟨read, visible⟩ := Option.filter_eq_some_iff.mp file
      obtain ⟨raw, -, rfl⟩ := Option.map_eq_some_iff.mp read
      simpa [trim_trim] using visible
    | none => decide

def machineRow (m : Machine) (peer : Peer) (at' : Int) : DeviceMetaRow :=
  { ip := some (clientIp peer)
    os := optStr (some m.os)
    arch := optStr (some m.arch)
    hostname := some (trim m.hostname)
    version := optStr (some m.version)
    email := optStr (m.email.filter (· ≠ ""))
    firstSeen := at'
    lastSeen := at' }

/-- The server reads the daemon's text, and whatever happens before and after, as long as nobody
else registers the device, the operator's list has the machine's row for it and no other. -/
theorem registration_shown (C : Crates) (m : Machine) (key : C.SigningKey) :
    let text :=
      m.registerText (DeviceKey.deviceId C key) (C.hexEncode (C.keyBytes (C.verifyingKey key)))
    ∃ req, RegisterReq.fromText C text = some req ∧
      registerRequest C text = (if WithinLimit text then some req else none) ∧
      ∀ {now : Int} {token : Option String} {past later : List Action} {peer : Peer} {at' : Int}
        {srv : ServerState C.VerifyingKey},
        Run Behaves (ServerState.fresh C now token)
          (past ++ .complete (.register peer req at') :: later) srv →
        sightings C (DeviceKey.deviceId C key) past = [] →
          sightings C (DeviceKey.deviceId C key) later = [] →
        ∀ row, (DeviceKey.deviceId C key, row) ∈ listDeviceMeta srv.db ↔
          row = machineRow m peer at' := by
  intro text
  have reads := fromText_registerText C m (DeviceKey.deviceId C key)
    (C.hexEncode (C.keyBytes (C.verifyingKey key)))
  have extracted : registerRequest C text =
    if WithinLimit text then RegisterReq.fromText C text else none := rfl
  rw [reads] at extracted
  refine ⟨_, reads, extracted, ?_⟩
  intro now token past later peer at' srv reached before after row
  have name : optStr (some m.hostname) = some (trim m.hostname) := by
    rw [optStr, Option.map_some, Option.filter_some, if_pos (by simpa using hostname_visible m)]
  have accepted : decodePubkey C (C.hexEncode (C.keyBytes (C.verifyingKey key))) =
    some (C.verifyingKey key) :=
    decodePubkey_hexEncode C _
  have seen := meta_recorded reached (DeviceKey.deviceId C key)
  rw [sightings, List.filterMap_append, ← sightings, before, List.nil_append,
    List.filterMap_cons] at seen
  simp only [Action.sighting, accepted, Option.isSome_some, and_self, if_true] at seen
  rw [← sightings, after] at seen
  have single : srv.db.deviceMeta.lookup (DeviceKey.deviceId C key) =
    some (machineRow m peer at') := by
    rw [seen]
    simp [recorded, lastSaid, machineRow, name]
  rw [mem_listDeviceMeta, single]
  exact ⟨fun same => (Option.some.inj same).symm, fun same => congrArg some same.symm⟩

def mill : Machine := ⟨some " ", some "mill\n", some " ", "linux", "x86_64", "0.1.0"⟩

theorem registration_shown_mill :
    ∃ srv : ServerState Reference.crates.VerifyingKey,
      (DeviceKey.deviceId Reference.crates (Reference.key 7),
        ⟨some "203.0.113.9", some "linux", some "x86_64", some "mill", some "0.1.0", none, 5, 5⟩) ∈
          listDeviceMeta srv.db := by
  obtain ⟨req, -, -, shown⟩ := registration_shown Reference.crates mill (Reference.key 7)
  have run : Run Behaves (ServerState.fresh Reference.crates 0 none)
      ([] ++ .complete (.register ⟨some "203.0.113.9, 10.0.0.1", "10.0.0.1"⟩ req 5) ::
        [.complete (.click "AbC9")])
      (((ServerState.fresh Reference.crates 0 none).act Reference.crates
        (.complete (.register ⟨some "203.0.113.9, 10.0.0.1", "10.0.0.1"⟩ req 5))).act
          Reference.crates
          (.complete (.click "AbC9"))) :=
    .cons rfl (.cons rfl (.nil _))
  exact ⟨_, (shown run rfl rfl _).mpr (by decide)⟩

end Spnr.EndToEnd
