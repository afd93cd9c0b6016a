import Spnr.Server.State
import Mathlib.Data.List.Sort

/-! `db.rs`: every write-through helper as one SQL statement, and `load`. -/
namespace Spnr.Server

open RustStd

/-- One autocommitted statement of a write-through helper. -/
inductive Stmt where
  | kvSet (k : String) (v : Nat)
  | upsertDevice (deviceId : String) (row : DeviceRow)
  | updateDeviceHead (deviceId chainHead : String) (ctrHead : Option Nat)
  | ensureBalance (account : String)
  | ensureImpressions (account : String)
  | setBalance (account : String) (micros : Int)
  | setImpressions (account : String) (n : Nat)
  | insertLedger (e : LedgerEntry)
  | insertSeenEvent (eventId : String)
  | insertRedemption (r : Redemption)
  | insertCreative (c : Creative) (active : Bool) (createdUnix : Int)
  | deleteCreative (id : String)
  | upsertDeviceMeta (deviceId : String) (row : DeviceMetaRow)

/-- `ON CONFLICT(device_id) DO UPDATE`: `first_seen` stays, an absent field keeps its value. -/
def DeviceMetaRow.merge (old new : DeviceMetaRow) : DeviceMetaRow where
  ip := new.ip <|> old.ip
  os := new.os <|> old.os
  arch := new.arch <|> old.arch
  hostname := new.hostname <|> old.hostname
  version := new.version <|> old.version
  email := new.email <|> old.email
  firstSeen := old.firstSeen
  lastSeen := new.lastSeen

/-- `ON CONFLICT(id) DO UPDATE` on `creatives`: `created_unix` stays. -/
def upsertCreative (c : Creative) (active : Bool) (createdUnix : Int) :
    List CreativeRow → List CreativeRow
  | [] => [⟨c, active, createdUnix⟩]
  | row :: rows =>
    if row.creative.id = c.id then ⟨c, active, row.createdUnix⟩ :: rows
    else row :: upsertCreative c active createdUnix rows

/-- The durable effect of one statement; a violated key constraint writes nothing. -/
def Database.exec (db : Database) : Stmt → Database
  | .kvSet k v => { db with kv := db.kv.insert k v }
  | .upsertDevice id row => { db with devices := db.devices.insert id row }
  | .updateDeviceHead id chainHead ctrHead =>
    match db.devices.lookup id with
    | some row => { db with devices := db.devices.insert id { row with chainHead, ctrHead } }
    | none => db
  | .ensureBalance a =>
    if a ∈ db.balances then db else { db with balances := db.balances.insert a 0 }
  | .ensureImpressions a =>
    if a ∈ db.impressions then db else { db with impressions := db.impressions.insert a 0 }
  | .setBalance a micros => { db with balances := db.balances.insert a micros }
  | .setImpressions a n => { db with impressions := db.impressions.insert a n }
  | .insertLedger e => { db with ledger := db.ledger ++ [e] }
  | .insertSeenEvent id => { db with seenEvents := insert id db.seenEvents }
  | .insertRedemption r =>
    if r.id ∈ db.redemptions.map Redemption.id then db
    else { db with redemptions := db.redemptions ++ [r] }
  | .insertCreative c active now =>
    { db with creatives := upsertCreative c active now db.creatives }
  | .deleteCreative id =>
    { db with creatives := db.creatives.map fun row =>
        if row.creative.id = id ∧ row.active then { row with active := false } else row }
  | .upsertDeviceMeta id row =>
    match db.deviceMeta.lookup id with
    | some old => { db with deviceMeta := db.deviceMeta.insert id (old.merge row) }
    | none => { db with deviceMeta := db.deviceMeta.insert id row }

def Database.execAll (db : Database) (ws : List Stmt) : Database := ws.foldl Database.exec db

@[simp] theorem Database.execAll_nil (db : Database) : db.execAll [] = db := rfl

@[simp] theorem Database.execAll_cons (db : Database) (w : Stmt) (ws : List Stmt) :
    db.execAll (w :: ws) = (db.exec w).execAll ws := rfl

@[simp] theorem Database.execAll_append (db : Database) (ws ws' : List Stmt) :
    db.execAll (ws ++ ws') = (db.execAll ws).execAll ws' := List.foldl_append

def redemptionNumber (id : String) : Option Nat := (stripPrefix "rdm_" id).bind parseU64

def redemptionId (n : Nat) : String := "rdm_" ++ toString n

@[simp] theorem redemptionNumber_redemptionId (n : Nat) :
    redemptionNumber (redemptionId n) = some n := by
  simp [redemptionNumber, redemptionId]

theorem redemptionId_injective {m n : Nat} (h : redemptionId m = redemptionId n) : m = n := by
  simpa using congrArg redemptionNumber h

/-- The sort key of a redemption row; an id without a number sorts last. -/
def redemptionKey (r : Redemption) : Nat := (redemptionNumber r.id).getD (2 ^ 64 - 1)

def maxRedemptionId (rows : List Redemption) : Nat :=
  rows.foldl (fun m r => match redemptionNumber r.id with | some n => max m n | none => m) 0

/-- `kv_get`: a missing counter reads as zero. -/
def kvGet (kv : HashMap String Nat) (key : String) : Nat := (kv.lookup key).getD 0

/-- `load`: rebuild the in-memory view. A device row whose key does not decode is skipped. -/
def load (C : Crates) (db : Database) : Loaded C.VerifyingKey where
  devices := HashMap.filterMap (fun row => (decodePubkey C row.pubkeyHex).map fun pubkey =>
    ⟨pubkey, row.accountId, row.chainHead, row.ctrHead⟩) db.devices
  seenEventIds := db.seenEvents
  ledger := db.ledger
  balances := db.balances
  impressions := db.impressions
  clicks := kvGet db.kv "clicks"
  accepted := kvGet db.kv "accepted"
  rejected := kvGet db.kv "rejected"
  redemptions := db.redemptions.mergeSort fun r r' => redemptionKey r ≤ redemptionKey r'
  nextRedemptionId := maxRedemptionId db.redemptions + 1

/-- `load_creatives`: `ORDER BY created_unix, id`. -/
def loadCreatives (db : Database) : List CreativeRow :=
  db.creatives.mergeSort fun r r' =>
    r.createdUnix < r'.createdUnix ∨ r.createdUnix = r'.createdUnix ∧ r.creative.id ≤ r'.creative.id

end Spnr.Server
