import Spnr.Server.Db

/-! The mutating HTTP handlers of `spnr-server/src/main.rs`. Each runs under the
state mutex and answers with the new state, the SQL statements it issues in
order, and its response. -/
namespace Spnr.Server

open RustStd

structure Outcome (Key R : Type) where
  state : AppState Key
  writes : List Stmt
  response : R

variable (C : Crates)

structure RegisterReq where
  deviceId : String
  pubkey : String
  os : Option String
  arch : Option String
  hostname : Option String
  version : Option String
  email : Option String

structure Peer where
  forwardedFor : Option String
  ip : String

structure RegisterResp where
  ok : Bool
  accountId : String
  deriving DecidableEq

def clientIp (peer : Peer) : String :=
  match peer.forwardedFor with
  | some xff =>
    let first := trim (String.ofList (xff.toList.takeWhile (· ≠ ',')))
    if first ≠ "" then first else peer.ip
  | none => peer.ip

/-- An empty or blank optional string counts as absent. -/
def optStr (o : Option String) : Option String := (o.map trim).filter (· ≠ "")

def register (s : AppState C.VerifyingKey) (peer : Peer) (req : RegisterReq) (now : Int) :
    Outcome C.VerifyingKey RegisterResp :=
  let accountId := accountOf req.deviceId
  match decodePubkey C req.pubkey with
  | none => ⟨s, [], ⟨false, accountId⟩⟩
  | some pubkey =>
    { state := { s with
        devices := s.devices.insert req.deviceId ⟨pubkey, accountId, genesisPrev, none⟩
        balances := if accountId ∈ s.balances then s.balances else s.balances.insert accountId 0
        impressions :=
          if accountId ∈ s.impressions then s.impressions else s.impressions.insert accountId 0 }
      writes := [.upsertDevice req.deviceId
          ⟨C.hexEncode (C.keyBytes pubkey), accountId, genesisPrev, none⟩,
        .ensureBalance accountId, .ensureImpressions accountId,
        .upsertDeviceMeta req.deviceId ⟨some (clientIp peer), optStr req.os, optStr req.arch,
          optStr req.hostname, optStr req.version, optStr req.email, now, now⟩]
      response := ⟨true, accountId⟩ }

/-- A wire envelope: the event and its lowercase-hex signature. -/
structure SignedEvent where
  e : Event
  s : String

structure IngestReq where
  deviceId : String
  events : List SignedEvent

structure IngestResp where
  accepted : Nat
  rejected : Nat
  reasons : List String
  deriving DecidableEq

def expectedCtr {Key : Type} (dev : DeviceRec Key) : Nat := (dev.ctrHead.map (· + 1)).getD 0

/-- The four checks of `accept_event`, in its order. -/
def verifyEvent (s : AppState C.VerifyingKey) (deviceId : String) (se : SignedEvent) :
    Except String (DeviceRec C.VerifyingKey) :=
  match s.devices.lookup deviceId with
  | none => .error "unknown device"
  | some dev =>
    match C.hexDecode se.s with
    | none => .error "sig not hex"
    | some sig =>
      if !DeviceKey.verify C se.e sig dev.pubkey then .error "bad signature"
      else if se.e.prev ≠ dev.chainHead then .error "chain fork/gap"
      else if se.e.ctr ≠ expectedCtr dev then .error "ctr not monotonic"
      else if se.e.id ∈ s.seenEventIds then .error "duplicate event id"
      else .ok dev

def impCount (e : Event) : Int := ((e.n.getD 0).toNat : Int)

/-- The branch of `accept_event` that accrues: a non-empty impression event. -/
def Accrues (e : Event) : Prop := e.ty = .imp ∧ 0 < impCount e

instance (e : Event) : Decidable (Accrues e) := inferInstanceAs (Decidable (_ ∧ _))

def spend (e : Event) : Int := i64 (pricePerImpMicros * impCount e)
def devEarn (e : Event) : Int := (i64 (spend e * devShareNum)).tdiv devShareDen
def houseKeep (e : Event) : Int := i64 (spend e - devEarn e)

/-- The double entry of one impression event: developer first, then the house. -/
def newLedger (account : String) (e : Event) : List LedgerEntry :=
  if Accrues e then
    [⟨advertiser, account, devEarn e, .impEarn, e.id⟩,
      ⟨advertiser, "acct:house", houseKeep e, .adSpendHouse, e.id⟩]
  else []

/-- The in-memory effect of an accepted event. -/
def advance (s : AppState C.VerifyingKey) (deviceId : String) (dev : DeviceRec C.VerifyingKey)
    (e : Event) : AppState C.VerifyingKey :=
  let newHead := chainNext C (canonicalBytes C e)
  { s with
    devices := s.devices.insert deviceId { dev with chainHead := newHead, ctrHead := some e.ctr }
    seenEventIds := insert e.id s.seenEventIds
    ledger := s.ledger ++ newLedger dev.accountId e
    balances := if Accrues e then
        s.balances.insert dev.accountId (i64 (balanceOf s.toLoaded dev.accountId + devEarn e))
      else s.balances
    impressions := if Accrues e then
        s.impressions.insert dev.accountId
          (impressionsOf s.toLoaded dev.accountId + (impCount e).toNat)
      else s.impressions }

/-- The statements of an accepted event, written after the in-memory effect. -/
def acceptWrites (s : AppState C.VerifyingKey) (deviceId : String) (dev : DeviceRec C.VerifyingKey)
    (e : Event) : List Stmt :=
  let newHead := chainNext C (canonicalBytes C e)
  let s' := advance C s deviceId dev e
  [.updateDeviceHead deviceId newHead (some e.ctr), .insertSeenEvent e.id] ++
    (newLedger dev.accountId e).map .insertLedger ++
    (if Accrues e then
      [.setBalance dev.accountId (balanceOf s'.toLoaded dev.accountId),
        .setImpressions dev.accountId (impressionsOf s'.toLoaded dev.accountId)]
    else [])

def acceptEvent (s : AppState C.VerifyingKey) (deviceId : String) (se : SignedEvent) :
    Except String (AppState C.VerifyingKey × List Stmt) :=
  (verifyEvent C s deviceId se).map fun dev =>
    (advance C s deviceId dev se.e, acceptWrites C s deviceId dev se.e)

/-- One turn of the `ingest` loop: the event, then the running tally. -/
def ingestEvent (s : AppState C.VerifyingKey) (deviceId : String) (se : SignedEvent) :
    AppState C.VerifyingKey × List Stmt :=
  match acceptEvent C s deviceId se with
  | .ok (s', ws) =>
    ({ s' with accepted := s'.accepted + 1 }, ws ++ [.kvSet "accepted" (s'.accepted + 1)])
  | .error _ => ({ s with rejected := s.rejected + 1 }, [.kvSet "rejected" (s.rejected + 1)])

def IngestResp.count (resp : IngestResp) : Except String (AppState C.VerifyingKey × List Stmt) →
    IngestResp
  | .ok _ => { resp with accepted := resp.accepted + 1 }
  | .error reason =>
    { resp with rejected := resp.rejected + 1, reasons := resp.reasons ++ [reason] }

def ingestLoop (deviceId : String) : List SignedEvent → Outcome C.VerifyingKey IngestResp →
    Outcome C.VerifyingKey IngestResp
  | [], out => out
  | se :: rest, out =>
    let (s', ws) := ingestEvent C out.state deviceId se
    ingestLoop deviceId rest
      ⟨s', out.writes ++ ws, out.response.count C (acceptEvent C out.state deviceId se)⟩

def ingest (s : AppState C.VerifyingKey) (req : IngestReq) : Outcome C.VerifyingKey IngestResp :=
  ingestLoop C req.deviceId req.events ⟨s, [], ⟨0, 0, []⟩⟩

/-- The text can be the value of a header: it has no control character but the tab. -/
def headerValue (text : String) : Bool :=
  text.toList.all fun c => c = '\t' || (32 ≤ c.toNat && c.toNat ≠ 127)

/-- `Redirect::to` of axum: the url in `Location`, and no redirect where it cannot stand there. -/
def redirectTo (url : String) : Except (Nat × String) String :=
  if headerValue url then .ok url else .error (500, "failed to parse header value")

def click (s : AppState C.VerifyingKey) (code : String) :
    Outcome C.VerifyingKey (Except (Nat × String) String) :=
  match s.creatives.find? (·.shortCode = code) with
  | some c =>
    ⟨{ s with clicks := s.clicks + 1 }, [.kvSet "clicks" (s.clicks + 1)], redirectTo c.url⟩
  | none => ⟨s, [], redirectTo creativeUrl⟩

theorem redirectTo_ok {url target : String} (redirected : redirectTo url = .ok target) :
    url = target := by
  unfold redirectTo at redirected
  split at redirected
  · exact Except.ok.inj redirected
  · cases redirected

theorem redirectTo_creativeUrl : redirectTo creativeUrl = .ok creativeUrl := by decide

structure RedeemReq where
  rail : String
  amountMicros : Option Int

structure RedeemResp where
  id : String
  amountMicros : Int
  rail : String
  status : String
  remainingMicros : Int
  deriving DecidableEq

/-- The primary dev account: the last maximum in the map's iteration order. -/
def primary (s : AppState C.VerifyingKey) (order : HashMap.Order String Int) :
    Option (String × Int) :=
  (maxByKey (fun entry => entry.2) (order.entries s.balances)).map fun entry => (entry.1, entry.2)

/-- The in-memory effect and statements of a cash-out of `requested` from `account`. -/
def payOut (s : AppState C.VerifyingKey) (account : String) (requested : Int) (rail : String) :
    Outcome C.VerifyingKey RedeemResp :=
  let id := redemptionId s.nextRedemptionId
  let remaining := i64 (balanceOf s.toLoaded account - requested)
  { state := { s with
      nextRedemptionId := s.nextRedemptionId + 1
      ledger := s.ledger ++ [⟨account, "acct:payout", requested, .redeem, id⟩]
      balances := s.balances.insert account remaining
      redemptions := s.redemptions ++ [⟨id, requested, rail⟩] }
    writes := [.insertLedger ⟨account, "acct:payout", requested, .redeem, id⟩,
      .insertRedemption ⟨id, requested, rail⟩, .setBalance account remaining]
    response := ⟨id, requested, rail, "queued", remaining⟩ }

def requestedOf (req : RedeemReq) (available : Int) : Int :=
  match req.amountMicros with
  | some a => if 0 < a then a else available
  | none => available

def redeem (s : AppState C.VerifyingKey) (req : RedeemReq) (order : HashMap.Order String Int) :
    Outcome C.VerifyingKey (Except String RedeemResp) :=
  match primary C s order with
  | none => ⟨s, [], .error "no balance to redeem"⟩
  | some (account, available) =>
    if available ≤ 0 then ⟨s, [], .error "no balance to redeem"⟩
    else
      let requested := requestedOf req available
      if available < requested then
        ⟨s, [], .error s!"amount {requested} exceeds available balance {available}"⟩
      else
        let out := payOut C s account requested req.rail
        ⟨out.state, out.writes, .ok out.response⟩

def checkAdmin (s : AppState C.VerifyingKey) (presented : Option String) : Option (Nat × String) :=
  match s.adminToken with
  | none => some (503, "admin token not configured")
  | some configured =>
    if presented.getD "" = configured then none else some (401, "invalid admin token")

structure NewCreativeReq where
  text : String
  url : String
  advertiser : Option String

/-- What the generators and the clock answer during a create. -/
structure Fresh where
  creativeId : String
  shortCode : String
  now : Int

def adminCreateCreative (s : AppState C.VerifyingKey) (presented : Option String)
    (req : NewCreativeReq) (fresh : Fresh) :
    Outcome C.VerifyingKey (Except (Nat × String) Creative) :=
  match checkAdmin C s presented with
  | some refusal => ⟨s, [], .error refusal⟩
  | none =>
    let text := trim req.text
    let url := trim req.url
    if text = "" ∨ url = "" then ⟨s, [], .error (400, "text and url are required")⟩
    else
      let advertiser := match (req.advertiser.map trim).filter (· ≠ "") with
        | some a => "acct:advertiser:" ++ a
        | none => "acct:advertiser"
      let creative : Creative := ⟨fresh.creativeId, text, url, fresh.shortCode, advertiser, ""⟩
      ⟨{ s with creatives := s.creatives ++ [creative] }, [.insertCreative creative true fresh.now],
        .ok creative⟩

/-- The presence test reads the table, which keeps inactive rows. -/
def adminDeleteCreative (s : AppState C.VerifyingKey) (db : Database) (presented : Option String)
    (id : String) : Outcome C.VerifyingKey (Except (Nat × String) Unit) :=
  match checkAdmin C s presented with
  | some refusal => ⟨s, [], .error refusal⟩
  | none =>
    if db.creatives.any fun row => row.creative.id = id ∧ row.active then
      ⟨{ s with creatives := s.creatives.filter (·.id ≠ id) }, [.deleteCreative id], .ok ()⟩
    else ⟨s, [.deleteCreative id], .error (404, "creative not found")⟩

/-- `AppState::open`: load the view, seed the creatives on first boot, and read
the operator token, where an empty variable counts as unset. -/
def AppState.open (db : Database) (now : Int) (token : Option String) :
    AppState C.VerifyingKey × List Stmt :=
  let stored := loadCreatives db
  if stored.isEmpty then
    ({ toLoaded := load C db, creatives := housePool, adminToken := token.filter (· ≠ "") },
      housePool.map fun c => .insertCreative c true now)
  else
    ({ toLoaded := load C db
       creatives := (stored.filter (·.active)).map (·.creative)
       adminToken := token.filter (· ≠ "") }, [])

end Spnr.Server
