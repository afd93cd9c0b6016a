import Spnr.Daemon.Engine
import Spnr.Daemon.Queue
import Spnr.Lib.HashMap
import Spnr.Proto.Chain

/-! The daemon's state and its dispatch of one datagram (`spnrd/src/main.rs`). -/
namespace Spnr.Spnrd

open RustStd

inductive SocketCmd where
  | ping | pause | resume
  deriving DecidableEq

inductive SocketMsg where
  | hook (eventName sessionId : String)
  | heartbeat (sessionId : String)
  | cmd (c : SocketCmd)
  deriving DecidableEq

/-- A decoded datagram with its receipt time and the ULID an event made for it would get. -/
structure Datagram where
  msg : SocketMsg
  recvMs : UInt64
  ulid : String
  deriving DecidableEq

/-- The files are kept by their content; writing them succeeds. -/
structure Daemon (C : Crates) where
  sessions : HashMap String Session
  paused : Bool
  key : C.SigningKey
  salt : List UInt8
  ctr : Nat
  prev : String
  queue : List UInt8
  statusCache : Option String
  impressionsTotal : Nat
  currentCreative : Option String
  server : String
  ads : List (String × String)
  featured : UInt64
  /-- Everything sent on the flush channel so far, on the networked path. -/
  tx : Option (List String)

variable (C : Crates)

def Daemon.new (key : C.SigningKey) (queue : List UInt8) (statusCache : Option String) :
    Daemon C where
  sessions := ∅
  paused := false
  key
  salt := (C.keyBytes (C.verifyingKey key)).take 16
  ctr := 0
  prev := genesisPrev
  queue
  statusCache
  impressionsTotal := 0
  currentCreative := none
  server := ""
  ads := []
  featured := 0
  tx := none

def osc8 (url text : String) : String :=
  "\x1b]8;;" ++ url ++ "\x07" ++ text ++ "\x1b]8;;\x07"

namespace Daemon

variable {C} (d : Daemon C)

def fingerprint (sessionId : String) : String :=
  "s:" ++ String.ofList ((C.hexEncode (C.blake3 (d.salt ++ asBytes sessionId))).toList.take 12)

def featuredAd : Daemon C × Option (String × String) :=
  if d.server = "" ∨ d.ads = [] then (d, none)
  else
    match d.ads[d.featured.toNat % d.ads.length]? with
    | some (code, text) =>
      ({ d with featured := d.featured + 1 },
        some (trimEndMatches d.server '/' ++ "/c/" ++ code, text))
    | none => (d, none) -- the index is in range

def writeStatusCache : Daemon C :=
  let (d', ad) := d.featuredAd
  let line := match ad with
    | some (url, text) =>
      osc8 url (if 0 < d.impressionsTotal then s!"spnr ▲{d.impressionsTotal} · " ++
        text else "spnr · " ++ text)
    | none => s!"spnr ▲ {d.impressionsTotal} impressions today"
  { d' with statusCache := some line }

def impressionEvent (sessionId : String) (n : Nat) (recvMs : UInt64) (ulid : String) : Event where
  v := 1
  id := ulid
  ctr := d.ctr
  prev := d.prev
  t := (recvMs / 1000).toInt64
  ty := .imp
  session := d.fingerprint sessionId
  creative := d.currentCreative
  n := some (UInt32.ofNat n)

/-- The outbound envelope: the canonical JSON and the hex signature, assembled as text. -/
def envelope (key : C.SigningKey) (e : Event) : String :=
  "\x7b\"e\":" ++ canonicalBytes C e ++ ",\"s\":\"" ++ C.hexEncode
    (DeviceKey.sign C key e) ++ "\"\x7d"

def emitImpressions (sessionId : String) (n : Nat) (recvMs : UInt64) (ulid : String) : Daemon C :=
  let event := d.impressionEvent sessionId n recvMs ulid
  let envelope := envelope d.key event
  writeStatusCache { d with
    prev := chainNext C (canonicalBytes C event)
    ctr := d.ctr + 1
    impressionsTotal := d.impressionsTotal + n
    queue := (Queue.append d.queue (asBytes envelope)).getD d.queue
    tx := d.tx.map (· ++ [envelope]) }

def putSession (sessionId : String) (sess : Session) : Daemon C :=
  { d with sessions := d.sessions.insert sessionId sess }

/-- `entry(..).or_default()` and `set_paused`: the session a hook is applied to. -/
def hookSession (sessionId : String) : Session :=
  ((d.sessions.lookup sessionId).getD default).setPaused d.paused

def setPaused (paused : Bool) : Daemon C :=
  { d with paused, sessions := HashMap.filterMap (fun s => some (s.setPaused paused)) d.sessions }

def handle (g : Datagram) : Daemon C :=
  match g.msg with
  | .hook eventName sessionId =>
    let sess := d.hookSession sessionId
    match eventName with
    | "UserPromptSubmit" => d.putSession sessionId (sess.onPromptSubmit g.recvMs.toNat)
    | "PreToolUse" => d.putSession sessionId (sess.onPreTool g.recvMs.toNat)
    | "PostToolUse" => d.putSession sessionId (sess.onPostTool g.recvMs.toNat)
    | "Stop" =>
      let (sess, impressions) := sess.onStop g.recvMs.toNat
      let d := d.putSession sessionId sess
      if 0 < impressions then d.emitImpressions sessionId impressions g.recvMs g.ulid else d
    | "SessionEnd" => { d with sessions := d.sessions.erase sessionId }
    | _ => d.putSession sessionId sess
  | .heartbeat sessionId =>
    match d.sessions.lookup sessionId with
    | some sess => (d.putSession sessionId (sess.onHeartbeat g.recvMs.toNat)).writeStatusCache
    | none => d.writeStatusCache
  | .cmd .pause => d.setPaused true
  | .cmd .resume => d.setPaused false
  | .cmd .ping => d

def run (gs : List Datagram) : Daemon C := gs.foldl handle d

structure ServedAd where
  id : String
  text : String
  url : String
  shortCode : String

/-- The networked start of `main`: the pool, if there is one, and the flush channel. -/
def networked (server : String) (pool : List ServedAd) : Daemon C :=
  let d' := match pool with
    | [] => d
    | ad :: _ => writeStatusCache { d with
        currentCreative := some ad.id
        server
        ads := pool.map fun (ad : ServedAd) => (ad.shortCode, ad.text) }
  { d' with tx := some [] }

end Daemon

end Spnr.Spnrd
