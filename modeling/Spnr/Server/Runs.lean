import Spnr.Lib.Run
import Spnr.Server.Handlers

/-! The server as a transition system: the state behind the mutex, the tables on
disk, and what one request, one restart or one crash does to both. -/
namespace Spnr.Server

structure ServerState (Key : Type) where
  mem : AppState Key
  db : Database

/-- A request with everything its handler reads from outside: clock, generators,
headers and the iteration order of the balances map. -/
inductive Request where
  | register (peer : Peer) (req : RegisterReq) (now : Int)
  | ingest (req : IngestReq)
  | redeem (req : RedeemReq) (order : HashMap.Order String Int)
  | click (code : String)
  | adminCreate (presented : Option String) (req : NewCreativeReq) (fresh : Fresh)
  | adminDelete (presented : Option String) (id : String)
  | restart (now : Int) (token : Option String)

variable (C : Crates)

/-- The new in-memory state and the statements issued on the way to it. -/
def ServerState.effect (srv : ServerState C.VerifyingKey) : Request →
    AppState C.VerifyingKey × List Stmt
  | .register peer req now => let out := register C srv.mem peer req now; (out.state, out.writes)
  | .ingest req => let out := ingest C srv.mem req; (out.state, out.writes)
  | .redeem req order => let out := redeem C srv.mem req order; (out.state, out.writes)
  | .click code => let out := click C srv.mem code; (out.state, out.writes)
  | .adminCreate presented req fresh =>
    let out := adminCreateCreative C srv.mem presented req fresh; (out.state, out.writes)
  | .adminDelete presented id =>
    let out := adminDeleteCreative C srv.mem srv.db presented id; (out.state, out.writes)
  | .restart now token => AppState.open C srv.db now token

/-- A request whose statements all succeed. -/
def ServerState.step (srv : ServerState C.VerifyingKey) (r : Request) :
    ServerState C.VerifyingKey :=
  let (mem, ws) := srv.effect C r
  ⟨mem, srv.db.execAll ws⟩

def ServerState.opened (db : Database) (now : Int) (token : Option String) :
    ServerState C.VerifyingKey :=
  let (mem, ws) := AppState.open C db now token
  ⟨mem, db.execAll ws⟩

def ServerState.fresh (now : Int) (token : Option String) : ServerState C.VerifyingKey :=
  ServerState.opened C Database.fresh now token

/-- The process dies once `k` statements of the request are durable; the server
is then reopened on the same path. -/
def ServerState.crash (srv : ServerState C.VerifyingKey) (r : Request) (k : Nat) (now : Int)
    (token : Option String) : ServerState C.VerifyingKey :=
  ServerState.opened C (srv.db.execAll ((srv.effect C r).2.take k)) now token

/-- One event in the life of the server. -/
inductive Action where
  | complete (r : Request)
  | crash (r : Request) (k : Nat) (now : Int) (token : Option String)

def ServerState.act (srv : ServerState C.VerifyingKey) : Action → ServerState C.VerifyingKey
  | .complete r => srv.step C r
  | .crash r k now token => srv.crash C r k now token

end Spnr.Server
