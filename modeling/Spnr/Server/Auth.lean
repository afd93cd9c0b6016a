import Spnr.Lib.Encoding
import Spnr.Lib.HashMap
import Spnr.Lib.RustStd

/-! Accounts and login sessions: the two tables, the four handlers, and the history of
requests and answers that the tables keep track of. -/
namespace Spnr.Server

open RustStd

/-- `argon2` behind `hash_password` and `verify_password`: hashing under a salt can fail. -/
structure Argon2 where
  hashPassword : List UInt8 → String → Option String
  verifyPassword : String → String → Bool
  verify_hash : ∀ salt password phc, hashPassword salt password = some phc →
    ∀ plain, verifyPassword plain phc = true ↔ plain = password

structure Account where
  accountId : String
  email : String
  passwordPhc : String
  deriving DecidableEq

/-- The table `accounts`, and `sessions` as a map from the token to the account and the time. -/
structure AuthDb where
  accounts : List Account
  sessions : HashMap String (String × Int)

namespace AuthDb

def fresh : AuthDb := ⟨[], ∅⟩

variable (conn : AuthDb)

def insertAccount (a : Account) : Option AuthDb :=
  if conn.accounts.any fun b => b.accountId = a.accountId || b.email = a.email then none
  else some { conn with accounts := conn.accounts ++ [a] }

def findAccountByEmail (email : String) : Option Account := conn.accounts.find? (·.email = email)
def findAccountById (id : String) : Option Account := conn.accounts.find? (·.accountId = id)

def insertSession (token accountId : String) (createdUnix : Int) : Option AuthDb :=
  if token ∈ conn.sessions then none
  else some { conn with sessions := conn.sessions.insert token (accountId, createdUnix) }

def findSession (token : String) : Option String := (conn.sessions.lookup token).map Prod.fst
def deleteSession (token : String) : AuthDb := { conn with sessions := conn.sessions.erase token }

end AuthDb

structure AuthReq where
  email : String
  password : String

structure AuthResp where
  token : String
  accountId : String
  email : String
  deriving DecidableEq

structure MeResp where
  accountId : String
  email : String
  deriving DecidableEq

abbrev Answer (α : Type) := Except (Nat × String) α

def emailLooksValid (email : String) : Bool :=
  match email.toList.dropWhile (· ≠ '@') with
  | [] => false
  | _ :: domain =>
    email.toList.head? ≠ some '@' && domain.contains '.' && domain.head? ≠ some '.' &&
      domain.getLast? ≠ some '.'

structure Draw where
  salt : List UInt8
  id : List UInt8
  token : List UInt8

def newToken (bytes : List UInt8) : String := Encoding.hexEncode bytes
def newAccountId (bytes : List UInt8) : String := "acct:user:" ++ Encoding.hexEncode bytes

def bearerToken (authorization : Option String) : Option String := do
  let raw ← authorization
  let token ← stripPrefix "Bearer " raw <|> stripPrefix "bearer " raw
  if trim token = "" then none else some (trim token)

variable (A : Argon2)

def signup (db : Option AuthDb) (req : AuthReq) (draw : Draw) (now : Int) :
    Option AuthDb × Answer AuthResp :=
  let email := trim req.email
  if !emailLooksValid email then (db, .error (400, "invalid email"))
  else if (asBytes req.password).length < 8 then
    (db, .error (400, "password must be at least 8 characters"))
  else
    match db with
    | none => (none, .error (503, "auth store unavailable"))
    | some conn =>
      match conn.findAccountByEmail email with
      | some _ => (some conn, .error (409, "email already registered"))
      | none =>
        match A.hashPassword draw.salt req.password with
        | none => (some conn, .error (500, "could not hash password"))
        | some phc =>
          match conn.insertAccount ⟨newAccountId draw.id, email, phc⟩ with
          | none => (some conn, .error (409, "email already registered"))
          | some conn =>
            match conn.insertSession (newToken draw.token) (newAccountId draw.id) now with
            | none => (some conn, .error (500, "auth store error"))
            | some conn => (some conn, .ok ⟨newToken draw.token, newAccountId draw.id, email⟩)

def login (db : Option AuthDb) (req : AuthReq) (token : List UInt8) (now : Int) :
    Option AuthDb × Answer AuthResp :=
  match db with
  | none => (none, .error (503, "auth store unavailable"))
  | some conn =>
    match conn.findAccountByEmail (trim req.email) with
    | none => (some conn, .error (401, "invalid credentials"))
    | some account =>
      if !A.verifyPassword req.password account.passwordPhc then (some conn,
        .error (401, "invalid credentials"))
      else
        match conn.insertSession (newToken token) account.accountId now with
        | none => (some conn, .error (500, "auth store error"))
        | some conn => (some conn, .ok ⟨newToken token, account.accountId, account.email⟩)

def me (db : Option AuthDb) (authorization : Option String) : Answer MeResp :=
  match bearerToken authorization with
  | none => .error (401, "missing token")
  | some token =>
    match db with
    | none => .error (503, "auth store unavailable")
    | some conn =>
      match (conn.findSession token).bind conn.findAccountById with
      | none => .error (401, "invalid token")
      | some account => .ok ⟨account.accountId, account.email⟩

def logout (db : Option AuthDb) (authorization : Option String) : Option AuthDb × Answer Unit :=
  match bearerToken authorization with
  | none => (db, .error (401, "missing token"))
  | some token =>
    match db with
    | none => (none, .error (503, "auth store unavailable"))
    | some conn => (some (conn.deleteSession token), .ok ())

inductive AuthRequest where
  | signup (req : AuthReq) (draw : Draw) (now : Int)
  | login (req : AuthReq) (token : List UInt8) (now : Int)
  | me (authorization : Option String)
  | logout (authorization : Option String)

inductive Response where
  | session (answer : Answer AuthResp)
  | me (answer : Answer MeResp)
  | logout (answer : Answer Unit)

def respond (db : Option AuthDb) : AuthRequest → Option AuthDb × Response
  | .signup req draw now => let out := signup A db req draw now; (out.1, .session out.2)
  | .login req token now => let out := login A db req token now; (out.1, .session out.2)
  | .me authorization => (db, .me (me db authorization))
  | .logout authorization => let out := logout db authorization; (out.1, .logout out.2)

abbrev History := List (AuthRequest × Response)

/-- The tables and the history after one more request. -/
def serveAuth (s : Option AuthDb × History) (r : AuthRequest) : Option AuthDb × History :=
  let out := respond A s.1 r
  (out.1, s.2 ++ [(r, out.2)])

def authRun (reqs : List AuthRequest) : Option AuthDb × History :=
  reqs.foldl (serveAuth A) (some .fresh, [])

def AuthRequest.token : AuthRequest → Option String
  | .signup _ draw _ => some (newToken draw.token)
  | .login _ token _ => some (newToken token)
  | _ => none

def AuthRequest.accountId : AuthRequest → Option String
  | .signup _ draw _ => some (newAccountId draw.id)
  | _ => none

structure NeverRepeat (reqs : List AuthRequest) : Prop where
  tokens : (reqs.filterMap AuthRequest.token).Nodup
  ids : (reqs.filterMap AuthRequest.accountId).Nodup

/-- A signup or login that answered with the token, for the account. -/
def Issued (token accountId : String) : AuthRequest × Response → Prop
  | (_, .session (.ok resp)) => resp.token = token ∧ resp.accountId = accountId
  | _ => False

def Revoked (token : String) : AuthRequest × Response → Prop
  | (.logout authorization, .logout (.ok ())) => bearerToken authorization = some token
  | _ => False

/-- The token was issued for the account, and no logout has carried it since. -/
def Holds (history : History) (token accountId : String) : Prop :=
  ∃ before x after, history = before ++ x :: after ∧ Issued token accountId x ∧
    ∀ y ∈ after, ¬ Revoked token y

/-- A signup with the email, up to blanks around it, and the password has succeeded. -/
def SignedUp (history : History) (email password : String) : Prop :=
  ∃ req draw now resp, (AuthRequest.signup req draw now, Response.session (.ok resp)) ∈ history ∧
    trim req.email = trim email ∧ req.password = password

end Spnr.Server
