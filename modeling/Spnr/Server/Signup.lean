import Spnr.Server.Capabilities

/-! A signup on a database that can refuse any of its statements. It makes two inserts with
an early return between them, so that the first one can stay alone. -/
namespace Spnr.Server

open RustStd

inductive Statement where
  | findAccountByEmail
  | insertAccount
  | insertSession

/-- `is_unique_violation` asks for the kind. -/
inductive SqlError where
  | constraintViolation
  | other

/-- Which statements the database refuses, beyond the keys that are there already. -/
abbrev Failures := Statement → Option SqlError

/-- A statement that fails leaves the tables; `out` is none when a key is there already. -/
def executed (failure : Option SqlError) (out : Option AuthDb) : Except SqlError AuthDb :=
  match failure with
  | some e => .error e
  | none =>
    match out with
    | some conn => .ok conn
    | none => .error .constraintViolation

variable (A : Argon2) (fails : Failures)

def signupOn (db : Option AuthDb) (req : AuthReq) (draw : Draw) (now : Int) :
    Option AuthDb × Answer AuthResp :=
  let email := trim req.email
  if !emailLooksValid email then (db, .error (400, "invalid email"))
  else if (asBytes req.password).length < 8 then
    (db, .error (400, "password must be at least 8 characters"))
  else
    match db with
    | none => (none, .error (503, "auth store unavailable"))
    | some conn =>
      match fails .findAccountByEmail with
      | some _ => (some conn, .error (500, "auth store error"))
      | none =>
        match conn.findAccountByEmail email with
        | some _ => (some conn, .error (409, "email already registered"))
        | none =>
          match A.hashPassword draw.salt req.password with
          | none => (some conn, .error (500, "could not hash password"))
          | some phc =>
            match executed (fails .insertAccount)
              (conn.insertAccount ⟨newAccountId draw.id, email, phc⟩) with
            | .error .constraintViolation => (some conn, .error (409, "email already registered"))
            | .error .other => (some conn, .error (500, "auth store error"))
            | .ok conn =>
              match executed (fails .insertSession)
                  (conn.insertSession (newToken draw.token) (newAccountId draw.id) now) with
              | .error _ => (some conn, .error (500, "auth store error"))
              | .ok conn => (some conn, .ok ⟨newToken draw.token, newAccountId draw.id, email⟩)

theorem signupOn_calm (db : Option AuthDb) (req : AuthReq) (draw : Draw) (now : Int) :
    signupOn A (fun _ => none) db req draw now = signup A db req draw now := by
  unfold signupOn signup
  dsimp only
  split
  · rfl
  · split
    · rfl
    · cases db with
      | none => rfl
      | some conn =>
        dsimp only
        cases conn.findAccountByEmail (trim req.email) with
        | some _ => rfl
        | none =>
          dsimp only
          cases A.hashPassword draw.salt req.password with
          | none => rfl
          | some phc =>
            dsimp only
            cases conn.insertAccount ⟨newAccountId draw.id, trim req.email, phc⟩ with
            | none => rfl
            | some conn' =>
              dsimp only [executed]
              cases conn'.insertSession (newToken draw.token) (newAccountId draw.id) now with
              | none => rfl
              | some _ => rfl

structure AccountInserted (conn : AuthDb) (req : AuthReq) (draw : Draw) : Prop where
  email : emailLooksValid (trim req.email) = true
  password : 8 ≤ (asBytes req.password).length
  lookup : fails .findAccountByEmail = none
  hashed : (A.hashPassword draw.salt req.password).isSome
  inserted : fails .insertAccount = none
  newEmail : ∀ a ∈ conn.accounts, a.email ≠ trim req.email
  newId : ∀ a ∈ conn.accounts, a.accountId ≠ newAccountId draw.id

def SessionInserted (conn : AuthDb) (draw : Draw) : Prop :=
  fails .insertSession = none ∧ newToken draw.token ∉ conn.sessions

structure ChangesNothing (db : Option AuthDb) (req : AuthReq) (draw : Draw) (now : Int) : Prop where
  tables : (∀ resp, (signupOn A fails db req draw now).2 ≠ .ok resp) →
    (signupOn A fails db req draw now).1 = db
  retry : (∀ resp, (signupOn A fails db req draw now).2 ≠ .ok resp) →
    ∀ fails' req' draw' now', trim req'.email = trim req.email → ∀ text,
      (signupOn A fails' (signupOn A fails db req draw now).1 req' draw' now').2 =
        .error (409, text) → (signupOn A fails' db req' draw' now').2 = .error (409, text)

variable {A fails} {db : Option AuthDb} {req : AuthReq} {draw : Draw} {now : Int}

theorem insertAccount_some {conn conn' : AuthDb} {a : Account}
    (new : conn.insertAccount a = some conn') :
    conn' = { conn with accounts := conn.accounts ++ [a] } ∧
      ∀ b ∈ conn.accounts, b.accountId ≠ a.accountId ∧ b.email ≠ a.email := by
  unfold AuthDb.insertAccount at new
  split at new
  · cases new
  · rename_i free
    refine ⟨(Option.some.inj new).symm, ?_⟩
    simpa using free

theorem insertAccount_none {conn : AuthDb} {a : Account} (taken : conn.insertAccount a = none) :
    ∃ b ∈ conn.accounts, b.accountId = a.accountId ∨ b.email = a.email := by
  unfold AuthDb.insertAccount at taken
  split at taken
  · rename_i there
    simpa using there
  · cases taken

theorem signupOn_inserted (now : Int) {conn conn' : AuthDb} {phc : String}
    (inserted : AccountInserted A fails conn req draw)
    (hashed : A.hashPassword draw.salt req.password = some phc)
    (new : conn.insertAccount ⟨newAccountId draw.id, trim req.email, phc⟩ = some conn') :
    (∃ conn'' resp, SessionInserted fails conn draw ∧ signupOn A fails (some conn) req draw now =
      (some conn'', .ok resp)) ∨
      ¬ SessionInserted fails conn draw ∧
      ∃ e, signupOn A fails (some conn) req draw now = (some conn', .error e) := by
  have missing : conn.findAccountByEmail (trim req.email) = none :=
    findAccountByEmail_none.mpr inserted.newEmail
  have sessions : conn'.sessions = conn.sessions := by rw [(insertAccount_some new).1]
  have run : signupOn A fails (some conn) req draw now =
      match executed (fails .insertSession)
        (conn'.insertSession (newToken draw.token) (newAccountId draw.id) now) with
      | .error _ => (some conn', .error (500, "auth store error"))
      | .ok conn =>
        (some conn, .ok ⟨newToken draw.token, newAccountId draw.id, trim req.email⟩) := by
    have long : ¬(asBytes req.password).length < 8 := Nat.not_lt.mpr inserted.password
    simp only [signupOn, inserted.email, Bool.not_true, Bool.false_eq_true, if_false, if_neg long,
      inserted.lookup, missing, hashed, inserted.inserted, new]
    rfl
  rw [run]
  unfold SessionInserted
  cases failure : fails .insertSession with
  | some e => exact .inr ⟨by simp, _, rfl⟩
  | none =>
    by_cases taken : newToken draw.token ∈ conn.sessions
    · have refused : conn'.insertSession (newToken draw.token) (newAccountId draw.id)
        now = none := by
        rw [AuthDb.insertSession, sessions, if_pos taken]
      rw [refused]
      exact .inr ⟨fun ok => ok.2 taken, _, rfl⟩
    · have goes : conn'.insertSession (newToken draw.token) (newAccountId draw.id) now =
          some { conn' with sessions :=
            conn'.sessions.insert (newToken draw.token) (newAccountId draw.id, now) } := by
        rw [AuthDb.insertSession, sessions, if_neg taken]
      rw [goes]
      exact .inl ⟨_, _, ⟨rfl, taken⟩, rfl⟩

theorem signupOn_refused (now : Int)
    (early : ∀ conn, db = some conn → ¬ AccountInserted A fails conn req draw) :
    ∃ e, signupOn A fails db req draw now = (db, .error e) := by
  by_cases email : emailLooksValid (trim req.email) = true
  swap
  · exact ⟨(400, "invalid email"), by simp only [signupOn, email, Bool.not_false, if_true]⟩
  by_cases short : (asBytes req.password).length < 8
  · refine ⟨(400, "password must be at least 8 characters"), ?_⟩
    simp only [signupOn, email, Bool.not_true, Bool.false_eq_true, if_false, if_pos short]
  simp only [signupOn, email, Bool.not_true, Bool.false_eq_true, if_false, if_neg short]
  cases db with
  | none => exact ⟨_, rfl⟩
  | some conn =>
    dsimp only
    cases lookup : fails .findAccountByEmail with
    | some e => exact ⟨_, rfl⟩
    | none =>
      dsimp only
      cases found : conn.findAccountByEmail (trim req.email) with
      | some a => exact ⟨_, rfl⟩
      | none =>
        dsimp only
        cases hashed : A.hashPassword draw.salt req.password with
        | none => exact ⟨_, rfl⟩
        | some phc =>
          dsimp only
          cases failure : fails .insertAccount with
          | some e => cases e <;> exact ⟨_, rfl⟩
          | none =>
            cases new : conn.insertAccount ⟨newAccountId draw.id, trim req.email, phc⟩ with
            | none => exact ⟨_, rfl⟩
            | some conn' =>
              have free := (insertAccount_some new).2
              refine absurd ?_ (early conn rfl)
              exact ⟨email, Nat.not_lt.mp short,
                lookup, by rw [hashed]; rfl, failure, fun a mem => (free a mem).2,
                fun a mem => (free a mem).1⟩

theorem AccountInserted.new {conn : AuthDb} (inserted : AccountInserted A fails conn req draw) :
    ∃ phc conn', A.hashPassword draw.salt req.password = some phc ∧
      conn.insertAccount ⟨newAccountId draw.id, trim req.email, phc⟩ = some conn' := by
  obtain ⟨phc, hashed⟩ := Option.isSome_iff_exists.mp inserted.hashed
  cases new : conn.insertAccount ⟨newAccountId draw.id, trim req.email, phc⟩ with
  | some conn' => exact ⟨phc, conn', hashed, new⟩
  | none =>
    obtain ⟨b, mem, id | email⟩ := insertAccount_none new
    · exact absurd id (inserted.newId b mem)
    · exact absurd email (inserted.newEmail b mem)

/-- A signup that fails leaves the tables exactly when no insert of a session fails behind
one of an account. -/
theorem signup_changes_nothing (A : Argon2) (fails : Failures) (db : Option AuthDb) (req : AuthReq)
    (draw : Draw) (now : Int) :
    ChangesNothing A fails db req draw now ↔
      ∀ conn, db = some conn → AccountInserted A fails conn req draw →
      SessionInserted fails conn draw := by
  constructor
  · rintro ⟨tables, -⟩ conn rfl inserted
    obtain ⟨phc, conn', hashed, new⟩ := inserted.new
    rcases signupOn_inserted now inserted hashed new with ⟨_, _, session, -⟩ | ⟨-, e, run⟩
    · exact session
    · have same := tables (by rw [run]; nofun)
      rw [run, (insertAccount_some new).1] at same
      have accounts := congrArg AuthDb.accounts (Option.some.inj same)
      exact absurd (congrArg List.length accounts) (by simp)
  · intro session
    have tables : (∀ resp, (signupOn A fails db req draw now).2 ≠ .ok resp) →
        (signupOn A fails db req draw now).1 = db := by
      intro failed
      by_cases early : ∀ conn, db = some conn → ¬ AccountInserted A fails conn req draw
      · obtain ⟨e, run⟩ := signupOn_refused now early
        rw [run]
      · obtain ⟨conn, rfl, inserted⟩ : ∃ conn, db = some conn ∧
          AccountInserted A fails conn req draw := by
          by_contra none_
          exact early fun conn same inserted => none_ ⟨conn, same, inserted⟩
        obtain ⟨phc, conn', hashed, new⟩ := inserted.new
        rcases signupOn_inserted now inserted hashed new with ⟨_, resp, -, run⟩ | ⟨refused, -⟩
        · exact absurd (congrArg Prod.snd run) (failed resp)
        · exact absurd (session conn rfl inserted) refused
    constructor
    · exact tables
    · intro failed fails' req' draw' now' _ text conflict
      rwa [tables failed] at conflict

def sessionFails : Failures
  | .insertSession => some .other
  | _ => none

/-- The account stays, and a second try finds its email taken. -/
theorem account_stays :
    (signupOn plainly sessionFails (some .fresh) ⟨"a@b.co", "long enough"⟩ ⟨[1], [2], [3]⟩ 10).2 =
        .error (500, "auth store error") ∧
      (signupOn plainly (fun _ => none)
        (signupOn plainly sessionFails (some .fresh) ⟨"a@b.co", "long enough"⟩ ⟨[1], [2], [3]⟩ 10).1
        ⟨"a@b.co", "long enough"⟩ ⟨[4], [5], [6]⟩ 20).2 = .error (409, "email already registered") ∧
      ¬ ChangesNothing plainly sessionFails (some .fresh) ⟨"a@b.co", "long enough"⟩
        ⟨[1], [2], [3]⟩ 10 := by
  have first :
    (signupOn plainly sessionFails (some .fresh) ⟨"a@b.co", "long enough"⟩ ⟨[1], [2], [3]⟩ 10).2 =
      .error (500, "auth store error") := rfl
  refine ⟨first, rfl, fun nothing => ?_⟩
  have conflict := nothing.retry (by rw [first]; nofun) (fun _ => none) ⟨"a@b.co", "long enough"⟩
    ⟨[4], [5], [6]⟩ 20 rfl
    "email already registered" rfl
  cases conflict

end Spnr.Server
