import Spnr.Lib.Unwinding
import Spnr.Server.Serve

/-! The operator surface. What the server shows to the devices and lists to the operator
is decided by the requests that carry the configured token, in the order in which they
came, and by where the server was restarted; nothing else anybody sends takes part. -/
namespace Spnr.Server

variable {C : Crates}

/-- A creative as the admin views list it, inactive ones included. -/
structure AdminCreative where
  id : String
  text : String
  url : String
  shortCode : String
  advertiser : String
  active : Bool
  deriving DecidableEq

def CreativeRow.admin (row : CreativeRow) : AdminCreative :=
  ⟨row.creative.id, row.creative.text, row.creative.url, row.creative.shortCode,
    row.creative.advertiser, row.active⟩

def adminListCreatives (s : AppState C.VerifyingKey) (db : Database) (presented : Option String) :
    Except (Nat × String) (List AdminCreative) :=
  match checkAdmin C s presented with
  | some refusal => .error refusal
  | none => .ok ((loadCreatives db).map CreativeRow.admin)

def authorized (configured presented : Option String) : Bool :=
  configured.any (presented.getD "" = ·)

def refusal (configured : Option String) : Nat × String :=
  if configured = none then (503, "admin token not configured") else (401, "invalid admin token")

theorem click_response (s : AppState C.VerifyingKey) (code : String) :
    (click C s code).response =
      redirectTo
        (((s.creatives.find? (·.shortCode = code)).map Creative.url).getD creativeUrl) := by
  unfold click
  cases s.creatives.find? (·.shortCode = code) <;> rfl

theorem checkAdmin_eq {s : AppState C.VerifyingKey} {configured : Option String}
    (own : s.adminToken = configured) (presented : Option String) :
    checkAdmin C s presented = if authorized configured presented = true then none else some
      (refusal configured) := by
  subst own
  unfold checkAdmin authorized refusal
  cases s.adminToken with
  | none => rfl
  | some token => simp

def Request.presents : Request → Option (Option String)
  | .adminCreate presented _ _ => some presented
  | .adminDelete presented _ => some presented
  | _ => none

/-- The operator's own requests, and the moments at which the pool is loaded again. -/
def Action.byOperator (configured : Option String) : Action → Bool
  | .complete (.restart _ _) | .crash _ _ _ _ => true
  | .complete r => r.presents.any (authorized configured)

/-- The environment of the server names the same token at every start. -/
def Action.Configured (configured : Option String) : Action → Prop
  | .complete (.restart _ token) | .crash _ _ _ token => token.filter (· ≠ "") = configured
  | .complete _ => True

inductive AdminReply where
  | created (resp : Except (Nat × String) Creative)
  | deleted (resp : Except (Nat × String) Unit)

def adminReply (srv : ServerState C.VerifyingKey) : Action → Option AdminReply
  | .complete (.adminCreate presented req fresh) =>
    some (.created (adminCreateCreative C srv.mem presented req fresh).response)
  | .complete (.adminDelete presented id) =>
    some (.deleted (adminDeleteCreative C srv.mem srv.db presented id).response)
  | _ => none

/-- The two servers have the same creatives, in memory and in the table. -/
structure SamePool (configured : Option String) (srv srv' : ServerState C.VerifyingKey) : Prop where
  pool : srv.mem.creatives = srv'.mem.creatives
  rows : srv.db.creatives = srv'.db.creatives
  token : srv.mem.adminToken = configured
  token' : srv'.mem.adminToken = configured

section

variable {configured : Option String} {srv srv' : ServerState C.VerifyingKey}

theorem exec_rows {db db' : Database} (rows : db.creatives = db'.creatives) (w : Stmt) :
    (db.exec w).creatives = (db'.exec w).creatives := by
  cases plain : w.OnCreatives with
  | false => rw [exec_other db plain, exec_other db' plain, rows]
  | true =>
    cases w with
    | insertCreative c active now => exact congrArg (upsertCreative c active now) rows
    | deleteCreative id =>
      simp only [Database.exec, rows]
    | _ => cases plain

theorem execAll_rows {db db' : Database} (rows : db.creatives = db'.creatives) (ws : List Stmt) :
    (db.execAll ws).creatives = (db'.execAll ws).creatives := by
  induction ws generalizing db db' with
  | nil => exact rows
  | cons w ws ih => exact ih (exec_rows rows w)

theorem open_rows {db db' : Database} (rows : db.creatives = db'.creatives) (now : Int)
    (token : Option String) :
    (AppState.open C db now token).1.creatives = (AppState.open C db' now token).1.creatives ∧
      (AppState.open C db now token).2 = (AppState.open C db' now token).2 ∧
      (AppState.open C db now token).1.adminToken = token.filter (· ≠ "") := by
  have stored : loadCreatives db = loadCreatives db' := by rw [loadCreatives, loadCreatives, rows]
  unfold AppState.open
  dsimp only
  rw [stored]
  split <;> exact ⟨rfl, rfl, rfl⟩

theorem opened_rows {db db' : Database} (rows : db.creatives = db'.creatives) (now : Int)
    {token : Option String} (env : token.filter (· ≠ "") = configured) :
    SamePool configured (ServerState.opened C db now token)
      (ServerState.opened C db' now token) := by
  obtain ⟨pool, writes, own⟩ := open_rows (C := C) rows now token
  obtain ⟨-, -, own'⟩ := open_rows (C := C) (rfl : db'.creatives = db'.creatives) now token
  refine ⟨pool, ?_, own.trans env, own'.trans env⟩
  simp only [ServerState.opened]
  rw [writes]
  exact execAll_rows rows _

theorem effect_same (same : SamePool configured srv srv') {r : Request}
    (operator : r.operator = true) : (srv.effect C r).2 = (srv'.effect C r).2 := by
  obtain ⟨pool, rows, token, token'⟩ := same
  cases r with
  | adminCreate presented req fresh =>
    simp only [ServerState.effect, adminCreateCreative, checkAdmin_eq token, checkAdmin_eq token']
    split
    · rfl
    · split <;> rfl
  | adminDelete presented id =>
    simp only [ServerState.effect, adminDeleteCreative, checkAdmin_eq token,
      checkAdmin_eq token', rows]
    split
    · rfl
    · split <;> rfl
  | restart now token => exact (open_rows rows now token).2.1
  | _ => cases operator

theorem crash_rows (same : SamePool configured srv srv') (r : Request) (k : Nat) :
    (srv.db.execAll ((srv.effect C r).2.take k)).creatives =
      (srv'.db.execAll ((srv'.effect C r).2.take k)).creatives := by
  cases plain : r.operator with
  | true =>
    rw [effect_same same plain]
    exact execAll_rows same.rows _
  | false =>
    have untouched (srv : ServerState C.VerifyingKey) :
        (srv.db.execAll ((srv.effect C r).2.take k)).creatives = srv.db.creatives := by
      apply execAll_other
      rw [List.all_eq_true]
      intro w mem
      exact List.all_eq_true.mp (effect_other srv plain).2 w (List.mem_of_mem_take mem)
    rw [untouched srv, untouched srv', same.rows]

theorem effect_token (srv : ServerState C.VerifyingKey) {r : Request} (plain : r.operator = false) :
    (srv.effect C r).1.adminToken = srv.mem.adminToken := by
  have event (s : AppState C.VerifyingKey) (d : String) (se : SignedEvent) :
      (ingestEvent C s d se).1.adminToken = s.adminToken := by
    rcases ingestEvent_cases s d se with ⟨dev, -, h⟩ | ⟨-, h⟩
    · rw [h]
      rfl
    · rw [h]
  have batch (ses : List SignedEvent) (s : AppState C.VerifyingKey) (d : String) :
      (ingestAll s d ses).1.adminToken = s.adminToken := by
    induction ses generalizing s with
    | nil => rfl
    | cons se ses ih => exact (ih _).trans (event s d se)
  cases r with
  | register peer req now =>
    simp only [ServerState.effect, register]
    split <;> rfl
  | ingest req =>
    rw [ingest_effect]
    exact batch req.events srv.mem req.deviceId
  | redeem req order =>
    simp only [ServerState.effect]
    rcases redeem_cases srv.mem req order with ⟨account, requested, -, -, h⟩ | ⟨error, -, h⟩
    · rw [h]
      rfl
    · rw [h]
  | click code =>
    simp only [ServerState.effect, click]
    split <;> rfl
  | _ => cases plain

theorem unauthorized_refused (token : srv.mem.adminToken = configured) {r : Request}
    {presented : Option String}
    (presents : r.presents = some presented) (denied : authorized configured presented = false) :
    srv.step C r = srv ∧
      (adminReply srv (.complete r) = some (.created (.error (refusal configured))) ∨
        adminReply srv (.complete r) = some (.deleted (.error (refusal configured)))) := by
  have check : checkAdmin C srv.mem presented = some (refusal configured) := by
    rw [checkAdmin_eq token, denied]
    rfl
  cases r with
  | adminCreate presented' req fresh =>
    cases presents
    simp only [ServerState.step, ServerState.effect, adminReply, adminCreateCreative, check]
    exact ⟨rfl, .inl trivial⟩
  | adminDelete presented' id =>
    cases presents
    simp only [ServerState.step, ServerState.effect, adminReply, adminDeleteCreative, check]
    exact ⟨rfl, .inr trivial⟩
  | _ => cases presents

theorem SamePool.own (same : SamePool configured srv srv') {a : Action}
    (env : a.Configured configured) (byOperator : a.byOperator configured = true) :
    adminReply srv a = adminReply srv' a ∧ SamePool configured (srv.act C a) (srv'.act C a) := by
  cases a with
  | crash r k now token => exact ⟨rfl, opened_rows (crash_rows same r k) now env⟩
  | complete r =>
    cases r with
    | restart now token =>
      refine ⟨rfl, ?_⟩
      exact opened_rows same.rows now env
    | adminCreate presented req fresh =>
      have granted : authorized configured presented = true := byOperator
      have check (srv : ServerState C.VerifyingKey) (token : srv.mem.adminToken = configured) :
          checkAdmin C srv.mem presented = none := by
        rw [checkAdmin_eq token, if_pos granted]
      simp only [adminReply, ServerState.act, ServerState.step, ServerState.effect,
        adminCreateCreative, check srv same.token, check srv' same.token']
      split
      · exact ⟨rfl, same⟩
      · refine ⟨rfl, ?_, execAll_rows same.rows _, same.token, same.token'⟩
        exact congrArg (· ++ _) same.pool
    | adminDelete presented id =>
      have granted : authorized configured presented = true := byOperator
      have check (srv : ServerState C.VerifyingKey) (token : srv.mem.adminToken = configured) :
          checkAdmin C srv.mem presented = none := by
        rw [checkAdmin_eq token, if_pos granted]
      simp only [adminReply, ServerState.act, ServerState.step, ServerState.effect,
        adminDeleteCreative, check srv same.token, check srv' same.token', same.rows]
      split
      · refine ⟨rfl, ?_, execAll_rows same.rows _, same.token, same.token'⟩
        exact congrArg (List.filter _) same.pool
      · exact ⟨rfl, same.pool, execAll_rows same.rows _, same.token, same.token'⟩
    | _ => cases byOperator

theorem SamePool.other (same : SamePool configured srv srv') {a : Action}
    (other : a.byOperator configured = false) : SamePool configured (srv.act C a) srv' := by
  cases a with
  | crash r k now token => cases other
  | complete r =>
    cases plain : r.operator with
    | false =>
      obtain ⟨pool, others⟩ := effect_other srv plain
      refine ⟨pool.trans same.pool, ?_, (effect_token srv plain).trans same.token, same.token'⟩
      exact (execAll_other others srv.db).trans same.rows
    | true =>
      have refused {presented : Option String} (presents : r.presents = some presented)
          (denied : authorized configured presented = false) :
            SamePool configured (srv.act C (.complete r)) srv' := by
        rw [ServerState.act, (unauthorized_refused same.token presents denied).1]
        exact same
      cases r with
      | adminCreate | adminDelete => exact refused rfl other
      | restart => cases other
      | _ => cases plain

theorem operator_unwinds (configured : Option String) :
    Unwinding.Unwinds (ServerState.act C) (Action.byOperator configured) adminReply
      (Action.Configured configured)
      (SamePool configured) :=
  ⟨fun _ _ _ same env byOperator => same.own env byOperator,
    fun _ _ _ same _ other => same.other other⟩

theorem act_token (token : srv.mem.adminToken = configured) {a : Action}
    (env : a.Configured configured) : (srv.act C a).mem.adminToken = configured := by
  have same : SamePool configured srv srv := ⟨rfl, rfl, token, token⟩
  cases byOperator : a.byOperator configured with
  | true => exact (same.own env byOperator).2.token
  | false => exact (same.other byOperator).token

theorem run_token (token : srv.mem.adminToken = configured) (acts : List Action)
    (env : ∀ a ∈ acts, a.Configured configured) :
    (acts.foldl (ServerState.act C) srv).mem.adminToken = configured := by
  induction acts generalizing srv with
  | nil => exact token
  | cons a acts ih =>
    obtain ⟨now, later⟩ := List.forall_mem_cons.mp env
    exact ih (act_token token now) later

end

theorem fresh_token (now : Int) (token : Option String) :
    (ServerState.fresh C now token).mem.adminToken = token.filter (· ≠ "") :=
  (open_rows (C := C) (rfl : Database.fresh.creatives = Database.fresh.creatives) now token).2.2

/-- After any run, what is served, where clicks lead and what the operator sees are what the
authorized requests alone lead to, which are answered as if nobody else sent anything;
everyone else is refused, with 503 where no token is configured. -/
theorem operator_decides (configured : Option String) {srv : ServerState C.VerifyingKey}
    (token : srv.mem.adminToken = configured) (acts : List Action)
    (env : ∀ a ∈ acts, a.Configured configured) :
    let authorizedOnly := acts.filter (Action.byOperator configured)
    let after := acts.foldl (ServerState.act C) srv
    let after' := authorizedOnly.foldl (ServerState.act C) srv
    Unwinding.answers (ServerState.act C) (Action.byOperator configured) adminReply srv acts =
        Unwinding.answers (ServerState.act C) (Action.byOperator configured) adminReply srv
          authorizedOnly ∧
      serve after.mem = serve after'.mem ∧
      (∀ code, (click C after.mem code).response = (click C after'.mem code).response) ∧
      (∀ presented, adminListCreatives after.mem after.db presented =
        adminListCreatives after'.mem after'.db presented) ∧
      ∀ before r rest presented, acts = before ++ .complete r :: rest →
        r.presents = some presented → authorized configured presented = false →
        let reached := before.foldl (ServerState.act C) srv
        reached.step C r = reached ∧
          (adminReply reached (.complete r) = some (.created (.error (refusal configured))) ∨
            adminReply reached (.complete r) = some (.deleted (.error (refusal configured)))) := by
  intro authorizedOnly after after'
  obtain ⟨answers, same⟩ := (operator_unwinds (C := C) configured).run env ⟨rfl, rfl, token, token⟩
  refine ⟨answers, ?_, ?_, ?_, ?_⟩
  · simp only [serve]
    rw [same.pool]
  · intro code
    rw [click_response, click_response, same.pool]
  · intro presented
    rw [adminListCreatives, adminListCreatives, checkAdmin_eq same.token, checkAdmin_eq same.token',
      loadCreatives, loadCreatives, same.rows]
  · intro before r rest presented split presents denied
    have kept := run_token token before fun a mem => env a (split ▸ List.mem_append_left _ mem)
    exact unauthorized_refused kept presents denied

theorem operator_decides_intruder :
    let srv := ServerState.fresh Reference.crates 0 (some "t0ken")
    let intruder : Action := .complete
      (.adminCreate (some "guess") ⟨"buy now", "https://ads.example", none⟩ ⟨"cr_x", "Xx11", 1⟩)
    let acts : List Action :=
      [intruder, .complete (.click "AbC9"), .crash (.click "Kp7T") 0 2 (some "t0ken")]
    serve (acts.foldl (ServerState.act Reference.crates) srv).mem =
      serve (([.crash (.click "Kp7T") 0 2 (some "t0ken")] : List Action).foldl
        (ServerState.act Reference.crates) srv).mem := by
  intro srv intruder acts
  have token : srv.mem.adminToken = some "t0ken" := fresh_token 0 (some "t0ken")
  have env : ∀ a ∈ acts, a.Configured (some "t0ken") := by simp [acts, intruder, Action.Configured]
  exact (operator_decides (some "t0ken") token acts env).2.1

end Spnr.Server
