import Spnr.Server.Ledger
import Spnr.Server.Prefix
import Spnr.Server.Credit

/-! One cash-out on a reachable state: what it moves, what it leaves alone, and which amounts
it takes for another. -/
namespace Spnr.Server

open RustStd Transition

variable {C : Crates}

theorem i64_fits (x : Int) : FitsI64 (i64 x) := by
  have low := Int.le_bmod (x := x) (m := 2 ^ 64) (by decide)
  have high := Int.bmod_lt (x := x) (m := 2 ^ 64) (by decide)
  constructor
  · rw [i64]
    omega
  · rw [i64]
    omega

def Held (s : Loaded C.VerifyingKey) : Prop := ∀ a v, s.balances.lookup a = some v → FitsI64 v

/-- A statement that puts no other number into a balance. -/
def Stmt.Fits : Stmt → Prop
  | .setBalance _ micros => FitsI64 micros
  | _ => True

theorem Held.insert {s : Loaded C.VerifyingKey} (held : Held s) (account : String) {micros : Int}
    (fits : FitsI64 micros) :
    ∀ a v, (s.balances.insert account micros).lookup a = some v → FitsI64 v := by
  intro a v found
  rw [HashMap.lookup_insert] at found
  split at found
  · cases found
    exact fits
  · exact held a v found

theorem Held.exec {s : Loaded C.VerifyingKey} (held : Held s) {w : Stmt} (fits : w.Fits) :
    Held (s.exec C w) := by
  cases w with
  | setBalance account micros => exact held.insert account fits
  | ensureBalance account =>
    unfold Loaded.exec
    dsimp only
    split
    · exact held
    · exact held.insert account (by decide)
  | updateDeviceHead id chainHead ctrHead =>
    unfold Loaded.exec
    dsimp only
    split
    · exact held
    · exact held
  | ensureImpressions account =>
    unfold Loaded.exec
    dsimp only
    split
    · exact held
    · exact held
  | _ => exact held

theorem Held.execAll {ws : List Stmt} (fits : ∀ w ∈ ws, w.Fits) {s : Loaded C.VerifyingKey}
    (held : Held s) : Held (s.execAll C ws) := by
  induction ws generalizing s with
  | nil => exact held
  | cons w ws ih =>
    exact ih (fun x mem => fits x (List.mem_cons_of_mem _ mem))
      (held.exec (fits w List.mem_cons_self))

theorem acceptWrites_fit (s : AppState C.VerifyingKey) (d : String) (dev : DeviceRec C.VerifyingKey)
    (e : Event) : ∀ w ∈ acceptWrites C s d dev e, w.Fits := by
  have paid : Accrues e → FitsI64 (balanceOf (advance C s d dev e).toLoaded dev.accountId) := by
    intro accrues
    rw [balanceOf_advance, if_pos ⟨accrues, rfl⟩]
    exact i64_fits _
  intro w mem
  by_cases accrues : Accrues e
  · simp only [acceptWrites, newLedger, accrues, if_true, List.map_cons, List.map_nil,
      List.cons_append, List.nil_append, List.mem_cons, List.not_mem_nil, or_false] at mem
    rcases mem with rfl | rfl | rfl | rfl | rfl | rfl
    · trivial
    · trivial
    · trivial
    · trivial
    · exact paid accrues
    · trivial
  · simp only [acceptWrites, newLedger, accrues, if_false, List.map_nil, List.append_nil,
      List.mem_cons, List.not_mem_nil, or_false] at mem
    rcases mem with rfl | rfl
    · trivial
    · trivial

theorem ingestAll_fit (ses : List SignedEvent) (s : AppState C.VerifyingKey) (d : String) :
    ∀ w ∈ (ingestAll s d ses).2, w.Fits := by
  induction ses generalizing s with
  | nil => exact fun w mem => absurd mem List.not_mem_nil
  | cons se rest ih =>
    intro w mem
    rcases List.mem_append.mp mem with first | others
    · rcases ingestEvent_cases s d se with ⟨dev, -, eq⟩ | ⟨-, eq⟩
      · rw [eq] at first
        rcases List.mem_append.mp first with event | tally
        · exact acceptWrites_fit s d dev se.e w event
        · rw [List.mem_singleton.mp tally]
          trivial
      · rw [eq] at first
        rw [List.mem_singleton.mp first]
        trivial
    · exact ih _ w others

theorem Stmt.Aside.fits {w : Stmt} (aside : w.Aside) : w.Fits := by
  cases w with
  | setBalance account micros => exact aside.elim
  | _ => trivial

theorem effect_fit (srv : ServerState C.VerifyingKey) (r : Request) : ∀ w ∈ (srv.effect C r).2,
    w.Fits := by
  intro w mem
  cases r with
  | register peer req now =>
    simp only [ServerState.effect, register] at mem
    split at mem
    · exact absurd mem List.not_mem_nil
    · simp only [List.mem_cons, List.not_mem_nil, or_false] at mem
      rcases mem with rfl | rfl | rfl | rfl
      · trivial
      · trivial
      · trivial
      · trivial
  | ingest req =>
    rw [ingest_effect] at mem
    exact ingestAll_fit req.events srv.mem req.deviceId w mem
  | redeem req order =>
    simp only [ServerState.effect] at mem
    rcases redeem_cases srv.mem req order with ⟨account, requested, -, -, eq⟩ | ⟨error, -, eq⟩
    · rw [eq] at mem
      simp only [payOut, List.mem_cons, List.not_mem_nil, or_false] at mem
      rcases mem with rfl | rfl | rfl
      · trivial
      · trivial
      · exact i64_fits _
    · rw [eq] at mem
      exact absurd mem List.not_mem_nil
  | click code => exact (aside_writes srv (r := .click code) rfl w mem).fits
  | adminCreate presented req fresh =>
    exact (aside_writes srv (r := .adminCreate presented req fresh) rfl w mem).fits
  | adminDelete presented id =>
    exact (aside_writes srv (r := .adminDelete presented id) rfl w mem).fits
  | restart now token => exact (aside_writes srv (r := .restart now token) rfl w mem).fits

theorem act_held {srv : ServerState C.VerifyingKey} (synced : Synced srv)
    (held : Held srv.mem.toLoaded) (a : Action) : Held (srv.act C a).mem.toLoaded := by
  obtain ⟨r, k, view⟩ := act_view synced a
  rw [view]
  exact held.execAll fun w mem => effect_fit srv r w (List.mem_of_mem_take mem)

theorem run_held {now : Int} {token : Option String} {acts : List Action}
    {srv : ServerState C.VerifyingKey}
    (run : Run Behaves (ServerState.fresh C now token) acts srv) : Synced srv ∧
    Held srv.mem.toLoaded := by
  refine run.invariant (fun srv => Synced srv ∧ Held srv.mem.toLoaded) ?_
    ⟨fresh_synced now token, ?_⟩
  · rintro s a t ⟨synced, held⟩ rfl
    exact ⟨act_synced synced a, act_held synced held a⟩
  · rw [fresh_view]
    intro a v found
    simp [load, Database.fresh] at found

/-- The amount that the request names, or all there is when it names none or zero. -/
def asked (req : RedeemReq) (available : Int) : Int :=
  if req.amountMicros.getD 0 = 0 then available else req.amountMicros.getD 0

/-- A refusal changes nothing. Otherwise an account of the largest balance loses the amount asked
for, with one ledger entry and one cash-out under a new id, and the rest stays as it is. -/
def MovesAsAsked (srv : ServerState C.VerifyingKey) (req : RedeemReq)
    (order : HashMap.Order String Int) : Prop :=
  match (redeem C srv.mem req order).response with
  | .error _ => srv.step C (.redeem req order) = srv
  | .ok resp => ∃ account available,
      srv.mem.balances.lookup account = some available ∧
      (∀ other v, srv.mem.balances.lookup other = some v → v ≤ available) ∧
      resp.amountMicros = asked req available ∧ 0 < resp.amountMicros ∧
        resp.amountMicros ≤ available ∧
      resp.id ∉ srv.mem.redemptions.map Redemption.id ∧
      (srv.step C (.redeem req order)).mem = { srv.mem with
        ledger := srv.mem.ledger ++ [⟨account, "acct:payout", resp.amountMicros, .redeem, resp.id⟩]
        balances := srv.mem.balances.insert account (available - resp.amountMicros)
        redemptions := srv.mem.redemptions ++ [⟨resp.id, resp.amountMicros, req.rail⟩]
        nextRedemptionId := srv.mem.nextRedemptionId + 1 }

def Negative (req : RedeemReq) : Prop := ∃ a, req.amountMicros = some a ∧ a < 0

def SomePositive (s : Loaded C.VerifyingKey) : Prop :=
  ∃ account v, s.balances.lookup account = some v ∧ 0 < v

theorem requestedOf_asked {req : RedeemReq} (whole : ¬ Negative req) (available : Int) :
    requestedOf req available = asked req available := by
  unfold requestedOf asked
  cases named : req.amountMicros with
  | none => rfl
  | some a =>
    have nonneg : 0 ≤ a := Int.not_lt.mp fun below => whole ⟨a, named, below⟩
    dsimp only
    rw [Option.getD_some]
    split_ifs with positive zero zero
    · omega
    · rfl
    · rfl
    · omega

theorem asked_negative {req : RedeemReq} (negative : Negative req) (available : Int) :
    asked req available < 0 := by
  obtain ⟨a, named, below⟩ := negative
  rw [asked, named, Option.getD_some, if_neg (by omega)]
  exact below

theorem granted_negative {s : AppState C.VerifyingKey} {req : RedeemReq} (negative : Negative req)
    (funds : SomePositive s.toLoaded) (order : HashMap.Order String Int) : Granted s req order := by
  obtain ⟨account, v, held, positive⟩ := funds
  obtain ⟨a, named, below⟩ := negative
  have all (available : Int) : requestedOf req available = available := by
    rw [requestedOf, named]
    exact if_neg (by omega)
  cases found : primary C s order with
  | none =>
    have entry : ⟨account, v⟩ ∈ order.entries s.balances := (order.mem_entries _ _ _).mpr held
    unfold primary at found
    rw [Option.map_eq_none_iff] at found
    cases entries : order.entries s.balances with
    | nil =>
      rw [entries] at entry
      cases entry
    | cons x xs =>
      rw [entries] at found
      cases found
  | some top =>
    obtain ⟨best, available⟩ := top
    have most := (primary_spec found).2 account v held
    exact ⟨best, available, found, by omega, (all available).le⟩

/-- In every reachable state the cash-out does so, except for a negative
amount that is not refused. -/
theorem redeem_exact {now : Int} {token : Option String} {acts : List Action}
    {srv : ServerState C.VerifyingKey}
    (run : Run Behaves (ServerState.fresh C now token) acts srv) (req : RedeemReq)
    (order : HashMap.Order String Int) :
    MovesAsAsked srv req order ↔ ¬ (Negative req ∧ SomePositive srv.mem.toLoaded) := by
  obtain ⟨synced, held⟩ := run_held run
  obtain ⟨ids, next⟩ := synced.ids
  unfold MovesAsAsked
  rcases redeem_cases srv.mem req order with ⟨account, requested, pays, -, eq⟩ | ⟨error,
    refused, eq⟩
  · rw [eq]
    simp only [ServerState.step, ServerState.effect, eq]
    obtain ⟨available, listed, amount, enough⟩ := pays.held
    have balance : balanceOf srv.mem.toLoaded account = available := by
      rw [balanceOf, listed, Option.getD_some]
    have remaining := pays.remaining (balance ▸ held account available listed)
    have positive := pays.positive
    have top := pays.top
    rw [balance] at remaining top
    constructor
    · rintro ⟨account', available', -, -, same, moved, -⟩ ⟨negative, -⟩
      have below := asked_negative negative available'
      omega
    · intro excluded
      have whole : ¬ Negative req :=
        fun negative => excluded ⟨negative, account, available, listed, by omega⟩
      refine ⟨account, available, listed, top, ?_, positive, enough, ?_, ?_⟩
      · exact amount.trans (requestedOf_asked whole available)
      · change redemptionId srv.mem.nextRedemptionId ∉ _
        rw [next]
        exact Numbered.not_mem ids
      · simp only [payOut, balance, remaining]
  · rw [eq]
    simp only [ServerState.step, ServerState.effect, eq]
    constructor
    · rintro - ⟨negative, funds⟩
      exact refused (granted_negative negative funds order)
    · intro _
      rfl

theorem clean_behaves {s t : ServerState C.VerifyingKey} {reqs : List Request}
    (run : Run CleanStep s reqs t) : Run Behaves s (reqs.map .complete) t := by
  induction run with
  | nil s => exact .nil s
  | cons first _ ih => exact .cons first.2 ih

theorem redeem_exact_part :
    ∃ srv, Run Behaves (ServerState.fresh Reference.crates 0 none)
        ((firstRequests Reference.crates (Reference.key 7)).map .complete) srv ∧
      (MovesAsAsked srv ⟨"usdc", some 5000⟩ default ↔
        ¬ (Negative ⟨"usdc", some 5000⟩ ∧ SomePositive srv.mem.toLoaded)) := by
  obtain ⟨srv, run, -⟩ := first_requests_run Reference.crates (Reference.key 7)
  exact ⟨srv, clean_behaves run, redeem_exact (clean_behaves run) ⟨"usdc", some 5000⟩ default⟩

/-- A request for minus one micro takes all 15000. -/
theorem negative_drains :
    ∃ srv, Run Behaves (ServerState.fresh Reference.crates 0 none)
        ((firstRequests Reference.crates (Reference.key 7)).map .complete) srv ∧
      ¬ MovesAsAsked srv ⟨"usdc", some (-1)⟩ default := by
  obtain ⟨srv, run, only, -⟩ := first_requests_run Reference.crates (Reference.key 7)
  refine ⟨srv, clean_behaves run, ?_⟩
  have top := primary_only (C := Reference.crates) only default
  have response : (redeem Reference.crates srv.mem ⟨"usdc", some (-1)⟩ default).response =
      .ok (payOut Reference.crates srv.mem "acct:d1" 15000 "usdc").response := by
    simp [redeem, top, requestedOf]
  unfold MovesAsAsked
  rw [response]
  rintro ⟨account, available, -, -, amount, -⟩
  have negative : Negative ⟨"usdc", some (-1)⟩ := ⟨-1, rfl, by decide⟩
  have below := asked_negative negative available
  have moved : (payOut Reference.crates srv.mem "acct:d1" 15000 "usdc").response.amountMicros =
    15000 := rfl
  omega

end Spnr.Server
