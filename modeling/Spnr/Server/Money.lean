import Mathlib.Algebra.BigOperators.Group.List.Basic
import Spnr.Proto.Reference
import Spnr.Server.Synced

/-! Money conservation. Per account, what is held plus what was cashed out is the
developer half of the price of its impressions; ledger, balances, impressions
and redemptions are four collections that no handler may move apart. -/
namespace Spnr.Server

open RustStd Transition

variable {C : Crates}

def amounts (es : List LedgerEntry) : Int := (es.map LedgerEntry.amountMicros).sum

/-- The cash-outs of one account, and of all of them, as the ledger has them. -/
def redeemedBy (ledger : List LedgerEntry) (account : String) : Int :=
  amounts (ledger.filter fun e => e.kind = .redeem ∧ e.debit = account)

def redeemTotal (ledger : List LedgerEntry) : Int := amounts (ledger.filter (·.kind = .redeem))

def cashOuts (rows : List Redemption) : Int := (rows.map Redemption.amountMicros).sum

@[simp] theorem amounts_nil : amounts [] = 0 := rfl

@[simp] theorem amounts_append (es fs : List LedgerEntry) :
    amounts (es ++ fs) = amounts es + amounts fs := by simp [amounts]

@[simp] theorem cashOuts_append (rs : List Redemption) (r : Redemption) :
    cashOuts (rs ++ [r]) = cashOuts rs + r.amountMicros := by simp [cashOuts]

theorem newLedger_not_redeem (account : String) (e : Event) :
    ∀ entry ∈ newLedger account e, entry.kind ≠ .redeem := by
  intro entry mem
  unfold newLedger at mem
  split at mem
  · rcases List.mem_pair.mp mem with rfl | rfl <;> simp
  · cases mem

theorem redeemedBy_append (xs ys : List LedgerEntry) (a : String) :
    redeemedBy (xs ++ ys) a = redeemedBy xs a + redeemedBy ys a := by simp [redeemedBy]

theorem redeemTotal_append (xs ys : List LedgerEntry) :
    redeemTotal (xs ++ ys) = redeemTotal xs + redeemTotal ys := by simp [redeemTotal]

theorem credits_redeem_nothing {es : List LedgerEntry}
    (credits : ∀ entry ∈ es, entry.kind ≠ .redeem)
    (a : String) : redeemedBy es a = 0 ∧ redeemTotal es = 0 := by
  have none (p : LedgerEntry → Bool) (redeem : ∀ entry, p entry = true → entry.kind = .redeem) :
      es.filter p = [] := by
    refine List.filter_eq_nil_iff.mpr fun entry mem found => ?_
    exact credits entry mem (redeem entry found)
  constructor
  · rw [redeemedBy, none _ (by intro entry; simp +contextual), amounts_nil]
  · rw [redeemTotal, none _ (by simp), amounts_nil]

/-- What an account holds and has cashed out is the developer half of its impressions. -/
structure AccountOk (s : Loaded C.VerifyingKey) (a : String) : Prop where
  account : balanceOf s a + redeemedBy s.ledger a = 5000 * impressionsOf s a
  nonneg : 0 ≤ balanceOf s a
  held : FitsI64 (balanceOf s a)

theorem AccountOk.congr {s v : Loaded C.VerifyingKey} {a : String} (ok : AccountOk s a)
    (balance : balanceOf v a = balanceOf s a) (imps : impressionsOf v a = impressionsOf s a)
    (cashed : redeemedBy v.ledger a = redeemedBy s.ledger a) : AccountOk v a := by
  refine ⟨?_, ?_, ?_⟩
  · rw [balance, imps, cashed]
    exact ok.account
  · rw [balance]
    exact ok.nonneg
  · rw [balance]
    exact ok.held

def EventFits (s : Loaded C.VerifyingKey) (d : String) (se : SignedEvent) (a : String) : Prop :=
  ∀ dev, Accepts s d se dev → Accrues se.e → dev.accountId = a →
    FitsI64 (balanceOf s a + devEarn se.e)

def BatchFits (s : AppState C.VerifyingKey) (d : String) (a : String) : List SignedEvent → Prop
  | [] => True
  | se :: rest => EventFits s.toLoaded d se a ∧ BatchFits (ingestEvent C s d se).1 d a rest

def RequestFits (srv : ServerState C.VerifyingKey) (a : String) : Request → Prop
  | .ingest req => BatchFits srv.mem req.deviceId a req.events
  | _ => True

theorem register_views {s : AppState C.VerifyingKey} (peer : Peer) (req : RegisterReq) (now : Int)
    (a : String) :
    balanceOf (register C s peer req now).state.toLoaded a = balanceOf s.toLoaded a ∧
      impressionsOf (register C s peer req now).state.toLoaded a = impressionsOf s.toLoaded a := by
  cases key : decodePubkey C req.pubkey with
  | none => simp [register, key]
  | some pubkey =>
    have zero {V : Type} (m : HashMap String V) (z : V) :
        ((if accountOf req.deviceId ∈ m then m
          else m.insert (accountOf req.deviceId) z).lookup a).getD z = (m.lookup a).getD z := by
      split
      · rfl
      · rename_i absent
        by_cases ha : a = accountOf req.deviceId
        · subst ha
          simp [Finmap.lookup_eq_none.mpr absent]
        · simp [ha]
    simp only [register, key, balanceOf, impressionsOf]
    exact ⟨zero s.balances 0, zero s.impressions 0⟩

theorem register_ledger (s : AppState C.VerifyingKey) (peer : Peer) (req : RegisterReq)
    (now : Int) : (register C s peer req now).state.ledger = s.ledger ∧
      (register C s peer req now).state.redemptions = s.redemptions := by
  cases key : decodePubkey C req.pubkey <;> simp [register, key]

theorem balanceOf_advance (s : AppState C.VerifyingKey) (d a : String)
    (dev : DeviceRec C.VerifyingKey) (e : Event) :
    balanceOf (advance C s d dev e).toLoaded a =
      if Accrues e ∧ a = dev.accountId then i64 (balanceOf s.toLoaded a + devEarn e)
      else balanceOf s.toLoaded a := by
  by_cases accrues : Accrues e <;> by_cases ha : a = dev.accountId
  · subst ha
    simp [advance, accrues, balanceOf]
  all_goals simp [advance, accrues, balanceOf, ha]

theorem impressionsOf_advance (s : AppState C.VerifyingKey) (d a : String)
    (dev : DeviceRec C.VerifyingKey) (e : Event) :
    impressionsOf (advance C s d dev e).toLoaded a =
      if Accrues e ∧ a = dev.accountId then impressionsOf s.toLoaded a + (impCount e).toNat
      else impressionsOf s.toLoaded a := by
  by_cases accrues : Accrues e <;> by_cases ha : a = dev.accountId
  · subst ha
    simp [advance, accrues, impressionsOf]
  all_goals simp [advance, accrues, impressionsOf, ha]

theorem redeemedBy_advance (s : AppState C.VerifyingKey) (d a : String)
    (dev : DeviceRec C.VerifyingKey) (e : Event) :
    redeemedBy (advance C s d dev e).ledger a = redeemedBy s.ledger a := by
  have nothing := (credits_redeem_nothing (newLedger_not_redeem dev.accountId e) a).1
  simp only [advance, redeemedBy_append, nothing, Int.add_zero]

theorem advance_account {s : AppState C.VerifyingKey} {a : String} (ok : AccountOk s.toLoaded a)
    {d : String} {se : SignedEvent} {dev : DeviceRec C.VerifyingKey}
    (accepts : Accepts s.toLoaded d se dev) (fits : EventFits s.toLoaded d se a) :
    AccountOk (advance C s d dev se.e).toLoaded a := by
  have account := ok.account
  have nonneg := ok.nonneg
  have ledger := redeemedBy_advance s d a dev se.e
  have balance := balanceOf_advance s d a dev se.e
  have imps := impressionsOf_advance s d a dev se.e
  by_cases credited : Accrues se.e ∧ a = dev.accountId
  · obtain ⟨accrues, rfl⟩ := credited
    have fit := fits dev accepts accrues rfl
    have earned := devEarn_eq se.e
    have count := accrues.2
    rw [if_pos ⟨accrues, rfl⟩, i64_of_fits fit] at balance
    rw [if_pos ⟨accrues, rfl⟩] at imps
    refine ⟨?_, ?_, balance ▸ fit⟩
    · rw [balance, imps, ledger]
      omega
    · rw [balance]
      omega
  · rw [if_neg credited] at balance imps
    exact ok.congr balance imps ledger

theorem ingestEvent_account {s : AppState C.VerifyingKey} {a : String} (ok : AccountOk s.toLoaded a)
    {d : String} {se : SignedEvent} (fits : EventFits s.toLoaded d se a) :
    AccountOk (ingestEvent C s d se).1.toLoaded a := by
  rcases ingestEvent_cases s d se with ⟨dev, accepts, eq⟩ | ⟨-, eq⟩
  · have advanced := advance_account ok accepts fits
    rw [eq]
    exact ⟨advanced.account, advanced.nonneg, advanced.held⟩
  · rw [eq]
    exact ⟨ok.account, ok.nonneg, ok.held⟩

theorem ingestAll_account (ses : List SignedEvent) {s : AppState C.VerifyingKey} {a : String}
    (ok : AccountOk s.toLoaded a) {d : String} (fits : BatchFits s d a ses) :
    AccountOk (ingestAll s d ses).1.toLoaded a := by
  induction ses generalizing s with
  | nil => exact ok
  | cons se rest ih => exact ih (ingestEvent_account ok fits.1) fits.2

theorem Pays.available {s : Loaded C.VerifyingKey} {req : RedeemReq} {account : String}
    {requested : Int} (pays : Pays s req account requested) : requested ≤ balanceOf s account := by
  obtain ⟨available, held, -, enough⟩ := pays.held
  simpa [balanceOf, held] using enough

theorem Pays.remaining {s : Loaded C.VerifyingKey} {req : RedeemReq} {account : String}
    {requested : Int} (pays : Pays s req account requested) (held : FitsI64 (balanceOf s account)) :
    i64 (balanceOf s account - requested) = balanceOf s account - requested := by
  have enough := pays.available
  have positive := pays.positive
  have bound := held.2
  exact i64_of_fits ⟨by omega, by omega⟩

theorem payOut_account {s : AppState C.VerifyingKey} {a : String} (ok : AccountOk s.toLoaded a)
    {req : RedeemReq} {account : String} {requested : Int}
    (pays : Pays s.toLoaded req account requested) :
    AccountOk (payOut C s account requested req.rail).state.toLoaded a := by
  by_cases ha : a = account
  · subst ha
    have remaining := pays.remaining ok.held
    have enough := pays.available
    have positive := pays.positive
    have bound := ok.held.2
    have account := ok.account
    have balance : balanceOf (payOut C s a requested req.rail).state.toLoaded a =
        balanceOf s.toLoaded a - requested := by
      simpa [payOut, balanceOf] using remaining
    have cashed : redeemedBy (payOut C s a requested req.rail).state.ledger a =
        redeemedBy s.ledger a + requested := by
      simp [payOut, redeemedBy, amounts]
    have imps : impressionsOf (payOut C s a requested req.rail).state.toLoaded a =
        impressionsOf s.toLoaded a := rfl
    refine ⟨?_, ?_, ?_⟩
    · rw [balance, cashed, imps]
      omega
    · omega
    · rw [balance]
      unfold FitsI64
      omega
  · have balance : balanceOf (payOut C s account requested req.rail).state.toLoaded a =
        balanceOf s.toLoaded a := by
      simp [payOut, balanceOf, ha]
    have cashed : redeemedBy (payOut C s account requested req.rail).state.ledger a =
        redeemedBy s.ledger a := by
      simp [payOut, redeemedBy, amounts, Ne.symm ha]
    exact ok.congr balance rfl cashed

theorem step_account {srv : ServerState C.VerifyingKey} (synced : Synced srv) {a : String}
    (ok : AccountOk srv.mem.toLoaded a) {r : Request} (fits : RequestFits srv a r) :
    AccountOk (srv.step C r).mem.toLoaded a := by
  have step := step_cases synced r
  generalize (srv.step C r).mem.toLoaded = after at step ⊢
  cases step with
  | register peer req now =>
    obtain ⟨balance, imps⟩ := register_views (s := srv.mem) peer req now a
    have ledger := (register_ledger srv.mem peer req now).1
    exact ok.congr balance imps (congrArg (redeemedBy · a) ledger)
  | ingest req => exact ingestAll_account req.events ok fits
  | redeem req order pays => exact payOut_account ok pays
  | other clicks => exact ⟨ok.account, ok.nonneg, ok.held⟩

/-- Every cash-out has its ledger entry, and the other way round. -/
def Cashed (s : Loaded C.VerifyingKey) : Prop := cashOuts s.redemptions = redeemTotal s.ledger

theorem ingestEvent_cashed {s : AppState C.VerifyingKey} (cashed : Cashed s.toLoaded) (d : String)
    (se : SignedEvent) : Cashed (ingestEvent C s d se).1.toLoaded := by
  rcases ingestEvent_cases s d se with ⟨dev, -, eq⟩ | ⟨-, eq⟩
  · have nothing := (credits_redeem_nothing (newLedger_not_redeem dev.accountId se.e) "").2
    rw [eq]
    unfold Cashed at *
    simpa only [advance, redeemTotal_append, nothing, Int.add_zero] using cashed
  · rw [eq]
    exact cashed

theorem ingestAll_cashed (ses : List SignedEvent) {s : AppState C.VerifyingKey}
    (cashed : Cashed s.toLoaded) (d : String) : Cashed (ingestAll s d ses).1.toLoaded := by
  induction ses generalizing s with
  | nil => exact cashed
  | cons se rest ih => exact ih (ingestEvent_cashed cashed d se)

theorem payOut_cashed {s : AppState C.VerifyingKey} (cashed : Cashed s.toLoaded) (account : String)
    (requested : Int) (rail : String) :
    Cashed (payOut C s account requested rail).state.toLoaded := by
  unfold Cashed redeemTotal at *
  simp [payOut, cashed, amounts]

theorem step_cashed {srv : ServerState C.VerifyingKey} (synced : Synced srv)
    (cashed : Cashed srv.mem.toLoaded) (r : Request) : Cashed (srv.step C r).mem.toLoaded := by
  have step := step_cases synced r
  generalize (srv.step C r).mem.toLoaded = after at step ⊢
  cases step with
  | register peer req now =>
    obtain ⟨ledger, rows⟩ := register_ledger srv.mem peer req now
    unfold Cashed at *
    rw [ledger, rows]
    exact cashed
  | ingest req => exact ingestAll_cashed req.events cashed req.deviceId
  | redeem req order pays => exact payOut_cashed cashed _ _ req.rail
  | other clicks => exact cashed

theorem wrapping_sum (rows : List Redemption) :
    rows.foldl (fun sum r => i64 (sum + r.amountMicros)) 0 = i64 (cashOuts rows) := by
  induction rows using List.reverseRecOn with
  | nil => rfl
  | append_singleton rows r ih =>
    rw [List.foldl_append, ih, cashOuts_append]
    exact i64_add_left (cashOuts rows) r.amountMicros

theorem totalRedeemed_eq {s : Loaded C.VerifyingKey} (fits : FitsI64 (cashOuts s.redemptions)) :
    totalRedeemedMicros s = cashOuts s.redemptions := by
  rw [totalRedeemedMicros, wrapping_sum, i64_of_fits fits]

/-- No `i64` computation of the request overflows: the balance additions of an
ingest, and the running total of the cash-outs. -/
def NoOverflow (srv : ServerState C.VerifyingKey) (r : Request) : Prop :=
  (∀ a, RequestFits srv a r) ∧ FitsI64 (cashOuts (srv.step C r).mem.redemptions)

/-- A request all of whose statements succeed and none of whose `i64` computations overflows. -/
def CleanStep (srv : ServerState C.VerifyingKey) (r : Request)
    (srv' : ServerState C.VerifyingKey) : Prop :=
  NoOverflow srv r ∧ srv' = srv.step C r

structure Conserved (s : Loaded C.VerifyingKey) : Prop where
  accounts : ∀ a, AccountOk s a
  cashed : Cashed s
  fits : FitsI64 (cashOuts s.redemptions)

theorem step_conserved {srv : ServerState C.VerifyingKey} (synced : Synced srv)
    (h : Conserved srv.mem.toLoaded) {r : Request} (fits : NoOverflow srv r) :
    Conserved (srv.step C r).mem.toLoaded :=
  ⟨fun a => step_account synced (h.accounts a) (fits.1 a), step_cashed synced h.cashed r, fits.2⟩

theorem fresh_conserved (now : Int) (token : Option String) :
    Conserved (ServerState.fresh C now token).mem.toLoaded := by
  rw [fresh_view]
  refine ⟨fun a => ⟨?_, ?_, ?_⟩, ?_, ?_⟩ <;>
    simp [load, Database.fresh, balanceOf, impressionsOf, redeemedBy, Cashed, cashOuts,
      redeemTotal, FitsI64]

theorem clean_run_conserved {now : Int} {token : Option String} {reqs : List Request}
    {srv : ServerState C.VerifyingKey}
    (run : Run CleanStep (ServerState.fresh C now token) reqs srv) :
    Synced srv ∧ Conserved srv.mem.toLoaded := by
  refine run.invariant (fun srv => Synced srv ∧ Conserved srv.mem.toLoaded) ?_
    ⟨fresh_synced now token, fresh_conserved now token⟩
  rintro s r t ⟨synced, conserved⟩ ⟨fits, rfl⟩
  exact ⟨step_synced synced r, step_conserved synced conserved fits⟩

theorem batch_held (ses : List SignedEvent) {s : AppState C.VerifyingKey} {d : String} {most : Int}
    (held : ∀ a, 0 ≤ balanceOf s.toLoaded a ∧ balanceOf s.toLoaded a ≤ most)
    (room : most + 5000 * 2 ^ 32 * ses.length < 2 ^ 63) (a : String) : BatchFits s d a ses ∧
      0 ≤ balanceOf (ingestAll s d ses).1.toLoaded a ∧
      balanceOf (ingestAll s d ses).1.toLoaded a ≤ most + 5000 * 2 ^ 32 * ses.length := by
  induction ses generalizing s most with
  | nil =>
    have here := held a
    exact ⟨trivial, here.1, by simpa [ingestAll] using here.2⟩
  | cons se rest ih =>
    have earned := devEarn_eq se.e
    have count := impCount_bounds se.e
    simp only [List.length_cons] at room ⊢
    have fit (b : String) : FitsI64 (balanceOf s.toLoaded b + devEarn se.e) := by
      have := held b
      unfold FitsI64
      omega
    have next (b : String) : 0 ≤ balanceOf (ingestEvent C s d se).1.toLoaded b ∧
        balanceOf (ingestEvent C s d se).1.toLoaded b ≤ most + 5000 * 2 ^ 32 := by
      have before := held b
      rcases ingestEvent_cases s d se with ⟨dev, -, eq⟩ | ⟨-, eq⟩
      · have after := balanceOf_advance s d b dev se.e
        rw [i64_of_fits (fit b)] at after
        rw [eq]
        change 0 ≤ balanceOf (advance C s d dev se.e).toLoaded b ∧
          balanceOf (advance C s d dev se.e).toLoaded b ≤ most + 5000 * 2 ^ 32
        split at after <;> omega
      · rw [eq]
        change 0 ≤ balanceOf s.toLoaded b ∧ balanceOf s.toLoaded b ≤ most + 5000 * 2 ^ 32
        omega
    obtain ⟨fits, low, high⟩ := ih next (by omega)
    refine ⟨⟨fun _ _ _ _ => fit a, fits⟩, low, ?_⟩
    simp only [ingestAll]
    omega

theorem ingestAll_redemptions (ses : List SignedEvent) (s : AppState C.VerifyingKey) (d : String) :
    (ingestAll s d ses).1.redemptions = s.redemptions := by
  induction ses generalizing s with
  | nil => rfl
  | cons se rest ih =>
    rw [ingestAll, ih]
    rcases ingestEvent_cases s d se with ⟨dev, -, eq⟩ | ⟨-, eq⟩
    · rw [eq]
      rfl
    · rw [eq]

theorem batches_clean (batches : List IngestReq) {srv : ServerState C.VerifyingKey} {most : Int}
    (held : ∀ a, 0 ≤ balanceOf srv.mem.toLoaded a ∧ balanceOf srv.mem.toLoaded a ≤ most)
    (room : most + 5000 * 2 ^ 32 * (batches.flatMap IngestReq.events).length < 2 ^ 63)
    (none_ : srv.mem.redemptions = []) :
    ∃ srv', Run CleanStep srv (batches.map .ingest) srv' := by
  induction batches generalizing srv most with
  | nil => exact ⟨srv, .nil srv⟩
  | cons batch batches ih =>
    rw [List.flatMap_cons, List.length_append] at room
    have state : (srv.step C (.ingest batch)).mem =
      (ingestAll srv.mem batch.deviceId batch.events).1 :=
      congrArg Prod.fst (ingest_eq srv.mem batch)
    have earned := batch_held (d := batch.deviceId) batch.events held (by omega)
    have rows : (srv.step C (.ingest batch)).mem.redemptions = [] := by
      rw [state, ingestAll_redemptions, none_]
    obtain ⟨srv', rest⟩ := ih
      (fun a => state ▸ (earned a).2) (by omega) rows
    refine ⟨srv', .cons ⟨⟨fun a => (earned a).1, ?_⟩, rfl⟩ rest⟩
    rw [rows]
    decide

theorem first_batches_clean (now : Int) (token : Option String) (peer : Peer) (req : RegisterReq)
    (regNow : Int)
    {batches : List IngestReq} (few : (batches.flatMap IngestReq.events).length < 2 ^ 16) :
    ∃ srv, Run CleanStep (ServerState.fresh C now token)
      (.register peer req regNow :: batches.map .ingest) srv := by
  obtain ⟨ledger, rows⟩ := register_ledger (ServerState.fresh C now token).mem peer req regNow
  have none_ := fresh_redemptions (C := C) now token
  have empty (a : String) : balanceOf (ServerState.fresh C now token).mem.toLoaded a = 0 := by
    rw [fresh_view]
    simp [load, Database.fresh, balanceOf]
  have held (a : String) :
      0 ≤ balanceOf (register C (ServerState.fresh C now token).mem peer req regNow).state.toLoaded a ∧
      balanceOf (register C (ServerState.fresh C now token).mem peer req regNow).state.toLoaded a ≤ 0 := by
    rw [(register_views peer req regNow a).1, empty]
    exact ⟨Int.le_refl 0, Int.le_refl 0⟩
  obtain ⟨srv, rest⟩ : ∃ srv,
    Run CleanStep ((ServerState.fresh C now token).step C (.register peer req regNow))
      (batches.map .ingest) srv := batches_clean batches held (by omega) (rows.trans none_)
  refine ⟨srv, .cons ⟨⟨fun a => trivial, ?_⟩, rfl⟩ rest⟩
  simp only [ServerState.step, ServerState.effect]
  rw [rows, none_]
  decide

/-! A device that registers and is paid for its first three impressions. -/

def firstEvent : Event :=
  ⟨1, "01J8Z0G5M8Q9W7Y6T5R4E3D2C1", 0, genesisPrev, 1726000000, .imp, "s:0a1b2c3d4e5f",
    some "cr_house_1", some 3⟩

def firstRegister (C : Crates) (key : C.SigningKey) : RegisterReq :=
  ⟨"d1", C.hexEncode (C.keyBytes (C.verifyingKey key)), none, none, none, none, none⟩

def firstRequests (C : Crates) (key : C.SigningKey) : List Request :=
  [.register ⟨none, "127.0.0.1"⟩ (firstRegister C key) 0,
    .ingest ⟨"d1", [signedBy C key firstEvent]⟩]

theorem firstEvent_earns : devEarn firstEvent = 15000 ∧ (impCount firstEvent).toNat = 3 := by decide

theorem first_event_accepted {s : AppState C.VerifyingKey} (key : C.SigningKey)
    (unseen : s.seenEventIds = ∅) (peer : Peer) (now : Int) :
    Accepts (register C s peer (firstRegister C key) now).state.toLoaded "d1"
      (signedBy C key firstEvent) ⟨C.verifyingKey key, "acct:d1", genesisPrev, none⟩ := by
  have own : (firstRegister C key).pubkey = C.hexEncode (C.keyBytes (C.verifyingKey key)) := rfl
  have known := register_devices s peer own now
  refine signedBy_accepts ?_ rfl rfl rfl ?_
  · rw [known]
    exact Finmap.lookup_insert _
  · simp [register, firstRegister, unseen]

theorem first_event_paid {s : AppState C.VerifyingKey}
    (balances : s.balances = (∅ : HashMap String Int).insert "acct:d1" 0)
    (imps : s.impressions = (∅ : HashMap String Nat).insert "acct:d1" 0) (ledger : s.ledger = [])
    (dev : DeviceRec C.VerifyingKey) (own : dev.accountId = "acct:d1") :
    (∀ a, (advance C s "d1" dev firstEvent).balances.lookup a =
        if a = "acct:d1" then some 15000 else none) ∧
      impressionsOf (advance C s "d1" dev firstEvent).toLoaded "acct:d1" = 3 ∧
      redeemedBy (advance C s "d1" dev firstEvent).ledger "acct:d1" = 0 := by
  obtain ⟨earns, counts⟩ := firstEvent_earns
  have accrues : Accrues firstEvent := by decide
  have noBalance : balanceOf s.toLoaded "acct:d1" = 0 := by simp [balanceOf, balances]
  have noImps : impressionsOf s.toLoaded "acct:d1" = 0 := by simp [impressionsOf, imps]
  refine ⟨fun a => ?_, ?_, ?_⟩
  · simp only [advance, accrues, if_true, own, noBalance, earns, balances]
    by_cases same : a = "acct:d1"
    · subst same
      simp only [Finmap.lookup_insert, if_true]
      decide
    · simp [same]
  · rw [impressionsOf_advance, if_pos ⟨accrues, own.symm⟩, noImps, counts]
  · rw [redeemedBy_advance, ledger]
    rfl

theorem first_requests_run (C : Crates) (key : C.SigningKey) :
    ∃ srv, Run CleanStep (ServerState.fresh C 0 none) (firstRequests C key) srv ∧
      (∀ a, srv.mem.balances.lookup a = if a = "acct:d1" then some 15000 else none) ∧
      impressionsOf srv.mem.toLoaded "acct:d1" = 3 ∧ srv.mem.redemptions = [] ∧
      redeemedBy srv.mem.ledger "acct:d1" = 0 := by
  have view := fresh_view (C := C) 0 none
  have seen := fresh_seenEventIds (C := C) 0 none
  have ledger := fresh_ledger (C := C) 0 none
  have rows := fresh_redemptions (C := C) 0 none
  have noBalances : (ServerState.fresh C 0 none).mem.balances = ∅ := congrArg Loaded.balances view
  have noImps : (ServerState.fresh C 0 none).mem.impressions = ∅ := congrArg Loaded.impressions view
  have accepts := first_event_accepted (C := C) key seen ⟨none, "127.0.0.1"⟩ 0
  obtain ⟨ledger', rows'⟩ := register_ledger (ServerState.fresh C 0 none).mem ⟨none, "127.0.0.1"⟩
    (firstRegister C key) 0
  have balances : (register C (ServerState.fresh C 0 none).mem ⟨none, "127.0.0.1"⟩
      (firstRegister C key) 0).state.balances = (∅ : HashMap String Int).insert "acct:d1" 0 := by
    simp [register, firstRegister, noBalances, accountOf, Finmap.notMem_empty]
  have imps : (register C (ServerState.fresh C 0 none).mem ⟨none, "127.0.0.1"⟩
      (firstRegister C key) 0).state.impressions = (∅ : HashMap String Nat).insert "acct:d1" 0 := by
    simp [register, firstRegister, noImps, accountOf, Finmap.notMem_empty]
  obtain ⟨paid, counted, cashed⟩ := first_event_paid (C := C) balances imps (ledger'.trans ledger)
    ⟨C.verifyingKey key, "acct:d1", genesisPrev, none⟩ rfl
  have mem := ingest_one accepts
  refine ⟨_,
    .cons ⟨⟨fun a => trivial, ?_⟩, rfl⟩ (.cons ⟨⟨fun a => ⟨?_, trivial⟩, ?_⟩, rfl⟩ (.nil _)),
    ?_, ?_, ?_, ?_⟩
  · simp only [ServerState.step, ServerState.effect]
    rw [rows', rows]
    decide
  · rintro dev accepts' - rfl
    cases accepts.device_unique accepts'
    have empty : balanceOf (register C (ServerState.fresh C 0 none).mem ⟨none, "127.0.0.1"⟩
        (firstRegister C key) 0).state.toLoaded "acct:d1" = 0 := by simp [balanceOf, balances]
    change FitsI64
      (balanceOf (register C (ServerState.fresh C 0 none).mem _ _ 0).state.toLoaded "acct:d1" +
      devEarn firstEvent)
    rw [empty, firstEvent_earns.1]
    decide
  all_goals
    simp only [ServerState.step, ServerState.effect]
    rw [mem]
  · rw [show (advance C _ "d1" _ _).redemptions = _ from rows', rows]
    decide
  · exact paid
  · exact counted
  · exact rows'.trans rows
  · exact cashed

theorem first_redeem {s : AppState C.VerifyingKey}
    (only : ∀ a, s.balances.lookup a = if a = "acct:d1" then some 15000 else none)
    (order : HashMap.Order String Int) :
    (redeem C s ⟨"upi", none⟩ order).state = (payOut C s "acct:d1" 15000 "upi").state ∧
      (redeem C s ⟨"upi", none⟩ order).writes = (payOut C s "acct:d1" 15000 "upi").writes := by
  have top := primary_only (C := C) only order
  simp [redeem, top, requestedOf]

theorem money_conserved {now : Int} {token : Option String} {reqs : List Request}
    {srv : ServerState C.VerifyingKey}
    (run : Run CleanStep (ServerState.fresh C now token) reqs srv) (a : String) :
    balanceOf srv.mem.toLoaded a + redeemedBy srv.mem.ledger a =
        5000 * impressionsOf srv.mem.toLoaded a ∧
      0 ≤ balanceOf srv.mem.toLoaded a ∧
      totalRedeemedMicros srv.mem.toLoaded = redeemTotal srv.mem.ledger := by
  obtain ⟨-, conserved⟩ := clean_run_conserved run
  have ok := conserved.accounts a
  exact ⟨ok.account, ok.nonneg, (totalRedeemed_eq conserved.fits).trans conserved.cashed⟩

theorem money_conserved_first_cash_out :
    ∃ srv, Run CleanStep (ServerState.fresh Reference.crates 0 none)
        (firstRequests Reference.crates (Reference.key 7) ++ [.redeem ⟨"upi", none⟩ default]) srv ∧
      balanceOf srv.mem.toLoaded "acct:d1" + redeemedBy srv.mem.ledger "acct:d1" =
        5000 * impressionsOf srv.mem.toLoaded "acct:d1" ∧
      impressionsOf srv.mem.toLoaded "acct:d1" = 3 := by
  obtain ⟨srv, run, only, counted, rows, -⟩ := first_requests_run Reference.crates (Reference.key 7)
  obtain ⟨state, -⟩ := first_redeem (C := Reference.crates) only default
  have fits : NoOverflow srv (.redeem ⟨"upi", none⟩ default) := by
    refine ⟨fun a => trivial, ?_⟩
    simp only [ServerState.step, ServerState.effect]
    rw [state]
    simp [payOut, rows, cashOuts, FitsI64]
  have whole := run.append (.cons ⟨fits, rfl⟩ (.nil _))
  refine ⟨_, whole, (money_conserved whole "acct:d1").1, ?_⟩
  simp only [ServerState.step, ServerState.effect]
  rw [state]
  exact counted

end Spnr.Server
