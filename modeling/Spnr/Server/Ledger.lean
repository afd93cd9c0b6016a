import Spnr.Server.Reregister

/-! The view against what it summarises: the tables it is rebuilt from after a
restart, and the double-entry ledger its balances are read off. -/
namespace Spnr.Server

open RustStd

variable {C : Crates}

theorem fresh_after (now : Int) (token : Option String) (rs : List Request) :
    Synced ((ServerState.fresh C now token).after rs) := after_synced rs (fresh_synced now token)

theorem Synced.ids {srv : ServerState C.VerifyingKey} (synced : Synced srv) :
    srv.mem.redemptions.map Redemption.id = redemptionIds srv.mem.redemptions.length ∧
      srv.mem.nextRedemptionId = srv.mem.redemptions.length + 1 := by
  have rows : srv.mem.redemptions = srv.db.redemptions := by
    rw [← synced.view]
    exact synced.numbered.sorted
  constructor
  · rw [rows]
    exact synced.numbered
  · rw [rows]
    exact synced.next_id

theorem redemptionIds_nodup (m : Nat) : (redemptionIds m).Nodup := by
  apply List.Nodup.map_on _ List.nodup_range
  intro i _ j _ same
  have := redemptionId_injective same
  omega

/-- Opening the tables again gives the state that wrote them, whatever ran before. -/
theorem restart_invisible (now : Int) (token : Option String) (rs : List Request) (now' : Int)
    (token' : Option String) :
    let srv := (ServerState.fresh C now token).after rs
    (AppState.open C srv.db now' token').1.toLoaded = srv.mem.toLoaded ∧
      (srv.mem.redemptions.map Redemption.id).Nodup ∧
      redemptionId srv.mem.nextRedemptionId ∉ srv.mem.redemptions.map Redemption.id := by
  intro srv
  have synced : Synced srv := fresh_after now token rs
  obtain ⟨ids, next⟩ := synced.ids
  refine ⟨restart_view synced now' token', ?_, ?_⟩
  · rw [ids]
    exact redemptionIds_nodup _
  · rw [next]
    exact Numbered.not_mem ids

def net (ledger : List LedgerEntry) (a : String) : Int :=
  amounts (ledger.filter (·.credit = a)) - amounts (ledger.filter (·.debit = a))

def earnedBy (ledger : List LedgerEntry) (a : String) : Int :=
  amounts (ledger.filter fun e => e.kind = .impEarn ∧ e.credit = a)

def earnedTotal (ledger : List LedgerEntry) : Int := amounts (ledger.filter (·.kind = .impEarn))

/-- The side of an entry that its kind fixes: one of the two system accounts. -/
def LedgerEntry.Posted (e : LedgerEntry) : Prop :=
  match e.kind with
  | .impEarn => e.debit = "acct:house"
  | .adSpendHouse => e.debit = "acct:house" ∧ e.credit = "acct:house"
  | .redeem => e.credit = "acct:payout"

theorem amounts_cons_filter (e : LedgerEntry) (ledger : List LedgerEntry) (p : LedgerEntry → Prop)
    [DecidablePred p] : amounts ((e :: ledger).filter (p ·)) =
      (if p e then e.amountMicros else 0) + amounts (ledger.filter (p ·)) := by
  by_cases h : p e <;> simp [h, amounts]

theorem net_eq {ledger : List LedgerEntry} (posted : ∀ e ∈ ledger, e.Posted) (a : String) :
    net ledger a = earnedBy ledger a - redeemedBy ledger a -
      (if a = "acct:house" then earnedTotal ledger else 0) +
      (if a = "acct:payout" then redeemTotal ledger else 0) := by
  induction ledger with
  | nil => simp [net, earnedBy, redeemedBy, earnedTotal, redeemTotal]
  | cons e ledger ih =>
    have rest := ih fun e' mem => posted e' (List.mem_cons_of_mem _ mem)
    have side := posted e List.mem_cons_self
    simp only [net, earnedBy, redeemedBy, earnedTotal, redeemTotal, amounts_cons_filter] at rest ⊢
    obtain ⟨debit, credit, amount, kind, reference⟩ := e
    cases kind with
    | impEarn =>
      have debited : debit = "acct:house" := side
      subst debited
      have turn : "acct:house" = a ↔ a = "acct:house" := eq_comm
      simp only [reduceCtorEq, false_and, true_and, if_true, if_false, turn]
      split_ifs at rest ⊢ <;> omega
    | adSpendHouse =>
      obtain ⟨debited, credited⟩ : debit = "acct:house" ∧ credit = "acct:house" := side
      subst debited credited
      simp only [reduceCtorEq, false_and, if_false, Int.zero_add]
      omega
    | redeem =>
      have credited : credit = "acct:payout" := side
      subst credited
      have turn : "acct:payout" = a ↔ a = "acct:payout" := eq_comm
      simp only [reduceCtorEq, false_and, true_and, if_true, if_false, turn]
      split_ifs at rest ⊢ <;> omega

theorem i64_add_eq (x y : Int) : i64 (x + y) = i64 x ↔ i64 y = 0 := by
  unfold i64
  rw [Int.bmod_eq_bmod_iff_bmod_sub_eq_zero, add_sub_cancel_left]

/-- Every entry has its system side, and every balance is its own earnings less its cash-outs. -/
structure Entered (s : Loaded C.VerifyingKey) : Prop where
  posted : ∀ e ∈ s.ledger, e.Posted
  balance : ∀ a, balanceOf s a = i64 (earnedBy s.ledger a - redeemedBy s.ledger a)

theorem Entered.congr {s v : Loaded C.VerifyingKey} (entered : Entered s)
    (balance : ∀ a, balanceOf v a = balanceOf s a) (ledger : v.ledger = s.ledger) : Entered v := by
  constructor
  · rw [ledger]
    exact entered.posted
  · intro a
    rw [balance, ledger]
    exact entered.balance a

theorem earnedBy_append (xs ys : List LedgerEntry) (a : String) :
    earnedBy (xs ++ ys) a = earnedBy xs a + earnedBy ys a := by simp [earnedBy]

theorem earnedBy_newLedger (account : String) (e : Event) (a : String) :
    earnedBy (newLedger account e) a = if Accrues e ∧ a = account then devEarn e else 0 := by
  have turn : account = a ↔ a = account := eq_comm
  unfold newLedger earnedBy
  by_cases accrues : Accrues e
  · rw [if_pos accrues, amounts_cons_filter, amounts_cons_filter]
    simp only [reduceCtorEq, false_and, true_and, accrues, turn, if_false, List.filter_nil,
      amounts_nil, Int.add_zero]
  · rw [if_neg accrues, if_neg fun h => accrues h.1]
    rfl

theorem newLedger_posted (account : String) (e : Event) : ∀ entry ∈ newLedger account e,
    entry.Posted := by
  intro entry mem
  unfold newLedger at mem
  split at mem
  · rcases List.mem_pair.mp mem with rfl | rfl
    · rfl
    · exact ⟨rfl, rfl⟩
  · cases mem

theorem earnedBy_advance (s : AppState C.VerifyingKey) (d : String)
    (dev : DeviceRec C.VerifyingKey) (e : Event)
    (a : String) : earnedBy (advance C s d dev e).ledger a =
      earnedBy s.ledger a + if Accrues e ∧ a = dev.accountId then devEarn e else 0 := by
  have ledger : (advance C s d dev e).ledger = s.ledger ++ newLedger dev.accountId e := rfl
  rw [ledger, earnedBy_append, earnedBy_newLedger]

theorem advance_entered {s : AppState C.VerifyingKey} (entered : Entered s.toLoaded) (d : String)
    (dev : DeviceRec C.VerifyingKey) (e : Event) : Entered (advance C s d dev e).toLoaded := by
  constructor
  · intro entry mem
    rcases List.mem_append.mp mem with old | new
    · exact entered.posted entry old
    · exact newLedger_posted dev.accountId e entry new
  · intro a
    have before := entered.balance a
    rw [balanceOf_advance, earnedBy_advance, redeemedBy_advance, before]
    split
    · rw [i64_add_left]
      exact congrArg i64 (by omega)
    · rw [Int.add_zero]

theorem ingestEvent_entered {s : AppState C.VerifyingKey} (entered : Entered s.toLoaded)
    (d : String) (se : SignedEvent) : Entered (ingestEvent C s d se).1.toLoaded := by
  rcases ingestEvent_cases s d se with ⟨dev, -, eq⟩ | ⟨-, eq⟩
  · rw [eq]
    exact (advance_entered entered d dev se.e).congr (fun a => rfl) rfl
  · rw [eq]
    exact entered.congr (fun a => rfl) rfl

theorem ingestAll_entered (ses : List SignedEvent) {s : AppState C.VerifyingKey}
    (entered : Entered s.toLoaded) (d : String) : Entered (ingestAll s d ses).1.toLoaded := by
  induction ses generalizing s with
  | nil => exact entered
  | cons se rest ih => exact ih (ingestEvent_entered entered d se)

theorem earnedBy_payOut (s : AppState C.VerifyingKey) (account : String) (requested : Int)
    (rail a : String) :
    earnedBy (payOut C s account requested rail).state.ledger a = earnedBy s.ledger a := by
  simp [payOut, earnedBy]

theorem redeemedBy_payOut (s : AppState C.VerifyingKey) (account : String) (requested : Int)
    (rail a : String) : redeemedBy (payOut C s account requested rail).state.ledger a =
      redeemedBy s.ledger a + if a = account then requested else 0 := by
  have turn : account = a ↔ a = account := eq_comm
  by_cases own : a = account <;> simp [payOut, redeemedBy, own, turn, amounts]

theorem balanceOf_payOut (s : AppState C.VerifyingKey) (account : String) (requested : Int)
    (rail a : String) : balanceOf (payOut C s account requested rail).state.toLoaded a =
      if a = account then i64 (balanceOf s.toLoaded a - requested) else balanceOf s.toLoaded a := by
  by_cases own : a = account
  · subst own
    simp [payOut, balanceOf]
  · simp [payOut, balanceOf, own]

theorem payOut_entered {s : AppState C.VerifyingKey} (entered : Entered s.toLoaded)
    (account : String)
    (requested : Int) (rail : String) :
    Entered (payOut C s account requested rail).state.toLoaded := by
  constructor
  · intro entry mem
    rcases List.mem_append.mp mem with old | new
    · exact entered.posted entry old
    · rw [List.mem_singleton.mp new]
      rfl
  · intro a
    have before := entered.balance a
    rw [balanceOf_payOut, earnedBy_payOut, redeemedBy_payOut, before]
    split
    · rw [Int.sub_eq_add_neg, i64_add_left]
      exact congrArg i64 (by omega)
    · rw [Int.add_zero]

theorem step_entered {srv : ServerState C.VerifyingKey} (synced : Synced srv)
    (entered : Entered srv.mem.toLoaded) (r : Request) : Entered (srv.step C r).mem.toLoaded := by
  have step := step_cases synced r
  generalize (srv.step C r).mem.toLoaded = after at step ⊢
  cases step with
  | register peer req now =>
    exact entered.congr (fun a => (register_views (s := srv.mem) peer req now a).1)
      (register_ledger srv.mem peer req now).1
  | ingest req => exact ingestAll_entered req.events entered req.deviceId
  | redeem req order pays => exact payOut_entered entered _ _ req.rail
  | other clicks => exact entered.congr (fun a => rfl) rfl

theorem fresh_entered (now : Int) (token : Option String) :
    Entered (ServerState.fresh C now token).mem.toLoaded := by
  rw [fresh_view]
  constructor
  · simp [load, Database.fresh]
  · intro a
    simp [load, Database.fresh, balanceOf, earnedBy, redeemedBy]
    rfl

theorem after_entered (rs : List Request) {srv : ServerState C.VerifyingKey} (synced : Synced srv)
    (entered : Entered srv.mem.toLoaded) : Entered (srv.after rs).mem.toLoaded := by
  induction rs generalizing srv with
  | nil => exact entered
  | cons r rs ih => exact ih (step_synced synced r) (step_entered synced entered r)

/-- The view says of every account it lists what the ledger says. -/
def BalancesMatch (s : Loaded C.VerifyingKey) : Prop :=
  ∀ a v, s.balances.lookup a = some v → v = i64 (net s.ledger a)

/-- No device account is a system account with anything on its other side. -/
def SystemApart (s : Loaded C.VerifyingKey) : Prop :=
  ("acct:house" ∈ s.balances → i64 (earnedTotal s.ledger) = 0) ∧
    ("acct:payout" ∈ s.balances → i64 (redeemTotal s.ledger) = 0)

theorem Entered.match_iff {s : Loaded C.VerifyingKey} (entered : Entered s) :
    BalancesMatch s ↔ SystemApart s := by
  have at_ (a : String) {v : Int} (listed : s.balances.lookup a = some v) :
      v = i64 (net s.ledger a) ↔
        i64 (net s.ledger a) = i64 (earnedBy s.ledger a - redeemedBy s.ledger a) := by
    have held : balanceOf s a = v := by rw [balanceOf, listed, Option.getD_some]
    rw [← held, entered.balance a]
    exact eq_comm
  have house : i64 (net s.ledger "acct:house") =
        i64 (earnedBy s.ledger "acct:house" - redeemedBy s.ledger "acct:house") ↔
      i64 (earnedTotal s.ledger) = 0 := by
    rw [net_eq entered.posted, if_pos rfl, if_neg (by decide), Int.add_zero,
      ← i64_add_eq _ (earnedTotal s.ledger), Int.sub_add_cancel]
    exact eq_comm
  have payout : i64 (net s.ledger "acct:payout") =
        i64 (earnedBy s.ledger "acct:payout" - redeemedBy s.ledger "acct:payout") ↔
      i64 (redeemTotal s.ledger) = 0 := by
    rw [net_eq entered.posted, if_neg (by decide), if_pos rfl, Int.sub_zero, i64_add_eq]
  constructor
  · intro same
    constructor
    · intro listed
      obtain ⟨v, known⟩ := Finmap.mem_iff.mp listed
      exact house.mp ((at_ _ known).mp (same _ v known))
    · intro listed
      obtain ⟨v, known⟩ := Finmap.mem_iff.mp listed
      exact payout.mp ((at_ _ known).mp (same _ v known))
  · rintro ⟨noHouse, noPayout⟩ a v known
    have listed : a ∈ s.balances := Finmap.mem_of_lookup_eq_some known
    rw [at_ a known]
    by_cases isHouse : a = "acct:house"
    · subst isHouse
      exact house.mpr (noHouse listed)
    · by_cases isPayout : a = "acct:payout"
      · subst isPayout
        exact payout.mpr (noPayout listed)
      · rw [net_eq entered.posted, if_neg isHouse, if_neg isPayout, Int.sub_zero, Int.add_zero]

structure Absent (s : Loaded C.VerifyingKey) (d : String) : Prop where
  owned : Owned s
  device : s.devices.lookup d = none
  account : accountOf d ∉ s.balances

theorem ingestEvent_absent {s : AppState C.VerifyingKey} {d : String} (absent : Absent s.toLoaded d)
    (d' : String) (se : SignedEvent) : Absent (ingestEvent C s d' se).1.toLoaded d := by
  rcases ingestEvent_cases s d' se with ⟨dev, accepts, eq⟩ | ⟨-, eq⟩
  · have others : d' ≠ d := by
      rintro rfl
      exact unknown_rejected absent.device se dev accepts
    have account := absent.owned d' dev accepts.known
    have apart : accountOf d ≠ dev.accountId :=
      fun same => others (accountOf_injective (account ▸ same.symm))
    obtain ⟨owned, frame⟩ := advance_frame absent.owned others accepts
    rw [eq]
    refine ⟨owned, frame.device.trans absent.device, ?_⟩
    change accountOf d ∉ (advance C s d' dev se.e).balances
    unfold advance
    dsimp only
    split
    · rw [Finmap.mem_insert]
      rintro (same | listed)
      · exact apart same
      · exact absent.account listed
    · exact absent.account
  · rw [eq]
    exact ⟨absent.owned, absent.device, absent.account⟩

theorem ingestAll_absent (ses : List SignedEvent) {s : AppState C.VerifyingKey} {d : String}
    (absent : Absent s.toLoaded d) (d' : String) : Absent (ingestAll s d' ses).1.toLoaded d := by
  induction ses generalizing s with
  | nil => exact absent
  | cons se rest ih => exact ih (ingestEvent_absent absent d' se)

theorem step_absent {srv : ServerState C.VerifyingKey} (synced : Synced srv) {d : String}
    (absent : Absent srv.mem.toLoaded d) {r : Request} (none : r.newKey C d = none) :
    Absent (srv.step C r).mem.toLoaded d := by
  rcases newKey_none none with once | ⟨same, -⟩
  · have owned : Owned (srv.step C r).mem.toLoaded := act_owned synced absent.owned (.complete r)
    have step := step_cases synced r
    generalize (srv.step C r).mem.toLoaded = after at step owned ⊢
    cases step with
    | register peer req now =>
      have apart : d ≠ req.deviceId := fun same => once same.symm
      constructor
      · exact owned
      · simp only [register]
        split
        · exact absent.device
        · exact (Finmap.lookup_insert_of_ne _ apart).trans absent.device
      · simp only [register]
        split
        · exact absent.account
        · dsimp only
          split
          · exact absent.account
          · rw [Finmap.mem_insert]
            rintro (same | listed)
            · exact apart (accountOf_injective same)
            · exact absent.account listed
    | ingest req => exact ingestAll_absent req.events absent req.deviceId
    | @redeem req order account requested pays =>
      refine ⟨absent.owned, absent.device, ?_⟩
      obtain ⟨available, held, -, -⟩ := pays.held
      change accountOf d ∉ Finmap.insert account _ srv.mem.balances
      rw [Finmap.mem_insert]
      rintro (same | listed)
      · subst same
        exact absent.account (Finmap.mem_of_lookup_eq_some held)
      · exact absent.account listed
    | other clicks => exact ⟨absent.owned, absent.device, absent.account⟩
  · rw [same]
    exact absent

theorem after_absent {d : String} (rs : List Request) {srv : ServerState C.VerifyingKey}
    (synced : Synced srv)
    (absent : Absent srv.mem.toLoaded d) (none : ∀ r ∈ rs, r.newKey C d = none) :
    Absent (srv.after rs).mem.toLoaded d := by
  induction rs generalizing srv with
  | nil => exact absent
  | cons r rs ih =>
    have one := step_absent synced absent (none r List.mem_cons_self)
    exact ih (step_synced synced r) one fun r' mem => none r' (List.mem_cons_of_mem _ mem)

theorem fresh_absent (now : Int) (token : Option String) (d : String) :
    Absent (ServerState.fresh C now token).mem.toLoaded d := by
  obtain ⟨owned, device, -⟩ := fresh_unregistered (C := C) now token d
  refine ⟨owned, device, ?_⟩
  have empty : (ServerState.fresh C now token).mem.balances = ∅ :=
    congrArg Loaded.balances (fresh_view now token)
  rw [empty]
  exact Finmap.notMem_empty

/-- The balances agree with the ledger exactly while no device account is a system account in
use; in a run that registers no such device they always do. -/
theorem balances_match_ledger (now : Int) (token : Option String) (rs : List Request) :
    let srv := (ServerState.fresh C now token).after rs
    (BalancesMatch srv.mem.toLoaded ↔ SystemApart srv.mem.toLoaded) ∧
      ((∀ r ∈ rs, r.newKey C "house" = none ∧ r.newKey C "payout" = none) →
        BalancesMatch srv.mem.toLoaded) := by
  intro srv
  have synced := fresh_synced (C := C) now token
  have entered : Entered srv.mem.toLoaded := after_entered rs synced (fresh_entered now token)
  refine ⟨entered.match_iff,
    fun strangers => entered.match_iff.mpr ⟨fun listed => ?_, fun listed => ?_⟩⟩
  · have absent :=
      after_absent rs synced (fresh_absent now token "house") fun r mem => (strangers r mem).1
    exact absurd listed absent.account
  · have absent :=
      after_absent rs synced (fresh_absent now token "payout") fun r mem => (strangers r mem).2
    exact absurd listed absent.account

/-! A device that calls itself `house` and is paid for three impressions. -/

def houseRegister (C : Crates) (key : C.SigningKey) : RegisterReq :=
  ⟨"house", C.hexEncode (C.keyBytes (C.verifyingKey key)), none, none, none, none, none⟩

def houseRequests (C : Crates) (key : C.SigningKey) : List Request :=
  [.register ⟨none, "127.0.0.1"⟩ (houseRegister C key) 0,
    .ingest ⟨"house", [signedBy C key firstEvent]⟩]

theorem house_paid (key : C.SigningKey) :
    let srv := (ServerState.fresh C 0 none).after (houseRequests C key)
    srv.mem.balances.lookup "acct:house" = some (i64 15000) ∧
      srv.mem.ledger = newLedger "acct:house" firstEvent := by
  intro srv
  have view := fresh_view (C := C) 0 none
  let before := (ServerState.fresh C 0 none).mem
  let registered := (register C before ⟨none, "127.0.0.1"⟩ (houseRegister C key) 0).state
  have devices : registered.devices =
      before.devices.insert "house" ⟨C.verifyingKey key, "acct:house", genesisPrev, none⟩ :=
    register_devices before ⟨none, "127.0.0.1"⟩ rfl 0
  have decodes : decodePubkey C (houseRegister C key).pubkey = some (C.verifyingKey key) :=
    decodePubkey_hexEncode C (C.verifyingKey key)
  obtain ⟨-, seen, -⟩ := register_replaces (s := before) decodes ⟨none, "127.0.0.1"⟩ 0
  have ledger : registered.ledger = [] :=
    (register_ledger before ⟨none, "127.0.0.1"⟩ (houseRegister C key) 0).1.trans
      (fresh_ledger 0 none)
  have balance : balanceOf registered.toLoaded "acct:house" = 0 := by
    rw [(register_views ⟨none, "127.0.0.1"⟩ (houseRegister C key) 0 "acct:house").1, view]
    rfl
  have accepts : Accepts registered.toLoaded "house" (signedBy C key firstEvent)
      ⟨C.verifyingKey key, "acct:house", genesisPrev, none⟩ := by
    apply signedBy_accepts _ rfl rfl rfl
    · rw [seen, fresh_seenEventIds]
      exact Finset.notMem_empty _
    · rw [devices]
      exact Finmap.lookup_insert _
  have final :
    srv.mem = { advance C registered "house" ⟨C.verifyingKey key, "acct:house", genesisPrev, none⟩
      firstEvent with accepted := registered.accepted + 1 } := ingest_one accepts
  have accrues : Accrues firstEvent := by decide
  rw [final]
  constructor
  · simp only [advance, accrues, if_true, Finmap.lookup_insert, balance, firstEvent_earns.1,
      Int.zero_add]
  · change registered.ledger ++ newLedger "acct:house" firstEvent = _
    rw [ledger, List.nil_append]

/-- Its balance is 15000 micros and the ledger says zero. -/
theorem house_balance_diverges :
    let srv := (ServerState.fresh Reference.crates 0 none).after
      (houseRequests Reference.crates (Reference.key 7))
    srv.mem.balances.lookup "acct:house" = some 15000 ∧ net srv.mem.ledger "acct:house" = 0 ∧
      ¬ BalancesMatch srv.mem.toLoaded := by
  intro srv
  obtain ⟨paid, ledger⟩ := house_paid (C := Reference.crates) (Reference.key 7)
  have fits : i64 15000 = 15000 := i64_of_fits (by decide)
  have zero : net (newLedger "acct:house" firstEvent) "acct:house" = 0 := by decide
  rw [fits] at paid
  refine ⟨paid, ledger ▸ zero, fun same => ?_⟩
  have claimed := same "acct:house" 15000 paid
  rw [ledger, zero] at claimed
  exact absurd claimed (by decide)

end Spnr.Server
