import Spnr.Server.Solvent

/-! The ledger arithmetic over whole runs: no operation overflows exactly as long as every event
and every cash-out leaves its room, and a device that reports enough takes a balance below zero. -/
namespace Spnr.Server

open RustStd

variable {C : Crates}

theorem accrual_needed {s : AppState C.VerifyingKey} (solvent : Solvent s.toLoaded)
    {se : SignedEvent} {dev : DeviceRec C.VerifyingKey} (accrues : Accrues se.e)
    (held : HashMap.sum id s.balances + devEarn se.e < 2 ^ 63)
    (nets : AllFit (netsArith ∅ (s.ledger ++ newLedger dev.accountId se.e))) :
    AccrualFits s.ledger dev.accountId se.e := by
  have netted := netted_of_fits s.ledger solvent.nets
  have earned := devEarn_eq se.e
  have kept := houseKeep_eq se.e
  have house := solvent.net_house
  rw [netsArith_append, allFit_append, newLedger, if_pos accrues] at nets
  have entries : AllFit
    (netsArith (netsOf s.ledger) [⟨"acct:house", dev.accountId, devEarn se.e, .impEarn, se.e.id⟩,
    ⟨"acct:house", "acct:house", houseKeep se.e, .adSpendHouse, se.e.id⟩]) := nets.2
  rw [netsArith, netsArith, netsArith, List.append_nil, allFit_append] at entries
  obtain ⟨first, second⟩ := entries
  rw [post_fits (netted.post first), net_append, moves_mk, house, if_pos rfl, if_pos rfl] at second
  obtain ⟨twice, -⟩ := second
  unfold FitsI64 at twice
  constructor
  · rw [← solvent.held]
    omega
  · by_cases own : dev.accountId = "acct:house"
    · rw [if_pos own] at twice ⊢
      omega
    · rw [if_neg own] at twice ⊢
      omega

theorem counter_needed {s : AppState C.VerifyingKey} {d : String} {se : SignedEvent}
    (fits : AllFit (acceptArith s d se)) : ¬ CounterSpent s.toLoaded d se := by
  rintro ⟨dev, sig, known, hex, signed, chained, c, head, last⟩
  unfold acceptArith at fits
  rw [known] at fits
  dsimp only at fits
  rw [hex] at fits
  dsimp only at fits
  rw [if_neg (by simp [signed]), if_neg (not_not.mpr chained), allFit_append, counterArith,
    head] at fits
  have counted : c + 1 < 2 ^ 64 := fits.1 (.u64 (c + 1)) List.mem_cons_self
  omega

theorem devEarn_nonneg (e : Event) : 0 ≤ devEarn e := by
  have earned := devEarn_eq e
  have bounds := impCount_bounds e
  omega

theorem accept_adds {s : AppState C.VerifyingKey} {d : String} {se : SignedEvent}
    (fits : AllFit (acceptArith s d se)) {dev : DeviceRec C.VerifyingKey}
    (accepts : Accepts s.toLoaded d se dev)
    (accrues : Accrues se.e) : FitsI64 (balanceOf s.toLoaded dev.accountId + devEarn se.e) := by
  obtain ⟨sig, hex, signed⟩ := accepts.signed
  have verified := (verifyEvent_ok s d se dev).mpr accepts
  unfold acceptArith at fits
  rw [accepts.known] at fits
  dsimp only at fits
  rw [hex] at fits
  dsimp only at fits
  rw [if_neg (by simp [signed]), if_neg (not_not.mpr accepts.chained), verified, allFit_append,
    accrueArith, if_pos accrues] at fits
  exact fits.2 (.i64 (balanceOf s.toLoaded dev.accountId + devEarn se.e)) (by simp)

theorem accept_grows {s : AppState C.VerifyingKey} {d : String} {se : SignedEvent}
    (fits : AllFit (acceptArith s d se)) {dev : DeviceRec C.VerifyingKey}
    (accepts : Accepts s.toLoaded d se dev) (accrues : Accrues se.e) :
    HashMap.sum id (ingestEvent C s d se).1.balances = HashMap.sum id s.balances +
      devEarn se.e := by
  have exact := i64_of_fits (accept_adds fits accepts accrues)
  have balances : (advance C s d dev se.e).balances =
      s.balances.insert dev.accountId (balanceOf s.toLoaded dev.accountId + devEarn se.e) := by
    rw [← exact]
    exact if_pos accrues
  rw [ingestEvent_accepted accepts]
  change HashMap.sum id (advance C s d dev se.e).balances = _
  rw [balances]
  exact sum_balances s.toLoaded dev.accountId (devEarn se.e)

theorem accept_keeps {s : AppState C.VerifyingKey} {d : String} {se : SignedEvent}
    (fits : AllFit (acceptArith s d se)) :
    HashMap.sum id s.balances ≤ HashMap.sum id (ingestEvent C s d se).1.balances := by
  rcases ingestEvent_cases s d se with ⟨dev, accepts, eq⟩ | ⟨-, eq⟩
  · by_cases accrues : Accrues se.e
    · have earned := devEarn_nonneg se.e
      rw [accept_grows fits accepts accrues]
      omega
    · have balances : (advance C s d dev se.e).balances = s.balances := if_neg accrues
      rw [eq]
      exact (congrArg (HashMap.sum id) balances).ge
  · rw [eq]

theorem ingestAll_grows (ses : List SignedEvent) {s : AppState C.VerifyingKey} {d : String}
    (fits : AllFit (ingestArith s d ses)) :
    HashMap.sum id s.balances ≤ HashMap.sum id (ingestAll s d ses).1.balances ∧
      ∃ more, (ingestAll s d ses).1.ledger = s.ledger ++ more := by
  induction ses generalizing s with
  | nil => exact ⟨Int.le_refl _, [], (List.append_nil _).symm⟩
  | cons se rest ih =>
    rw [ingestArith, allFit_append] at fits
    obtain ⟨grown, more, later⟩ := ih fits.2
    constructor
    · exact (accept_keeps fits.1).trans grown
    · change ∃ more, (ingestAll (ingestEvent C s d se).1 d rest).1.ledger = s.ledger ++ more
      rw [later]
      rcases ingestEvent_cases s d se with ⟨dev, -, eq⟩ | ⟨-, eq⟩
      · rw [eq]
        exact ⟨newLedger dev.accountId se.e ++ more, List.append_assoc _ _ _⟩
      · rw [eq]
        exact ⟨more, rfl⟩

theorem batch_needed (ses : List SignedEvent) {s : AppState C.VerifyingKey}
    (solvent : Solvent s.toLoaded) {d : String}
    (fits : AllFit (ingestArith s d ses))
    (held : HashMap.sum id (ingestAll s d ses).1.balances < 2 ^ 63)
    (nets : AllFit (netsArith ∅ (ingestAll s d ses).1.ledger)) : BatchRoom s d ses := by
  induction ses generalizing s with
  | nil => trivial
  | cons se rest ih =>
    rw [ingestArith, allFit_append] at fits
    obtain ⟨first, others⟩ := fits
    obtain ⟨grown, more, later⟩ := ingestAll_grows rest others
    have room : EventRoom s.toLoaded d se := by
      refine ⟨counter_needed first, fun dev accepts accrues => ?_⟩
      have sum := accept_grows first accepts accrues
      apply accrual_needed solvent accrues
      · rw [← sum]
        exact lt_of_le_of_lt grown held
      · change AllFit (netsArith ∅ (ingestAll (ingestEvent C s d se).1 d rest).1.ledger) at nets
        rw [later, ingestEvent_accepted accepts, netsArith_append, allFit_append] at nets
        exact nets.1
    exact ⟨room, ih (ingestEvent_solvent solvent room) others held nets⟩

theorem balance_sum_fits {s : Loaded C.VerifyingKey} (totals : TotalsFit s) :
    HashMap.sum id s.balances < 2 ^ 63 := by
  have fits := sumI64_exact (by decide) (totals.balance default)
  rw [show (values default s.balances).sum =
    HashMap.sum id s.balances from HashMap.Order.sum default id s.balances, Int.zero_add] at fits
  exact fits.2

theorem spent_needed {s : Loaded C.VerifyingKey} (totals : TotalsFit s)
    (posted : ∀ e ∈ s.ledger, e.Posted) : houseSpent s.ledger < 2 ^ 63 := by
  have nets := ((allFit_append _ _).mp (totals.ledger default)).1
  have netted := netted_of_fits s.ledger nets
  have exact := netted.exact "acct:house"
  rw [net_eq posted, if_pos rfl, if_neg (by decide)] at exact
  unfold HashMap.valueAt at exact
  unfold houseSpent
  cases found : (netsOf s.ledger).lookup "acct:house" with
  | none =>
    rw [found, Option.elim_none] at exact
    omega
  | some v =>
    rw [found, Option.elim_some] at exact
    simp only [id] at exact
    obtain ⟨order, visits⟩ := HashMap.Order.last (netsOf s.ledger) found
    have sums := ((allFit_append _ _).mp (totals.ledger order)).2
    rw [values, visits, List.map_append] at sums
    have fits := sumI64_exact (by decide) (sumI64_front sums)
    have rest :
      (((netsOf s.ledger).erase "acct:house").entries.toList.map fun entry => entry.2).sum =
        HashMap.sum id ((netsOf s.ledger).erase "acct:house") :=
      HashMap.Order.sum default id ((netsOf s.ledger).erase "acct:house")
    have parts := HashMap.sum_erase id (netsOf s.ledger) "acct:house"
    rw [netted.balanced, HashMap.valueAt, found, Option.elim_some] at parts
    simp only [id] at parts rest
    rw [rest, Int.zero_add] at fits
    have high := fits.2
    omega

theorem request_needed {srv : ServerState C.VerifyingKey} (solvent : Solvent srv.mem.toLoaded)
    {r : Request}
    (fits : AllFit (requestArith srv r)) (totals : TotalsFit (srv.step C r).mem.toLoaded) :
    RequestRoom srv r := by
  cases r with
  | ingest req =>
    rw [ServerState.step, ingest_effect] at totals
    exact batch_needed req.events solvent fits (balance_sum_fits totals)
      ((allFit_append _ _).mp (totals.ledger default)).1
  | redeem req order =>
    intro available top positive enough
    have moved : (srv.step C (.redeem req order)).mem =
        (payOut C srv.mem "acct:house" (requestedOf req available) req.rail).state := by
      have granted : ¬ available < requestedOf req available := Int.not_lt.mpr enough
      have some : ¬ available ≤ 0 := Int.not_le.mpr positive
      simp only [ServerState.step, ServerState.effect, redeem, top, some, granted, if_false]
    rw [moved] at totals
    have posted :
        ∀ e ∈ (payOut C srv.mem "acct:house" (requestedOf req available) req.rail).state.ledger,
          e.Posted := by
      intro entry mem
      rcases List.mem_append.mp mem with old | new
      · exact solvent.posted entry old
      · rw [List.mem_singleton.mp new]
        rfl
    have spent := spent_needed totals posted
    rw [(payOut_ledger srv.mem "acct:house" (requestedOf req available) req.rail).2.2,
      if_pos rfl] at spent
    exact spent
  | _ => trivial

/-- Nothing overflows on the way, and the totals can be taken in every state. -/
def NeverOverflows (srv : ServerState C.VerifyingKey) : List Request → Prop
  | [] => TotalsFit srv.mem.toLoaded
  | r :: rs => TotalsFit srv.mem.toLoaded ∧ AllFit (requestArith srv r) ∧
      NeverOverflows (srv.step C r) rs

def RunRoom (srv : ServerState C.VerifyingKey) : List Request → Prop
  | [] => True
  | r :: rs => RequestRoom srv r ∧ RunRoom (srv.step C r) rs

theorem run_solvent {srv : ServerState C.VerifyingKey} (synced : Synced srv)
    (solvent : Solvent srv.mem.toLoaded)
    (rs : List Request) (room : RunRoom srv rs) : NeverOverflows srv rs := by
  induction rs generalizing srv with
  | nil => exact solvent.totals
  | cons r rs ih =>
    obtain ⟨fits, after⟩ := step_solvent synced solvent room.1
    exact ⟨solvent.totals, fits, ih (step_synced synced r) after room.2⟩

theorem run_room {srv : ServerState C.VerifyingKey} (synced : Synced srv)
    (solvent : Solvent srv.mem.toLoaded)
    (rs : List Request) : NeverOverflows srv rs ↔ RunRoom srv rs := by
  refine ⟨fun never => ?_, run_solvent synced solvent rs⟩
  induction rs generalizing srv with
  | nil => trivial
  | cons r rs ih =>
    obtain ⟨-, fits, later⟩ := never
    have next : TotalsFit (srv.step C r).mem.toLoaded := by
      cases rs with
      | nil => exact later
      | cons r' rs => exact later.1
    have room := request_needed solvent fits next
    exact ⟨room, ih (step_synced synced r) (step_solvent synced solvent room).2 later⟩

/-- A run overflows nowhere exactly when every event and every cash-out
leaves the room it has to. -/
theorem never_overflows (now : Int) (token : Option String) (rs : List Request) :
    NeverOverflows (ServerState.fresh C now token) rs ↔
    RunRoom (ServerState.fresh C now token) rs :=
  run_room (fresh_synced now token) (fresh_solvent now token) rs

/-! A device that reports the most an event can report, again and again. -/

def floodEvent (prev : String) (k : Nat) : Event :=
  ⟨1, redemptionId k, k, prev, 1726000000, .imp, "s:0a1b2c3d4e5f", some "cr_house_1",
    some 4294967295⟩

def floodHead (C : Crates) : Nat → String
  | 0 => genesisPrev
  | k + 1 => chainNext C (canonicalBytes C (floodEvent (floodHead C k) k))

def floodIngest (C : Crates) (key : C.SigningKey) (k : Nat) : Request :=
  .ingest ⟨"d1", [signedBy C key (floodEvent (floodHead C k) k)]⟩

def flood (C : Crates) (key : C.SigningKey) (n : Nat) : List Request :=
  .register ⟨none, "127.0.0.1"⟩ (firstRegister C key) 0 :: (List.range n).map (floodIngest C key)

theorem flood_succ (key : C.SigningKey) (n : Nat) :
    flood C key (n + 1) = flood C key n ++ [floodIngest C key n] := by
  rw [flood, List.range_succ, List.map_append]
  rfl

def floodDevice (C : Crates) (key : C.SigningKey) (k : Nat) : DeviceRec C.VerifyingKey :=
  ⟨C.verifyingKey key, "acct:d1", floodHead C k, if k = 0 then none else some (k - 1)⟩

structure Flooded (s : Loaded C.VerifyingKey) (key : C.SigningKey) (k : Nat) : Prop where
  device : s.devices.lookup "d1" = some (floodDevice C key k)
  unseen : ∀ i, k ≤ i → redemptionId i ∉ s.seenEventIds
  earned : earnedBy s.ledger "acct:d1" = k * 21474836475000
  kept : redeemedBy s.ledger "acct:d1" = 0

theorem floodEvent_earns (prev : String) (k : Nat) :
    Accrues (floodEvent prev k) ∧ devEarn (floodEvent prev k) = 21474836475000 := by
  have count : impCount (floodEvent prev k) = 4294967295 := rfl
  refine ⟨⟨rfl, by rw [count]; decide⟩, ?_⟩
  rw [devEarn_eq, count]
  decide

theorem Flooded.accepts {s : Loaded C.VerifyingKey} {key : C.SigningKey} {k : Nat}
    (flooded : Flooded s key k) :
    Accepts s "d1" (signedBy C key (floodEvent (floodHead C k) k)) (floodDevice C key k) := by
  refine signedBy_accepts flooded.device rfl rfl ?_ (flooded.unseen k (Nat.le_refl k))
  unfold expectedCtr floodDevice
  cases k with
  | zero => rfl
  | succ k => rfl

theorem flooded_step {srv : ServerState C.VerifyingKey} {key : C.SigningKey} {k : Nat}
    (flooded : Flooded srv.mem.toLoaded key k) :
    Flooded (srv.step C (floodIngest C key k)).mem.toLoaded key (k + 1) := by
  have accepts := flooded.accepts
  obtain ⟨accrues, earns⟩ := floodEvent_earns (floodHead C k) k
  have state : (srv.step C (floodIngest C key k)).mem =
      { advance C srv.mem "d1" (floodDevice C key k) (floodEvent (floodHead C k) k) with
        accepted := srv.mem.accepted + 1 } := ingest_one accepts
  rw [state]
  constructor
  · exact Finmap.lookup_insert _
  · intro i later
    change redemptionId i ∉ insert (redemptionId k) srv.mem.seenEventIds
    rw [Finset.mem_insert]
    rintro (same | old)
    · have := redemptionId_injective same
      omega
    · exact flooded.unseen i (Nat.le_of_succ_le later) old
  · have earned := flooded.earned
    have added :=
      earnedBy_advance srv.mem "d1" (floodDevice C key k) (floodEvent (floodHead C k) k) "acct:d1"
    rw [if_pos ⟨accrues, rfl⟩, earns] at added
    change earnedBy (advance C srv.mem "d1" _ _).ledger "acct:d1" = _
    rw [added, earned, Nat.cast_add]
    omega
  · exact (redeemedBy_advance srv.mem "d1" "acct:d1" _ _).trans flooded.kept

theorem flooded_start (now : Int) (token : Option String) (key : C.SigningKey) :
    Flooded ((ServerState.fresh C now token).step C
      (.register ⟨none, "127.0.0.1"⟩ (firstRegister C key) 0)).mem.toLoaded
      key 0 := by
  obtain ⟨ledger, -⟩ :=
    register_ledger (ServerState.fresh C now token).mem ⟨none, "127.0.0.1"⟩ (firstRegister C key) 0
  have own : (firstRegister C key).pubkey = C.hexEncode (C.keyBytes (C.verifyingKey key)) := rfl
  have devices := register_devices (ServerState.fresh C now token).mem ⟨none, "127.0.0.1"⟩ own 0
  have seen : (register C (ServerState.fresh C now token).mem ⟨none, "127.0.0.1"⟩
    (firstRegister C key) 0).state.seenEventIds =
      (ServerState.fresh C now token).mem.seenEventIds := by
    unfold register
    split <;> rfl
  have empty := fresh_ledger (C := C) now token
  change Flooded (register C (ServerState.fresh C now token).mem ⟨none, "127.0.0.1"⟩
    (firstRegister C key) 0).state.toLoaded key 0
  constructor
  · rw [devices]
    exact Finmap.lookup_insert _
  · intro i _
    rw [seen, fresh_seenEventIds]
    exact Finset.notMem_empty _
  · rw [ledger, empty]
    rfl
  · rw [ledger, empty]
    rfl

theorem flooded_after (now : Int) (token : Option String) (key : C.SigningKey) (n : Nat) :
    Flooded ((ServerState.fresh C now token).after (flood C key n)).mem.toLoaded key n := by
  induction n with
  | zero => exact flooded_start now token key
  | succ n ih =>
    rw [flood_succ, ServerState.after, List.foldl_append]
    exact flooded_step ih

theorem flooded_balance (now : Int) (token : Option String) (key : C.SigningKey) (n : Nat) :
    balanceOf ((ServerState.fresh C now token).after (flood C key n)).mem.toLoaded "acct:d1" =
      i64 (n * 21474836475000) := by
  have flooded := flooded_after now token key n
  have entered :=
    after_entered (flood C key n) (fresh_synced (C := C) now token) (fresh_entered now token)
  rw [entered.balance, flooded.earned, flooded.kept, Int.sub_zero]

theorem NeverOverflows.last {srv : ServerState C.VerifyingKey} {rs : List Request} {r : Request}
    (never : NeverOverflows srv (rs ++ [r])) : AllFit (requestArith (srv.after rs) r) := by
  induction rs generalizing srv with
  | nil => exact never.2.1
  | cons r' rs ih => exact ih never.2.2

theorem flood_last {now : Int} {token : Option String} {key : C.SigningKey} {n : Nat}
    (never : NeverOverflows (ServerState.fresh C now token) (flood C key (n + 1))) :
    FitsI64 (i64 (n * 21474836475000) + 21474836475000) := by
  rw [flood_succ] at never
  have fits := never.last
  obtain ⟨accrues, earns⟩ := floodEvent_earns (floodHead C n) n
  change AllFit (acceptArith _ "d1" _ ++ []) at fits
  rw [List.append_nil] at fits
  have held : FitsI64
    (balanceOf ((ServerState.fresh C now token).after (flood C key n)).mem.toLoaded "acct:d1" +
    devEarn (floodEvent (floodHead C n) n)) := accept_adds fits
      (flooded_after now token key n).accepts accrues
  rw [flooded_balance, earns] at held
  exact held

/-- The 429497th event takes the balance past the last `i64`, and below zero where it wraps. -/
theorem flood_overflows :
    let srv := ServerState.fresh Reference.crates 0 none
    let events := flood Reference.crates (Reference.key 7) 429497
    ¬ NeverOverflows srv events ∧ balanceOf (srv.after events).mem.toLoaded "acct:d1" < 0 := by
  intro srv events
  constructor
  · intro never
    have held : FitsI64 (i64 ((429496 : Nat) * 21474836475000) + 21474836475000) := flood_last never
    revert held
    decide
  · have balance := flooded_balance (C := Reference.crates) 0 none (Reference.key 7) 429497
    rw [balance]
    decide

end Spnr.Server
