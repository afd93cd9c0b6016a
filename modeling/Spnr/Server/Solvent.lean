import Mathlib.Algebra.BigOperators.Ring.Finset
import Spnr.Server.Totals

/-! How far the machine integers of the ledger carry: every operation of a handler and of the
four totals, and the room that each event and each cash-out has to leave. -/
namespace Spnr.Server

open RustStd

variable {C : Crates}

def counterArith (dev : DeviceRec C.VerifyingKey) : List Arith :=
  (dev.ctrHead.map fun c => .u64 (c + 1)).toList

/-- The accrual of one impression event: spend, developer half, house half, balance, impressions. -/
def accrueArith (s : Loaded C.VerifyingKey) (account : String) (e : Event) : List Arith :=
  if Accrues e then
    [.i64 (pricePerImpMicros * impCount e), .i64 (spend e * devShareNum),
      .i64 (spend e - devEarn e),
      .i64 (balanceOf s account + devEarn e), .u64 (impressionsOf s account + (impCount e).toNat)]
  else []

/-- `accept_event` takes the next counter once the signature and the chain hold. -/
def acceptArith (s : AppState C.VerifyingKey) (deviceId : String) (se : SignedEvent) : List Arith :=
  match s.devices.lookup deviceId with
  | none => []
  | some dev =>
    match C.hexDecode se.s with
    | none => []
    | some sig =>
      if !DeviceKey.verify C se.e sig dev.pubkey then []
      else if se.e.prev ≠ dev.chainHead then []
      else counterArith dev ++ match verifyEvent C s deviceId se with
        | .ok _ => accrueArith s.toLoaded dev.accountId se.e
        | .error _ => []

def ingestArith (s : AppState C.VerifyingKey) (deviceId : String) : List SignedEvent → List Arith
  | [] => []
  | se :: rest =>
    acceptArith s deviceId se ++ ingestArith (ingestEvent C s deviceId se).1 deviceId rest

def redeemArith (s : AppState C.VerifyingKey) (req : RedeemReq) (order : HashMap.Order String Int) :
    List Arith :=
  match primary C s order with
  | none => []
  | some (account, available) =>
    if available ≤ 0 then []
    else if available < requestedOf req available then []
    else [.u64 (s.nextRedemptionId + 1),
      .i64 (balanceOf s.toLoaded account - requestedOf req available)]

def requestArith (srv : ServerState C.VerifyingKey) : Request → List Arith
  | .ingest req => ingestArith srv.mem req.deviceId req.events
  | .redeem req order => redeemArith srv.mem req order
  | _ => []

def unpaid (ledger : List LedgerEntry) : Int := earnedTotal ledger - redeemTotal ledger

/-- What has left the house account for others, its own cash-outs included. -/
def houseSpent (ledger : List LedgerEntry) : Int :=
  earnedTotal ledger - earnedBy ledger "acct:house" + redeemedBy ledger "acct:house"

/-- The developers can hold what the event adds, and the house can be debited for it twice. -/
structure AccrualFits (ledger : List LedgerEntry) (account : String) (e : Event) : Prop where
  held : unpaid ledger + 5000 * impCount e < 2 ^ 63
  spent : houseSpent ledger + (if account = "acct:house" then 0 else 5000 * impCount e) +
    5000 * impCount e ≤ 2 ^ 63

/-- The event continues a chain, and the device's counter is at its last value. -/
def CounterSpent (s : Loaded C.VerifyingKey) (d : String) (se : SignedEvent) : Prop :=
  ∃ dev sig, s.devices.lookup d = some dev ∧ C.hexDecode se.s = some sig ∧
    DeviceKey.verify C se.e sig dev.pubkey = true ∧ se.e.prev = dev.chainHead ∧
    ∃ c, dev.ctrHead = some c ∧ 2 ^ 64 ≤ c + 1

structure EventRoom (s : Loaded C.VerifyingKey) (d : String) (se : SignedEvent) : Prop where
  counter : ¬ CounterSpent s d se
  accrual : ∀ dev, Accepts s d se dev → Accrues se.e → AccrualFits s.ledger dev.accountId se.e

def BatchRoom (s : AppState C.VerifyingKey) (d : String) : List SignedEvent → Prop
  | [] => True
  | se :: rest => EventRoom s.toLoaded d se ∧ BatchRoom (ingestEvent C s d se).1 d rest

/-- Only a cash-out of the house account itself can take the house too far. -/
def RedeemRoom (s : AppState C.VerifyingKey) (req : RedeemReq)
    (order : HashMap.Order String Int) : Prop :=
  ∀ available, primary C s order = some ("acct:house", available) → 0 < available →
    requestedOf req available ≤ available → houseSpent s.ledger + requestedOf req available < 2 ^ 63

def RequestRoom (srv : ServerState C.VerifyingKey) : Request → Prop
  | .ingest req => BatchRoom srv.mem req.deviceId req.events
  | .redeem req order => RedeemRoom srv.mem req order
  | _ => True

structure Solvent (s : Loaded C.VerifyingKey) : Prop where
  posted : ∀ e ∈ s.ledger, e.Posted
  balance : ∀ a, balanceOf s a = earnedBy s.ledger a - redeemedBy s.ledger a
  nonneg : ∀ a v, s.balances.lookup a = some v → 0 ≤ v
  held : HashMap.sum id s.balances = unpaid s.ledger
  counted : 5000 * HashMap.sum Nat.cast s.impressions = earnedTotal s.ledger
  cashed : cashOuts s.redemptions = redeemTotal s.ledger
  paid : ∀ r ∈ s.redemptions, 0 < r.amountMicros
  numbered : s.nextRedemptionId = s.redemptions.length + 1
  nets : AllFit (netsArith ∅ s.ledger)
  low : unpaid s.ledger < 2 ^ 63
  high : houseSpent s.ledger < 2 ^ 63

theorem Solvent.congr {s v : Loaded C.VerifyingKey} (solvent : Solvent s)
    (ledger : v.ledger = s.ledger)
    (balances : v.balances = s.balances) (impressions : v.impressions = s.impressions)
    (redemptions : v.redemptions = s.redemptions) (next : v.nextRedemptionId = s.nextRedemptionId) :
    Solvent v := by
  obtain ⟨devices, seen, ledger', balances', impressions', clicks, accepted, rejected,
    redemptions', next'⟩ := v
  dsimp only at ledger balances impressions redemptions next
  subst ledger balances impressions redemptions next
  exact ⟨solvent.posted, solvent.balance, solvent.nonneg, solvent.held, solvent.counted,
    solvent.cashed, solvent.paid, solvent.numbered, solvent.nets, solvent.low, solvent.high⟩

theorem balanceOf_valueAt (s : Loaded C.VerifyingKey) (a : String) :
    HashMap.valueAt id s.balances a = balanceOf s a := by
  unfold HashMap.valueAt balanceOf
  cases s.balances.lookup a <;> rfl

theorem sum_balances (s : Loaded C.VerifyingKey) (a : String) (x : Int) :
    HashMap.sum id (s.balances.insert a (balanceOf s a + x)) = HashMap.sum id s.balances + x := by
  apply HashMap.sum_grow
  rw [balanceOf_valueAt]
  rfl

theorem impressionsOf_valueAt (s : Loaded C.VerifyingKey) (a : String) :
    HashMap.valueAt (Nat.cast : Nat → Int) s.impressions a = impressionsOf s a := by
  unfold HashMap.valueAt impressionsOf
  cases s.impressions.lookup a <;> rfl

theorem cashOuts_bounds {rows : List Redemption} (paid : ∀ r ∈ rows, 0 < r.amountMicros) :
    (rows.length : Int) ≤ cashOuts rows ∧ gains (rows.map Redemption.amountMicros) = cashOuts rows ∧
      losses (rows.map Redemption.amountMicros) = 0 := by
  induction rows with
  | nil => exact ⟨Int.le_refl 0, rfl, rfl⟩
  | cons r rows ih =>
    obtain ⟨few, up, down⟩ := ih fun r' mem => paid r' (List.mem_cons_of_mem _ mem)
    have positive := paid r List.mem_cons_self
    simp only [gains, losses, cashOuts, List.map_cons, List.sum_cons,
      List.length_cons] at few up down ⊢
    rw [max_eq_left (by omega), max_eq_right (by omega)]
    omega

namespace Solvent

variable {s : Loaded C.VerifyingKey} (solvent : Solvent s)

include solvent

theorem balance_nonneg (a : String) : 0 ≤ balanceOf s a := by
  rw [← balanceOf_valueAt]
  exact HashMap.valueAt_nonneg id s.balances solvent.nonneg a

theorem balance_le (a : String) : balanceOf s a ≤ unpaid s.ledger := by
  rw [← solvent.held, ← balanceOf_valueAt]
  exact HashMap.valueAt_le_sum id s.balances solvent.nonneg a

theorem redeemed_nonneg : 0 ≤ redeemTotal s.ledger := by
  have few := (cashOuts_bounds solvent.paid).1
  have cashed := solvent.cashed
  omega

theorem spent_bounds {a : String} (other : a ≠ "acct:house") :
    balanceOf s a + redeemTotal s.ledger ≤ houseSpent s.ledger := by
  have two := HashMap.two_le_sum id s.balances solvent.nonneg (a := "acct:house") (b := a) other
  rw [balanceOf_valueAt, balanceOf_valueAt, solvent.held] at two
  have house := solvent.balance "acct:house"
  unfold unpaid at two
  unfold houseSpent
  omega

theorem redeemed_le : redeemTotal s.ledger ≤ houseSpent s.ledger := by
  have bound := solvent.spent_bounds (a := "acct:payout") (by decide)
  have held := solvent.balance_nonneg "acct:payout"
  omega

theorem net_house : net s.ledger "acct:house" = -houseSpent s.ledger := by
  rw [net_eq solvent.posted, if_pos rfl, if_neg (by decide), houseSpent]
  omega

theorem net_bounds {a : String} (other : a ≠ "acct:house") :
    0 ≤ net s.ledger a ∧ net s.ledger a ≤ houseSpent s.ledger := by
  have most := solvent.spent_bounds other
  have least := solvent.balance_nonneg a
  have cashed := solvent.redeemed_nonneg
  rw [net_eq solvent.posted, if_neg other, Int.sub_zero, ← solvent.balance]
  split
  · omega
  · omega

theorem balance_fits (order : HashMap.Order String Int) : AllFit (totalBalanceArith s order) := by
  have none : losses (values order s.balances) = 0 := by
    unfold losses values
    rw [List.map_map]
    apply List.sum_eq_zero
    intro x mem
    obtain ⟨⟨a, v⟩, entry, rfl⟩ := List.mem_map.mp mem
    have held := solvent.nonneg a v ((order.mem_entries _ _ _).mp entry)
    exact max_eq_right (by dsimp only; omega)
  have total : (values order s.balances).sum = unpaid s.ledger := by
    rw [← solvent.held]
    exact order.sum id s.balances
  have parts := gains_sub_losses (values order s.balances)
  have low := solvent.low
  apply sumI64_fits
  · omega
  · omega

theorem impressions_fit (order : HashMap.Order String Nat) :
    AllFit (totalImpressionsArith s order) := by
  have total : ((values order s.impressions).sum : Int) = HashMap.sum Nat.cast s.impressions := by
    rw [← order.sum, values, Nat.cast_list_sum, List.map_map]
    rfl
  have counted := solvent.counted
  have low := solvent.low
  have high := solvent.high
  have cashed := solvent.redeemed_le
  unfold unpaid at low
  apply sumU64_fits
  omega

theorem redeemed_fits : AllFit (totalRedeemedArith s) := by
  obtain ⟨-, up, down⟩ := cashOuts_bounds solvent.paid
  have cashed := solvent.cashed
  have most := solvent.redeemed_le
  have high := solvent.high
  apply sumI64_fits
  · omega
  · omega

theorem ledger_fits (order : HashMap.Order String Int) :
    AllFit (ledgerSumsToZeroArith s order) := by
  have netted := netted_of_fits s.ledger solvent.nets
  have down : losses (values order (netsOf s.ledger)) = max (houseSpent s.ledger) 0 := by
    have parts := HashMap.sum_erase (fun v : Int => max (-v) 0) (netsOf s.ledger) "acct:house"
    have others : HashMap.sum (fun v : Int => max (-v) 0)
      ((netsOf s.ledger).erase "acct:house") = 0 := by
      apply Multiset.sum_eq_zero
      intro x mem
      obtain ⟨⟨a, v⟩, entry, rfl⟩ := Multiset.mem_map.mp mem
      have found := Finmap.lookup_eq_some_iff.mpr entry
      rw [HashMap.lookup_erase] at found
      split at found
      · cases found
      · next other =>
        have least := (solvent.net_bounds other).1
        rw [← netted.exact, HashMap.valueAt, found, Option.elim_some] at least
        simp only [id] at least
        exact max_eq_right (by dsimp only; omega)
    have house : HashMap.valueAt (fun v : Int => max (-v) 0) (netsOf s.ledger) "acct:house" =
        max (houseSpent s.ledger) 0 := by
      have exact := netted.exact "acct:house"
      rw [solvent.net_house] at exact
      unfold HashMap.valueAt at exact ⊢
      cases found : (netsOf s.ledger).lookup "acct:house" with
      | none =>
        rw [found, Option.elim_none] at exact
        rw [Option.elim_none, max_eq_right (by omega)]
      | some v =>
        rw [found, Option.elim_some] at exact
        rw [Option.elim_some, show -v = houseSpent s.ledger by simp only [id] at exact; omega]
    rw [house, others] at parts
    rw [losses, values, List.map_map]
    exact (order.sum (fun v : Int => max (-v) 0) (netsOf s.ledger)).trans
      (parts.symm.trans (Int.add_zero _))
  have zero : (values order (netsOf s.ledger)).sum = 0 :=
    (order.sum id (netsOf s.ledger)).trans netted.balanced
  have parts := gains_sub_losses (values order (netsOf s.ledger))
  have high := solvent.high
  have cashed := solvent.redeemed_le
  have least := solvent.redeemed_nonneg
  rw [ledgerSumsToZeroArith, allFit_append]
  refine ⟨solvent.nets, ?_⟩
  rw [max_eq_left (by omega)] at down
  apply sumI64_fits
  · omega
  · omega

theorem totals : TotalsFit s :=
  ⟨solvent.impressions_fit, solvent.balance_fits, solvent.redeemed_fits, solvent.ledger_fits⟩

end Solvent

theorem earnedTotal_newLedger (account : String) (e : Event) :
    earnedTotal (newLedger account e) = if Accrues e then devEarn e else 0 := by
  unfold newLedger earnedTotal
  by_cases accrues : Accrues e
  · rw [if_pos accrues, if_pos accrues, amounts_cons_filter, amounts_cons_filter, if_pos rfl,
      if_neg Kind.noConfusion, List.filter_nil, amounts_nil, Int.add_zero, Int.add_zero]
  · rw [if_neg accrues, if_neg accrues]
    rfl

theorem houseKeep_eq (e : Event) : houseKeep e = devEarn e := by
  have bounds := impCount_bounds e
  have earned := devEarn_eq e
  rw [houseKeep, spend_eq, earned]
  have fits : FitsI64 (10000 * impCount e - 5000 * impCount e) := by
    constructor
    · omega
    · omega
  rw [i64_of_fits fits]
  omega

theorem Solvent.nets_newLedger {s : Loaded C.VerifyingKey} (solvent : Solvent s)
    {account : String} {e : Event} (accrues : Accrues e) (fits : AccrualFits s.ledger account e) :
    AllFit (netsArith ∅ (s.ledger ++ newLedger account e)) := by
  have netted := netted_of_fits s.ledger solvent.nets
  have earned := devEarn_eq e
  have kept := houseKeep_eq e
  have spent := fits.spent
  have positive := accrues.2
  have house := solvent.net_house
  have high := solvent.high
  have cashed := solvent.redeemed_le
  have least := solvent.redeemed_nonneg
  rw [netsArith_append, allFit_append]
  refine ⟨solvent.nets, ?_⟩
  rw [newLedger, if_pos accrues]
  change AllFit (netsArith (netsOf s.ledger) [⟨"acct:house", account, devEarn e, .impEarn, e.id⟩,
    ⟨"acct:house", "acct:house", houseKeep e, .adSpendHouse, e.id⟩])
  rw [netsArith, netsArith, netsArith, List.append_nil, allFit_append]
  have first :
    AllFit (postArith (netsOf s.ledger) ⟨"acct:house", account, devEarn e, .impEarn, e.id⟩) := by
    rw [post_fits netted, house]
    by_cases own : account = "acct:house"
    · subst own
      rw [if_pos rfl] at spent ⊢
      rw [house]
      unfold FitsI64
      omega
    · have other := solvent.net_bounds own
      rw [if_neg own] at spent
      rw [if_neg (Ne.symm own)]
      unfold FitsI64
      omega
  refine ⟨first, ?_⟩
  rw [post_fits (netted.post first), net_append, moves_mk, house, if_pos rfl]
  by_cases own : account = "acct:house"
  · rw [if_pos own] at spent ⊢
    unfold FitsI64
    omega
  · rw [if_neg own] at spent ⊢
    unfold FitsI64
    omega

theorem accrual_fits {s : AppState C.VerifyingKey} (solvent : Solvent s.toLoaded)
    {account : String} {e : Event}
    (fits : Accrues e → AccrualFits s.ledger account e) :
    AllFit (accrueArith s.toLoaded account e) := by
  unfold accrueArith
  by_cases accrues : Accrues e
  · have held := (fits accrues).held
    have bounds := impCount_bounds e
    have earned := devEarn_eq e
    have price := spend_eq e
    have least := solvent.balance_nonneg account
    have most := solvent.balance_le account
    have imps : (impressionsOf s.toLoaded account : Int) ≤ HashMap.sum Nat.cast s.impressions := by
      rw [← impressionsOf_valueAt]
      exact HashMap.valueAt_le_sum _ s.impressions (fun _ v _ => Int.natCast_nonneg v) account
    have counted := solvent.counted
    have low := solvent.low
    have high := solvent.high
    have cashed := solvent.redeemed_le
    unfold unpaid at low
    simp only [accrues, if_true, allFit_cons, allFit_nil, and_true, Arith.Fits, pricePerImpMicros,
      devShareNum, FitsI64]
    omega
  · rw [if_neg accrues]
    exact allFit_nil

theorem acceptArith_fits {s : AppState C.VerifyingKey} (solvent : Solvent s.toLoaded) {d : String}
    {se : SignedEvent} (room : EventRoom s.toLoaded d se) : AllFit (acceptArith s d se) := by
  unfold acceptArith
  cases known : s.devices.lookup d with
  | none => exact allFit_nil
  | some dev =>
    cases hex : C.hexDecode se.s with
    | none => exact allFit_nil
    | some sig =>
      dsimp only
      split
      · exact allFit_nil
      · next signed =>
        split
        · exact allFit_nil
        · next chained =>
          rw [allFit_append]
          constructor
          · unfold counterArith
            cases head : dev.ctrHead with
            | none => exact allFit_nil
            | some c =>
              have below : ¬ 2 ^ 64 ≤ c + 1 := fun last => room.counter
                ⟨dev, sig, known, hex, by simpa using signed, not_not.mp chained, c, head, last⟩
              simp only [Option.map_some, Option.toList_some, allFit_cons, allFit_nil,
                and_true, Arith.Fits]
              omega
          · cases verified : verifyEvent C s d se with
            | error reason => exact allFit_nil
            | ok dev' =>
              have accepts := (verifyEvent_ok s d se dev').mp verified
              cases Option.some.inj (known.symm.trans accepts.known)
              exact accrual_fits solvent (room.accrual dev accepts)

theorem advance_ledger (s : AppState C.VerifyingKey) (d : String) (dev : DeviceRec C.VerifyingKey)
    (e : Event) :
    earnedTotal (advance C s d dev e).ledger = earnedTotal s.ledger +
      (if Accrues e then devEarn e else 0) ∧
      redeemTotal (advance C s d dev e).ledger = redeemTotal s.ledger := by
  have ledger : (advance C s d dev e).ledger = s.ledger ++ newLedger dev.accountId e := rfl
  have cashed := (credits_redeem_nothing (newLedger_not_redeem dev.accountId e) "").2
  constructor
  · rw [ledger, ← earnedTotal_newLedger dev.accountId]
    simp [earnedTotal]
  · rw [ledger, redeemTotal_append, cashed, Int.add_zero]

theorem advance_idle {s : AppState C.VerifyingKey} (solvent : Solvent s.toLoaded) {d : String}
    {dev : DeviceRec C.VerifyingKey} {e : Event} (idle : ¬ Accrues e) :
    Solvent (advance C s d dev e).toLoaded := by
  have ledger : (advance C s d dev e).ledger = s.ledger ++ newLedger dev.accountId e := rfl
  rw [newLedger, if_neg idle, List.append_nil] at ledger
  exact solvent.congr ledger (if_neg idle) (if_neg idle) rfl rfl

section

variable {s : AppState C.VerifyingKey} (solvent : Solvent s.toLoaded)
  {dev : DeviceRec C.VerifyingKey} {e : Event}
  (accrues : Accrues e) (room : AccrualFits s.ledger dev.accountId e) (d : String)
include solvent accrues room

theorem advance_exact :
    i64 (balanceOf s.toLoaded dev.accountId + devEarn e) = balanceOf s.toLoaded dev.accountId +
      devEarn e := by
  have earned := devEarn_eq e
  have positive := accrues.2
  have held := room.held
  have least := solvent.balance_nonneg dev.accountId
  have most := solvent.balance_le dev.accountId
  apply i64_of_fits
  constructor
  · omega
  · omega

theorem advance_balances : (advance C s d dev e).balances =
    s.balances.insert dev.accountId (balanceOf s.toLoaded dev.accountId + devEarn e) := by
  rw [← advance_exact solvent accrues room]
  exact if_pos accrues

theorem advance_balance (a : String) : balanceOf (advance C s d dev e).toLoaded a =
    earnedBy (advance C s d dev e).ledger a - redeemedBy (advance C s d dev e).ledger a := by
  have before := solvent.balance a
  rw [balanceOf_advance, earnedBy_advance, redeemedBy_advance]
  by_cases own : a = dev.accountId
  · subst own
    rw [if_pos ⟨accrues, rfl⟩, if_pos ⟨accrues, rfl⟩, advance_exact solvent accrues room]
    omega
  · rw [if_neg fun h => own h.2, if_neg fun h => own h.2]
    omega

theorem advance_spent : houseSpent (advance C s d dev e).ledger < 2 ^ 63 := by
  have earned := devEarn_eq e
  have positive := accrues.2
  have spent := room.spent
  have high := solvent.high
  obtain ⟨total, -⟩ := advance_ledger s d dev e
  rw [if_pos accrues] at total
  rw [houseSpent, total, earnedBy_advance, redeemedBy_advance]
  unfold houseSpent at spent high
  by_cases own : dev.accountId = "acct:house"
  · rw [if_pos ⟨accrues, own.symm⟩]
    omega
  · rw [if_neg own] at spent
    rw [if_neg fun h => own h.2.symm]
    omega

theorem advance_accrual : Solvent (advance C s d dev e).toLoaded := by
  have earned := devEarn_eq e
  have positive := accrues.2
  have balances := advance_balances solvent accrues room d
  obtain ⟨total, redeemed⟩ := advance_ledger s d dev e
  rw [if_pos accrues] at total
  constructor
  · intro entry mem
    rcases List.mem_append.mp mem with old | new
    · exact solvent.posted entry old
    · exact newLedger_posted dev.accountId e entry new
  · exact advance_balance solvent accrues room d
  · have least := solvent.balance_nonneg dev.accountId
    rw [balances]
    exact HashMap.nonneg_insert id s.balances solvent.nonneg (by dsimp only [id]; omega)
  · rw [balances, sum_balances, solvent.held, unpaid, unpaid, total, redeemed]
    omega
  · have impressions : (advance C s d dev e).impressions =
        s.impressions.insert dev.accountId
          (impressionsOf s.toLoaded dev.accountId + (impCount e).toNat) := if_pos accrues
    have grown := HashMap.sum_grow (Nat.cast : Nat → Int) s.impressions (a := dev.accountId)
      (v := impressionsOf s.toLoaded dev.accountId + (impCount e).toNat) (x := impCount e) (by
        rw [impressionsOf_valueAt, Nat.cast_add]
        omega)
    have before := solvent.counted
    rw [impressions, grown, total]
    omega
  · rw [redeemed]
    exact solvent.cashed
  · exact solvent.paid
  · exact solvent.numbered
  · exact solvent.nets_newLedger accrues room
  · have held := room.held
    rw [unpaid, total, redeemed]
    unfold unpaid at held
    omega
  · exact advance_spent solvent accrues room d

end

theorem advance_solvent {s : AppState C.VerifyingKey} (solvent : Solvent s.toLoaded) {d : String}
    {dev : DeviceRec C.VerifyingKey} {e : Event}
    (fits : Accrues e → AccrualFits s.ledger dev.accountId e) :
    Solvent (advance C s d dev e).toLoaded := by
  by_cases accrues : Accrues e
  · exact advance_accrual solvent accrues (fits accrues) d
  · exact advance_idle solvent accrues

theorem ingestEvent_solvent {s : AppState C.VerifyingKey} (solvent : Solvent s.toLoaded)
    {d : String}
    {se : SignedEvent} (room : EventRoom s.toLoaded d se) :
    Solvent (ingestEvent C s d se).1.toLoaded := by
  rcases ingestEvent_cases s d se with ⟨dev, accepts, eq⟩ | ⟨-, eq⟩
  · rw [eq]
    have advanced : Solvent (advance C s d dev se.e).toLoaded :=
      advance_solvent solvent (room.accrual dev accepts)
    exact advanced.congr rfl rfl rfl rfl rfl
  · rw [eq]
    exact solvent.congr rfl rfl rfl rfl rfl

theorem ingestAll_solvent (ses : List SignedEvent) {s : AppState C.VerifyingKey}
    (solvent : Solvent s.toLoaded) {d : String} (room : BatchRoom s d ses) :
    AllFit (ingestArith s d ses) ∧ Solvent (ingestAll s d ses).1.toLoaded := by
  induction ses generalizing s with
  | nil => exact ⟨allFit_nil, solvent⟩
  | cons se rest ih =>
    obtain ⟨first, others⟩ := room
    obtain ⟨fits, after⟩ := ih (ingestEvent_solvent solvent first) others
    rw [ingestArith, allFit_append]
    exact ⟨⟨acceptArith_fits solvent first, fits⟩, after⟩

theorem register_solvent {s : AppState C.VerifyingKey} (solvent : Solvent s.toLoaded) (peer : Peer)
    (req : RegisterReq) (now : Int) : Solvent (register C s peer req now).state.toLoaded := by
  have views := fun a => register_views (s := s) peer req now a
  obtain ⟨ledger, rows⟩ := register_ledger s peer req now
  have next : (register C s peer req now).state.nextRedemptionId = s.nextRedemptionId := by
    unfold register
    split <;> rfl
  -- A new account starts at zero, and a known one keeps what it has.
  have opened {V : Type} (f : V → Int) (zero : V) (none : f zero = 0) (m : HashMap String V)
    (a : String) :
      HashMap.sum f (if a ∈ m then m else m.insert a zero) = HashMap.sum f m := by
    split
    · rfl
    · next new => rw [HashMap.sum_insert_new f new, none, Int.zero_add]
  have sums : HashMap.sum id (register C s peer req now).state.balances =
    HashMap.sum id s.balances ∧
      HashMap.sum Nat.cast (register C s peer req now).state.impressions =
        HashMap.sum (Nat.cast : Nat → Int) s.impressions := by
    unfold register
    split
    · exact ⟨rfl, rfl⟩
    · exact ⟨opened id 0 rfl s.balances _, opened Nat.cast 0 rfl s.impressions _⟩
  constructor
  · rw [ledger]
    exact solvent.posted
  · intro a
    rw [(views a).1, ledger]
    exact solvent.balance a
  · intro a v found
    have held := (views a).1
    rw [balanceOf, found, Option.getD_some] at held
    rw [held]
    exact solvent.balance_nonneg a
  · rw [sums.1, ledger]
    exact solvent.held
  · rw [sums.2, ledger]
    exact solvent.counted
  · rw [rows, ledger]
    exact solvent.cashed
  · rw [rows]
    exact solvent.paid
  · rw [next, rows]
    exact solvent.numbered
  · rw [ledger]
    exact solvent.nets
  · rw [ledger]
    exact solvent.low
  · rw [ledger]
    exact solvent.high

theorem Solvent.debit_fits {s : Loaded C.VerifyingKey} (solvent : Solvent s) {account : String}
    {requested : Int} (positive : 0 < requested) (enough : requested ≤ balanceOf s account)
    (room : account = "acct:house" → houseSpent s.ledger + requested < 2 ^ 63) :
    FitsI64 (net s.ledger account - requested) := by
  have high := solvent.high
  have cashed := solvent.redeemed_le
  have least := solvent.redeemed_nonneg
  by_cases house : account = "acct:house"
  · have room := room house
    subst house
    rw [solvent.net_house]
    unfold FitsI64
    omega
  · have own := solvent.net_bounds house
    have held := solvent.balance account
    have net := net_eq solvent.posted account
    rw [if_neg house, Int.sub_zero, ← held] at net
    unfold FitsI64
    split at net
    · omega
    · omega

theorem payOut_ledger (s : AppState C.VerifyingKey) (account : String) (requested : Int)
    (rail : String) :
    earnedTotal (payOut C s account requested rail).state.ledger = earnedTotal s.ledger ∧
      redeemTotal (payOut C s account requested rail).state.ledger =
        redeemTotal s.ledger + requested ∧
      houseSpent (payOut C s account requested rail).state.ledger =
        houseSpent s.ledger + if "acct:house" = account then requested else 0 := by
  have earned : earnedTotal (payOut C s account requested rail).state.ledger =
    earnedTotal s.ledger := by
    simp [payOut, earnedTotal]
  refine ⟨earned, by simp [payOut, redeemTotal, amounts], ?_⟩
  rw [houseSpent, earned, earnedBy_payOut, redeemedBy_payOut, houseSpent]
  omega

section

variable {s : AppState C.VerifyingKey} (solvent : Solvent s.toLoaded) {account : String}
  {requested : Int} (positive : 0 < requested) (enough : requested ≤ balanceOf s.toLoaded account)
  (limit : account = "acct:house" → houseSpent s.ledger + requested < 2 ^ 63) (rail : String)

include solvent

theorem payOut_room (limit : account = "acct:house" → houseSpent s.ledger + requested < 2 ^ 63) :
    houseSpent (payOut C s account requested rail).state.ledger < 2 ^ 63 := by
  rw [(payOut_ledger s account requested rail).2.2]
  by_cases own : "acct:house" = account
  · rw [if_pos own]
    exact limit own.symm
  · rw [if_neg own, Int.add_zero]
    exact solvent.high

include positive enough

theorem payOut_exact :
    i64 (balanceOf s.toLoaded account - requested) = balanceOf s.toLoaded account - requested := by
  have most := solvent.balance_le account
  have low := solvent.low
  apply i64_of_fits
  constructor
  · omega
  · omega

theorem payOut_balances : (payOut C s account requested rail).state.balances =
    s.balances.insert account (balanceOf s.toLoaded account + -requested) := by
  have exact := payOut_exact solvent positive enough
  exact congrArg (Finmap.insert account · s.balances) (exact.trans Int.sub_eq_add_neg)

theorem payOut_nonneg : ∀ a v, (payOut C s account requested rail).state.balances.lookup a =
    some v → 0 ≤ v := by
  rw [payOut_balances solvent positive enough rail]
  exact HashMap.nonneg_insert id s.balances solvent.nonneg (by dsimp only [id]; omega)

theorem payOut_held : HashMap.sum id (payOut C s account requested rail).state.balances =
    unpaid (payOut C s account requested rail).state.ledger := by
  obtain ⟨earned, redeemed, -⟩ := payOut_ledger s account requested rail
  rw [payOut_balances solvent positive enough rail, sum_balances, solvent.held, unpaid, unpaid,
    earned, redeemed]
  omega

theorem payOut_balance (a : String) :
    balanceOf (payOut C s account requested rail).state.toLoaded a =
    earnedBy (payOut C s account requested rail).state.ledger a -
      redeemedBy (payOut C s account requested rail).state.ledger a := by
  have before := solvent.balance a
  rw [balanceOf_payOut, earnedBy_payOut, redeemedBy_payOut]
  by_cases own : a = account
  · subst own
    rw [if_pos rfl, if_pos rfl, payOut_exact solvent positive enough]
    omega
  · rw [if_neg own, if_neg own]
    omega

include limit

theorem payOut_credit :
    FitsI64 (net s.ledger "acct:payout" +
      (requested - if account = "acct:payout" then requested else 0)) := by
  have high := solvent.high
  have payout := solvent.net_bounds (a := "acct:payout") (by decide)
  by_cases itself : account = "acct:payout"
  · rw [if_pos itself]
    unfold FitsI64
    omega
  · have two := HashMap.two_le_sum id (payOut C s account requested "").state.balances
      (payOut_nonneg solvent positive enough "") (a := "acct:house")
        (b := "acct:payout") (by decide)
    obtain ⟨earned, redeemed, spent⟩ := payOut_ledger s account requested ""
    rw [payOut_held solvent positive enough "", unpaid, earned, redeemed, balanceOf_valueAt,
      balanceOf_valueAt, balanceOf_payOut, balanceOf_payOut, if_neg (Ne.symm itself)] at two
    have net := net_eq solvent.posted "acct:payout"
    rw [if_neg (by decide), if_pos rfl, Int.sub_zero, ← solvent.balance] at net
    have house := solvent.balance "acct:house"
    have room := payOut_room solvent "" limit
    rw [spent, houseSpent] at room
    rw [if_neg itself]
    unfold FitsI64
    split at two
    · next own =>
      subst own
      rw [if_pos rfl] at room
      rw [payOut_exact solvent positive enough] at two
      omega
    · next own =>
      rw [if_neg own] at room
      omega

theorem payOut_nets : AllFit (netsArith ∅ (payOut C s account requested rail).state.ledger) := by
  have ledger : (payOut C s account requested rail).state.ledger =
      s.ledger ++ [⟨account, "acct:payout", requested, .redeem, redemptionId s.nextRedemptionId⟩] := rfl
  rw [ledger, netsArith_append, allFit_append]
  refine ⟨solvent.nets, ?_⟩
  change AllFit (postArith (netsOf s.ledger)
    ⟨account, "acct:payout", requested, .redeem, redemptionId s.nextRedemptionId⟩ ++ [])
  rw [List.append_nil, post_fits (netted_of_fits s.ledger solvent.nets)]
  exact ⟨solvent.debit_fits positive enough limit, payOut_credit solvent positive enough limit⟩

theorem payOut_solvent : Solvent (payOut C s account requested rail).state.toLoaded := by
  have rows : (payOut C s account requested rail).state.redemptions =
      s.redemptions ++ [⟨redemptionId s.nextRedemptionId, requested, rail⟩] := rfl
  obtain ⟨earned, redeemed, -⟩ := payOut_ledger s account requested rail
  constructor
  · intro entry mem
    rcases List.mem_append.mp mem with old | new
    · exact solvent.posted entry old
    · rw [List.mem_singleton.mp new]
      rfl
  · exact payOut_balance solvent positive enough rail
  · exact payOut_nonneg solvent positive enough rail
  · exact payOut_held solvent positive enough rail
  · rw [earned]
    exact solvent.counted
  · rw [rows, cashOuts_append, redeemed, solvent.cashed]
  · intro r mem
    rcases List.mem_append.mp mem with old | new
    · exact solvent.paid r old
    · rw [List.mem_singleton.mp new]
      exact positive
  · rw [rows, List.length_append, List.length_singleton, ← solvent.numbered]
    rfl
  · exact payOut_nets solvent positive enough limit rail
  · have low := solvent.low
    rw [unpaid, earned, redeemed]
    unfold unpaid at low
    omega
  · exact payOut_room solvent rail limit

end

theorem redeem_room {s : AppState C.VerifyingKey} (solvent : Solvent s.toLoaded) {req : RedeemReq}
    {order : HashMap.Order String Int} (room : RedeemRoom s req order) :
    AllFit (redeemArith s req order) ∧ Solvent (redeem C s req order).state.toLoaded := by
  unfold redeemArith redeem
  cases found : primary C s order with
  | none => exact ⟨allFit_nil, solvent⟩
  | some entry =>
    obtain ⟨account, available⟩ := entry
    have listed := (primary_spec found).1
    have balance : balanceOf s.toLoaded account = available := by
      rw [balanceOf, listed, Option.getD_some]
    dsimp only
    by_cases empty : available ≤ 0
    · rw [if_pos empty, if_pos empty]
      exact ⟨allFit_nil, solvent⟩
    · by_cases exceeds : available < requestedOf req available
      · rw [if_neg empty, if_neg empty, if_pos exceeds, if_pos exceeds]
        exact ⟨allFit_nil, solvent⟩
      · rw [if_neg empty, if_neg empty, if_neg exceeds, if_neg exceeds]
        have enough := Int.not_lt.mp exceeds
        have positive : 0 < requestedOf req available := requestedOf_pos (Int.not_le.mp empty)
        have limit : account = "acct:house" →
          houseSpent s.ledger + requestedOf req available < 2 ^ 63 := by
          rintro rfl
          exact room available found (Int.not_le.mp empty) enough
        constructor
        · have few := (cashOuts_bounds solvent.paid).1
          have cashed := solvent.cashed
          have numbered := solvent.numbered
          have most := solvent.redeemed_le
          have high := solvent.high
          have held := solvent.balance_le account
          have low := solvent.low
          simp only [allFit_cons, allFit_nil, and_true, Arith.Fits, FitsI64]
          omega
        · exact payOut_solvent solvent positive (balance ▸ enough) limit req.rail

theorem step_solvent {srv : ServerState C.VerifyingKey} (synced : Synced srv)
    (solvent : Solvent srv.mem.toLoaded) {r : Request} (room : RequestRoom srv r) :
    AllFit (requestArith srv r) ∧ Solvent (srv.step C r).mem.toLoaded := by
  cases r with
  | ingest req =>
    rw [ServerState.step, ingest_effect]
    exact ingestAll_solvent req.events solvent room
  | redeem req order => exact redeem_room solvent room
  | register peer req now => exact ⟨allFit_nil, register_solvent solvent peer req now⟩
  | restart now token =>
    rw [restart_view synced now token]
    exact ⟨allFit_nil, solvent⟩
  | click code =>
    refine ⟨allFit_nil, ?_⟩
    simp only [ServerState.step, ServerState.effect, click]
    split
    · exact solvent.congr rfl rfl rfl rfl rfl
    · exact solvent
  | adminCreate presented req fresh =>
    refine ⟨allFit_nil, ?_⟩
    simp only [ServerState.step, ServerState.effect, adminCreateCreative]
    split
    · exact solvent
    · split <;> exact solvent
  | adminDelete presented id =>
    refine ⟨allFit_nil, ?_⟩
    simp only [ServerState.step, ServerState.effect, adminDeleteCreative]
    split
    · exact solvent
    · split <;> exact solvent

theorem fresh_solvent (now : Int) (token : Option String) :
    Solvent (ServerState.fresh C now token).mem.toLoaded := by
  rw [fresh_view]
  have rows : (load C Database.fresh).redemptions = [] := by simp [load, Database.fresh]
  have ledger : (load C Database.fresh).ledger = [] := rfl
  constructor
  · intro e mem
    cases mem
  · intro a
    rfl
  · intro a v found
    cases found
  · rfl
  · rfl
  · rw [rows]
    rfl
  · intro r mem
    rw [rows] at mem
    cases mem
  · simp [load, Database.fresh, maxRedemptionId]
  · exact allFit_nil
  · rw [ledger]
    decide
  · rw [ledger]
    decide

end Spnr.Server
