import Spnr.Lib.Arith
import Spnr.Server.Ledger

/-! The totals of the dashboard and the nightly ledger check, each with the machine-integer
operations it takes. They are sums over maps, so the order of the additions is left open. -/
namespace Spnr.Server

open RustStd

variable {C : Crates}

def values {V : Type} (order : HashMap.Order String V) (m : HashMap String V) : List V :=
  (order.entries m).map fun entry => entry.2

def totalImpressionsArith (s : Loaded C.VerifyingKey) (order : HashMap.Order String Nat) :
    List Arith :=
  sumU64Arith 0 (values order s.impressions)

def totalBalanceArith (s : Loaded C.VerifyingKey) (order : HashMap.Order String Int) : List Arith :=
  sumI64Arith 0 (values order s.balances)

def totalRedeemedArith (s : Loaded C.VerifyingKey) : List Arith :=
  sumI64Arith 0 (s.redemptions.map Redemption.amountMicros)

/-- One turn of the loop of `ledger_sums_to_zero`: `or_default`, then `-=` and `+=`. -/
def post (nets : HashMap String Int) (e : LedgerEntry) : HashMap String Int :=
  let debited := nets.insert e.debit (i64 (HashMap.valueAt id nets e.debit - e.amountMicros))
  debited.insert e.credit (i64 (HashMap.valueAt id debited e.credit + e.amountMicros))

def postArith (nets : HashMap String Int) (e : LedgerEntry) : List Arith :=
  let debited := nets.insert e.debit (i64 (HashMap.valueAt id nets e.debit - e.amountMicros))
  [.i64 (HashMap.valueAt id nets e.debit - e.amountMicros),
    .i64 (HashMap.valueAt id debited e.credit + e.amountMicros)]

def netsOf (ledger : List LedgerEntry) : HashMap String Int := ledger.foldl post ∅

def netsArith (nets : HashMap String Int) : List LedgerEntry → List Arith
  | [] => []
  | e :: rest => postArith nets e ++ netsArith (post nets e) rest

def ledgerSumsToZeroArith (s : Loaded C.VerifyingKey) (order : HashMap.Order String Int) :
    List Arith :=
  netsArith ∅ s.ledger ++ sumI64Arith 0 (values order (netsOf s.ledger))

structure TotalsFit (s : Loaded C.VerifyingKey) : Prop where
  impressions : ∀ order, AllFit (totalImpressionsArith s order)
  balance : ∀ order, AllFit (totalBalanceArith s order)
  redeemed : AllFit (totalRedeemedArith s)
  ledger : ∀ order, AllFit (ledgerSumsToZeroArith s order)

theorem netsArith_append (ledger ledger' : List LedgerEntry) (nets : HashMap String Int) :
    netsArith nets (ledger ++ ledger') =
      netsArith nets ledger ++ netsArith (ledger.foldl post nets) ledger' := by
  induction ledger generalizing nets with
  | nil => rfl
  | cons e ledger ih =>
    rw [List.cons_append, netsArith, ih, netsArith, List.foldl_cons, List.append_assoc]

theorem netsOf_append (ledger ledger' : List LedgerEntry) :
    netsOf (ledger ++ ledger') = ledger'.foldl post (netsOf ledger) := by
  rw [netsOf, List.foldl_append]
  rfl

/-- The map holds the exact nets, and their sum is zero. -/
structure Netted (nets : HashMap String Int) (ledger : List LedgerEntry) : Prop where
  exact : ∀ a, HashMap.valueAt id nets a = net ledger a
  balanced : HashMap.sum id nets = 0

theorem netted_empty : Netted ∅ [] := ⟨fun _ => rfl, rfl⟩

theorem valueAt_insert (nets : HashMap String Int) (a b : String) (v : Int) :
    HashMap.valueAt id (nets.insert a v) b = if b = a then v else HashMap.valueAt id nets b := by
  unfold HashMap.valueAt
  rw [HashMap.lookup_insert]
  split <;> rfl

def LedgerEntry.moves (e : LedgerEntry) (a : String) : Int :=
  (if e.credit = a then e.amountMicros else 0) - if e.debit = a then e.amountMicros else 0

theorem moves_mk (debit credit : String) (amount : Int) (kind : Kind) (reference a : String) :
    LedgerEntry.moves ⟨debit, credit, amount, kind, reference⟩ a =
      (if credit = a then amount else 0) - if debit = a then amount else 0 := rfl

theorem net_append (ledger : List LedgerEntry) (e : LedgerEntry) (a : String) :
    net (ledger ++ [e]) a = net ledger a + e.moves a := by
  have one (p : LedgerEntry → Prop) [DecidablePred p] :
      amounts ([e].filter (p ·)) = if p e then e.amountMicros else 0 := by
    rw [amounts_cons_filter, List.filter_nil, amounts_nil, Int.add_zero]
  simp only [net, List.filter_append, amounts_append, one, LedgerEntry.moves]
  omega

theorem post_fits {nets : HashMap String Int} {ledger : List LedgerEntry}
    (netted : Netted nets ledger)
    (debit credit : String) (amount : Int) (kind : Kind) (reference : String) :
    AllFit (postArith nets ⟨debit, credit, amount, kind, reference⟩) ↔
      FitsI64 (net ledger debit - amount) ∧
        FitsI64 (net ledger credit + (amount - if debit = credit then amount else 0)) := by
  simp only [postArith, allFit_cons, allFit_nil, and_true, Arith.Fits, valueAt_insert, netted.exact]
  refine and_congr_right fun fits => ?_
  rw [i64_of_fits fits]
  by_cases own : credit = debit
  · subst own
    rw [if_pos rfl, if_pos rfl, Int.sub_add_cancel, Int.sub_self, Int.add_zero]
  · rw [if_neg own, if_neg (Ne.symm own), Int.sub_zero]

theorem post_exact {nets : HashMap String Int} {e : LedgerEntry}
    (fits : AllFit (postArith nets e)) : post nets e =
      let debited := nets.insert e.debit (HashMap.valueAt id nets e.debit - e.amountMicros)
      debited.insert e.credit (HashMap.valueAt id debited e.credit + e.amountMicros) := by
  simp only [postArith, allFit_cons, allFit_nil, and_true, Arith.Fits] at fits
  obtain ⟨debited, credited⟩ := fits
  rw [i64_of_fits debited] at credited
  simp only [post, i64_of_fits debited, i64_of_fits credited]

theorem Netted.post {nets : HashMap String Int} {ledger : List LedgerEntry}
    (netted : Netted nets ledger)
    {e : LedgerEntry} (fits : AllFit (postArith nets e)) :
    Netted (post nets e) (ledger ++ [e]) := by
  constructor
  · intro a
    rw [post_exact fits, net_append, ← netted.exact a]
    simp only [valueAt_insert, LedgerEntry.moves]
    by_cases credited : a = e.credit
    · subst credited
      rw [if_pos rfl, if_pos rfl]
      by_cases own : e.credit = e.debit
      · rw [if_pos own, if_pos own.symm, own]
        omega
      · rw [if_neg own, if_neg (Ne.symm own)]
        omega
    · rw [if_neg credited, if_neg (Ne.symm credited)]
      by_cases debited : a = e.debit
      · subst debited
        rw [if_pos rfl, if_pos rfl]
        omega
      · rw [if_neg debited, if_neg (Ne.symm debited)]
        omega
  · rw [post_exact fits]
    dsimp only
    have first :=
      HashMap.sum_insert id nets e.debit (HashMap.valueAt id nets e.debit - e.amountMicros)
    have second (debited : HashMap String Int) :=
      HashMap.sum_insert id debited e.credit (HashMap.valueAt id debited e.credit + e.amountMicros)
    have second := second (nets.insert e.debit (HashMap.valueAt id nets e.debit - e.amountMicros))
    have before := netted.balanced
    simp only [id] at first second before ⊢
    omega

theorem netted_of_fits (ledger : List LedgerEntry) (fits : AllFit (netsArith ∅ ledger)) :
    Netted (netsOf ledger) ledger := by
  induction ledger using List.reverseRecOn with
  | nil => exact netted_empty
  | append_singleton ledger e ih =>
    rw [netsArith_append, allFit_append] at fits
    obtain ⟨before, last⟩ := fits
    rw [netsOf_append]
    apply (ih before).post
    rw [netsArith, netsArith, List.append_nil] at last
    exact last

end Spnr.Server
