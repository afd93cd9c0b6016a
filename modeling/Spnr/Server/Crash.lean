import Spnr.Server.Credit

/-! Which crash points keep the books. The handlers autocommit statement by
statement, and a restart believes whatever prefix is on disk. -/
namespace Spnr.Server

open RustStd Transition

variable {C : Crates}

/-- Every id the ledger credits has both its legs. -/
def Paired (ledger : List LedgerEntry) : Prop :=
  ∀ entry ∈ ledger, entry.kind ≠ .redeem →
    legs ledger .impEarn entry.reference ≠ [] ∧ legs ledger .adSpendHouse entry.reference ≠ []

structure Consistent (s : Loaded C.VerifyingKey) : Prop where
  account : ∀ a, balanceOf s a + redeemedBy s.ledger a = 5000 * impressionsOf s a
  cashed : Cashed s
  paired : Paired s.ledger

/-- What a run that keeps the books also keeps, for the next step to be provable. -/
structure Kept (s : Loaded C.VerifyingKey) : Prop where
  conserved : Conserved s
  once : Once s
  paired : Paired s.ledger

theorem Kept.consistent {s : Loaded C.VerifyingKey} (kept : Kept s) : Consistent s :=
  ⟨fun a => (kept.conserved.accounts a).account, kept.conserved.cashed, kept.paired⟩

structure SameMoney (s v : Loaded C.VerifyingKey) : Prop where
  balance : ∀ a, balanceOf v a = balanceOf s a
  impressions : ∀ a, impressionsOf v a = impressionsOf s a
  ledger : v.ledger = s.ledger
  redemptions : v.redemptions = s.redemptions

theorem Kept.same {s v : Loaded C.VerifyingKey} (kept : Kept s) (same : SameMoney s v)
    (grows : s.seenEventIds ⊆ v.seenEventIds) : Kept v := by
  obtain ⟨balance, impressions, ledger, redemptions⟩ := same
  refine ⟨⟨fun a => ?_, ?_, ?_⟩, ?_, ?_⟩
  · exact (kept.conserved.accounts a).congr (balance a) (impressions a)
      (congrArg (redeemedBy · a) ledger)
  · have cashed := kept.conserved.cashed
    unfold Cashed at *
    rw [ledger, redemptions]
    exact cashed
  · rw [redemptions]
    exact kept.conserved.fits
  · exact kept.once.keep [] (by simp) (by simp [ledger]) grows
  · rw [ledger]
    exact kept.paired

def Stmt.Inert : Stmt → Prop
  | .setBalance _ _ | .setImpressions _ _ | .insertLedger _ | .insertRedemption _ => False
  | _ => True

theorem exec_inert {w : Stmt} (inert : w.Inert) (s : Loaded C.VerifyingKey) :
    SameMoney s (s.exec C w) := by
  cases w with
  | updateDeviceHead id head ctr =>
    simp only [Loaded.exec]
    split <;> exact ⟨fun _ => rfl, fun _ => rfl, rfl, rfl⟩
  | ensureBalance a =>
    simp only [Loaded.exec]
    split
    · exact ⟨fun _ => rfl, fun _ => rfl, rfl, rfl⟩
    · rename_i absent
      refine ⟨fun b => ?_, fun _ => rfl, rfl, rfl⟩
      by_cases same : b = a
      · subst same
        simp [balanceOf, Finmap.lookup_eq_none.mpr absent]
      · simp [balanceOf, same]
  | ensureImpressions a =>
    simp only [Loaded.exec]
    split
    · exact ⟨fun _ => rfl, fun _ => rfl, rfl, rfl⟩
    · rename_i absent
      refine ⟨fun _ => rfl, fun b => ?_, rfl, rfl⟩
      by_cases same : b = a
      · subst same
        simp [impressionsOf, Finmap.lookup_eq_none.mpr absent]
      · simp [impressionsOf, same]
  | setBalance a micros => exact absurd inert id
  | setImpressions a n => exact absurd inert id
  | insertLedger e => exact absurd inert id
  | insertRedemption r => exact absurd inert id
  | _ => exact ⟨fun _ => rfl, fun _ => rfl, rfl, rfl⟩

theorem Kept.inert {s : Loaded C.VerifyingKey} (kept : Kept s) {ws : List Stmt}
    (inert : ∀ w ∈ ws, w.Inert) : Kept (s.execAll C ws) := by
  induction ws generalizing s with
  | nil => exact kept
  | cons w ws ih =>
    have first := exec_inert (C := C) (inert w List.mem_cons_self) s
    exact ih (kept.same first (exec_seen s w)) fun w' mem => inert w' (List.mem_cons_of_mem _ mem)

/-- The statements one event issues: rejected, accepted without a credit, credited. -/
def eventCost (s : AppState C.VerifyingKey) (d : String) (se : SignedEvent) : Nat :=
  match verifyEvent C s d se with
  | .ok _ => if Accrues se.e then 7 else 3
  | .error _ => 1

theorem eventCost_credited {s : AppState C.VerifyingKey} {d : String} {se : SignedEvent}
    {dev : DeviceRec C.VerifyingKey} (passes : verifyEvent C s d se = .ok dev)
    (accrues : Accrues se.e) : eventCost s d se = 7 := by
  rw [eventCost, passes]
  exact if_pos accrues

theorem eventCost_eq (s : AppState C.VerifyingKey) (d : String) (se : SignedEvent) :
    (eventWrites s d se).length = eventCost s d se := by
  unfold eventCost
  cases verdict : verifyEvent C s d se with
  | ok dev =>
    have accepts := (verifyEvent_ok s d se dev).mp verdict
    by_cases accrues : Accrues se.e
    · simp [eventWrites_accrues accepts accrues, accrues]
    · simp [eventWrites_idle accepts accrues, accrues]
  | error reason =>
    have rejects (dev) : ¬ Accepts s.toLoaded d se dev := by
      intro accepts
      rw [(verifyEvent_ok s d se dev).mpr accepts] at verdict
      cases verdict
    simp [eventWrites, ingestEvent_rejected rejects]

/-- Neither between the two ledger legs nor between the balance and the impressions. -/
def SafeEvent (s : AppState C.VerifyingKey) (d : String) (se : SignedEvent) (j : Nat) : Prop :=
  (∃ dev, verifyEvent C s d se = .ok dev) → Accrues se.e → j ≠ 3 ∧ j ≠ 5

theorem legs_grow {xs : List LedgerEntry} {kind : Kind} {id : String} (some : legs xs kind id ≠ [])
    (ys : List LedgerEntry) : legs (xs ++ ys) kind id ≠ [] := by
  rw [legs_append]
  exact List.append_ne_nil_of_left_ne_nil some _

theorem Paired.append {xs : List LedgerEntry} (paired : Paired xs) (account : String) (e : Event) :
    Paired (xs ++ newLedger account e) := by
  intro entry mem credit
  rcases List.mem_append.mp mem with old | new
  · obtain ⟨earn, house⟩ := paired entry old credit
    exact ⟨legs_grow earn _, legs_grow house _⟩
  · have accrues : Accrues e := by
      by_contra idle
      simp [newLedger, idle] at new
    rw [newLedger_reference account e entry new]
    constructor <;> simp [legs, newLedger, accrues]

theorem Paired.cashOut {xs : List LedgerEntry} (paired : Paired xs) {cash : LedgerEntry}
    (redeem : cash.kind = .redeem) : Paired (xs ++ [cash]) := by
  intro entry mem credit
  rcases List.mem_append.mp mem with old | new
  · obtain ⟨earn, house⟩ := paired entry old credit
    exact ⟨legs_grow earn _, legs_grow house _⟩
  · rw [List.mem_singleton.mp new] at credit
    exact absurd redeem credit

theorem Paired.part {xs : List LedgerEntry} (paired : Paired xs) (account : String)
    {e : Event} {k : Nat}
    (whole : Accrues e → k ≠ 1) : Paired (xs ++ (newLedger account e).take k) := by
  by_cases accrues : Accrues e
  · by_cases written : 2 ≤ k
    · have both : (newLedger account e).take k = newLedger account e := by
        apply List.take_of_length_le
        simp only [newLedger, accrues, if_true, List.length_cons, List.length_nil]
        omega
      rw [both]
      exact paired.append account e
    · have one := whole accrues
      rw [show k = 0 by omega, List.take_zero, List.append_nil]
      exact paired
  · have empty : newLedger account e = [] := by simp [newLedger, accrues]
    rw [empty, List.take_nil, List.append_nil]
    exact paired

theorem accepted_kept {s : AppState C.VerifyingKey} (kept : Kept s.toLoaded) {d : String}
    {se : SignedEvent} {dev : DeviceRec C.VerifyingKey} (accepts : Accepts s.toLoaded d se dev)
    (fits : ∀ a, EventFits s.toLoaded d se a) {j : Nat} (safe : Accrues se.e → j ≠ 3 ∧ j ≠ 5) :
    Kept (s.toLoaded.execAll C ((eventWrites s d se).take j)) := by
  have done := accepted_prefix accepts j
  have once := event_once kept.once d se j
  have credits : ∀ entry ∈ (newLedger dev.accountId se.e).take (j - 2), entry.kind ≠ .redeem :=
    fun entry mem => newLedger_not_redeem _ _ entry (List.mem_of_mem_take mem)
  refine ⟨⟨fun a => ?_, ?_, ?_⟩, once, ?_⟩
  · have old := kept.conserved.accounts a
    have ledger : redeemedBy (s.toLoaded.execAll C ((eventWrites s d se).take j)).ledger a =
        redeemedBy s.ledger a := by
      rw [done.ledger, redeemedBy_append, (credits_redeem_nothing credits a).1, Int.add_zero]
    by_cases credited : 6 ≤ j ∧ Accrues se.e ∧ a = dev.accountId
    · -- both rows are there, as after the whole event
      have new := advance_account old accepts (fits a)
      have balance := balanceOf_advance s d a dev se.e
      have imps := impressionsOf_advance s d a dev se.e
      rw [if_pos credited.2] at balance imps
      refine new.congr ?_ ?_ (ledger.trans (redeemedBy_advance s d a dev se.e).symm)
      · rw [done.balance, if_pos ⟨by omega, credited.2⟩, balance]
      · rw [done.impressions, if_pos credited, imps]
    · -- neither row is there, or neither is about this account
      have early : ¬ (5 ≤ j ∧ Accrues se.e ∧ a = dev.accountId) := by
        rintro ⟨most, accrues, own⟩
        have apart := (safe accrues).2
        exact credited ⟨by omega, accrues, own⟩
      refine old.congr ?_ ?_ ledger
      · rw [done.balance, if_neg early]
      · rw [done.impressions, if_neg credited]
  · have cashed := kept.conserved.cashed
    unfold Cashed at *
    rw [done.redemptions, done.ledger, redeemTotal_append, (credits_redeem_nothing credits "").2,
      Int.add_zero]
    exact cashed
  · rw [done.redemptions]
    exact kept.conserved.fits
  · rw [done.ledger]
    apply kept.paired.part
    intro accrues
    have apart := (safe accrues).1
    omega

/-- Which of two things a crash point is: one that keeps the books or one that breaks them. -/
structure Verdict (safe : Prop) (v : Loaded C.VerifyingKey) : Prop where
  keeps : safe → Kept v
  breaks : Consistent v → safe

theorem one_leg_breaks {s : AppState C.VerifyingKey} (kept : Kept s.toLoaded) {d : String}
    {se : SignedEvent} {dev : DeviceRec C.VerifyingKey} (accepts : Accepts s.toLoaded d se dev)
    (accrues : Accrues se.e) :
    ¬ Consistent (s.toLoaded.execAll C ((eventWrites s d se).take 3)) := by
  intro consistent
  have done := accepted_prefix accepts 3
  have ledger : (s.toLoaded.execAll C ((eventWrites s d se).take 3)).ledger =
      s.ledger ++ [⟨advertiser, dev.accountId, devEarn se.e, .impEarn, se.e.id⟩] := by
    rw [done.ledger]
    simp [newLedger, accrues]
  have pair := consistent.paired
  rw [ledger] at pair
  obtain ⟨-, house⟩ := pair ⟨advertiser, dev.accountId, devEarn se.e, .impEarn, se.e.id⟩
    (by simp) (by simp)
  apply house
  rw [legs_append]
  have old : legs s.ledger .adSpendHouse se.e.id = [] := by
    refine List.filter_eq_nil_iff.mpr fun entry mem found => ?_
    obtain ⟨kind, reference⟩ := of_decide_eq_true found
    have seen := kept.once.seen entry mem (by simp [kind])
    exact accepts.unseen (reference ▸ seen)
  rw [old]
  simp [legs]

theorem balance_first_breaks {s : AppState C.VerifyingKey} (kept : Kept s.toLoaded) {d : String}
    {se : SignedEvent} {dev : DeviceRec C.VerifyingKey} (accepts : Accepts s.toLoaded d se dev)
    (fits : ∀ a, EventFits s.toLoaded d se a) (accrues : Accrues se.e) :
    ¬ Consistent (s.toLoaded.execAll C ((eventWrites s d se).take 5)) := by
  intro consistent
  have done := accepted_prefix accepts 5
  have before := (kept.conserved.accounts dev.accountId).account
  have after := consistent.account dev.accountId
  have credits : ∀ entry ∈ (newLedger dev.accountId se.e).take (5 - 2), entry.kind ≠ .redeem :=
    fun entry mem => newLedger_not_redeem _ _ entry (List.mem_of_mem_take mem)
  have earned := devEarn_eq se.e
  have count := accrues.2
  rw [done.balance, if_pos ⟨by omega, accrues, rfl⟩, done.impressions, if_neg (by omega),
    done.ledger, redeemedBy_append, (credits_redeem_nothing credits dev.accountId).1,
    i64_of_fits (fits dev.accountId dev accepts accrues rfl)] at after
  omega

theorem event_verdict {s : AppState C.VerifyingKey} (kept : Kept s.toLoaded) {d : String}
    {se : SignedEvent} (fits : ∀ a, EventFits s.toLoaded d se a) (j : Nat) :
    Verdict (SafeEvent s d se j) (s.toLoaded.execAll C ((eventWrites s d se).take j)) := by
  rcases ingestEvent_cases s d se with ⟨dev, accepts, -⟩ | ⟨rejects, -⟩
  · have passes := (verifyEvent_ok s d se dev).mpr accepts
    refine ⟨fun safe => accepted_kept kept accepts fits (safe ⟨dev, passes⟩), ?_⟩
    intro consistent _ accrues
    constructor
    · rintro rfl
      exact one_leg_breaks kept accepts accrues consistent
    · rintro rfl
      exact balance_first_breaks kept accepts fits accrues consistent
  · obtain ⟨rejected, view⟩ := rejected_prefix rejects j
    rw [view]
    refine ⟨fun _ => kept.same ⟨fun _ => rfl, fun _ => rfl, rfl, rfl⟩ subset_rfl, ?_⟩
    rintro - ⟨dev, passes⟩
    exact absurd ((verifyEvent_ok s d se dev).mp passes) (rejects dev)

def SafeBatch (s : AppState C.VerifyingKey) (d : String) : List SignedEvent → Nat → Prop
  | [], _ => True
  | se :: rest, k =>
    if k ≤ eventCost s d se then SafeEvent s d se k
    else SafeBatch (ingestEvent C s d se).1 d rest (k - eventCost s d se)

theorem safeBatch_one {s : AppState C.VerifyingKey} {d : String} {se : SignedEvent} {k : Nat} :
    SafeBatch s d [se] k ↔ (k ≤ eventCost s d se → SafeEvent s d se k) := by
  simp only [SafeBatch]
  by_cases inside : k ≤ eventCost s d se <;> simp [inside]

theorem safeEvent_whole (s : AppState C.VerifyingKey) (d : String) (se : SignedEvent) :
    SafeEvent s d se (eventCost s d se) := by
  rintro ⟨dev, passes⟩ accrues
  simp [eventCost, passes, accrues]

theorem ingestEvent_kept {s : AppState C.VerifyingKey} (kept : Kept s.toLoaded) {d : String}
    {se : SignedEvent} (fits : ∀ a, EventFits s.toLoaded d se a) :
    Kept (ingestEvent C s d se).1.toLoaded := by
  have whole := (event_verdict kept fits (eventCost s d se)).keeps (safeEvent_whole s d se)
  rw [← eventCost_eq, List.take_length, eventWrites, ← (ingestEvent_effect s d se).1] at whole
  exact whole

theorem batch_verdict (ses : List SignedEvent) {s : AppState C.VerifyingKey}
    (kept : Kept s.toLoaded) {d : String} (fits : ∀ a, BatchFits s d a ses) (k : Nat) :
    Verdict (SafeBatch s d ses k) (s.toLoaded.execAll C ((ingestAll s d ses).2.take k)) := by
  induction ses generalizing s k with
  | nil =>
    simp only [ingestAll, List.take_nil, Loaded.execAll_nil]
    exact ⟨fun _ => kept, fun _ => trivial⟩
  | cons se rest ih =>
    have first := event_verdict kept (fun a => (fits a).1) k
    have others := ih (ingestEvent_kept kept fun a => (fits a).1) (fun a => (fits a).2)
      (k - eventCost s d se)
    have cost := eventCost_eq s d se
    rw [eventWrites] at cost first
    simp only [ingestAll, List.take_append, Loaded.execAll_append, SafeBatch, cost]
    by_cases inside : k ≤ eventCost s d se
    · rw [if_pos inside, Nat.sub_eq_zero_of_le inside, List.take_zero, Loaded.execAll_nil]
      exact first
    · rw [if_neg inside, List.take_of_length_le (by omega), ← (ingestEvent_effect s d se).1]
      exact others

theorem safeBatch_whole (ses : List SignedEvent) (s : AppState C.VerifyingKey) (d : String) :
    SafeBatch s d ses (ingestAll s d ses).2.length := by
  induction ses generalizing s with
  | nil => trivial
  | cons se rest ih =>
    have cost := eventCost_eq s d se
    have tail := ih (ingestEvent C s d se).1
    rw [eventWrites] at cost
    simp only [ingestAll, SafeBatch, List.length_append, cost]
    split
    · rename_i last
      have none : (ingestAll (ingestEvent C s d se).1 d rest).2.length = 0 := by omega
      rw [none]
      exact safeEvent_whole s d se
    · rw [Nat.add_sub_cancel_left]
      exact tail

theorem payOut_verdict {s : AppState C.VerifyingKey} (kept : Kept s.toLoaded) {req : RedeemReq}
    {account : String} {requested : Int} (pays : Pays s.toLoaded req account requested)
    (fits : FitsI64 (cashOuts (payOut C s account requested req.rail).state.redemptions))
    (k : Nat) : Verdict (k ≠ 1 ∧ k ≠ 2)
      (s.toLoaded.execAll C ((payOut C s account requested req.rail).writes.take k)) := by
  have positive := pays.positive
  have before := (kept.conserved.accounts account).account
  -- the ledger row is there and the balance still holds the money
  have broken (v : Loaded C.VerifyingKey)
    (balance : balanceOf v account = balanceOf s.toLoaded account)
      (imps : impressionsOf v account = impressionsOf s.toLoaded account)
      (cashed : redeemedBy v.ledger account = redeemedBy s.ledger account + requested) :
      ¬ Consistent v := by
    intro consistent
    have after := consistent.account account
    rw [balance, imps, cashed] at after
    omega
  rcases k with _ | _ | _ | k
  · exact ⟨fun _ => kept, fun _ => by omega⟩
  · refine ⟨fun safe => by omega, fun consistent => absurd consistent (broken _ rfl rfl ?_)⟩
    simp [payOut, Loaded.exec, redeemedBy, amounts]
  · refine ⟨fun safe => by omega, fun consistent => absurd consistent (broken _ rfl rfl ?_)⟩
    simp [payOut, Loaded.exec, redeemedBy, amounts]
  · have whole : (payOut C s account requested req.rail).writes.take (k + 3) =
        (payOut C s account requested req.rail).writes :=
      List.take_of_length_le (by simp [payOut])
    rw [whole, ← payOut_effect]
    refine ⟨fun _ => ⟨⟨fun a => payOut_account (kept.conserved.accounts a) pays,
      payOut_cashed kept.conserved.cashed account requested req.rail, fits⟩, ?_, ?_⟩,
        fun _ => by omega⟩
    · refine kept.once.keep [_] ?_ rfl subset_rfl
      simp
    · exact kept.paired.cashOut rfl

/-- A crash point that keeps the books, judged on the state before the request. -/
def SafePrefix (srv : ServerState C.VerifyingKey) : Request → Nat → Prop
  | .ingest req, k => SafeBatch srv.mem req.deviceId req.events k
  | .redeem req order, k => Granted srv.mem req order → k ≠ 1 ∧ k ≠ 2
  | _, _ => True

theorem inert_verdict {s : Loaded C.VerifyingKey} (kept : Kept s) {ws : List Stmt}
    (inert : ∀ w ∈ ws, w.Inert) (k : Nat) : Verdict True (s.execAll C (ws.take k)) :=
  ⟨fun _ => kept.inert fun w mem => inert w (List.mem_of_mem_take mem), fun _ => trivial⟩

theorem Stmt.Aside.inert {w : Stmt} (aside : w.Aside) : w.Inert := by
  cases w with
  | setBalance _ _ => cases aside
  | setImpressions _ _ => cases aside
  | insertLedger _ => cases aside
  | insertRedemption _ => cases aside
  | _ => trivial

theorem request_verdict {srv : ServerState C.VerifyingKey} (kept : Kept srv.mem.toLoaded)
    {r : Request} (fits : NoOverflow srv r) (k : Nat) :
    Verdict (SafePrefix srv r k) (srv.mem.toLoaded.execAll C ((srv.effect C r).2.take k)) := by
  cases r with
  | ingest req =>
    rw [ingest_effect]
    exact batch_verdict req.events kept fits.1 k
  | redeem req order =>
    have total := fits.2
    simp only [ServerState.step, ServerState.effect, SafePrefix] at total ⊢
    rcases redeem_cases srv.mem req order with ⟨account, requested, pays, granted, eq⟩ | ⟨error,
      refused, eq⟩
    · rw [eq] at total ⊢
      have verdict := payOut_verdict kept pays total k
      exact ⟨fun safe => verdict.keeps (safe granted),
        fun consistent _ => verdict.breaks consistent⟩
    · rw [eq, List.take_nil]
      exact ⟨fun _ => kept, fun _ granted => absurd granted refused⟩
  | register peer req now =>
    refine inert_verdict kept ?_ k
    simp only [ServerState.effect, register]
    split <;> simp [Stmt.Inert]
  | _ => exact inert_verdict kept (fun w mem => (aside_writes srv rfl w mem).inert) k

theorem safe_whole (srv : ServerState C.VerifyingKey) (r : Request) :
    SafePrefix srv r (srv.effect C r).2.length := by
  cases r with
  | ingest req =>
    rw [ingest_effect]
    exact safeBatch_whole req.events srv.mem req.deviceId
  | redeem req order =>
    simp only [ServerState.effect, SafePrefix]
    rcases redeem_cases srv.mem req order with ⟨account, requested, -, -, eq⟩ | ⟨error, refused, -⟩
    · rw [eq]
      simp [payOut]
    · exact fun granted => absurd granted refused
  | _ => trivial

/-- A completed request, or a crash at a point that keeps the books. -/
def SafeStep (srv : ServerState C.VerifyingKey) (a : Action)
    (srv' : ServerState C.VerifyingKey) : Prop :=
  srv' = srv.act C a ∧ match a with
    | .complete r => NoOverflow srv r
    | .crash r k _ _ => NoOverflow srv r ∧ SafePrefix srv r k

theorem safe_step_kept {srv srv' : ServerState C.VerifyingKey} {a : Action} (synced : Synced srv)
    (kept : Kept srv.mem.toLoaded) (step : SafeStep srv a srv') : Kept srv'.mem.toLoaded := by
  obtain ⟨rfl, safe⟩ := step
  cases a with
  | complete r =>
    have verdict := request_verdict kept safe (srv.effect C r).2.length
    rw [List.take_length, ← (effect_view synced r).1] at verdict
    exact verdict.keeps (safe_whole srv r)
  | crash r k now token =>
    have view := (crash_synced synced r k now token).2
    simp only [ServerState.act, view]
    exact (request_verdict kept safe.1 k).keeps safe.2

theorem safe_run_kept {now : Int} {token : Option String} {acts : List Action}
    {srv : ServerState C.VerifyingKey}
    (run : Run SafeStep (ServerState.fresh C now token) acts srv) :
    Synced srv ∧ Kept srv.mem.toLoaded := by
  have empty : Kept (ServerState.fresh C now token).mem.toLoaded := by
    refine ⟨fresh_conserved now token, fresh_once now token, ?_⟩
    rw [fresh_view]
    simp [load, Database.fresh, Paired]
  refine run.invariant (fun srv => Synced srv ∧ Kept srv.mem.toLoaded) ?_
    ⟨fresh_synced now token, empty⟩
  rintro s a t ⟨synced, kept⟩ step
  exact ⟨step.1 ▸ act_synced synced a, safe_step_kept synced kept step⟩

/-- The process dies between the ledger row and the balance row of a cash-out: what was
paid out is still there to be paid out again. -/
theorem crash_respends :
    ∃ srv, Run CleanStep (ServerState.fresh Reference.crates 0 none)
        (firstRequests Reference.crates (Reference.key 7)) srv ∧
      (∀ order, NoOverflow srv (.redeem ⟨"upi", none⟩ order)) ∧
      ∀ order, let view :=
          (srv.crash Reference.crates (.redeem ⟨"upi", none⟩ order) 1 0 none).mem.toLoaded
        balanceOf view "acct:d1" = 15000 ∧ redeemedBy view.ledger "acct:d1" = 15000 ∧
        impressionsOf view "acct:d1" = 3 ∧ ¬ Consistent view := by
  obtain ⟨srv, run, only, counted, rows, cashed⟩ :=
    first_requests_run Reference.crates (Reference.key 7)
  refine ⟨srv, run, fun order => ⟨fun a => trivial, ?_⟩, fun order => ?_⟩
  · obtain ⟨state, -⟩ := first_redeem (C := Reference.crates) only order
    simp only [ServerState.step, ServerState.effect]
    rw [state]
    simp [payOut, rows, cashOuts, FitsI64]
  · obtain ⟨-, writes⟩ := first_redeem (C := Reference.crates) only order
    have synced := (clean_run_conserved run).1
    have view := (crash_synced synced (.redeem ⟨"upi", none⟩ order) 1 0 none).2
    simp only [ServerState.effect, writes] at view
    have balance : balanceOf srv.mem.toLoaded "acct:d1" = 15000 := by simp [balanceOf, only]
    have ledger : redeemedBy (srv.mem.ledger ++
        [⟨"acct:d1", "acct:payout", 15000, .redeem, redemptionId srv.mem.nextRedemptionId⟩])
          "acct:d1" = 15000 := by
      rw [redeemedBy_append, cashed]
      simp [redeemedBy, amounts]
    simp only [view, payOut, List.take_succ_cons, List.take_zero, Loaded.execAll_cons,
      Loaded.execAll_nil, Loaded.exec]
    refine ⟨balance, ledger, counted, fun consistent => ?_⟩
    have sum := consistent.account "acct:d1"
    change balanceOf srv.mem.toLoaded "acct:d1" + redeemedBy (srv.mem.ledger ++ _) "acct:d1" =
      5000 * impressionsOf srv.mem.toLoaded "acct:d1" at sum
    rw [balance, ledger, counted] at sum
    omega

theorem crash_consistent {now : Int} {token : Option String} {acts : List Action}
    {srv : ServerState C.VerifyingKey}
    (run : Run SafeStep (ServerState.fresh C now token) acts srv) :
    Consistent srv.mem.toLoaded ∧ ∀ r k now token, NoOverflow srv r →
      (Consistent (srv.crash C r k now token).mem.toLoaded ↔ SafePrefix srv r k) := by
  obtain ⟨synced, kept⟩ := safe_run_kept run
  refine ⟨kept.consistent, fun r k now token fits => ?_⟩
  have verdict := request_verdict kept fits k
  rw [(crash_synced synced r k now token).2]
  exact ⟨verdict.breaks, fun safe => (verdict.keeps safe).consistent⟩

theorem crash_consistent_insideIngest :
    ∃ registers ingests t srv,
      firstRequests Reference.crates (Reference.key 7) = [registers, ingests] ∧
      Run SafeStep (ServerState.fresh Reference.crates 0 none)
        [.complete registers, .crash ingests 4 0 none] srv ∧ Consistent srv.mem.toLoaded ∧
      Run SafeStep (ServerState.fresh Reference.crates 0 none) [.complete registers] t ∧
      ¬ Consistent (t.crash Reference.crates ingests 3 0 none).mem.toLoaded := by
  obtain ⟨_, run, -⟩ := first_requests_run Reference.crates (Reference.key 7)
  cases run with
  | cons first rest =>
    cases rest with
    | cons second _ =>
      obtain ⟨registered, rfl⟩ := first
      obtain ⟨fits, -⟩ := second
      have step : SafeStep (ServerState.fresh Reference.crates 0 none) (.complete _) _ :=
        ⟨rfl, registered⟩
      have dies : SafeStep _ (.crash _ 4 0 none) _ :=
        ⟨rfl, fits, safeBatch_one.mpr fun _ _ _ => ⟨by decide, by decide⟩⟩
      have run := Run.cons step (.cons dies (.nil _))
      refine ⟨_, _, _, _, rfl, run, (crash_consistent run).1, .cons step (.nil _),
        fun consistent => ?_⟩
      have safe := ((crash_consistent (.cons step (.nil _))).2 _ 3 0 none fits).mp consistent
      have accepts := first_event_accepted (C := Reference.crates) (Reference.key 7)
        (fresh_seenEventIds 0 none) ⟨none, "127.0.0.1"⟩ 0
      have passes := (verifyEvent_ok _ _ _ _).mpr accepts
      have accrues : Accrues firstEvent := by decide
      have inside := (eventCost_credited passes accrues).ge
      exact (safeBatch_one.mp safe (Nat.le_trans (by decide) inside) ⟨_, passes⟩ accrues).1 rfl

end Spnr.Server
