import Mathlib.Data.Int.ModEq
import Spnr.Server.Honest
import Spnr.Server.Overflow
import Spnr.Server.Serve

/-! What `/api/stats` reports, and how far it can be believed. -/
namespace Spnr.Server

open RustStd

variable {C : Crates}

/-- `StatsResp`, without the amounts spelled out in dollars and the attestation
rate, which is a float. -/
structure StatsResp where
  campaign : String
  advertiser : String
  creativeText : String
  shortCode : String
  devices : Nat
  totalImpressions : Nat
  clicks : Nat
  totalBalanceMicros : Int
  totalRedeemedMicros : Int
  ledgerEntries : Nat
  ledgerBalanced : Bool
  accepted : Nat
  rejected : Nat

/-- The orders in which the maps happen to be visited. -/
structure Visits where
  impressions : HashMap.Order String Nat
  balances : HashMap.Order String Int
  nets : HashMap.Order String Int

def ledgerSumsToZero (ledger : List LedgerEntry) (order : HashMap.Order String Int) : Bool :=
  sumI64 (values order (netsOf ledger)) = 0

def stats (s : AppState C.VerifyingKey) (visits : Visits) : StatsResp where
  campaign := "House Ad — CloakPipe"
  advertiser := advertiser
  creativeText := flatPrimary.text
  shortCode := flatPrimary.shortCode
  devices := s.devices.keys.card
  totalImpressions := sumU64 (values visits.impressions s.impressions)
  clicks := s.clicks
  totalBalanceMicros := sumI64 (values visits.balances s.balances)
  totalRedeemedMicros := totalRedeemedMicros s.toLoaded
  ledgerEntries := s.ledger.length
  ledgerBalanced := ledgerSumsToZero s.ledger visits.nets
  accepted := s.accepted
  rejected := s.rejected

theorem i64_modEq (x : Int) : i64 x ≡ x [ZMOD 2 ^ 64] := Int.bmod_emod

theorem post_sum (nets : HashMap String Int) (e : LedgerEntry) :
    HashMap.sum id (post nets e) ≡ HashMap.sum id nets [ZMOD 2 ^ 64] := by
  have debited :=
    HashMap.sum_insert id nets e.debit (i64 (HashMap.valueAt id nets e.debit - e.amountMicros))
  have credited := HashMap.sum_insert id
    (nets.insert e.debit (i64 (HashMap.valueAt id nets e.debit - e.amountMicros)))
    e.credit (i64 (HashMap.valueAt id
      (nets.insert e.debit (i64 (HashMap.valueAt id nets e.debit - e.amountMicros))) e.credit +
      e.amountMicros))
  have less := i64_modEq (HashMap.valueAt id nets e.debit - e.amountMicros)
  rw [post]
  generalize nets.insert e.debit (i64 (HashMap.valueAt id nets e.debit - e.amountMicros)) =
    mid at debited credited ⊢
  have more := i64_modEq (HashMap.valueAt id mid e.credit + e.amountMicros)
  simp only [id_eq] at debited credited
  rw [Int.modEq_iff_dvd] at less more ⊢
  omega

theorem netsOf_sum (ledger : List LedgerEntry) :
    HashMap.sum id (netsOf ledger) ≡ 0 [ZMOD 2 ^ 64] := by
  induction ledger using List.reverseRecOn with
  | nil => rfl
  | append_singleton ledger e ih =>
    rw [netsOf_append]
    exact (post_sum (netsOf ledger) e).trans ih

/-- The check passes on every list of entries, right or wrong: it cannot fail in a release build. -/
theorem ledger_check_vacuous (ledger : List LedgerEntry) (order : HashMap.Order String Int) :
    ledgerSumsToZero ledger order = true := by
  have total : (values order (netsOf ledger)).sum = HashMap.sum id (netsOf ledger) :=
    order.sum id (netsOf ledger)
  rw [ledgerSumsToZero, decide_eq_true_iff, sumI64_eq, total, i64]
  exact Int.dvd_iff_bmod_eq_zero.mp (Int.modEq_zero_iff_dvd.mp (netsOf_sum ledger))

def answer (srv : ServerState C.VerifyingKey) : Request → Option IngestResp
  | .ingest req => some (ingest C srv.mem req).response
  | _ => none

def answersIn (srv : ServerState C.VerifyingKey) : List Request → List IngestResp
  | [] => []
  | r :: rs => (answer srv r).toList ++ answersIn (srv.step C r) rs

def Request.sent : Request → Nat
  | .ingest req => req.events.length
  | _ => 0

def Request.opens (s : AppState C.VerifyingKey) : Request → Bool
  | .click code => (s.creatives.find? (·.shortCode = code)).isSome
  | _ => false

/-- The clicks of a run on a code of the pool at that time. -/
def clicksIn (srv : ServerState C.VerifyingKey) : List Request → Nat
  | [] => 0
  | r :: rs => (if r.opens srv.mem then 1 else 0) + clicksIn (srv.step C r) rs

def Request.introduces (C : Crates) : Request → Option String
  | .register _ req _ => if (decodePubkey C req.pubkey).isSome then some req.deviceId else none
  | _ => none

structure Counts (s v : Loaded C.VerifyingKey) (a b : Nat) : Prop where
  accepted : v.accepted = s.accepted + a
  rejected : v.rejected = s.rejected + b
  seen : v.seenEventIds.card = s.seenEventIds.card + a
  clicks : v.clicks = s.clicks
  devices : v.devices.keys = s.devices.keys

theorem Counts.refl (s : Loaded C.VerifyingKey) : Counts s s 0 0 := ⟨rfl, rfl, rfl, rfl, rfl⟩

theorem Counts.trans {s m v : Loaded C.VerifyingKey} {a b a' b' : Nat} (first : Counts s m a b)
    (second : Counts m v a' b') : Counts s v (a + a') (b + b') := by
  refine ⟨?_, ?_, ?_, second.clicks.trans first.clicks, second.devices.trans first.devices⟩
  · rw [second.accepted, first.accepted, Nat.add_assoc]
  · rw [second.rejected, first.rejected, Nat.add_assoc]
  · rw [second.seen, first.seen, Nat.add_assoc]

theorem keys_insert_known {V : Type} {m : HashMap String V} {a : String} {v w : V}
    (known : m.lookup a = some w) : (m.insert a v).keys = m.keys := by
  ext id
  rw [Finmap.mem_keys, Finmap.mem_keys, Finmap.mem_insert]
  refine ⟨?_, .inr⟩
  rintro (rfl | there)
  · rw [← Finmap.lookup_isSome, known]
    rfl
  · exact there

theorem event_counts (s : AppState C.VerifyingKey) (d : String) (se : SignedEvent)
    (resp : IngestResp) :
    ∃ a b, Counts s.toLoaded (ingestEvent C s d se).1.toLoaded a b ∧ a + b = 1 ∧
      (resp.count C (acceptEvent C s d se)).accepted = resp.accepted + a ∧
      (resp.count C (acceptEvent C s d se)).rejected = resp.rejected + b := by
  rcases ingestEvent_cases s d se with ⟨dev, accepts, here⟩ | ⟨rejects, here⟩
  · refine ⟨1, 0, ?_, rfl, ?_⟩
    · rw [here]
      refine ⟨rfl, rfl, ?_, rfl, ?_⟩
      · exact Finset.card_insert_of_notMem accepts.unseen
      · exact keys_insert_known accepts.known
    · rw [acceptEvent_ok accepts]
      exact ⟨rfl, rfl⟩
  · refine ⟨0, 1, ?_, rfl, ?_⟩
    · rw [here]
      exact ⟨rfl, rfl, rfl, rfl, rfl⟩
    · obtain ⟨reason, error⟩ := acceptEvent_error rejects
      rw [error]
      exact ⟨rfl, rfl⟩

theorem loop_counts (d : String) (ses : List SignedEvent)
    (out : Outcome C.VerifyingKey IngestResp) :
    ∃ a b, Counts out.state.toLoaded (ingestLoop C d ses out).state.toLoaded a b ∧
    a + b = ses.length ∧
      (ingestLoop C d ses out).response.accepted = out.response.accepted + a ∧
      (ingestLoop C d ses out).response.rejected = out.response.rejected + b := by
  induction ses generalizing out with
  | nil => exact ⟨0, 0, .refl _, rfl, rfl, rfl⟩
  | cons se rest ih =>
    obtain ⟨a, b, counts, one, yes, no⟩ := event_counts out.state d se out.response
    obtain ⟨a', b', later, all, yes', no'⟩ :=
      ih ⟨(ingestEvent C out.state d se).1, out.writes ++ (ingestEvent C out.state d se).2,
      out.response.count C (acceptEvent C out.state d se)⟩
    refine ⟨a + a', b + b', counts.trans later, ?_, ?_, ?_⟩
    · rw [List.length_cons]
      omega
    · rw [ingestLoop, yes', yes, Nat.add_assoc]
    · rw [ingestLoop, no', no, Nat.add_assoc]

/-- Every entry is one leg of an impression's two, or a cash-out. -/
def Legged (s : Loaded C.VerifyingKey) : Prop :=
  s.ledger.length = 2 * (s.ledger.filter (·.kind = .impEarn)).length + s.redemptions.length

theorem Legged.batch (ses : List SignedEvent) {s : AppState C.VerifyingKey}
    (legged : Legged s.toLoaded) (d : String) : Legged (ingestAll s d ses).1.toLoaded := by
  induction ses generalizing s with
  | nil => exact legged
  | cons se rest ih =>
    apply ih
    rcases ingestEvent_cases s d se with ⟨dev, -, here⟩ | ⟨-, here⟩
    · rw [here]
      unfold Legged at legged ⊢
      by_cases accrues : Accrues se.e <;> simp [advance, newLedger, accrues] <;> omega
    · rw [here]
      exact legged

theorem Legged.step {srv : ServerState C.VerifyingKey} (synced : Synced srv)
    (legged : Legged srv.mem.toLoaded) (r : Request) : Legged (srv.step C r).mem.toLoaded := by
  have step := step_cases synced r
  generalize (srv.step C r).mem.toLoaded = after at step ⊢
  cases step with
  | register peer req now =>
    simp only [register]
    split <;> exact legged
  | ingest req => exact legged.batch req.events req.deviceId
  | redeem req order pays =>
    unfold Legged at legged ⊢
    simp [payOut]
    omega
  | other clicks => exact legged

structure Tallied (srv srv' : ServerState C.VerifyingKey) (r : Request) : Prop where
  accepted : srv'.mem.accepted = srv.mem.accepted + ((answer srv r).map IngestResp.accepted).getD 0
  rejected : srv'.mem.rejected = srv.mem.rejected + ((answer srv r).map IngestResp.rejected).getD 0
  seen : srv'.mem.seenEventIds.card = srv.mem.seenEventIds.card +
    ((answer srv r).map IngestResp.accepted).getD 0
  sent : ((answer srv r).map IngestResp.accepted).getD 0 +
    ((answer srv r).map IngestResp.rejected).getD 0 = r.sent
  clicks : srv'.mem.clicks = srv.mem.clicks + if r.opens srv.mem then 1 else 0
  devices : srv'.mem.devices.keys = srv.mem.devices.keys ∪ (r.introduces C).toFinset

theorem Tallied.same {srv srv' : ServerState C.VerifyingKey} {r : Request}
    (silent : answer srv r = none)
    (sent : r.sent = 0) (opens : r.opens srv.mem = false) (introduces : r.introduces C = none)
    (accepted : srv'.mem.accepted = srv.mem.accepted)
    (rejected : srv'.mem.rejected = srv.mem.rejected)
    (seen : srv'.mem.seenEventIds = srv.mem.seenEventIds)
    (clicks : srv'.mem.clicks = srv.mem.clicks)
    (devices : srv'.mem.devices = srv.mem.devices) : Tallied srv srv' r := by
  constructor
  · rw [accepted, silent]; rfl
  · rw [rejected, silent]; rfl
  · rw [seen, silent]; rfl
  · rw [silent, sent]; rfl
  · rw [clicks, opens]; rfl
  · rw [devices, introduces]
    exact (Finset.union_empty _).symm

theorem step_tallied {srv : ServerState C.VerifyingKey} (synced : Synced srv) (r : Request) :
    Tallied srv (srv.step C r) r := by
  cases r with
  | register peer req now =>
    simp only [ServerState.step, ServerState.effect, register]
    cases key : decodePubkey C req.pubkey with
    | none => exact .same rfl rfl rfl (by simp [Request.introduces, key]) rfl rfl rfl rfl rfl
    | some pubkey =>
      refine ⟨rfl, rfl, rfl, rfl, rfl, ?_⟩
      have introduces : Request.introduces C (.register peer req now) = some req.deviceId := by
        simp [Request.introduces, key]
      rw [introduces]
      ext id
      simp [Finmap.mem_keys]
  | ingest req =>
    obtain ⟨a, b, counts, all, yes, no⟩ :=
      loop_counts req.deviceId req.events ⟨srv.mem, [], ⟨0, 0, []⟩⟩
    have accepted : (ingest C srv.mem req).response.accepted = a := yes.trans (Nat.zero_add a)
    have rejected : (ingest C srv.mem req).response.rejected = b := no.trans (Nat.zero_add b)
    constructor
    · simp only [answer, Option.map_some, Option.getD_some, accepted]
      exact counts.accepted
    · simp only [answer, Option.map_some, Option.getD_some, rejected]
      exact counts.rejected
    · simp only [answer, Option.map_some, Option.getD_some, accepted]
      exact counts.seen
    · simp only [answer, Option.map_some, Option.getD_some, accepted, rejected]
      exact all
    · exact counts.clicks
    · exact counts.devices.trans (Finset.union_empty _).symm
  | redeem req order =>
    simp only [ServerState.step, ServerState.effect]
    rcases redeem_cases srv.mem req order with ⟨account, requested, -, -, eq⟩ | ⟨error, -, eq⟩
    · rw [eq]
      exact .same rfl rfl rfl rfl rfl rfl rfl rfl rfl
    · rw [eq]
      exact .same rfl rfl rfl rfl rfl rfl rfl rfl rfl
  | click code =>
    simp only [ServerState.step, ServerState.effect, click]
    cases found : srv.mem.creatives.find? (·.shortCode = code) with
    | none => exact .same rfl rfl (by simp only [Request.opens, found]; rfl) rfl rfl rfl rfl rfl rfl
    | some c =>
      have opens : Request.opens srv.mem (.click code) = true := by
        simp only [Request.opens, found]
        rfl
      refine ⟨rfl, rfl, rfl, rfl, ?_, (Finset.union_empty _).symm⟩
      rw [opens]
      rfl
  | adminCreate presented req fresh =>
    simp only [ServerState.step, ServerState.effect, adminCreateCreative]
    split
    · exact .same rfl rfl rfl rfl rfl rfl rfl rfl rfl
    · split <;> exact .same rfl rfl rfl rfl rfl rfl rfl rfl rfl
  | adminDelete presented id =>
    simp only [ServerState.step, ServerState.effect, adminDeleteCreative]
    split
    · exact .same rfl rfl rfl rfl rfl rfl rfl rfl rfl
    · split <;> exact .same rfl rfl rfl rfl rfl rfl rfl rfl rfl
  | restart now token =>
    have view := restart_view synced now token
    exact .same rfl rfl rfl rfl (congrArg Loaded.accepted view) (congrArg Loaded.rejected view)
      (congrArg Loaded.seenEventIds view) (congrArg Loaded.clicks view)
        (congrArg Loaded.devices view)

structure TalliedRun (srv srv' : ServerState C.VerifyingKey) (rs : List Request) : Prop where
  accepted : srv'.mem.accepted = srv.mem.accepted + ((answersIn srv rs).map IngestResp.accepted).sum
  rejected : srv'.mem.rejected = srv.mem.rejected + ((answersIn srv rs).map IngestResp.rejected).sum
  seen : srv'.mem.seenEventIds.card = srv.mem.seenEventIds.card +
    ((answersIn srv rs).map IngestResp.accepted).sum
  sent : ((answersIn srv rs).map IngestResp.accepted).sum +
    ((answersIn srv rs).map IngestResp.rejected).sum = (rs.map Request.sent).sum
  clicks : srv'.mem.clicks = srv.mem.clicks + clicksIn srv rs
  devices : srv'.mem.devices.keys = srv.mem.devices.keys ∪
    (rs.filterMap (Request.introduces C)).toFinset

theorem sum_toList (f : IngestResp → Nat) (resp : Option IngestResp) (rest : List IngestResp) :
    ((resp.toList ++ rest).map f).sum = (resp.map f).getD 0 + (rest.map f).sum := by
  cases resp with
  | none => exact (Nat.zero_add _).symm
  | some resp => rfl

theorem run_tallied (rs : List Request) {srv : ServerState C.VerifyingKey} (synced : Synced srv) :
    TalliedRun srv (srv.after rs) rs := by
  induction rs generalizing srv with
  | nil => exact ⟨rfl, rfl, rfl, rfl, rfl, (Finset.union_empty _).symm⟩
  | cons r rs ih =>
    have first := step_tallied synced r
    have later := ih (step_synced synced r)
    have after : srv.after (r :: rs) = (srv.step C r).after rs := rfl
    constructor
    · rw [after, later.accepted, first.accepted, answersIn, sum_toList, Nat.add_assoc]
    · rw [after, later.rejected, first.rejected, answersIn, sum_toList, Nat.add_assoc]
    · rw [after, later.seen, first.seen, answersIn, sum_toList, Nat.add_assoc]
    · rw [answersIn, sum_toList, sum_toList, List.map_cons, List.sum_cons, ← later.sent,
        ← first.sent]
      omega
    · rw [after, later.clicks, first.clicks, clicksIn, Nat.add_assoc]
    · rw [after, later.devices, first.devices, Finset.union_assoc]
      congr 1
      ext id
      cases introduced : r.introduces C with
      | none => simp [List.filterMap_cons_none introduced]
      | some d => simp [List.filterMap_cons_some introduced]

theorem after_paired (rs : List Request) {srv : ServerState C.VerifyingKey} (synced : Synced srv)
    (legged : Legged srv.mem.toLoaded) : Legged (srv.after rs).mem.toLoaded := by
  induction rs generalizing srv with
  | nil => exact legged
  | cons r rs ih => exact ih (step_synced synced r) (legged.step synced r)

theorem after_solvent (rs : List Request) {srv : ServerState C.VerifyingKey} (synced : Synced srv)
    (solvent : Solvent srv.mem.toLoaded) (room : RunRoom srv rs) :
    Solvent (srv.after rs).mem.toLoaded := by
  induction rs generalizing srv with
  | nil => exact solvent
  | cons r rs ih => exact ih (step_synced synced r) (step_solvent synced solvent room.1).2 room.2

theorem Solvent.stats {s : AppState C.VerifyingKey} (solvent : Solvent s.toLoaded)
    (visits : Visits) :
    (Server.stats s visits).totalBalanceMicros + (Server.stats s visits).totalRedeemedMicros =
      5000 * (Server.stats s visits).totalImpressions := by
  have cashed := solvent.cashed
  have most := solvent.redeemed_le
  have least := solvent.redeemed_nonneg
  have low := solvent.low
  have high := solvent.high
  have held := solvent.held
  have counted := solvent.counted
  have balances : (values visits.balances s.balances).sum = HashMap.sum id s.balances :=
    visits.balances.sum id s.balances
  have impressions : ((values visits.impressions s.impressions).sum : Int) =
    HashMap.sum Nat.cast s.impressions := by
    rw [← visits.impressions.sum, values, Nat.cast_list_sum, List.map_map]
    rfl
  have nonneg : 0 ≤ HashMap.sum id s.balances := HashMap.sum_nonneg id s.balances solvent.nonneg
  have fits : FitsI64 (HashMap.sum id s.balances) := ⟨by omega, by omega⟩
  have redeemed : totalRedeemedMicros s.toLoaded = cashOuts s.redemptions :=
    totalRedeemed_eq ⟨by omega, by omega⟩
  have few : (values visits.impressions s.impressions).sum < 2 ^ 64 := by
    unfold unpaid at low
    omega
  simp only [Server.stats, sumI64_eq, sumU64_eq, balances, i64_of_fits fits, redeemed,
    Nat.mod_eq_of_lt few, impressions]
  unfold unpaid at held
  omega

/-- What `/api/stats` reports after any run, restarts included: the tallies are the sums of
the answers given, one event id each, and where nothing overflowed the money adds up. -/
theorem stats_true (now : Int) (token : Option String) (rs : List Request) (visits : Visits) :
    let start := ServerState.fresh C now token
    let srv := start.after rs
    let st := stats srv.mem visits
    st.accepted = ((answersIn start rs).map IngestResp.accepted).sum ∧
      st.rejected = ((answersIn start rs).map IngestResp.rejected).sum ∧
      st.accepted + st.rejected = (rs.map Request.sent).sum ∧
      st.accepted = srv.mem.seenEventIds.card ∧
      st.clicks = clicksIn start rs ∧
      st.devices = (rs.filterMap (Request.introduces C)).toFinset.card ∧
      st.ledgerEntries = 2 * (srv.mem.ledger.filter (·.kind = .impEarn)).length +
        srv.mem.redemptions.length ∧
      (RunRoom start rs → st.totalBalanceMicros + st.totalRedeemedMicros =
        5000 * st.totalImpressions) := by
  intro start srv st
  have synced := fresh_synced (C := C) now token
  have tallied := run_tallied rs synced
  have view := fresh_view (C := C) now token
  have accepted := tallied.accepted
  have rejected := tallied.rejected
  have seen := tallied.seen
  have clicks := tallied.clicks
  have devices := tallied.devices
  simp only [view, load, Database.fresh, kvGet, Finmap.lookup_empty, Option.getD_none, Nat.zero_add,
    Finset.card_empty]
    at accepted rejected seen clicks devices
  have legged : Legged (ServerState.fresh C now token).mem.toLoaded := by
    rw [view]
    simp [Legged, load, Database.fresh]
  refine ⟨?_, ?_, ?_, ?_, ?_, ?_, after_paired rs synced legged, ?_⟩
  · exact accepted
  · exact rejected
  · rw [← tallied.sent]
    exact congrArg₂ (· + ·) accepted rejected
  · exact accepted.trans seen.symm
  · exact clicks
  · have none :
      (HashMap.filterMap (fun row : DeviceRow => (decodePubkey C row.pubkeyHex).map fun pubkey =>
        (⟨pubkey, row.accountId, row.chainHead, row.ctrHead⟩ : DeviceRec C.VerifyingKey))
          (∅ : HashMap String DeviceRow)).keys = ∅ := by
      ext id
      simp [Finmap.mem_keys, ← Finmap.lookup_isSome]
    have known : srv.mem.devices.keys = (rs.filterMap (Request.introduces C)).toFinset := by
      rw [devices, none]
      exact Finset.empty_union _
    exact congrArg Finset.card known
  · intro room
    exact (after_solvent rs synced (fresh_solvent now token) room).stats visits

theorem clean_after {s t : ServerState C.VerifyingKey} {rs : List Request}
    (run : Transition.Run CleanStep s rs t) : t = s.after rs := by
  induction run with
  | nil s => rfl
  | cons first _ ih =>
    rw [ih, first.2]
    rfl

def paidRequests (C : Crates) (key : C.SigningKey) (order : HashMap.Order String Int) :
    List Request :=
  firstRequests C key ++ [.redeem ⟨"upi", none⟩ order, .click "AbC9", .click "none"]

theorem paid_room (key : C.SigningKey) (order : HashMap.Order String Int) :
    RunRoom (ServerState.fresh C 0 none) (paidRequests C key order) := by
  obtain ⟨srv, run, only, -⟩ := first_requests_run C key
  obtain ⟨ledger, -⟩ :=
    register_ledger (ServerState.fresh C 0 none).mem ⟨none, "127.0.0.1"⟩ (firstRegister C key) 0
  have accepts :=
    first_event_accepted (C := C) key (fresh_seenEventIds 0 none) ⟨none, "127.0.0.1"⟩ 0
  have empty := ledger.trans (fresh_ledger 0 none)
  refine ⟨trivial, ⟨⟨?_, ?_⟩, trivial⟩, ?_, trivial, trivial, trivial⟩
  · rintro ⟨dev, _, found, -, -, -, c, spent, -⟩
    cases Option.some.inj (accepts.known.symm.trans found)
    cases spent
  · intro dev accepts' _
    have fits : AccrualFits [] "acct:d1" firstEvent := ⟨by decide, by decide⟩
    rw [← empty] at fits
    cases accepts.device_unique accepts'
    exact fits
  · intro available top
    have found : primary C srv.mem order = some ("acct:house", available) := by
      rw [clean_after run]
      exact top
    rw [primary_only only order] at found
    exact absurd (Prod.mk.inj (Option.some.inj found)).1 (by decide)

theorem stats_true_cashOut :
    ∃ visits, let rs := paidRequests Reference.crates (Reference.key 7) default
      let srv := (ServerState.fresh Reference.crates 0 none).after rs
      let st := stats srv.mem visits
      st.accepted + st.rejected = 1 ∧ st.accepted = srv.mem.seenEventIds.card ∧
        st.ledgerEntries = 2 * (srv.mem.ledger.filter (·.kind = .impEarn)).length +
          srv.mem.redemptions.length ∧
        st.totalBalanceMicros + st.totalRedeemedMicros = 5000 * st.totalImpressions := by
  refine ⟨⟨default, default, default⟩, ?_⟩
  intro rs srv st
  obtain ⟨-, -, sent, seen, -, -, entries, money⟩ :=
    stats_true (C := Reference.crates) 0 none rs ⟨default, default, default⟩
  exact ⟨sent, seen, entries, money (paid_room _ _)⟩

end Spnr.Server
