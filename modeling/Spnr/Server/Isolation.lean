import Mathlib.Data.List.Forall2
import Spnr.Lib.Unwinding
import Spnr.Server.Honest

/-! Devices do not disturb each other. What the server answers a device and keeps about
it depends on that device's own requests, whatever the others send and wherever the
server crashes and restarts in between. -/
namespace Spnr.Server

open RustStd Transition

variable {C : Crates}

/-- `BalanceResp`, without the amount spelled out in dollars. -/
structure BalanceResp where
  accountId : String
  impressions : Nat
  balanceUsdMicros : Int
  deriving DecidableEq

def balance (s : AppState C.VerifyingKey) (deviceId : String) : BalanceResp :=
  let accountId := accountOf deviceId
  ⟨accountId, (s.impressions.lookup accountId).getD 0, (s.balances.lookup accountId).getD 0⟩

def Request.concerns (d : String) : Request → Bool
  | .register _ req _ => req.deviceId = d
  | .ingest req => req.deviceId = d
  | _ => false

def Action.request : Action → Request
  | .complete r => r
  | .crash r _ _ _ => r

def Action.concerns (d : String) (a : Action) : Bool := a.request.concerns d

/-- A request that pays out takes from whichever account holds most. -/
def Request.Redeems : Request → Prop
  | .redeem _ _ => True
  | _ => False

inductive Reply where
  | registered (resp : RegisterResp)
  | ingested (resp : IngestResp)
  deriving DecidableEq

def reply (srv : ServerState C.VerifyingKey) : Action → Option Reply
  | .complete (.register peer req now) =>
    some (.registered (register C srv.mem peer req now).response)
  | .complete (.ingest req) => some (.ingested (ingest C srv.mem req).response)
  | _ => none

def earnings (ledger : List LedgerEntry) (account : String) : List LedgerEntry :=
  ledger.filter fun e => e.credit = account ∧ e.kind = .impEarn

/-- The two views agree about the device, and about the event ids in `own`. -/
structure Slice (d : String) (own : Set String) (s t : Loaded C.VerifyingKey) : Prop where
  device : s.devices.lookup d = t.devices.lookup d
  balance : s.balances.lookup (accountOf d) = t.balances.lookup (accountOf d)
  impressions : s.impressions.lookup (accountOf d) = t.impressions.lookup (accountOf d)
  earned : earnings s.ledger (accountOf d) = earnings t.ledger (accountOf d)
  seen : ∀ id ∈ own, (id ∈ s.seenEventIds ↔ id ∈ t.seenEventIds)

theorem Slice.refl (d : String) (own : Set String) (s : Loaded C.VerifyingKey) : Slice d own s s :=
  ⟨rfl, rfl, rfl, rfl, fun _ _ => Iff.rfl⟩

theorem Slice.symm {d : String} {own : Set String} {s t : Loaded C.VerifyingKey}
    (slice : Slice d own s t) : Slice d own t s :=
  ⟨slice.device.symm, slice.balance.symm, slice.impressions.symm, slice.earned.symm,
    fun id mem => (slice.seen id mem).symm⟩

theorem Slice.trans {d : String} {own : Set String} {s t u : Loaded C.VerifyingKey}
    (first : Slice d own s t) (second : Slice d own t u) : Slice d own s u :=
  ⟨first.device.trans second.device, first.balance.trans second.balance,
    first.impressions.trans second.impressions,
    first.earned.trans second.earned, fun id mem => (first.seen id mem).trans (second.seen id mem)⟩

def Stmt.Apart (d : String) (own : Set String) : Stmt → Prop
  | .upsertDevice id _ | .updateDeviceHead id _ _ => id ≠ d
  | .ensureBalance a | .ensureImpressions a | .setBalance a _ | .setImpressions a _ =>
    a ≠ accountOf d
  | .insertLedger e => ¬ (e.credit = accountOf d ∧ e.kind = .impEarn)
  | .insertSeenEvent id => id ∉ own
  | .kvSet _ _ | .insertRedemption _ | .insertCreative _ _ _ | .deleteCreative _
  | .upsertDeviceMeta _ _ => True

section

variable {d : String} {own : Set String}

theorem Stmt.Aside.apart {w : Stmt} (aside : w.Aside) : w.Apart d own := by
  cases w with
  | kvSet | insertCreative | deleteCreative => trivial
  | _ => cases aside

theorem exec_apart (s : Loaded C.VerifyingKey) {w : Stmt} (apart : w.Apart d own) :
    Slice d own (s.exec C w) s := by
  cases w with
  | kvSet | insertRedemption | insertCreative | deleteCreative | upsertDeviceMeta =>
    exact ⟨rfl, rfl, rfl, rfl, fun _ _ => Iff.rfl⟩
  | upsertDevice id row =>
    refine ⟨?_, rfl, rfl, rfl, fun _ _ => Iff.rfl⟩
    simp only [Loaded.exec]
    split
    · rw [HashMap.lookup_insert, if_neg (Ne.symm apart)]
    · rw [HashMap.lookup_erase, if_neg (Ne.symm apart)]
  | updateDeviceHead id head ctr =>
    simp only [Loaded.exec]
    split
    · refine ⟨?_, rfl, rfl, rfl, fun _ _ => Iff.rfl⟩
      rw [HashMap.lookup_insert, if_neg (Ne.symm apart)]
    · exact .refl d own s
  | ensureBalance a =>
    simp only [Loaded.exec]
    split
    · exact .refl d own s
    · refine ⟨rfl, ?_, rfl, rfl, fun _ _ => Iff.rfl⟩
      rw [HashMap.lookup_insert, if_neg (Ne.symm apart)]
  | ensureImpressions a =>
    simp only [Loaded.exec]
    split
    · exact .refl d own s
    · refine ⟨rfl, rfl, ?_, rfl, fun _ _ => Iff.rfl⟩
      rw [HashMap.lookup_insert, if_neg (Ne.symm apart)]
  | setBalance a micros =>
    refine ⟨rfl, ?_, rfl, rfl, fun _ _ => Iff.rfl⟩
    rw [Loaded.exec, HashMap.lookup_insert, if_neg (Ne.symm apart)]
  | setImpressions a n =>
    refine ⟨rfl, rfl, ?_, rfl, fun _ _ => Iff.rfl⟩
    rw [Loaded.exec, HashMap.lookup_insert, if_neg (Ne.symm apart)]
  | insertLedger e =>
    refine ⟨rfl, rfl, rfl, ?_, fun _ _ => Iff.rfl⟩
    have out : ¬ (e.credit = accountOf d ∧ e.kind = .impEarn) := apart
    simp [Loaded.exec, earnings, out]
  | insertSeenEvent id =>
    refine ⟨rfl, rfl, rfl, rfl, ?_⟩
    intro id' mem
    have other : id' ≠ id := fun same => apart (same ▸ mem)
    simp [Loaded.exec, other]

theorem mem_of_lookup {V : Type} {m m' : HashMap String V} {a : String}
    (same : m.lookup a = m'.lookup a) : a ∈ m ↔ a ∈ m' := by
  rw [← Finmap.lookup_isSome, ← Finmap.lookup_isSome, same]

theorem exec_slice {s t : Loaded C.VerifyingKey} (slice : Slice d own s t) (w : Stmt) :
    Slice d own (s.exec C w) (t.exec C w) := by
  by_cases apart : w.Apart d own
  · exact (exec_apart s apart).trans (slice.trans (exec_apart t apart).symm)
  · cases w with
    | kvSet | insertRedemption | insertCreative | deleteCreative | upsertDeviceMeta =>
      exact absurd trivial apart
    | upsertDevice id row =>
      refine ⟨?_, slice.balance, slice.impressions, slice.earned, slice.seen⟩
      simp only [Loaded.exec]
      split
      · rw [HashMap.lookup_insert, HashMap.lookup_insert, slice.device]
      · rw [HashMap.lookup_erase, HashMap.lookup_erase, slice.device]
    | updateDeviceHead id head ctr =>
      obtain rfl : id = d := not_not.mp apart
      have device := slice.device
      simp only [Loaded.exec]
      cases known : s.devices.lookup id with
      | none =>
        rw [← device, known]
        exact slice
      | some dev =>
        rw [← device, known]
        refine ⟨?_, slice.balance, slice.impressions, slice.earned, slice.seen⟩
        rw [HashMap.lookup_insert, HashMap.lookup_insert, if_pos rfl, if_pos rfl]
    | ensureBalance a =>
      obtain rfl : a = accountOf d := not_not.mp apart
      have known := mem_of_lookup slice.balance
      simp only [Loaded.exec]
      by_cases there : accountOf d ∈ s.balances
      · rw [if_pos there, if_pos (known.mp there)]
        exact slice
      · rw [if_neg there, if_neg fun h => there (known.mpr h)]
        refine ⟨slice.device, ?_, slice.impressions, slice.earned, slice.seen⟩
        rw [HashMap.lookup_insert, HashMap.lookup_insert, slice.balance]
    | ensureImpressions a =>
      obtain rfl : a = accountOf d := not_not.mp apart
      have known := mem_of_lookup slice.impressions
      simp only [Loaded.exec]
      by_cases there : accountOf d ∈ s.impressions
      · rw [if_pos there, if_pos (known.mp there)]
        exact slice
      · rw [if_neg there, if_neg fun h => there (known.mpr h)]
        refine ⟨slice.device, slice.balance, ?_, slice.earned, slice.seen⟩
        rw [HashMap.lookup_insert, HashMap.lookup_insert, slice.impressions]
    | setBalance a micros =>
      refine ⟨slice.device, ?_, slice.impressions, slice.earned, slice.seen⟩
      rw [Loaded.exec, Loaded.exec, HashMap.lookup_insert, HashMap.lookup_insert, slice.balance]
    | setImpressions a n =>
      refine ⟨slice.device, slice.balance, ?_, slice.earned, slice.seen⟩
      rw [Loaded.exec, Loaded.exec, HashMap.lookup_insert, HashMap.lookup_insert, slice.impressions]
    | insertLedger e =>
      refine ⟨slice.device, slice.balance, slice.impressions, ?_, slice.seen⟩
      have earned := slice.earned
      simp only [earnings] at earned
      simp only [Loaded.exec, earnings, List.filter_append, earned]
    | insertSeenEvent id =>
      refine ⟨slice.device, slice.balance, slice.impressions, slice.earned, ?_⟩
      intro id' mem
      simp only [Loaded.exec, Finset.mem_insert, slice.seen id' mem]

/-- The same statement, or two that say nothing about the device. -/
def Echo (d : String) (own : Set String) (w w' : Stmt) : Prop :=
  w = w' ∨ w.Apart d own ∧ w'.Apart d own

theorem execAll_echo {ws ws' : List Stmt} (echo : List.Forall₂ (Echo d own) ws ws')
    {s t : Loaded C.VerifyingKey}
    (slice : Slice d own s t) : Slice d own (s.execAll C ws) (t.execAll C ws') := by
  induction echo generalizing s t with
  | nil => exact slice
  | @cons w w' ws ws' first _ ih =>
    rw [Loaded.execAll_cons, Loaded.execAll_cons]
    apply ih
    rcases first with rfl | ⟨apart, apart'⟩
    · exact exec_slice slice w
    · exact (exec_apart s apart).trans (slice.trans (exec_apart t apart').symm)

theorem execAll_apart {ws : List Stmt} (apart : ∀ w ∈ ws, w.Apart d own)
    (s : Loaded C.VerifyingKey) : Slice d own (s.execAll C ws) s := by
  induction ws generalizing s with
  | nil => exact .refl d own s
  | cons w ws ih =>
    obtain ⟨first, rest⟩ := List.forall_mem_cons.mp apart
    rw [Loaded.execAll_cons]
    exact (ih rest _).trans (exec_apart s first)

theorem echo_refl (ws : List Stmt) : List.Forall₂ (Echo d own) ws ws :=
  List.forall₂_same.mpr fun _ _ => .inl rfl

theorem echo_append {us us' ws ws' : List Stmt} (first : List.Forall₂ (Echo d own) us us')
    (second : List.Forall₂ (Echo d own) ws ws') :
    List.Forall₂ (Echo d own) (us ++ ws) (us' ++ ws') :=
  List.rel_append first second

theorem Slice.balanceOf {s t : Loaded C.VerifyingKey} (slice : Slice d own s t) :
    Server.balanceOf s (accountOf d) = Server.balanceOf t (accountOf d) := by
  rw [Server.balanceOf, Server.balanceOf, slice.balance]

theorem Slice.impressionsOf {s t : Loaded C.VerifyingKey} (slice : Slice d own s t) :
    Server.impressionsOf s (accountOf d) = Server.impressionsOf t (accountOf d) := by
  rw [Server.impressionsOf, Server.impressionsOf, slice.impressions]

theorem Slice.verifyEvent {s t : AppState C.VerifyingKey}
    (slice : Slice d own s.toLoaded t.toLoaded) {se : SignedEvent}
    (mine : se.e.id ∈ own) : Server.verifyEvent C s d se = Server.verifyEvent C t d se := by
  have seen : (se.e.id ∈ s.seenEventIds) = (se.e.id ∈ t.seenEventIds) :=
    propext (slice.seen se.e.id mine)
  simp only [Server.verifyEvent, slice.device, seen]

theorem Slice.event {s t : AppState C.VerifyingKey} (slice : Slice d own s.toLoaded t.toLoaded)
    (owned : Owned s.toLoaded) {se : SignedEvent} (mine : se.e.id ∈ own) :
    List.Forall₂ (Echo d own) (ingestEvent C s d se).2 (ingestEvent C t d se).2 ∧
      Slice d own (ingestEvent C s d se).1.toLoaded (ingestEvent C t d se).1.toLoaded ∧
      ∀ resp : IngestResp,
        resp.count C (acceptEvent C s d se) = resp.count C (acceptEvent C t d se) := by
  have same := slice.verifyEvent mine
  have echo : List.Forall₂ (Echo d own) (ingestEvent C s d se).2 (ingestEvent C t d se).2 := by
    rcases ingestEvent_cases s d se with ⟨dev, accepts, here⟩ | ⟨rejects, here⟩
    · have accepts' : Accepts t.toLoaded d se dev := by
        rw [← verifyEvent_ok, ← same, verifyEvent_ok]
        exact accepts
      have account := owned d dev accepts.known
      rw [here, ingestEvent_accepted accepts']
      refine echo_append ?_ (.cons (.inr ⟨trivial, trivial⟩) .nil)
      have writes : acceptWrites C s d dev se.e = acceptWrites C t d dev se.e := by
        have balance := slice.balanceOf
        have impressions := slice.impressionsOf
        rw [← account] at balance impressions
        simp only [Server.balanceOf, Server.impressionsOf] at balance impressions
        by_cases accrues : Accrues se.e <;>
          simp [acceptWrites, advance, Server.balanceOf, Server.impressionsOf, accrues, balance,
            impressions]
      rw [writes]
      exact echo_refl _
    · have rejects' : ∀ dev, ¬ Accepts t.toLoaded d se dev := by
        intro dev
        rw [← verifyEvent_ok, ← same, verifyEvent_ok]
        exact rejects dev
      rw [here, ingestEvent_rejected rejects']
      exact .cons (.inr ⟨trivial, trivial⟩) .nil
  refine ⟨echo, ?_, ?_⟩
  · rw [(ingestEvent_effect s d se).1, (ingestEvent_effect t d se).1]
    exact execAll_echo echo slice
  · intro resp
    rw [acceptEvent, acceptEvent, same]
    cases Server.verifyEvent C t d se <;> rfl

theorem ingestEvent_owned {s : AppState C.VerifyingKey} (owned : Owned s.toLoaded) (d : String)
    (se : SignedEvent) : Owned (ingestEvent C s d se).1.toLoaded := by
  rw [(ingestEvent_effect s d se).1]
  apply execAll_owned _ owned
  have names := ingestAll_names [se] s d
  simpa [ingestAll] using names

theorem Slice.batch (ses : List SignedEvent) {s t : AppState C.VerifyingKey}
    (slice : Slice d own s.toLoaded t.toLoaded)
    (owned : Owned s.toLoaded) (mine : ∀ se ∈ ses, se.e.id ∈ own) :
    List.Forall₂ (Echo d own) (ingestAll s d ses).2 (ingestAll t d ses).2 := by
  induction ses generalizing s t with
  | nil => exact .nil
  | cons se rest ih =>
    obtain ⟨first, later⟩ := List.forall_mem_cons.mp mine
    obtain ⟨echo, next, -⟩ := slice.event owned first
    exact echo_append echo (ih next (ingestEvent_owned owned d se) later)

theorem Slice.response (ses : List SignedEvent) {out out' : Outcome C.VerifyingKey IngestResp}
    (slice : Slice d own out.state.toLoaded out'.state.toLoaded) (owned : Owned out.state.toLoaded)
    (mine : ∀ se ∈ ses, se.e.id ∈ own) (same : out.response = out'.response) :
    (ingestLoop C d ses out).response = (ingestLoop C d ses out').response := by
  induction ses generalizing out out' with
  | nil => exact same
  | cons se rest ih =>
    obtain ⟨first, later⟩ := List.forall_mem_cons.mp mine
    obtain ⟨-, next, count⟩ := slice.event owned first
    apply ih next (ingestEvent_owned owned d se) later
    rw [same]
    exact count out'.response

theorem ingestAll_apart {d' : String} (other : d' ≠ d) (ses : List SignedEvent)
    {s : AppState C.VerifyingKey} (owned : Owned s.toLoaded) (foreign : ∀ se ∈ ses, se.e.id ∉ own) :
    ∀ w ∈ (ingestAll s d' ses).2, w.Apart d own := by
  induction ses generalizing s with
  | nil => simp [ingestAll]
  | cons se rest ih =>
    obtain ⟨first, later⟩ := List.forall_mem_cons.mp foreign
    intro w mem
    rcases List.mem_append.mp mem with now | after
    · rcases ingestEvent_cases s d' se with ⟨dev, accepts, here⟩ | ⟨-, here⟩
      · have account : dev.accountId ≠ accountOf d := by
          rw [owned d' dev accepts.known]
          exact fun same => other (accountOf_injective same)
        rw [here] at now
        by_cases accrues : Accrues se.e <;> simp [acceptWrites, newLedger, accrues] at now
        all_goals
          rcases now with rfl | rfl | rfl | rfl | rfl | rfl | rfl <;>
            simp [Stmt.Apart, other, first, account]
      · rw [here] at now
        cases List.mem_singleton.mp now
        trivial
    · exact ih (ingestEvent_owned owned d' se) later w after

theorem effect_apart {srv : ServerState C.VerifyingKey} (owned : Owned srv.mem.toLoaded)
    {r : Request}
    (other : r.concerns d = false) (kept : ¬ r.Redeems) (foreign : ∀ id ∈ r.ids, id ∉ own) :
    ∀ w ∈ (srv.effect C r).2, w.Apart d own := by
  cases r with
  | register peer req now =>
    have apart : req.deviceId ≠ d := by simpa [Request.concerns] using other
    have account : accountOf req.deviceId ≠ accountOf d :=
      fun same => apart (accountOf_injective same)
    simp only [ServerState.effect, register]
    split <;> simp [Stmt.Apart, apart, account]
  | ingest req =>
    have apart : req.deviceId ≠ d := by simpa [Request.concerns] using other
    rw [ingest_effect]
    exact ingestAll_apart apart req.events owned fun se mem => foreign _ (List.mem_map_of_mem mem)
  | redeem req order => exact absurd trivial kept
  | _ => exact fun w mem => (aside_writes srv rfl w mem).apart

theorem effect_echo {srv srv' : ServerState C.VerifyingKey} (owned : Owned srv.mem.toLoaded)
    (slice : Slice d own srv.mem.toLoaded srv'.mem.toLoaded) {r : Request}
    (concerns : r.concerns d = true) (mine : ∀ id ∈ r.ids, id ∈ own) :
    List.Forall₂ (Echo d own) (srv.effect C r).2 (srv'.effect C r).2 ∧
      reply srv (.complete r) = reply srv' (.complete r) := by
  cases r with
  | register peer req now =>
    simp only [ServerState.effect, reply, register]
    split
    · exact ⟨.nil, rfl⟩
    · exact ⟨echo_refl _, rfl⟩
  | ingest req =>
    obtain rfl : req.deviceId = d := by simpa [Request.concerns] using concerns
    have ids : ∀ se ∈ req.events, se.e.id ∈ own := fun se mem => mine _ (List.mem_map_of_mem mem)
    rw [ingest_effect, ingest_effect]
    refine ⟨slice.batch req.events owned ids, ?_⟩
    have same : (ingest C srv.mem req).response = (ingest C srv'.mem req).response :=
      Slice.response req.events slice owned ids rfl
    simp only [reply, same]
  | _ => cases concerns

/-- An action in which the device or another one sends ids of its own. -/
structure Separate (d : String) (own : Set String) (a : Action) : Prop where
  pays : ¬ a.request.Redeems
  mine : a.concerns d = true → ∀ id ∈ a.request.ids, id ∈ own
  foreign : a.concerns d = false → ∀ id ∈ a.request.ids, id ∉ own

/-- Two servers, each in step with its tables, that agree about the device. -/
structure Alike (d : String) (own : Set String) (srv srv' : ServerState C.VerifyingKey) : Prop where
  synced : Synced srv
  synced' : Synced srv'
  owned : Owned srv.mem.toLoaded
  owned' : Owned srv'.mem.toLoaded
  slice : Slice d own srv.mem.toLoaded srv'.mem.toLoaded

theorem act_apart {srv : ServerState C.VerifyingKey} (synced : Synced srv)
    (owned : Owned srv.mem.toLoaded) {a : Action}
    (kept : Separate d own a) (other : a.concerns d = false) :
    Slice d own (srv.act C a).mem.toLoaded srv.mem.toLoaded := by
  have apart := effect_apart owned other kept.pays (kept.foreign other)
  cases a with
  | complete r =>
    rw [ServerState.act, ServerState.step, (effect_view synced r).1]
    exact execAll_apart apart _
  | crash r k now token =>
    rw [ServerState.act, (crash_synced synced r k now token).2]
    exact execAll_apart (fun w mem => apart w (List.mem_of_mem_take mem)) _

theorem Alike.act {srv srv' : ServerState C.VerifyingKey} (alike : Alike d own srv srv')
    {a : Action} (kept : Separate d own a) (concerns : a.concerns d = true) :
    reply srv a = reply srv' a ∧ Alike d own (srv.act C a) (srv'.act C a) := by
  obtain ⟨synced, synced', owned, owned', slice⟩ := alike
  obtain ⟨echo, same⟩ := effect_echo owned slice concerns (kept.mine concerns)
  have next : Slice d own (srv.act C a).mem.toLoaded (srv'.act C a).mem.toLoaded := by
    cases a with
    | complete r =>
      rw [ServerState.act, ServerState.act, ServerState.step, ServerState.step,
        (effect_view synced r).1, (effect_view synced' r).1]
      exact execAll_echo echo slice
    | crash r k now token =>
      rw [ServerState.act, ServerState.act, (crash_synced synced r k now token).2,
        (crash_synced synced' r k now token).2]
      exact execAll_echo (List.forall₂_take k echo) slice
  refine ⟨?_, act_synced synced a, act_synced synced' a, act_owned synced owned a,
    act_owned synced' owned' a, next⟩
  cases a with
  | complete r => exact same
  | crash r k now token => rfl

theorem server_unwinds (d : String) (own : Set String) :
    Unwinding.Unwinds (ServerState.act C) (Action.concerns d) reply (Separate d own)
      (Alike d own) := by
  constructor
  · intro srv srv' a alike kept concerns
    exact alike.act kept concerns
  · intro srv srv' a alike kept other
    exact ⟨act_synced alike.synced a, alike.synced', act_owned alike.synced alike.owned a,
      alike.owned', (act_apart alike.synced alike.owned kept other).trans alike.slice⟩

end

/-- What the server answers a device, what it knows of it and what it owes it after any run
without cash-outs are what they would be had nobody else sent anything. -/
theorem device_isolated {now : Int} {token : Option String} {past : List Action}
    {srv : ServerState C.VerifyingKey}
    (reached : Run Behaves (ServerState.fresh C now token) past srv) (d : String)
    (acts : List Action) (unpaid : ∀ a ∈ acts, ¬ a.request.Redeems)
    (ids : ∀ a ∈ acts, ∀ a' ∈ acts, a.concerns d = true → a'.concerns d = false →
      List.Disjoint a.request.ids a'.request.ids) :
    let alone := acts.filter (Action.concerns d)
    let after := acts.foldl (ServerState.act C) srv
    let after' := alone.foldl (ServerState.act C) srv
    Unwinding.answers (ServerState.act C) (Action.concerns d) reply srv acts =
        Unwinding.answers (ServerState.act C) (Action.concerns d) reply srv alone ∧
      after.mem.devices.lookup d = after'.mem.devices.lookup d ∧
      balance after.mem d = balance after'.mem d ∧
      earnings after.mem.ledger (accountOf d) = earnings after'.mem.ledger (accountOf d) := by
  intro alone after after'
  obtain ⟨synced, owned⟩ := reached_owned reached
  have kept : ∀ a ∈ acts,
    Separate d {id | ∃ a ∈ acts, a.concerns d = true ∧ id ∈ a.request.ids} a := by
    intro a mem
    refine ⟨unpaid a mem, fun concerns id inside => ⟨a, mem, concerns, inside⟩, ?_⟩
    rintro other id inside ⟨a', mem', concerns, inside'⟩
    exact ids a' mem' a mem concerns other inside' inside
  obtain ⟨answers, final⟩ :=
    (server_unwinds d _).run kept ⟨synced, synced, owned, owned, .refl d _ _⟩
  refine ⟨answers, final.slice.device, ?_, final.slice.earned⟩
  exact congrArg₂ (fun impressions micros => BalanceResp.mk (accountOf d)
    (Option.getD impressions 0) (Option.getD micros 0))
    final.slice.impressions final.slice.balance

def crossed : List Action :=
  let key := Reference.key 7
  [.complete (.register ⟨none, "127.0.0.1"⟩ (firstRegister Reference.crates key) 0),
    .complete (.register ⟨none, "127.0.0.1"⟩
      { firstRegister Reference.crates key with deviceId := "d2" } 0),
    .crash (.ingest ⟨"d2", [signedBy Reference.crates key { firstEvent with id := "other" }]⟩)
      3 0 none,
    .complete (.ingest ⟨"d1", [signedBy Reference.crates key firstEvent]⟩)]

theorem device_isolated_crossed :
    balance (crossed.foldl (ServerState.act Reference.crates)
      (ServerState.fresh Reference.crates 0 none)).mem "d1" =
      balance (([crossed[0], crossed[3]] : List Action).foldl (ServerState.act Reference.crates)
        (ServerState.fresh Reference.crates 0 none)).mem "d1" := by
  have unpaid : ∀ a ∈ crossed, ¬ a.request.Redeems := by
    simp [crossed, Action.request, Request.Redeems]
  have ids : ∀ a ∈ crossed, ∀ a' ∈ crossed, a.concerns "d1" = true → a'.concerns "d1" = false →
      List.Disjoint a.request.ids a'.request.ids := by
    simp [crossed, Action.request, Action.concerns, Request.concerns, Request.ids, firstRegister,
      signedBy, firstEvent]
  obtain ⟨-, -, same, -⟩ :=
    device_isolated (.nil (ServerState.fresh Reference.crates 0 none)) "d1" crossed unpaid ids
  exact same

end Spnr.Server
