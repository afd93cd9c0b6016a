import Spnr.Server.Prefix

/-! At-most-once credit. The dedup set is written before any ledger leg, so an id
that has a leg is in the set at every crash point, and the set only grows. -/
namespace Spnr.Server

open Transition

variable {C : Crates}

def legs (ledger : List LedgerEntry) (kind : Kind) (id : String) : List LedgerEntry :=
  ledger.filter fun entry => entry.kind = kind ∧ entry.reference = id

structure Once (s : Loaded C.VerifyingKey) : Prop where
  seen : ∀ entry ∈ s.ledger, entry.kind ≠ .redeem → entry.reference ∈ s.seenEventIds
  once : ∀ kind id, kind ≠ .redeem → (legs s.ledger kind id).length ≤ 1

theorem legs_append (xs ys : List LedgerEntry) (kind : Kind) (id : String) :
    legs (xs ++ ys) kind id = legs xs kind id ++ legs ys kind id := List.filter_append ..

theorem newLedger_reference (account : String) (e : Event) :
    ∀ entry ∈ newLedger account e, entry.reference = e.id := by
  intro entry mem
  unfold newLedger at mem
  split at mem
  · rcases List.mem_pair.mp mem with rfl | rfl <;> rfl
  · cases mem

theorem legs_newLedger (account : String) (e : Event) (kind : Kind) (id : String) :
    (legs (newLedger account e) kind id).length ≤ 1 := by
  unfold newLedger
  split
  · cases kind <;> by_cases same : e.id = id <;> simp [legs, same]
  · simp [legs]

theorem Once.credit {s v : Loaded C.VerifyingKey} (once : Once s) {account : String} {e : Event}
    {i : Nat} (unseen : e.id ∉ s.seenEventIds)
    (ledger : v.ledger = s.ledger ++ (newLedger account e).take i)
    (grows : s.seenEventIds ⊆ v.seenEventIds) (marked : 0 < i → e.id ∈ v.seenEventIds) :
    Once v := by
  refine ⟨?_, ?_⟩
  · intro entry mem credit
    rw [ledger] at mem
    rcases List.mem_append.mp mem with old | new
    · exact grows (once.seen entry old credit)
    · have positive : 0 < i := by
        rcases Nat.eq_zero_or_pos i with rfl | h
        · simp at new
        · exact h
      rw [newLedger_reference account e entry (List.mem_of_mem_take new)]
      exact marked positive
  · intro kind id credit
    rw [ledger, legs_append, List.length_append]
    by_cases same : id = e.id
    · subst same
      have none : legs s.ledger kind e.id = [] := by
        refine List.filter_eq_nil_iff.mpr fun entry mem => ?_
        intro found
        obtain ⟨rfl, reference⟩ := of_decide_eq_true found
        exact unseen (reference ▸ once.seen entry mem credit)
      have few : (legs ((newLedger account e).take i) kind e.id).length ≤
          (legs (newLedger account e) kind e.id).length :=
        ((List.take_sublist i _).filter _).length_le
      have := legs_newLedger account e kind e.id
      rw [none, List.length_nil]
      omega
    · have none : legs ((newLedger account e).take i) kind id = [] := by
        refine List.filter_eq_nil_iff.mpr fun entry mem => ?_
        have reference := newLedger_reference account e entry (List.mem_of_mem_take mem)
        simp [reference, Ne.symm same]
      rw [none, List.length_nil]
      exact once.once kind id credit

theorem Once.keep {s v : Loaded C.VerifyingKey} (once : Once s) (cashed : List LedgerEntry)
    (redeems : ∀ entry ∈ cashed, entry.kind = .redeem) (ledger : v.ledger = s.ledger ++ cashed)
    (grows : s.seenEventIds ⊆ v.seenEventIds) : Once v := by
  refine ⟨?_, ?_⟩
  · intro entry mem credit
    rw [ledger] at mem
    rcases List.mem_append.mp mem with old | new
    · exact grows (once.seen entry old credit)
    · exact absurd (redeems entry new) credit
  · intro kind id credit
    have none : legs cashed kind id = [] := by
      refine List.filter_eq_nil_iff.mpr fun entry mem => ?_
      simp [redeems entry mem, Ne.symm credit]
    rw [ledger, legs_append, none, List.append_nil]
    exact once.once kind id credit

theorem exec_seen (s : Loaded C.VerifyingKey) (w : Stmt) :
    s.seenEventIds ⊆ (s.exec C w).seenEventIds := by
  cases w with
  | updateDeviceHead id head ctr =>
    simp only [Loaded.exec]
    split <;> exact subset_rfl
  | ensureBalance a =>
    simp only [Loaded.exec]
    split <;> exact subset_rfl
  | ensureImpressions a =>
    simp only [Loaded.exec]
    split <;> exact subset_rfl
  | insertSeenEvent id => exact Finset.subset_insert _ _
  | _ => exact subset_rfl

theorem execAll_seen (ws : List Stmt) (s : Loaded C.VerifyingKey) :
    s.seenEventIds ⊆ (s.execAll C ws).seenEventIds := by
  induction ws generalizing s with
  | nil => exact subset_rfl
  | cons w ws ih => exact (exec_seen s w).trans (ih (s.exec C w))

def ledgerRows (ws : List Stmt) : List LedgerEntry :=
  ws.filterMap fun | .insertLedger e => some e | _ => none

theorem execAll_ledger (ws : List Stmt) (s : Loaded C.VerifyingKey) :
    (s.execAll C ws).ledger = s.ledger ++ ledgerRows ws := by
  induction ws generalizing s with
  | nil => simp [ledgerRows]
  | cons w ws ih =>
    rw [Loaded.execAll_cons, ih]
    cases w with
    | updateDeviceHead id head ctr =>
      simp only [Loaded.exec]
      split <;> rfl
    | ensureBalance a =>
      simp only [Loaded.exec]
      split <;> rfl
    | ensureImpressions a =>
      simp only [Loaded.exec]
      split <;> rfl
    | insertLedger e => simp [Loaded.exec, ledgerRows]
    | _ => rfl

theorem Once.execAll_take {s : Loaded C.VerifyingKey} (once : Once s) {ws : List Stmt}
    (redeems : ∀ entry ∈ ledgerRows ws, entry.kind = .redeem) (k : Nat) :
    Once (s.execAll C (ws.take k)) := by
  refine once.keep _ (fun entry mem => redeems entry ?_) (execAll_ledger _ s) (execAll_seen _ s)
  obtain ⟨w, written, row⟩ := List.mem_filterMap.mp mem
  exact List.mem_filterMap.mpr ⟨w, List.mem_of_mem_take written, row⟩

theorem event_once {s : AppState C.VerifyingKey} (once : Once s.toLoaded) (d : String)
    (se : SignedEvent) (j : Nat) :
    Once (s.toLoaded.execAll C ((eventWrites s d se).take j)) := by
  rcases ingestEvent_cases s d se with ⟨dev, accepts, -⟩ | ⟨rejects, -⟩
  · have done := accepted_prefix accepts j
    refine once.credit accepts.unseen done.ledger (execAll_seen _ _) fun written => ?_
    rw [done.seen, if_pos (by omega)]
    exact Finset.mem_insert_self _ _
  · obtain ⟨rejected, view⟩ := rejected_prefix rejects j
    rw [view]
    exact ⟨once.seen, once.once⟩

theorem ingestAll_once (ses : List SignedEvent) {s : AppState C.VerifyingKey}
    (once : Once s.toLoaded) (d : String) : Once (ingestAll s d ses).1.toLoaded := by
  induction ses generalizing s with
  | nil => exact once
  | cons se rest ih =>
    have step := event_once once d se (eventWrites s d se).length
    rw [List.take_length, eventWrites, ← (ingestEvent_effect s d se).1] at step
    exact ih step

theorem aside_ledgerRows {ws : List Stmt} (aside : ∀ w ∈ ws, w.Aside) : ledgerRows ws = [] := by
  rw [ledgerRows, List.filterMap_eq_nil_iff]
  intro w mem
  have only := aside w mem
  cases w with
  | insertLedger e => cases only
  | _ => rfl

theorem request_once {srv : ServerState C.VerifyingKey} (once : Once srv.mem.toLoaded) (r : Request)
    (k : Nat) : Once (srv.mem.toLoaded.execAll C ((srv.effect C r).2.take k)) := by
  cases r with
  | ingest req =>
    rw [ingest_effect]
    rcases ingestAll_take req.events srv.mem req.deviceId k with ⟨before, se, rest, j, -,
      view⟩ | view
    · rw [view]
      exact event_once (ingestAll_once before once req.deviceId) req.deviceId se j
    · rw [view]
      exact ingestAll_once req.events once req.deviceId
  | register peer req now =>
    refine once.execAll_take ?_ k
    simp only [ServerState.effect, register]
    split <;> simp [ledgerRows]
  | redeem req order =>
    refine once.execAll_take ?_ k
    simp only [ServerState.effect]
    rcases redeem_cases srv.mem req order with ⟨account, requested, -, -, eq⟩ | ⟨error, -, eq⟩ <;>
      simp [eq, payOut, ledgerRows]
  | _ =>
    apply once.execAll_take
    rw [aside_ledgerRows (aside_writes srv rfl)]
    intro entry mem
    cases mem

/-- Requests that complete and requests cut short by a crash, in any order. -/
def Behaves (srv : ServerState C.VerifyingKey) (a : Action)
    (srv' : ServerState C.VerifyingKey) : Prop :=
  srv' = srv.act C a

theorem behaves_run (srv : ServerState C.VerifyingKey) (acts : List Action) :
    Run Behaves srv acts (acts.foldl (ServerState.act C) srv) := by
  induction acts generalizing srv with
  | nil => exact .nil srv
  | cons a acts ih => exact .cons rfl (ih _)

theorem behaves_once {srv srv' : ServerState C.VerifyingKey} {a : Action} (synced : Synced srv)
    (once : Once srv.mem.toLoaded) (step : Behaves srv a srv') :
    Synced srv' ∧ Once srv'.mem.toLoaded ∧ srv.mem.seenEventIds ⊆ srv'.mem.seenEventIds := by
  subst step
  obtain ⟨r, k, view⟩ := act_view synced a
  refine ⟨act_synced synced a, ?_, ?_⟩
  · rw [view]
    exact request_once once r k
  · rw [view]
    exact execAll_seen _ _

theorem fresh_once (now : Int) (token : Option String) :
    Once (ServerState.fresh C now token).mem.toLoaded := by
  rw [fresh_view]
  exact ⟨by simp [load, Database.fresh], by simp [load, Database.fresh, legs]⟩

theorem run_once {now : Int} {token : Option String} {acts : List Action}
    {srv : ServerState C.VerifyingKey}
    (run : Run Behaves (ServerState.fresh C now token) acts srv) :
    Synced srv ∧ Once srv.mem.toLoaded := by
  refine run.invariant (fun srv => Synced srv ∧ Once srv.mem.toLoaded) ?_
    ⟨fresh_synced now token, fresh_once now token⟩
  rintro s a t ⟨synced, once⟩ step
  obtain ⟨synced', once', -⟩ := behaves_once synced once step
  exact ⟨synced', once'⟩

theorem later_seen {srv srv' : ServerState C.VerifyingKey} {acts : List Action}
    (synced : Synced srv) (once : Once srv.mem.toLoaded) (run : Run Behaves srv acts srv') :
    srv.mem.seenEventIds ⊆ srv'.mem.seenEventIds := by
  induction run with
  | nil => exact subset_rfl
  | cons first _ ih =>
    obtain ⟨synced', once', grows⟩ := behaves_once synced once first
    exact grows.trans (ih synced' once')

theorem credited_at_most_once {now : Int} {token : Option String} {acts : List Action}
    {srv : ServerState C.VerifyingKey}
    (run : Run Behaves (ServerState.fresh C now token) acts srv) :
    (∀ id, (legs srv.mem.ledger .impEarn id).length ≤ 1 ∧
      (legs srv.mem.ledger .adSpendHouse id).length ≤ 1) ∧
    ∀ entry ∈ srv.mem.ledger, entry.kind ≠ .redeem → ∀ acts' srv', Run Behaves srv acts' srv' →
      entry.reference ∈ srv'.mem.seenEventIds := by
  obtain ⟨synced, once⟩ := run_once run
  refine ⟨fun id => ⟨once.once .impEarn id (by decide), once.once .adSpendHouse id (by decide)⟩, ?_⟩
  intro entry mem credit acts' srv' later
  exact later_seen synced once later (once.seen entry mem credit)

theorem credited_at_most_once_after_crash :
    ∃ srv, Run Behaves (ServerState.fresh Reference.crates 0 none)
        [.complete
          (.register ⟨none, "127.0.0.1"⟩ (firstRegister Reference.crates (Reference.key 7)) 0),
          .crash (.ingest ⟨"d1", [signedBy Reference.crates (Reference.key 7) firstEvent]⟩)
            3 0 none,
          .complete
            (.ingest ⟨"d1", [signedBy Reference.crates (Reference.key 7) firstEvent]⟩)] srv ∧
      (legs srv.mem.ledger .impEarn firstEvent.id).length ≤ 1 := by
  have run := behaves_run (ServerState.fresh Reference.crates 0 none)
  exact ⟨_, run _, ((credited_at_most_once (run _)).1 firstEvent.id).1⟩

end Spnr.Server
