import Spnr.Server.Money

/-! What is left of a request whose process died after some of its statements.
A prefix of a batch stops inside one event, and a prefix of an event's
statements is described table by table. -/
namespace Spnr.Server

open RustStd Transition

variable {C : Crates}

theorem act_view {srv : ServerState C.VerifyingKey} (synced : Synced srv) (a : Action) :
    ∃ r k, (srv.act C a).mem.toLoaded = srv.mem.toLoaded.execAll C ((srv.effect C r).2.take k) := by
  cases a with
  | complete r =>
    refine ⟨r, (srv.effect C r).2.length, ?_⟩
    rw [List.take_length]
    exact (effect_view synced r).1
  | crash r k now token => exact ⟨r, k, (crash_synced synced r k now token).2⟩

def eventWrites (s : AppState C.VerifyingKey) (d : String) (se : SignedEvent) : List Stmt :=
  (ingestEvent C s d se).2

theorem ingestAll_take (ses : List SignedEvent) (s : AppState C.VerifyingKey)
    (d : String) (k : Nat) : (∃ before se rest j, ses = before ++ se :: rest ∧
      s.toLoaded.execAll C ((ingestAll s d ses).2.take k) =
        (ingestAll s d before).1.toLoaded.execAll C
          ((eventWrites (ingestAll s d before).1 d se).take j)) ∨
    s.toLoaded.execAll C ((ingestAll s d ses).2.take k) = (ingestAll s d ses).1.toLoaded := by
  induction ses generalizing s k with
  | nil =>
    right
    simp [ingestAll]
  | cons se rest ih =>
    have effect := (ingestEvent_effect s d se).1
    simp only [ingestAll, List.take_append, Loaded.execAll_append]
    by_cases inside : k ≤ (ingestEvent C s d se).2.length
    · left
      refine ⟨[], se, rest, k, rfl, ?_⟩
      rw [Nat.sub_eq_zero_of_le inside, List.take_zero, Loaded.execAll_nil]
      rfl
    · have whole : (ingestEvent C s d se).2.take k = (ingestEvent C s d se).2 :=
        List.take_of_length_le (by omega)
      rw [whole, ← effect]
      rcases ih (ingestEvent C s d se).1 (k - (ingestEvent C s d se).2.length) with
        ⟨before, se', rest', j, rfl, view⟩ | view
      · exact .inl ⟨se :: before, se', rest', j, rfl, view⟩
      · exact .inr view

/-- The view after the first `j` statements of an accepted event: two rows of
bookkeeping, the ledger legs, then the balance and the impressions. -/
structure EventPrefix (s : AppState C.VerifyingKey) (dev : DeviceRec C.VerifyingKey) (e : Event)
    (j : Nat) (v : Loaded C.VerifyingKey) : Prop where
  ledger : v.ledger = s.ledger ++ (newLedger dev.accountId e).take (j - 2)
  seen : v.seenEventIds = if 2 ≤ j then insert e.id s.seenEventIds else s.seenEventIds
  redemptions : v.redemptions = s.redemptions
  balance : ∀ a, balanceOf v a = if 5 ≤ j ∧ Accrues e ∧ a = dev.accountId
    then i64 (balanceOf s.toLoaded a + devEarn e) else balanceOf s.toLoaded a
  impressions : ∀ a, impressionsOf v a = if 6 ≤ j ∧ Accrues e ∧ a = dev.accountId
    then impressionsOf s.toLoaded a + (impCount e).toNat else impressionsOf s.toLoaded a

theorem eventWrites_accrues {s : AppState C.VerifyingKey} {d : String} {se : SignedEvent}
    {dev : DeviceRec C.VerifyingKey} (accepts : Accepts s.toLoaded d se dev)
    (accrues : Accrues se.e) : eventWrites s d se =
      [.updateDeviceHead d (chainNext C (canonicalBytes C se.e)) (some se.e.ctr),
        .insertSeenEvent se.e.id,
        .insertLedger ⟨advertiser, dev.accountId, devEarn se.e, .impEarn, se.e.id⟩,
        .insertLedger ⟨advertiser, "acct:house", houseKeep se.e, .adSpendHouse, se.e.id⟩,
        .setBalance dev.accountId (i64 (balanceOf s.toLoaded dev.accountId + devEarn se.e)),
        .setImpressions dev.accountId
          (impressionsOf s.toLoaded dev.accountId + (impCount se.e).toNat),
        .kvSet "accepted" (s.accepted + 1)] := by
  have balance := balanceOf_advance s d dev.accountId dev se.e
  have imps := impressionsOf_advance s d dev.accountId dev se.e
  rw [if_pos ⟨accrues, rfl⟩] at balance imps
  rw [eventWrites, ingestEvent_accepted accepts]
  simp only [acceptWrites, balance, imps, newLedger, accrues, if_true, List.map_cons, List.map_nil,
    List.cons_append, List.nil_append]

theorem eventWrites_idle {s : AppState C.VerifyingKey} {d : String} {se : SignedEvent}
    {dev : DeviceRec C.VerifyingKey} (accepts : Accepts s.toLoaded d se dev)
    (idle : ¬ Accrues se.e) : eventWrites s d se =
      [.updateDeviceHead d (chainNext C (canonicalBytes C se.e)) (some se.e.ctr),
        .insertSeenEvent se.e.id, .kvSet "accepted" (s.accepted + 1)] := by
  rw [eventWrites, ingestEvent_accepted accepts]
  simp only [acceptWrites, newLedger, idle, if_false, List.map_nil, List.append_nil,
    List.cons_append, List.nil_append]

theorem accepted_prefix {s : AppState C.VerifyingKey} {d : String} {se : SignedEvent}
    {dev : DeviceRec C.VerifyingKey} (accepts : Accepts s.toLoaded d se dev) (j : Nat) :
    EventPrefix s dev se.e j (s.toLoaded.execAll C ((eventWrites s d se).take j)) := by
  by_cases accrues : Accrues se.e
  · rw [eventWrites_accrues accepts accrues]
    -- one case for each statement that may be the last durable one
    rcases j with _ | _ | _ | _ | _ | _ | _ | j <;> constructor <;>
      simp [Loaded.exec, accepts.known, newLedger, accrues, balanceOf, impressionsOf]
    all_goals
      intro a
      by_cases own : a = dev.accountId
      · subst own
        simp
      · simp [own]
  · rw [eventWrites_idle accepts accrues]
    rcases j with _ | _ | _ | j <;> constructor <;>
      simp [Loaded.exec, accepts.known, newLedger, accrues, balanceOf, impressionsOf]

theorem rejected_prefix {s : AppState C.VerifyingKey} {d : String} {se : SignedEvent}
    (rejects : ∀ dev, ¬ Accepts s.toLoaded d se dev) (j : Nat) :
    ∃ rejected, s.toLoaded.execAll C ((eventWrites s d se).take j) =
      { s.toLoaded with rejected := rejected } := by
  rw [eventWrites, ingestEvent_rejected rejects]
  cases j with
  | zero => exact ⟨s.rejected, rfl⟩
  | succ j => exact ⟨s.rejected + 1, by simp [Loaded.exec]⟩

end Spnr.Server
