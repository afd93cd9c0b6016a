import Spnr.Server.View

/-! What `accept_event` can do, said once. Every later argument cites the lemmas
of this file and never unfolds the handler. -/
namespace Spnr.Server

open RustStd

variable {C : Crates}

/-- The four checks pass against the registered device. -/
structure Accepts (s : Loaded C.VerifyingKey) (deviceId : String) (se : SignedEvent)
    (dev : DeviceRec C.VerifyingKey) : Prop where
  known : s.devices.lookup deviceId = some dev
  signed : ∃ sig, C.hexDecode se.s = some sig ∧ DeviceKey.verify C se.e sig dev.pubkey = true
  chained : se.e.prev = dev.chainHead
  counted : se.e.ctr = expectedCtr dev
  unseen : se.e.id ∉ s.seenEventIds

theorem verifyEvent_ok (s : AppState C.VerifyingKey) (d : String) (se : SignedEvent)
    (dev : DeviceRec C.VerifyingKey) :
    verifyEvent C s d se = .ok dev ↔ Accepts s.toLoaded d se dev := by
  constructor
  · intro h
    unfold verifyEvent at h
    cases known : s.devices.lookup d with
    | none => simp [known] at h
    | some rec =>
      cases hex : C.hexDecode se.s with
      | none => simp [known, hex] at h
      | some sig =>
        simp only [known, hex] at h
        split at h
        · contradiction
        · rename_i signed
          split at h
          · contradiction
          · rename_i chained
            split at h
            · contradiction
            · rename_i counted
              split at h
              · contradiction
              · rename_i unseen
                cases Except.ok.inj h
                exact ⟨known, ⟨sig, hex, by simpa using signed⟩, not_not.mp chained,
                  not_not.mp counted, unseen⟩
  · rintro ⟨known, ⟨sig, hex, signed⟩, chained, counted, unseen⟩
    simp [verifyEvent, known, hex, signed, chained, counted, unseen]

theorem Accepts.device_unique {s : Loaded C.VerifyingKey} {d : String} {se : SignedEvent}
    {dev dev' : DeviceRec C.VerifyingKey} (h : Accepts s d se dev) (h' : Accepts s d se dev') :
    dev = dev' :=
  Option.some.inj (h.known.symm.trans h'.known)

theorem ingestEvent_cases (s : AppState C.VerifyingKey) (d : String) (se : SignedEvent) :
    (∃ dev, Accepts s.toLoaded d se dev ∧
      ingestEvent C s d se = ({ advance C s d dev se.e with accepted := s.accepted + 1 },
        acceptWrites C s d dev se.e ++ [.kvSet "accepted" (s.accepted + 1)])) ∨
    ((∀ dev, ¬ Accepts s.toLoaded d se dev) ∧
      ingestEvent C s d se =
        ({ s with rejected := s.rejected + 1 }, [.kvSet "rejected" (s.rejected + 1)])) := by
  cases h : verifyEvent C s d se with
  | ok dev =>
    exact .inl ⟨dev,
      (verifyEvent_ok s d se dev).mp h, by simp [ingestEvent, acceptEvent, h, Except.map, advance]⟩
  | error reason =>
    refine .inr ⟨fun dev accepts => ?_, by simp [ingestEvent, acceptEvent, h, Except.map]⟩
    rw [(verifyEvent_ok s d se dev).mpr accepts] at h
    cases h

theorem ingestEvent_accepted {s : AppState C.VerifyingKey} {d : String} {se : SignedEvent}
    {dev : DeviceRec C.VerifyingKey} (accepts : Accepts s.toLoaded d se dev) :
    ingestEvent C s d se = ({ advance C s d dev se.e with accepted := s.accepted + 1 },
      acceptWrites C s d dev se.e ++ [.kvSet "accepted" (s.accepted + 1)]) := by
  rcases ingestEvent_cases s d se with ⟨dev', accepts', h⟩ | ⟨rejects, -⟩
  · exact accepts.device_unique accepts' ▸ h
  · exact absurd accepts (rejects dev)

theorem ingestEvent_rejected {s : AppState C.VerifyingKey} {d : String} {se : SignedEvent}
    (rejects : ∀ dev, ¬ Accepts s.toLoaded d se dev) :
    ingestEvent C s d se =
      ({ s with rejected := s.rejected + 1 }, [.kvSet "rejected" (s.rejected + 1)]) := by
  rcases ingestEvent_cases s d se with ⟨dev, accepts, -⟩ | ⟨-, h⟩
  · exact absurd accepts (rejects dev)
  · exact h

def signedBy (C : Crates) (key : C.SigningKey) (e : Event) : SignedEvent :=
  ⟨e, C.hexEncode (DeviceKey.sign C key e)⟩

theorem signedBy_accepts {s : Loaded C.VerifyingKey} {d : String} {key : C.SigningKey} {e : Event}
    {dev : DeviceRec C.VerifyingKey} (known : s.devices.lookup d = some dev)
    (own : dev.pubkey = C.verifyingKey key) (chained : e.prev = dev.chainHead)
    (counted : e.ctr = expectedCtr dev) (unseen : e.id ∉ s.seenEventIds) :
    Accepts s d (signedBy C key e) dev := by
  have signed : DeviceKey.verify C e (DeviceKey.sign C key e) dev.pubkey = true := by
    rw [own]
    exact DeviceKey.verify_sign C key e
  exact ⟨known, ⟨_, C.hexDecode_hexEncode _, signed⟩, chained, counted, unseen⟩

theorem register_devices (s : AppState C.VerifyingKey) (peer : Peer) {req : RegisterReq}
    {vk : C.VerifyingKey} (own : req.pubkey = C.hexEncode (C.keyBytes vk)) (now : Int) :
    (register C s peer req now).state.devices =
      s.devices.insert req.deviceId ⟨vk, accountOf req.deviceId, genesisPrev, none⟩ := by
  simp [register, own]

theorem impCount_bounds (e : Event) : 0 ≤ impCount e ∧ impCount e < 2 ^ 32 := by
  have := (e.n.getD 0).toNat_lt
  unfold impCount
  omega

theorem spend_eq (e : Event) : spend e = 10000 * impCount e := by
  have := impCount_bounds e
  exact i64_of_fits (by unfold FitsI64 pricePerImpMicros; omega)

theorem devEarn_eq (e : Event) : devEarn e = 5000 * impCount e := by
  have bounds := impCount_bounds e
  have fits : i64 (spend e * devShareNum) = 10000 * impCount e := by
    rw [spend_eq, devShareNum, Int.mul_one]
    exact i64_of_fits (by unfold FitsI64; omega)
  rw [devEarn, fits, devShareDen, Int.tdiv_eq_ediv_of_nonneg (by omega)]
  omega

/-- The state and statements of a batch, without the response. -/
def ingestAll (s : AppState C.VerifyingKey) (d : String) :
    List SignedEvent → AppState C.VerifyingKey × List Stmt
  | [] => (s, [])
  | se :: rest =>
    let first := ingestEvent C s d se
    let others := ingestAll first.1 d rest
    (others.1, first.2 ++ others.2)

theorem ingestLoop_eq (d : String) (ses : List SignedEvent)
    (out : Outcome C.VerifyingKey IngestResp) :
    (ingestLoop C d ses out).state = (ingestAll out.state d ses).1 ∧
      (ingestLoop C d ses out).writes = out.writes ++ (ingestAll out.state d ses).2 := by
  induction ses generalizing out with
  | nil => simp [ingestLoop, ingestAll]
  | cons se rest ih => simp [ingestLoop, ingestAll, ih]

theorem ingest_eq (s : AppState C.VerifyingKey) (req : IngestReq) :
    ((ingest C s req).state, (ingest C s req).writes) = ingestAll s req.deviceId req.events := by
  have h := ingestLoop_eq req.deviceId req.events (C := C) ⟨s, [], ⟨0, 0, []⟩⟩
  exact Prod.ext h.1 (by simpa [ingest] using h.2)

theorem ingest_one {s : AppState C.VerifyingKey} {d : String} {se : SignedEvent}
    {dev : DeviceRec C.VerifyingKey} (accepts : Accepts s.toLoaded d se dev) :
    (ingest C s ⟨d, [se]⟩).state = { advance C s d dev se.e with accepted := s.accepted + 1 } := by
  have state := congrArg Prod.fst (ingest_eq (C := C) s ⟨d, [se]⟩)
  rw [ingestAll, ingestAll, ingestEvent_accepted accepts] at state
  exact state

/-- The account and amount a cash-out moves: a maximal balance, all or part of it. -/
structure Pays (s : Loaded C.VerifyingKey) (req : RedeemReq) (account : String)
    (requested : Int) : Prop where
  held : ∃ available, s.balances.lookup account = some available ∧
    requested = requestedOf req available ∧ requested ≤ available
  top : ∀ other v, s.balances.lookup other = some v → v ≤ balanceOf s account
  positive : 0 < requested

theorem requestedOf_pos {req : RedeemReq} {available : Int} (h : 0 < available) :
    0 < requestedOf req available := by
  unfold requestedOf
  split
  · split <;> assumption
  · exact h

theorem primary_spec {s : AppState C.VerifyingKey} {order : HashMap.Order String Int}
    {account : String} {available : Int} (h : primary C s order = some (account, available)) :
    s.balances.lookup account = some available ∧
      ∀ other v, s.balances.lookup other = some v → v ≤ available := by
  unfold primary at h
  obtain ⟨⟨a, v⟩, found, same⟩ := Option.map_eq_some_iff.mp h
  obtain ⟨rfl, rfl⟩ := Prod.mk.inj same
  refine ⟨(order.mem_entries _ _ _).mp (maxByKey_mem found), fun other w hw => ?_⟩
  exact maxByKey_max found ⟨other, w⟩ ((order.mem_entries _ _ _).mpr hw)

theorem primary_only {s : AppState C.VerifyingKey} {account : String} {held : Int}
    (only : ∀ a, s.balances.lookup a = if a = account then some held else none)
    (order : HashMap.Order String Int) : primary C s order = some (account, held) := by
  have entry : ⟨account, held⟩ ∈ order.entries s.balances :=
    (order.mem_entries _ _ _).mpr (by simp [only])
  cases found : primary C s order with
  | none =>
    simp only [primary, Option.map_eq_none_iff] at found
    cases entries : order.entries s.balances with
    | nil =>
      rw [entries] at entry
      cases entry
    | cons x xs =>
      rw [entries] at found
      cases found
  | some top =>
    obtain ⟨a, v⟩ := top
    have known := (primary_spec found).1
    rw [only] at known
    split at known
    · rename_i same
      cases known
      rw [same]
    · cases known

/-- The primary account holds something and at least what is asked for. -/
def Granted (s : AppState C.VerifyingKey) (req : RedeemReq)
    (order : HashMap.Order String Int) : Prop :=
  ∃ account available, primary C s order = some (account, available) ∧
    0 < available ∧ requestedOf req available ≤ available

theorem redeem_cases (s : AppState C.VerifyingKey) (req : RedeemReq)
    (order : HashMap.Order String Int) :
    (∃ account requested, Pays s.toLoaded req account requested ∧ Granted s req order ∧
      redeem C s req order =
        let out := payOut C s account requested req.rail
        ⟨out.state, out.writes, .ok out.response⟩) ∨
    (∃ error, ¬ Granted s req order ∧ redeem C s req order = ⟨s, [], .error error⟩) := by
  unfold redeem
  cases found : primary C s order with
  | none => exact .inr ⟨_, by simp [Granted, found], rfl⟩
  | some entry =>
    obtain ⟨account, available⟩ := entry
    obtain ⟨held, top⟩ := primary_spec found
    by_cases empty : available ≤ 0
    · refine .inr ⟨"no balance to redeem", ?_, by simp [empty]⟩
      rintro ⟨_, _, same, positive, -⟩
      rw [found] at same
      cases same
      omega
    · by_cases exceeds : available < requestedOf req available
      · refine .inr ⟨_, ?_, by simp only [empty, exceeds, if_true, if_false]; rfl⟩
        rintro ⟨_, _, same, -, enough⟩
        rw [found] at same
        cases same
        omega
      · have positive := Int.not_le.mp empty
        have enough := Int.not_lt.mp exceeds
        refine .inl ⟨account, requestedOf req available, ⟨⟨available, held, rfl, enough⟩, ?_, ?_⟩,
          ⟨account, available, found, positive, enough⟩, ?_⟩
        · simpa [balanceOf, held] using top
        · exact requestedOf_pos positive
        · simp only [empty, exceeds, if_false]

end Spnr.Server
