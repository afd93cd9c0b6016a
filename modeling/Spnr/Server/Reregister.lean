import Spnr.Server.Honest

/-! What a registration does to a device the server already knows. Its record starts over under
the new key, so a device lives one life per registration: every credit is backed by the key of the
life it falls in, and counters are used once in a life. -/
namespace Spnr.Server

variable {C : Crates}

/-- The key a request registers for the device; one that does not decode is refused. -/
def Request.newKey (C : Crates) (d : String) : Request → Option C.VerifyingKey
  | .register _ req _ => if req.deviceId = d then decodePubkey C req.pubkey else none
  | _ => none

/-- The device since its last registration: the key, and what was accepted under it. -/
structure Life (C : Crates) where
  key : Option C.VerifyingKey
  accepted : List Event

def Life.next (life : Life C) (srv : ServerState C.VerifyingKey) (d : String)
    (r : Request) : Life C :=
  match r.newKey C d with
  | some vk => ⟨some vk, []⟩
  | none => { life with accepted := life.accepted ++ acceptedEvents srv.mem d (r.carries d) }

def Life.over (life : Life C) (srv : ServerState C.VerifyingKey) (d : String) :
    List Request → Life C
  | [] => life
  | r :: rs => (life.next srv d r).over (srv.step C r) d rs

def Life.unborn : Life C := ⟨none, []⟩

/-- The server's record of the device is that of this life. -/
def Life.Holds (life : Life C) (s : Loaded C.VerifyingKey) (d : String) : Prop :=
  match life.key with
  | some vk => ∃ base, Tracks s d vk base life.accepted
  | none => life.accepted = [] ∧ Unregistered s d

theorem Life.Holds.owned {life : Life C} {s : Loaded C.VerifyingKey} {d : String}
    (holds : life.Holds s d) : Owned s := by
  unfold Holds at holds
  split at holds
  · obtain ⟨base, tracks⟩ := holds
    exact tracks.owned
  · exact holds.2.owned

theorem register_refused {s : AppState C.VerifyingKey} {req : RegisterReq}
    (garbled : decodePubkey C req.pubkey = none) (peer : Peer) (now : Int) :
    register C s peer req now = ⟨s, [], ⟨false, accountOf req.deviceId⟩⟩ := by
  simp only [register, garbled]

theorem register_replaces {s : AppState C.VerifyingKey} {req : RegisterReq} {vk : C.VerifyingKey}
    (decodes : decodePubkey C req.pubkey = some vk) (peer : Peer) (now : Int) :
    (register C s peer req now).state.devices =
        s.devices.insert req.deviceId ⟨vk, accountOf req.deviceId, genesisPrev, none⟩ ∧
      (register C s peer req now).state.seenEventIds = s.seenEventIds ∧
      (register C s peer req now).response.ok = true := by
  simp [register, decodes]

theorem step_refused {srv : ServerState C.VerifyingKey} {req : RegisterReq}
    (garbled : decodePubkey C req.pubkey = none) (peer : Peer) (now : Int) :
    srv.step C (.register peer req now) = srv := by
  simp only [ServerState.step, ServerState.effect, register_refused garbled, Database.execAll_nil]

theorem newKey_none {d : String} {r : Request} (none : r.newKey C d = none) :
    ¬ r.Registers d ∨ (∀ srv : ServerState C.VerifyingKey, srv.step C r = srv) ∧
    r.carries d = [] := by
  cases r with
  | register peer req now =>
    by_cases same : req.deviceId = d
    · right
      rw [Request.newKey, if_pos same] at none
      exact ⟨fun srv => step_refused none peer now, rfl⟩
    · exact .inl same
  | _ => exact .inl id

theorem newKey_some {d : String} {r : Request} {vk : C.VerifyingKey}
    (some : r.newKey C d = some vk) :
    ∃ peer req now, r = .register peer req now ∧ req.deviceId = d ∧
    decodePubkey C req.pubkey = .some vk := by
  cases r with
  | register peer req now =>
    simp only [Request.newKey] at some
    split at some
    · rename_i same
      exact ⟨peer, req, now, rfl, same, some⟩
    · cases some
  | _ => cases some

theorem Life.Holds.step {srv : ServerState C.VerifyingKey} (synced : Synced srv) {d : String}
    {life : Life C} (holds : life.Holds srv.mem.toLoaded d) (r : Request) :
    (life.next srv d r).Holds (srv.step C r).mem.toLoaded d := by
  cases fresh : r.newKey C d with
  | some vk =>
    obtain ⟨peer, req, now, rfl, rfl, decodes⟩ := newKey_some fresh
    have start := register_tracks synced holds.owned peer req now decodes
    simp only [next, fresh, Holds]
    exact ⟨_, start⟩
  | none =>
    simp only [next, fresh]
    rcases newKey_none fresh with once | ⟨same, silent⟩
    · unfold Holds at *
      cases key : life.key with
      | some vk =>
        simp only [key] at holds ⊢
        obtain ⟨base, tracks⟩ := holds
        exact ⟨base, tracks.step synced once⟩
      | none =>
        simp only [key] at holds ⊢
        obtain ⟨nothing, unregistered⟩ := holds
        obtain ⟨none, kept⟩ := unregistered.step synced once
        exact ⟨by rw [nothing, none]; rfl, kept⟩
    · rw [same, silent, acceptedEvents, List.append_nil]
      exact holds

theorem Life.Holds.over {d : String} (rs : List Request) {srv : ServerState C.VerifyingKey}
    (synced : Synced srv) {life : Life C} (holds : life.Holds srv.mem.toLoaded d) :
    (life.over srv d rs).Holds (srv.after rs).mem.toLoaded d := by
  induction rs generalizing srv life with
  | nil => exact holds
  | cons r rs ih => exact ih (step_synced synced r) (holds.step synced r)

theorem fresh_unborn (now : Int) (token : Option String) (d : String) :
    (Life.unborn (C := C)).Holds (ServerState.fresh C now token).mem.toLoaded d :=
  ⟨rfl, fresh_unregistered now token d⟩

theorem Life.Holds.counters {life : Life C} {s : Loaded C.VerifyingKey} {d : String}
    (holds : life.Holds s d) : (life.accepted.map Event.ctr).Nodup := by
  unfold Holds at holds
  split at holds
  · obtain ⟨base, tracks⟩ := holds
    exact tracks.chained.nodup
  · rw [holds.1]
    exact List.nodup_nil

theorem Life.Holds.signed {life : Life C} {s : AppState C.VerifyingKey} {d : String}
    (holds : life.Holds s.toLoaded d) (ses : List SignedEvent) :
    ∀ e ∈ acceptedEvents s d ses, ∃ vk, life.key = some vk ∧ ∃ se ∈ ses, se.e = e ∧
    SignedUnder vk se := by
  intro e mem
  unfold Holds at holds
  split at holds
  · rename_i vk key
    obtain ⟨base, tracks⟩ := holds
    exact ⟨vk, key, tracks.batch_signed ses e mem⟩
  · rw [(holds.2.batch ses).1] at mem
    cases mem

theorem ingestAll_credits (ses : List SignedEvent) {s : AppState C.VerifyingKey}
    (owned : Owned s.toLoaded) (d : String) : ∀ entry ∈ (ingestAll s d ses).1.ledger,
      entry ∈ s.ledger ∨ ∃ e ∈ acceptedEvents s d ses, entry ∈ newLedger (accountOf d) e := by
  induction ses generalizing s with
  | nil =>
    intro entry mem
    exact .inl mem
  | cons se rest ih =>
    intro entry mem
    rcases ingestEvent_cases s d se with ⟨dev, accepts, eq⟩ | ⟨rejects, eq⟩
    · rw [acceptedEvents_cons_ok accepts]
      have account := owned d dev accepts.known
      have owned' : Owned (ingestEvent C s d se).1.toLoaded := by
        rw [eq]
        exact owned.insert { dev with
          chainHead := chainNext C (canonicalBytes C se.e), ctrHead := some se.e.ctr } account rfl
      rcases ih owned' entry mem with before | ⟨e, later, leg⟩
      · rw [eq] at before
        rcases List.mem_append.mp before with old | new
        · exact .inl old
        · exact .inr ⟨se.e, List.mem_cons_self, account ▸ new⟩
      · exact .inr ⟨e, List.mem_cons_of_mem _ later, leg⟩
    · rw [acceptedEvents_cons_error rejects]
      have same : (ingestEvent C s d se).1.ledger = s.ledger := by rw [eq]
      have owned' : Owned (ingestEvent C s d se).1.toLoaded := by
        rw [eq]
        exact owned
      rw [← same]
      exact ih owned' entry mem

theorem step_credits {srv : ServerState C.VerifyingKey} (synced : Synced srv)
    (owned : Owned srv.mem.toLoaded)
    (r : Request) (d : String) : ∀ entry ∈ (srv.step C r).mem.ledger, entry.kind = .impEarn →
      entry.credit = accountOf d →
      entry ∈ srv.mem.ledger ∨ ∃ e ∈ acceptedEvents srv.mem d (r.carries d),
        e.id = entry.reference := by
  intro entry mem earn credit
  have step := step_cases synced r
  generalize (srv.step C r).mem.toLoaded = after at step mem
  cases step with
  | register peer req now =>
    rw [(register_ledger srv.mem peer req now).1] at mem
    exact .inl mem
  | ingest req =>
    rcases ingestAll_credits req.events owned req.deviceId entry mem with old | ⟨e, accepted, leg⟩
    · exact .inl old
    · have reference := newLedger_reference (accountOf req.deviceId) e entry leg
      unfold newLedger at leg
      split at leg
      · rcases List.mem_pair.mp leg with rfl | rfl
        · have same := accountOf_injective credit
          subst same
          exact .inr
            ⟨e, by simpa [Request.carries, Request.fromDevice] using accepted, reference.symm⟩
        · cases earn
      · cases leg
  | redeem req order pays =>
    rcases List.mem_append.mp mem with old | new
    · exact .inl old
    · rw [List.mem_singleton.mp new] at earn
      cases earn
  | other clicks => exact .inl mem

/-- The credit was earned by an event of the run, signed under the key its device had then. -/
structure Backed (srv : ServerState C.VerifyingKey) (life : Life C) (d : String) (rs : List Request)
    (entry : LedgerEntry) : Prop where
  backed : ∃ before r after vk, rs = before ++ r :: after ∧ (life.over srv d before).key = some vk ∧
    ∃ se ∈ r.carries d, se.e.id = entry.reference ∧ SignedUnder vk se

theorem Backed.cons {srv : ServerState C.VerifyingKey} {life : Life C} {d : String} {r : Request}
    {rs : List Request} {entry : LedgerEntry}
    (later : Backed (srv.step C r) (life.next srv d r) d rs entry) :
    Backed srv life d (r :: rs) entry := by
  obtain ⟨before, r', after, vk, rfl, key, carried⟩ := later
  exact ⟨r :: before, r', after, vk, rfl, key, carried⟩

theorem Life.Holds.credits {d : String} (rs : List Request) {srv : ServerState C.VerifyingKey}
    (synced : Synced srv) {life : Life C} (holds : life.Holds srv.mem.toLoaded d) :
    ∀ entry ∈ (srv.after rs).mem.ledger, entry.kind = .impEarn → entry.credit = accountOf d →
      entry ∈ srv.mem.ledger ∨ Backed srv life d rs entry := by
  induction rs generalizing srv life with
  | nil =>
    intro entry mem _ _
    exact .inl mem
  | cons r rs ih =>
    intro entry mem earn credit
    rcases ih (step_synced synced r) (holds.step synced r) entry mem earn credit with now | later
    · rcases step_credits synced holds.owned r d entry now earn credit with old | ⟨e,
        accepted, reference⟩
      · exact .inl old
      · obtain ⟨vk, key, se, carried, rfl, signed⟩ := holds.signed (r.carries d) e accepted
        exact .inr ⟨[], r, rs, vk, rfl, key, se, carried, reference, signed⟩
    · exact .inr later.cons

/-- A registration that is not refused replaces the device's record and touches nothing that
was earned; credits are signed under the key of their life, and no counter comes twice in one. -/
theorem registration_starts_over (now : Int) (token : Option String) :
    (∀ (s : AppState C.VerifyingKey) peer req regNow, decodePubkey C req.pubkey = none →
      (register C s peer req regNow).state = s ∧
      (register C s peer req regNow).response.ok = false) ∧
    (∀ (s : AppState C.VerifyingKey) peer req regNow vk, decodePubkey C req.pubkey = some vk →
      let s' := (register C s peer req regNow).state
      s'.devices = s.devices.insert req.deviceId ⟨vk, accountOf req.deviceId, genesisPrev, none⟩ ∧
      s'.seenEventIds = s.seenEventIds ∧ s'.ledger = s.ledger ∧
      ∀ a, balanceOf s'.toLoaded a = balanceOf s.toLoaded a ∧
        impressionsOf s'.toLoaded a = impressionsOf s.toLoaded a) ∧
    ∀ rs d, let srv := ServerState.fresh C now token
      ((Life.unborn.over srv d rs).accepted.map Event.ctr).Nodup ∧
      ∀ entry ∈ (srv.after rs).mem.ledger, entry.kind = .impEarn → entry.credit = accountOf d →
        Backed srv Life.unborn d rs entry := by
  constructor
  · intro s peer req regNow garbled
    rw [register_refused garbled]
    exact ⟨rfl, rfl⟩
  constructor
  · intro s peer req regNow vk decodes
    obtain ⟨devices, seen, -⟩ := register_replaces (s := s) decodes peer regNow
    exact ⟨devices, seen, (register_ledger s peer req regNow).1, register_views peer req regNow⟩
  · intro rs d srv
    have synced : Synced srv := fresh_synced now token
    have start := fresh_unborn (C := C) now token d
    refine ⟨(start.over rs synced).counters, fun entry mem earn credit => ?_⟩
    rcases start.credits rs synced entry mem earn credit with old | backed
    · have empty : srv.mem.ledger = [] := fresh_ledger now token
      rw [empty] at old
      cases old
    · exact backed

theorem enrolled (srv : ServerState C.VerifyingKey) (key : C.SigningKey) {e : Event}
    (head : e.prev = genesisPrev) (zero : e.ctr = 0) (unseen : e.id ∉ srv.mem.seenEventIds) :
    let registered := srv.step C (.register ⟨none, "127.0.0.1"⟩ (firstRegister C key) 0)
    let paid := registered.step C (.ingest ⟨"d1", [signedBy C key e]⟩)
    registered.mem.devices.lookup "d1" = some ⟨C.verifyingKey key, "acct:d1", genesisPrev, none⟩ ∧
      acceptedEvents registered.mem "d1" [signedBy C key e] = [e] ∧
      paid.mem.seenEventIds = insert e.id srv.mem.seenEventIds ∧
      ∃ head, paid.mem.devices.lookup "d1" = some ⟨C.verifyingKey key, "acct:d1", head,
        some 0⟩ := by
  intro registered paid
  have decodes : decodePubkey C (firstRegister C key).pubkey = some (C.verifyingKey key) :=
    decodePubkey_hexEncode C (C.verifyingKey key)
  obtain ⟨devices, seen, -⟩ := register_replaces (s := srv.mem) decodes ⟨none, "127.0.0.1"⟩ 0
  have known : registered.mem.devices.lookup "d1" = some ⟨C.verifyingKey key, "acct:d1",
    genesisPrev, none⟩ := by
    change (register C srv.mem _ (firstRegister C key) 0).state.devices.lookup "d1" = _
    rw [devices]
    exact Finmap.lookup_insert _
  have accepts := signedBy_accepts (C := C) known rfl head zero (by
    change e.id ∉ (register C srv.mem _ (firstRegister C key) 0).state.seenEventIds
    rwa [seen])
  have state : paid.mem =
    { advance C registered.mem "d1" ⟨C.verifyingKey key, "acct:d1", genesisPrev, none⟩ e with
      accepted := registered.mem.accepted + 1 } := ingest_one accepts
  refine ⟨known, ?_, ?_, chainNext C (canonicalBytes C e), ?_⟩
  · rw [acceptedEvents_cons_ok accepts]
    rfl
  · rw [state]
    change insert e.id (register C srv.mem _ (firstRegister C key) 0).state.seenEventIds = _
    rw [seen]
  · rw [state]
    change Finmap.lookup "d1" (Finmap.insert "d1" _ _) = _
    rw [Finmap.lookup_insert, zero]

def otherEvent : Event := { firstEvent with id := "01J8Z0G5M8Q9W7Y6T5R4E3D2C2" }

def takenOver (C : Crates) (key other : C.SigningKey) : List Request :=
  firstRequests C key ++
    [.register ⟨none, "127.0.0.1"⟩ (firstRegister C other) 0,
      .ingest ⟨"d1", [signedBy C other otherEvent]⟩]

theorem takenOver_lives (key other : C.SigningKey) :
    let srv := ServerState.fresh C 0 none
    let rs := takenOver C key other
    (∃ head, (srv.after (rs.take 2)).mem.devices.lookup "d1" =
        some ⟨C.verifyingKey key, "acct:d1", head, some 0⟩) ∧
      (srv.after (rs.take 3)).mem.devices.lookup "d1" =
        some ⟨C.verifyingKey other, "acct:d1", genesisPrev, none⟩ ∧
      acceptedBy srv "d1" rs = [firstEvent, otherEvent] := by
  intro srv rs
  have none : srv.mem.seenEventIds = ∅ := fresh_seenEventIds 0 none
  obtain ⟨-, first, seen, taken⟩ := enrolled srv key (e := firstEvent) rfl rfl (by simp [none])
  have apart : otherEvent.id ≠ firstEvent.id := by decide
  obtain ⟨replaced, second, -, -⟩ := enrolled _ other (e := otherEvent) rfl rfl (by
    rw [seen, none]
    simpa using apart)
  have accepted : acceptedBy srv "d1" rs = [firstEvent] ++ ([otherEvent] ++ []) := by
    rw [← first, ← second]
    rfl
  exact ⟨taken, replaced, accepted⟩

/-- The second registration takes the device over: its key is replaced, its counter starts
again, and two accepted events carry the counter zero. -/
theorem reregistration_takes_over :
    let srv := ServerState.fresh Reference.crates 0 none
    let rs := takenOver Reference.crates (Reference.key 7) (Reference.key 8)
    (∃ head, (srv.after (rs.take 2)).mem.devices.lookup "d1" =
        some ⟨Reference.crates.verifyingKey (Reference.key 7), "acct:d1", head, some 0⟩) ∧
      (srv.after (rs.take 3)).mem.devices.lookup "d1" =
        some ⟨Reference.crates.verifyingKey (Reference.key 8), "acct:d1", genesisPrev, none⟩ ∧
      (Reference.key 7).val ≠ (Reference.key 8).val ∧
      acceptedBy srv "d1" rs = [firstEvent, otherEvent] ∧ firstEvent.ctr = otherEvent.ctr := by
  obtain ⟨taken, replaced, accepted⟩ :=
    takenOver_lives (C := Reference.crates) (Reference.key 7) (Reference.key 8)
  exact ⟨taken, replaced, by decide, accepted, rfl⟩

end Spnr.Server
