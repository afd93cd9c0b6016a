import Spnr.Server.Accept

/-! The view and the tables stay in step. Every handler's in-memory effect is the
fold of the statements it issues, so `load` rebuilds the state it replaces, and
a crash reopens the view after the prefix that became durable. -/
namespace Spnr.Server

variable {C : Crates}

def Plain (ws : List Stmt) : Prop := ∀ r, Stmt.insertRedemption r ∉ ws

theorem Plain.continues {ws : List Stmt} (plain : Plain ws) (rows : Nat) : Continues rows ws := by
  induction ws generalizing rows with
  | nil => trivial
  | cons w ws ih =>
    have tail : Plain ws := fun r h => plain r (List.mem_cons_of_mem _ h)
    cases w with
    | insertRedemption r => exact absurd List.mem_cons_self (plain r)
    | _ => exact ih tail rows

theorem Plain.append {ws ws' : List Stmt} (first : Plain ws) (second : Plain ws') :
    Plain (ws ++ ws') := by
  intro r h
  rcases List.mem_append.mp h with h | h
  · exact first r h
  · exact second r h

theorem register_effect (s : AppState C.VerifyingKey) (peer : Peer) (req : RegisterReq)
    (now : Int) : (register C s peer req now).state.toLoaded =
        s.toLoaded.execAll C (register C s peer req now).writes ∧
      Plain (register C s peer req now).writes := by
  cases key : decodePubkey C req.pubkey with
  | none => simp [register, key, Plain]
  | some pubkey =>
    by_cases b : accountOf req.deviceId ∈ s.balances <;>
      by_cases i : accountOf req.deviceId ∈ s.impressions <;>
      simp [register, key, Loaded.exec, b, i, Plain]

theorem accept_effect {s : AppState C.VerifyingKey} {d : String} {se : SignedEvent}
    {dev : DeviceRec C.VerifyingKey} (accepts : Accepts s.toLoaded d se dev) :
    (advance C s d dev se.e).toLoaded = s.toLoaded.execAll C (acceptWrites C s d dev se.e) ∧
      Plain (acceptWrites C s d dev se.e) := by
  by_cases h : Accrues se.e <;>
    simp [acceptWrites, advance, newLedger, h, Loaded.exec, accepts.known, balanceOf,
      impressionsOf, Plain]

theorem ingestEvent_effect (s : AppState C.VerifyingKey) (d : String) (se : SignedEvent) :
    (ingestEvent C s d se).1.toLoaded = s.toLoaded.execAll C (ingestEvent C s d se).2 ∧
      Plain (ingestEvent C s d se).2 := by
  rcases ingestEvent_cases s d se with ⟨dev, accepts, h⟩ | ⟨-, h⟩
  · obtain ⟨effect, plain⟩ := accept_effect accepts
    rw [h]
    refine ⟨?_, plain.append (by simp [Plain])⟩
    rw [Loaded.execAll_append, ← effect]
    simp [Loaded.exec, advance]
  · simp [h, Loaded.exec, Plain]

theorem ingestAll_effect (ses : List SignedEvent) (s : AppState C.VerifyingKey) (d : String) :
    (ingestAll s d ses).1.toLoaded = s.toLoaded.execAll C (ingestAll s d ses).2 ∧
      Plain (ingestAll s d ses).2 := by
  induction ses generalizing s with
  | nil => simp [ingestAll, Plain]
  | cons se rest ih =>
    obtain ⟨effect, plain⟩ := ingestEvent_effect s d se
    obtain ⟨effectRest, plainRest⟩ := ih (ingestEvent C s d se).1
    exact ⟨by simp [ingestAll, effectRest, effect], plain.append plainRest⟩

theorem payOut_effect (s : AppState C.VerifyingKey) (account : String) (requested : Int)
    (rail : String) : (payOut C s account requested rail).state.toLoaded =
      s.toLoaded.execAll C (payOut C s account requested rail).writes := by
  simp [payOut, Loaded.exec]

structure Synced (srv : ServerState C.VerifyingKey) : Prop where
  numbered : Numbered srv.db.redemptions
  view : load C srv.db = srv.mem.toLoaded

theorem Synced.next_id {srv : ServerState C.VerifyingKey} (synced : Synced srv) :
    srv.mem.nextRedemptionId = srv.db.redemptions.length + 1 := by
  rw [← synced.view]
  simp [load, synced.numbered.max]

theorem open_effect (db : Database) (now : Int) (token : Option String) :
    (AppState.open C db now token).1.toLoaded = load C db ∧
      Plain (AppState.open C db now token).2 ∧
      ∀ s : Loaded C.VerifyingKey, s.execAll C (AppState.open C db now token).2 = s := by
  unfold AppState.open
  dsimp only
  split
  · refine ⟨rfl, ?_, ?_⟩
    · intro r h
      simp at h
    · intro s
      simp [housePool, Loaded.exec]
  · exact ⟨rfl, by simp [Plain], fun s => rfl⟩

theorem effect_view {srv : ServerState C.VerifyingKey} (synced : Synced srv) (r : Request) :
    (srv.effect C r).1.toLoaded = srv.mem.toLoaded.execAll C (srv.effect C r).2 ∧
      Continues srv.db.redemptions.length (srv.effect C r).2 := by
  cases r with
  | register peer req now =>
    have h := register_effect srv.mem peer req now
    exact ⟨h.1, h.2.continues _⟩
  | ingest req =>
    have h := ingestAll_effect req.events srv.mem req.deviceId
    rw [← ingest_eq] at h
    exact ⟨h.1, h.2.continues _⟩
  | redeem req order =>
    simp only [ServerState.effect]
    rcases redeem_cases srv.mem req order with ⟨account, requested, -, -, h⟩ | ⟨error, -, h⟩
    · rw [h]
      exact ⟨payOut_effect srv.mem account requested req.rail,
        by simp [payOut, Continues, synced.next_id]⟩
    · rw [h]
      exact ⟨rfl, trivial⟩
  | click code =>
    simp only [ServerState.effect, click]
    split <;> simp [Loaded.exec, Continues]
  | adminCreate presented req fresh =>
    simp only [ServerState.effect, adminCreateCreative]
    split
    · simp [Continues]
    · split <;> simp [Loaded.exec, Continues]
  | adminDelete presented id =>
    simp only [ServerState.effect, adminDeleteCreative]
    split
    · simp [Continues]
    · split <;> simp [Loaded.exec, Continues]
  | restart now token =>
    obtain ⟨loaded, plain, still⟩ := open_effect (C := C) srv.db now token
    exact ⟨loaded.trans (synced.view.trans (still _).symm), plain.continues _⟩

theorem opened_synced {db : Database} (numbered : Numbered db.redemptions) (now : Int)
    (token : Option String) :
    Synced (ServerState.opened C db now token) ∧
      (ServerState.opened C db now token).mem.toLoaded = load C db := by
  obtain ⟨loaded, plain, still⟩ := open_effect (C := C) db now token
  have h := load_execAll C _ db numbered (plain.continues _)
  exact ⟨⟨h.1, h.2.trans ((still _).trans loaded.symm)⟩, loaded⟩

theorem fresh_synced (now : Int) (token : Option String) : Synced (ServerState.fresh C now token) :=
  (opened_synced (by rfl) now token).1

theorem fresh_view (now : Int) (token : Option String) :
    (ServerState.fresh C now token).mem.toLoaded = load C Database.fresh :=
  (opened_synced (by rfl) now token).2

theorem fresh_seenEventIds (now : Int) (token : Option String) :
    (ServerState.fresh C now token).mem.seenEventIds = ∅ :=
  congrArg Loaded.seenEventIds (fresh_view now token)

theorem fresh_ledger (now : Int) (token : Option String) :
    (ServerState.fresh C now token).mem.ledger = [] :=
  congrArg Loaded.ledger (fresh_view now token)

theorem fresh_redemptions (now : Int) (token : Option String) :
    (ServerState.fresh C now token).mem.redemptions = [] := by
  rw [fresh_view]
  simp [load, Database.fresh]

theorem step_synced {srv : ServerState C.VerifyingKey} (synced : Synced srv) (r : Request) :
    Synced (srv.step C r) := by
  obtain ⟨effect, next⟩ := effect_view synced r
  have h := load_execAll C _ srv.db synced.numbered next
  exact ⟨h.1, h.2.trans (by rw [synced.view]; exact effect.symm)⟩

theorem crash_synced {srv : ServerState C.VerifyingKey} (synced : Synced srv)
    (r : Request) (k : Nat) (now : Int) (token : Option String) :
    Synced (srv.crash C r k now token) ∧
      (srv.crash C r k now token).mem.toLoaded =
        srv.mem.toLoaded.execAll C ((srv.effect C r).2.take k) := by
  have next := (effect_view synced r).2.take k
  have h := load_execAll C _ srv.db synced.numbered next
  have opened := opened_synced (C := C) h.1 now token
  exact ⟨opened.1, opened.2.trans (by rw [h.2, synced.view])⟩

theorem act_synced {srv : ServerState C.VerifyingKey} (synced : Synced srv) (a : Action) :
    Synced (srv.act C a) := by
  cases a with
  | complete r => exact step_synced synced r
  | crash r k now token => exact (crash_synced synced r k now token).1

theorem restart_view {srv : ServerState C.VerifyingKey} (synced : Synced srv) (now : Int)
    (token : Option String) : (srv.step C (.restart now token)).mem.toLoaded = srv.mem.toLoaded :=
  (opened_synced synced.numbered now token).2.trans synced.view

def Stmt.Aside : Stmt → Prop
  | .kvSet _ _ | .insertCreative _ _ _ | .deleteCreative _ => True
  | _ => False

def Request.aside : Request → Bool
  | .register _ _ _ | .ingest _ | .redeem _ _ => false
  | .click _ | .adminCreate _ _ _ | .adminDelete _ _ | .restart _ _ => true

theorem aside_writes (srv : ServerState C.VerifyingKey) {r : Request} (aside : r.aside = true) :
    ∀ w ∈ (srv.effect C r).2, w.Aside := by
  cases r with
  | register _ _ _ => cases aside
  | ingest _ => cases aside
  | redeem _ _ => cases aside
  | click code =>
    simp only [ServerState.effect, click]
    split <;> simp [Stmt.Aside]
  | adminCreate presented req fresh =>
    simp only [ServerState.effect, adminCreateCreative]
    split
    · simp
    · split <;> simp [Stmt.Aside]
  | adminDelete presented id =>
    simp only [ServerState.effect, adminDeleteCreative]
    split
    · simp
    · split <;> simp [Stmt.Aside]
  | restart now token =>
    simp only [ServerState.effect, AppState.open]
    split <;> simp [Stmt.Aside, housePool]

theorem ingest_effect (srv : ServerState C.VerifyingKey) (req : IngestReq) :
    srv.effect C (.ingest req) = ingestAll srv.mem req.deviceId req.events := ingest_eq srv.mem req

/-- The view after a request: all but three kinds leave it as it is, up to the clicks. -/
inductive Stepped (srv : ServerState C.VerifyingKey) : Request → Loaded C.VerifyingKey → Prop where
  | register (peer : Peer) (req : RegisterReq) (now : Int) :
      Stepped srv (.register peer req now) (register C srv.mem peer req now).state.toLoaded
  | ingest (req : IngestReq) :
      Stepped srv (.ingest req) (ingestAll srv.mem req.deviceId req.events).1.toLoaded
  | redeem (req : RedeemReq) (order : HashMap.Order String Int) {account : String}
      {requested : Int} : Pays srv.mem.toLoaded req account requested →
      Stepped srv (.redeem req order) (payOut C srv.mem account requested req.rail).state.toLoaded
  | other (r : Request) (clicks : Nat) : Stepped srv r { srv.mem.toLoaded with clicks := clicks }

theorem step_cases {srv : ServerState C.VerifyingKey} (synced : Synced srv) (r : Request) :
    Stepped srv r (srv.step C r).mem.toLoaded := by
  have same (r : Request) : Stepped srv r srv.mem.toLoaded := .other r srv.mem.clicks
  cases r with
  | register peer req now => exact .register peer req now
  | ingest req =>
    rw [ServerState.step, ingest_effect]
    exact .ingest req
  | redeem req order =>
    simp only [ServerState.step, ServerState.effect]
    rcases redeem_cases srv.mem req order with ⟨account, requested, pays, -, eq⟩ | ⟨error, -, eq⟩
    · rw [eq]
      exact .redeem req order pays
    · rw [eq]
      exact same _
  | click code =>
    simp only [ServerState.step, ServerState.effect, click]
    split
    · exact .other _ (srv.mem.clicks + 1)
    · exact same _
  | adminCreate presented req fresh =>
    simp only [ServerState.step, ServerState.effect, adminCreateCreative]
    split
    · exact same _
    · split <;> exact same _
  | adminDelete presented id =>
    simp only [ServerState.step, ServerState.effect, adminDeleteCreative]
    split
    · exact same _
    · split <;> exact same _
  | restart now token =>
    rw [restart_view synced now token]
    exact same _

end Spnr.Server
