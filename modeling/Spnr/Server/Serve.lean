import Spnr.Server.Accepted

/-! The pool that `/v1/serve` answers with, and what a removed creative leaves behind in
the pool and in the table. -/
namespace Spnr.Server

structure ServeCreative where
  id : String
  text : String
  shortCode : String
  url : String
  deriving DecidableEq

structure ServeResp where
  creative : ServeCreative
  creatives : List ServeCreative

def ServeCreative.toJson (c : ServeCreative) : Json :=
  .obj [("id", .str c.id), ("text", .str c.text), ("short_code", .str c.shortCode),
    ("url", .str c.url)]

def ServeResp.toJson (resp : ServeResp) : Json :=
  .obj [("creative", resp.creative.toJson),
    ("creatives", .arr (resp.creatives.map ServeCreative.toJson))]

/-- The flat fields of `AppState::seeded`; nothing writes them afterwards. -/
def flatPrimary : ServeCreative where
  id := "cr_house_1"
  text := "CloakPipe — ship privacy-safe LLM apps ↗"
  shortCode := "AbC9"
  url := creativeUrl

def Creative.served (c : Creative) : ServeCreative := ⟨c.id, c.text, c.shortCode, c.url⟩

def serve {Key : Type} (s : AppState Key) : ServeResp where
  creative := (s.creatives.map Creative.served).head?.getD flatPrimary
  creatives := s.creatives.map Creative.served

variable {C : Crates}

def Stmt.OnCreatives : Stmt → Bool
  | .insertCreative _ _ _ | .deleteCreative _ => true
  | _ => false

theorem exec_other (db : Database) {w : Stmt} (other : w.OnCreatives = false) :
    (db.exec w).creatives = db.creatives := by
  cases w with
  | insertCreative => cases other
  | deleteCreative => cases other
  | updateDeviceHead => simp only [Database.exec]; split <;> rfl
  | ensureBalance => simp only [Database.exec]; split <;> rfl
  | ensureImpressions => simp only [Database.exec]; split <;> rfl
  | insertRedemption => simp only [Database.exec]; split <;> rfl
  | upsertDeviceMeta => simp only [Database.exec]; split <;> rfl
  | _ => rfl

theorem execAll_other {ws : List Stmt} (others : ws.all (!·.OnCreatives) = true) (db : Database) :
    (db.execAll ws).creatives = db.creatives := by
  induction ws generalizing db with
  | nil => rfl
  | cons w ws ih =>
    rw [List.all_cons, Bool.and_eq_true, Bool.not_eq_true'] at others
    rw [Database.execAll_cons, ih others.2, exec_other db others.1]

theorem ingestEvent_creatives (s : AppState C.VerifyingKey) (d : String) (se : SignedEvent) :
    (ingestEvent C s d se).1.creatives = s.creatives ∧
    (ingestEvent C s d se).2.all (!·.OnCreatives) = true := by
  rcases ingestEvent_cases s d se with ⟨dev, -, h⟩ | ⟨-, h⟩
  · rw [h]
    refine ⟨rfl, ?_⟩
    by_cases accrues : Accrues se.e <;> simp [acceptWrites, newLedger, accrues, Stmt.OnCreatives]
  · rw [h]
    exact ⟨rfl, rfl⟩

theorem ingestAll_creatives (ses : List SignedEvent) (s : AppState C.VerifyingKey) (d : String) :
    (ingestAll s d ses).1.creatives = s.creatives ∧
    (ingestAll s d ses).2.all (!·.OnCreatives) = true := by
  induction ses generalizing s with
  | nil => exact ⟨rfl, rfl⟩
  | cons se ses ih =>
    obtain ⟨pool, others⟩ := ingestEvent_creatives s d se
    obtain ⟨poolRest, othersRest⟩ := ih (ingestEvent C s d se).1
    exact ⟨poolRest.trans pool, by rw [ingestAll, List.all_append, others, othersRest]; rfl⟩

def Request.operator : Request → Bool
  | .adminCreate _ _ _ | .adminDelete _ _ | .restart _ _ => true
  | _ => false

theorem effect_other (srv : ServerState C.VerifyingKey) {r : Request} (other : r.operator = false) :
    (srv.effect C r).1.creatives = srv.mem.creatives ∧
    (srv.effect C r).2.all (!·.OnCreatives) = true := by
  cases r with
  | register peer req now =>
    simp only [ServerState.effect, register]
    cases decodePubkey C req.pubkey <;> exact ⟨rfl, rfl⟩
  | ingest req =>
    have others := ingestAll_creatives req.events srv.mem req.deviceId
    rw [← ingest_eq] at others
    exact others
  | redeem req order =>
    simp only [ServerState.effect]
    rcases redeem_cases srv.mem req order with ⟨account, requested, -, -, h⟩ | ⟨error, -, h⟩
    · rw [h]
      exact ⟨rfl, rfl⟩
    · rw [h]
      exact ⟨rfl, rfl⟩
  | click code =>
    simp only [ServerState.effect, click]
    split <;> exact ⟨rfl, rfl⟩
  | adminCreate => cases other
  | adminDelete => cases other
  | restart => cases other

/-- No row of the id is active. The table has rows, so that a restart does not seed it. -/
structure Retired (db : Database) (id : String) : Prop where
  inactive : ∀ row ∈ db.creatives, row.creative.id = id → row.active = false
  seeded : db.creatives ≠ []

structure Gone (srv : ServerState C.VerifyingKey) (id : String) : Prop where
  absent : ∀ c ∈ srv.mem.creatives, c.id ≠ id
  retired : Retired srv.db id

def ServerState.created (srv : ServerState C.VerifyingKey) : Request → Option Creative
  | .adminCreate presented req fresh =>
    (adminCreateCreative C srv.mem presented req fresh).response.toOption
  | _ => none

def Uncreated (id : String) : ServerState C.VerifyingKey → List Request → Prop
  | _, [] => True
  | srv, r :: rs => (∀ c, srv.created r = some c → c.id ≠ id) ∧ Uncreated id (srv.step C r) rs

theorem mem_upsertCreative {c : Creative} {now : Int} {row : CreativeRow} {rows : List CreativeRow}
    (mem : row ∈ upsertCreative c true now rows) : row.creative = c ∨ row ∈ rows := by
  induction rows with
  | nil =>
    rw [upsertCreative, List.mem_singleton] at mem
    exact .inl (mem ▸ rfl)
  | cons first rows ih =>
    unfold upsertCreative at mem
    split at mem
    · rcases List.mem_cons.mp mem with rfl | later
      · exact .inl rfl
      · exact .inr (List.mem_cons_of_mem _ later)
    · rcases List.mem_cons.mp mem with rfl | later
      · exact .inr List.mem_cons_self
      · exact (ih later).imp_right (List.mem_cons_of_mem _)

theorem upsertCreative_ne_nil (c : Creative) (now : Int) (rows : List CreativeRow) :
    upsertCreative c true now rows ≠ [] := by
  cases rows with
  | nil => exact List.cons_ne_nil _ _
  | cons row rows =>
    unfold upsertCreative
    split <;> exact List.cons_ne_nil _ _

theorem Retired.insert {db : Database} {id : String} (retired : Retired db id) {c : Creative}
    (other : c.id ≠ id) (now : Int) : Retired (db.exec (.insertCreative c true now)) id := by
  constructor
  · intro row mem same
    rcases mem_upsertCreative mem with rfl | old
    · exact absurd same other
    · exact retired.inactive row old same
  · exact upsertCreative_ne_nil c now db.creatives

theorem mem_delete {db : Database} {id : String} {row : CreativeRow}
    (mem : row ∈ (db.exec (.deleteCreative id)).creatives) :
    ∃ old ∈ db.creatives, row.creative = old.creative ∧
    (row.active = true → old.active = true ∧ old.creative.id ≠ id) := by
  obtain ⟨old, there, rfl⟩ := List.mem_map.mp mem
  refine ⟨old, there, ?_, ?_⟩
  · split <;> rfl
  · split
    · exact nofun
    · rename_i kept
      exact fun active => ⟨active, fun same => kept ⟨same, active⟩⟩

theorem Retired.delete {db : Database} {id : String} (retired : Retired db id) (other : String) :
    Retired (db.exec (.deleteCreative other)) id := by
  constructor
  · intro row mem same
    obtain ⟨old, there, creative, active⟩ := mem_delete mem
    have inactive := retired.inactive old there (creative ▸ same)
    cases flag : row.active with
    | false => rfl
    | true => rw [(active flag).1] at inactive; cases inactive
  · simpa [Database.exec] using retired.seeded

theorem Retired.other {db : Database} {id : String} (retired : Retired db id) {ws : List Stmt}
    (others : ws.all (!·.OnCreatives) = true) : Retired (db.execAll ws) id := by
  constructor
  · rw [execAll_other others]
    exact retired.inactive
  · rw [execAll_other others]
    exact retired.seeded

theorem deleted_gone {srv : ServerState C.VerifyingKey} {presented : Option String} {id : String}
    (deleted : (adminDeleteCreative C srv.mem srv.db presented id).response = .ok ()) :
    Gone (srv.step C (.adminDelete presented id)) id := by
  simp only [ServerState.step, ServerState.effect]
  unfold adminDeleteCreative at deleted ⊢
  split at deleted
  · cases deleted
  · split at deleted
    · rename_i existed
      rw [if_pos existed]
      refine ⟨?_, ?_, ?_⟩
      · intro c mem
        simpa using (List.mem_filter.mp mem).2
      · intro row mem same
        obtain ⟨old, -, creative, active⟩ := mem_delete mem
        cases flag : row.active with
        | false => rfl
        | true => exact absurd (creative ▸ same) (active flag).2
      · obtain ⟨row, mem, -⟩ := List.any_eq_true.mp existed
        simpa [Database.exec] using List.ne_nil_of_mem mem
    · cases deleted

theorem Gone.adminCreate {srv : ServerState C.VerifyingKey} {id : String} (gone : Gone srv id)
    {presented : Option String}
    {req : NewCreativeReq} {fresh : Fresh}
    (uncreated : ∀ c, srv.created (.adminCreate presented req fresh) = some c → c.id ≠ id) :
    Gone (srv.step C (.adminCreate presented req fresh)) id := by
  simp only [ServerState.created] at uncreated
  simp only [ServerState.step, ServerState.effect]
  unfold adminCreateCreative at uncreated ⊢
  split
  · exact gone
  · rename_i granted
    rw [granted] at uncreated
    dsimp only at uncreated ⊢
    split
    · exact gone
    · rename_i whole
      rw [if_neg whole] at uncreated
      have other := uncreated _ rfl
      refine ⟨?_, gone.retired.insert other fresh.now⟩
      intro c mem
      rcases List.mem_append.mp mem with old | new
      · exact gone.absent c old
      · rw [List.mem_singleton.mp new]
        exact other

theorem Gone.adminDelete {srv : ServerState C.VerifyingKey} {id : String} (gone : Gone srv id)
    (presented : Option String)
    (other : String) : Gone (srv.step C (.adminDelete presented other)) id := by
  simp only [ServerState.step, ServerState.effect]
  unfold adminDeleteCreative
  split
  · exact gone
  · split
    · exact ⟨fun c mem => gone.absent c (List.mem_filter.mp mem).1, gone.retired.delete other⟩
    · exact ⟨gone.absent, gone.retired.delete other⟩

theorem Gone.restart {srv : ServerState C.VerifyingKey} {id : String}
    (gone : Gone srv id) (now : Int)
    (token : Option String) : Gone (srv.step C (.restart now token)) id := by
  have rows : loadCreatives srv.db ≠ [] := by
    have length : (loadCreatives srv.db).length = srv.db.creatives.length := List.length_mergeSort _
    intro empty
    exact gone.retired.seeded
      (List.eq_nil_of_length_eq_zero (length.symm.trans (congrArg List.length empty)))
  simp only [ServerState.step, ServerState.effect, AppState.open, List.isEmpty_iff, if_neg rows]
  refine ⟨?_, gone.retired⟩
  intro c mem same
  obtain ⟨row, active, rfl⟩ := List.mem_map.mp mem
  obtain ⟨stored, flag⟩ := List.mem_filter.mp active
  rw [gone.retired.inactive row (List.mem_mergeSort.mp stored) same] at flag
  cases flag

theorem Gone.step {srv : ServerState C.VerifyingKey} {id : String} (gone : Gone srv id)
    {r : Request}
    (uncreated : ∀ c, srv.created r = some c → c.id ≠ id) : Gone (srv.step C r) id := by
  by_cases operator : r.operator
  · cases r with
    | adminCreate presented req fresh => exact gone.adminCreate uncreated
    | adminDelete presented other => exact gone.adminDelete presented other
    | restart now token => exact gone.restart now token
    | _ => cases operator
  · obtain ⟨pool, others⟩ := effect_other srv (Bool.eq_false_iff.mpr operator)
    refine ⟨?_, gone.retired.other others⟩
    intro c mem
    exact gone.absent c (pool ▸ mem)

theorem Gone.after {id : String} {srv : ServerState C.VerifyingKey} (gone : Gone srv id)
    {rs : List Request} (uncreated : Uncreated id srv rs) : Gone (srv.after rs) id := by
  induction rs generalizing srv with
  | nil => exact gone
  | cons r rs ih => exact ih (gone.step uncreated.1) uncreated.2

end Spnr.Server
