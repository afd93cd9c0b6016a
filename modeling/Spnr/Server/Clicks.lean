import Spnr.Server.Rotation

/-! Where a click leads. A link that once was served leads to its own advertiser for as long
as the creative is in the pool, through creates, deletes of others and restarts, and to the
house page afterwards. -/
namespace Spnr.Server

open RustStd

variable {C : Crates}

/-- The table has what the pool has, and every creative has an id and a code of its own. -/
structure Pooled (srv : ServerState C.VerifyingKey) : Prop where
  pool : ∀ c, c ∈ srv.mem.creatives ↔ ∃ row ∈ srv.db.creatives, row.active = true ∧ row.creative = c
  ids : DistinctIds srv.db.creatives
  codes : (srv.db.creatives.map (·.creative.shortCode)).Nodup
  seeded : srv.db.creatives ≠ []

/-- The generators draw an id and a code that the table has not. -/
def Drawn : ServerState C.VerifyingKey → List Request → Prop
  | _, [] => True
  | srv, r :: rs =>
    (∀ c, srv.created r = some c →
      ∀ row ∈ srv.db.creatives, row.creative.id ≠ c.id ∧ row.creative.shortCode ≠ c.shortCode) ∧
      Drawn (srv.step C r) rs

def ServerState.removes (srv : ServerState C.VerifyingKey) : Request → Option String
  | .adminDelete presented id =>
    (adminDeleteCreative C srv.mem srv.db presented id).response.toOption.map fun _ => id
  | _ => none

def removedIn (srv : ServerState C.VerifyingKey) : List Request → List String
  | [] => []
  | r :: rs => (srv.removes r).toList ++ removedIn (srv.step C r) rs

theorem upsertCreative_new {c : Creative} {now : Int} {rows : List CreativeRow}
    (new : ∀ row ∈ rows, row.creative.id ≠ c.id) :
    upsertCreative c true now rows = rows ++ [⟨c, true, now⟩] := by
  induction rows with
  | nil => rfl
  | cons row rows ih =>
    have rest := ih fun r mem => new r (List.mem_cons_of_mem _ mem)
    rw [upsertCreative, if_neg (new row List.mem_cons_self), rest, List.cons_append]

/-- What a request does to the table: nothing, one new row, or the flag of one id. -/
inductive Rows (srv : ServerState C.VerifyingKey) (r : Request) : Prop where
  | same (removes : srv.removes r = none) (created : srv.created r = none)
      (rows : (srv.step C r).db.creatives = srv.db.creatives)
      (pool : ∀ c, c ∈ (srv.step C r).mem.creatives ↔ c ∈ srv.mem.creatives) : Rows srv r
  | new (removes : srv.removes r = none) (c : Creative) (now : Int)
      (created : srv.created r = some c)
      (rows : (srv.step C r).db.creatives = upsertCreative c true now srv.db.creatives)
      (pool : (srv.step C r).mem.creatives = srv.mem.creatives ++ [c]) : Rows srv r
  | gone (id : String) (removes : srv.removes r = some id) (created : srv.created r = none)
      (rows : (srv.step C r).db.creatives = srv.db.creatives.map (deleteRow id))
      (pool : (srv.step C r).mem.creatives = srv.mem.creatives.filter (·.id ≠ id)) : Rows srv r

theorem deleteRow_absent {id : String} {rows : List CreativeRow}
    (absent : ¬ rows.any (fun row => decide (row.creative.id = id ∧ row.active = true)) = true) :
    rows.map (deleteRow id) = rows := by
  have still : ∀ row ∈ rows, deleteRow id row = row := by
    intro row mem
    rw [deleteRow, if_neg]
    intro hit
    exact absent (List.any_eq_true.mpr ⟨row, mem, decide_eq_true hit⟩)
  rw [List.map_congr_left still, List.map_id']

theorem Pooled.restart {srv : ServerState C.VerifyingKey} (pooled : Pooled srv) (now : Int)
    (token : Option String) (c : Creative) :
    c ∈ (AppState.open C srv.db now token).1.creatives ↔ c ∈ srv.mem.creatives := by
  rw [open_creatives ⟨pooled.ids, pooled.seeded⟩, pooled.pool, List.mem_map]
  constructor
  · rintro ⟨row, mem, rfl⟩
    obtain ⟨there, active⟩ := mem_activeRows.mp mem
    exact ⟨row, there, active, rfl⟩
  · rintro ⟨row, there, active, rfl⟩
    exact ⟨row, mem_activeRows.mpr ⟨there, active⟩, rfl⟩

theorem create_rows (srv : ServerState C.VerifyingKey) (presented : Option String)
    (req : NewCreativeReq) (fresh : Fresh) : Rows srv (.adminCreate presented req fresh) := by
  by_cases granted : CreateGranted srv presented req
  · have whole : ¬(RustStd.trim req.text = "" ∨ RustStd.trim req.url = "") :=
      not_or.mpr ⟨granted.text, granted.url⟩
    obtain ⟨c, run⟩ : ∃ c, adminCreateCreative C srv.mem presented req fresh =
        ⟨{ srv.mem with creatives := srv.mem.creatives ++ [c] }, [.insertCreative c true fresh.now],
          .ok c⟩ := by
      unfold adminCreateCreative
      rw [granted.admin]
      dsimp only
      rw [if_neg whole]
      exact ⟨_, rfl⟩
    refine .new rfl c fresh.now ?_ ?_ ?_
    · simp only [ServerState.created, run, Except.toOption]
    · simp only [ServerState.step, ServerState.effect, run]
      rfl
    · simp only [ServerState.step, ServerState.effect, run]
  · have still := adminCreate_refused granted fresh
    refine .same rfl ?_ (by rw [still]) fun c => by rw [still]
    cases made : srv.created (.adminCreate presented req fresh) with
    | none => rfl
    | some c =>
      exfalso
      apply granted
      simp only [ServerState.created, adminCreateCreative] at made
      split at made
      · cases made
      · rename_i admin
        split at made
        · cases made
        · rename_i whole
          exact ⟨admin, (not_or.mp whole).1, (not_or.mp whole).2⟩

theorem delete_rows (srv : ServerState C.VerifyingKey) (presented : Option String) (id : String) :
    Rows srv (.adminDelete presented id) := by
  cases admin : checkAdmin C srv.mem presented with
  | some refusal =>
    have refused : adminDeleteCreative C srv.mem srv.db presented id =
      ⟨srv.mem, [], .error refusal⟩ := by
      rw [adminDeleteCreative, admin]
    refine .same ?_ rfl ?_ fun c => ?_
    · simp only [ServerState.removes, refused]
      rfl
    · simp only [ServerState.step, ServerState.effect, refused]
      rfl
    · simp only [ServerState.step, ServerState.effect, refused]
  | none =>
    by_cases active :
      srv.db.creatives.any (fun row => decide (row.creative.id = id ∧ row.active = true)) = true
    · have deleted : adminDeleteCreative C srv.mem srv.db presented id =
          ⟨{ srv.mem with creatives := srv.mem.creatives.filter (·.id ≠ id) }, [.deleteCreative id],
            .ok ()⟩ := by
        rw [adminDeleteCreative, admin]
        exact if_pos active
      refine .gone id ?_ rfl ?_ ?_
      · simp only [ServerState.removes, deleted]
        rfl
      · simp only [ServerState.step, ServerState.effect, deleted]
        rfl
      · simp only [ServerState.step, ServerState.effect, deleted]
    · have missed : adminDeleteCreative C srv.mem srv.db presented id =
          ⟨srv.mem, [.deleteCreative id], .error (404, "creative not found")⟩ := by
        rw [adminDeleteCreative, admin]
        exact if_neg active
      refine .same ?_ rfl ?_ fun c => ?_
      · simp only [ServerState.removes, missed]
        rfl
      · simp only [ServerState.step, ServerState.effect, missed]
        exact deleteRow_absent active
      · simp only [ServerState.step, ServerState.effect, missed]

theorem Pooled.rows {srv : ServerState C.VerifyingKey} (pooled : Pooled srv) (r : Request) :
    Rows srv r := by
  by_cases operator : r.operator
  · cases r with
    | adminCreate presented req fresh => exact create_rows srv presented req fresh
    | adminDelete presented id => exact delete_rows srv presented id
    | restart now token =>
      refine .same rfl rfl ?_ (pooled.restart now token)
      simp only [ServerState.step, ServerState.effect]
      rw [open_creatives ⟨pooled.ids, pooled.seeded⟩]
      rfl
    | _ => cases operator
  · obtain ⟨pool, others⟩ := effect_other srv (Bool.eq_false_iff.mpr operator)
    refine .same ?_ ?_ (execAll_other others srv.db) fun c => ?_
    · cases r <;> first | rfl | exact absurd rfl operator
    · cases r <;> first | rfl | exact absurd rfl operator
    · simp only [ServerState.step]
      rw [pool]

theorem Pooled.step {srv : ServerState C.VerifyingKey} (pooled : Pooled srv) {r : Request}
    (drawn : ∀ c, srv.created r = some c →
      ∀ row ∈ srv.db.creatives, row.creative.id ≠ c.id ∧ row.creative.shortCode ≠ c.shortCode) :
    Pooled (srv.step C r) ∧ ∀ row ∈ srv.db.creatives, ∃ row' ∈ (srv.step C r).db.creatives,
      row'.creative = row.creative ∧
      (row'.active = true ↔ row.active = true ∧ srv.removes r ≠ some row.creative.id) := by
  cases pooled.rows r with
  | same removes created rows pool =>
    refine ⟨⟨fun c => ?_, ?_, ?_, ?_⟩, fun row mem => ⟨row, ?_, rfl, ?_⟩⟩
    · rw [pool, rows]
      exact pooled.pool c
    · rw [rows]
      exact pooled.ids
    · rw [rows]
      exact pooled.codes
    · rw [rows]
      exact pooled.seeded
    · rw [rows]
      exact mem
    · simp [removes]
  | new removes c now created rows pool =>
    have new := drawn c created
    rw [upsertCreative_new fun row mem => (new row mem).1] at rows
    refine ⟨⟨fun d => ?_, ?_, ?_, ?_⟩, fun row mem => ⟨row, ?_, rfl, ?_⟩⟩
    · rw [pool, rows, List.mem_append, pooled.pool, List.mem_singleton]
      constructor
      · rintro (⟨row, mem, active, rfl⟩ | rfl)
        · exact ⟨row, List.mem_append_left _ mem, active, rfl⟩
        · exact ⟨⟨d, true, now⟩, List.mem_append_right _ (List.mem_singleton.mpr rfl), rfl, rfl⟩
      · rintro ⟨row, mem, active, rfl⟩
        rcases List.mem_append.mp mem with old | last
        · exact .inl ⟨row, old, active, rfl⟩
        · cases List.mem_singleton.mp last
          exact .inr rfl
    · rw [DistinctIds, rows, List.map_append, List.map_singleton, List.nodup_append]
      refine ⟨pooled.ids, List.nodup_singleton _, ?_⟩
      intro a old b last same
      obtain ⟨row, mem, rfl⟩ := List.mem_map.mp old
      exact (new row mem).1 (same.trans (List.mem_singleton.mp last))
    · rw [rows, List.map_append, List.map_singleton, List.nodup_append]
      refine ⟨pooled.codes, List.nodup_singleton _, ?_⟩
      intro a old b last same
      obtain ⟨row, mem, rfl⟩ := List.mem_map.mp old
      exact (new row mem).2 (same.trans (List.mem_singleton.mp last))
    · rw [rows]
      exact List.append_ne_nil_of_left_ne_nil pooled.seeded _
    · rw [rows]
      exact List.mem_append_left _ mem
    · simp [removes]
  | gone id removes created rows pool =>
    have creatives : srv.db.creatives.map (fun row => (deleteRow id row).creative) =
      srv.db.creatives.map (·.creative) :=
      List.map_congr_left fun row _ => deleteRow_creative id row
    refine ⟨⟨fun c => ?_, ?_, ?_, ?_⟩,
      fun row mem => ⟨deleteRow id row, ?_, deleteRow_creative id row, ?_⟩⟩
    · rw [pool, rows, List.mem_filter, pooled.pool]
      constructor
      · rintro ⟨⟨row, mem, active, rfl⟩, other⟩
        have kept : deleteRow id row = row := by
          rw [deleteRow, if_neg]
          exact fun hit => (of_decide_eq_true other) hit.1
        exact ⟨row, List.mem_map.mpr ⟨row, mem, kept⟩, active, rfl⟩
      · rintro ⟨row, mem, active, rfl⟩
        obtain ⟨old, there, rfl⟩ := List.mem_map.mp mem
        unfold deleteRow at active ⊢
        split at active
        · cases active
        · rename_i kept
          rw [if_neg kept]
          exact ⟨⟨old, there, active, rfl⟩, decide_eq_true fun same => kept ⟨same, active⟩⟩
    · exact rows ▸ pooled.ids.delete id
    · rw [rows, List.map_map]
      have codes := congrArg (List.map Creative.shortCode) creatives
      rw [List.map_map, List.map_map] at codes
      exact codes ▸ pooled.codes
    · rw [rows]
      simpa using pooled.seeded
    · rw [rows]
      exact List.mem_map_of_mem mem
    · rw [removes, deleteRow]
      split
      · rename_i hit
        simp [hit.1]
      · rename_i kept
        rw [iff_self_and]
        intro active same
        exact kept ⟨(Option.some.inj same).symm, active⟩

theorem Pooled.after {srv : ServerState C.VerifyingKey} (pooled : Pooled srv) {rs : List Request}
    (drawn : Drawn srv rs) :
    Pooled (srv.after rs) ∧ ∀ row ∈ srv.db.creatives, ∃ row' ∈ (srv.after rs).db.creatives,
      row'.creative = row.creative ∧
      (row'.active = true ↔ row.active = true ∧ row.creative.id ∉ removedIn srv rs) := by
  induction rs generalizing srv with
  | nil => exact ⟨pooled, fun row mem => ⟨row, mem, rfl, by simp [removedIn]⟩⟩
  | cons r rs ih =>
    obtain ⟨new, rest⟩ := drawn
    obtain ⟨next, kept⟩ := pooled.step new
    obtain ⟨later, all⟩ := ih next rest
    refine ⟨later, fun row mem => ?_⟩
    obtain ⟨row', mem', same, flag⟩ := kept row mem
    obtain ⟨row'', mem'', same', flag'⟩ := all row' mem'
    refine ⟨row'', mem'', same'.trans same, ?_⟩
    rw [flag', flag, same, removedIn, List.mem_append, Option.mem_toList, not_or, and_assoc]

theorem Pooled.find {srv : ServerState C.VerifyingKey} (pooled : Pooled srv) {row : CreativeRow}
    (mem : row ∈ srv.db.creatives) :
    srv.mem.creatives.find? (·.shortCode = row.creative.shortCode) =
      if row.active = true then some row.creative else none := by
  have only {c : Creative} (there : c ∈ srv.mem.creatives)
    (same : c.shortCode = row.creative.shortCode) :
      row.active = true ∧ c = row.creative := by
    obtain ⟨other, mem', active, rfl⟩ := (pooled.pool c).mp there
    obtain rfl := List.inj_on_of_nodup_map pooled.codes mem' mem same
    exact ⟨active, rfl⟩
  cases found : srv.mem.creatives.find? (·.shortCode = row.creative.shortCode) with
  | none =>
    rw [if_neg]
    intro active
    have absent :=
      List.find?_eq_none.mp found row.creative ((pooled.pool _).mpr ⟨row, mem, active, rfl⟩)
    exact absent (decide_eq_true rfl)
  | some c =>
    obtain ⟨active, rfl⟩ :=
      only (List.mem_of_find?_eq_some found) (by simpa using List.find?_some found)
    rw [if_pos active]

theorem Pooled.click {srv : ServerState C.VerifyingKey} (pooled : Pooled srv) {rs : List Request}
    (drawn : Drawn srv rs) {c : Creative} (served : c ∈ srv.mem.creatives) :
    (click C (srv.after rs).mem c.shortCode).response =
        redirectTo (if c.id ∈ removedIn srv rs then creativeUrl else c.url) ∧
      (click C (srv.after rs).mem c.shortCode).state.clicks =
        (srv.after rs).mem.clicks + if c.id ∈ removedIn srv rs then 0 else 1 := by
  obtain ⟨row, mem, active, rfl⟩ := (pooled.pool c).mp served
  obtain ⟨later, kept⟩ := pooled.after drawn
  obtain ⟨row', mem', same, flag⟩ := kept row mem
  have find := later.find mem'
  rw [same] at find
  unfold Server.click
  rw [find]
  by_cases removed : row.creative.id ∈ removedIn srv rs
  · rw [if_neg fun still => (flag.mp still).2 removed, if_pos removed, if_pos removed]
    exact ⟨rfl, rfl⟩
  · rw [if_pos (flag.mpr ⟨active, removed⟩), if_neg removed, if_neg removed]
    exact ⟨rfl, rfl⟩

theorem fresh_pooled (now : Int) (token : Option String) :
    Pooled (ServerState.fresh C now token) := by
  obtain ⟨tabled, -⟩ := fresh_survives (C := C) now token
  refine ⟨fun c => ?_, tabled.distinct, ?_, tabled.seeded⟩
  · rw [fresh_eq]
    constructor
    · intro mem
      exact ⟨⟨c, true, now⟩, List.mem_map.mpr ⟨c, mem, rfl⟩, rfl, rfl⟩
    · rintro ⟨row, mem, -, rfl⟩
      obtain ⟨c, there, rfl⟩ := List.mem_map.mp mem
      exact there
  · have codes : (houseRows now).map (·.creative.shortCode) = housePool.map Creative.shortCode := by
      rw [houseRows, List.map_map]
      rfl
    rw [fresh_eq]
    have distinct : (housePool.map Creative.shortCode).Nodup := by decide
    exact codes ▸ distinct

end Spnr.Server
