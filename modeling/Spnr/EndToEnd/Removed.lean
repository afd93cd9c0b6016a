import Mathlib.Data.Fintype.EquivFin
import Spnr.Daemon.Creatives
import Spnr.Server.Serve

/-! A creative that the operator has removed, seen from `/v1/serve`, from a daemon that
fetches the pool and from the click redirect. -/
namespace Spnr.EndToEnd

open RustStd Server Spnrd

variable {C : Crates}

/-- Nothing of the creative `id` with the address `url` is shown any more. -/
structure NotShown (s : AppState C.VerifyingKey) (id url : String) : Prop where
  field : (serve s).creative.id ≠ id
  list : ∀ c ∈ (serve s).creatives, c.id ≠ id
  injected : ∀ (J : SerdeJson) (body : String), J.fromSlice (asBytes body) = .ok (serve s).toJson →
    ∀ ad ∈ serveCreatives J (some body), ad.id ≠ id
  redirect : ∀ code, (click C s code).response = .ok url → ∃ c ∈ s.creatives, c.url = url

/-- The flat copy of the first house ad, where it is fallen back to, is another one. -/
structure FlatHarmless (s : AppState C.VerifyingKey) (id url : String) : Prop where
  served : s.creatives = [] → id ≠ flatPrimary.id
  clicked : url = creativeUrl → ∃ c ∈ s.creatives, c.url = creativeUrl

def adOf (c : ServeCreative) : Daemon.ServedAd := ⟨c.id, c.text, c.url, c.shortCode⟩

theorem served_toJson (c : ServeCreative) : served c.toJson = some (adOf c) := by
  have text : ("text" == "id") = false := by decide
  have url₁ : ("url" == "id") = false := by decide
  have url₂ : ("url" == "text") = false := by decide
  have url₃ : ("url" == "short_code") = false := by decide
  have code₁ : ("short_code" == "id") = false := by decide
  have code₂ : ("short_code" == "text") = false := by decide
  simp [served, Settings.get, ServeCreative.toJson, List.lookup_cons, text, url₁, url₂, url₃, code₁,
    code₂, adOf]

theorem serveCreatives_toJson {J : SerdeJson} {body : String} {resp : ServeResp}
    (reads : J.fromSlice (asBytes body) = .ok resp.toJson) :
    serveCreatives J (some body) =
      if resp.creatives = [] then [adOf resp.creative] else resp.creatives.map adOf := by
  have other : ("creatives" == "creative") = false := by decide
  have list : Settings.get resp.toJson "creatives" =
    some (.arr (resp.creatives.map ServeCreative.toJson)) := by
    simp [Settings.get, ServeResp.toJson, List.lookup_cons, other]
  have single : Settings.get resp.toJson "creative" = some resp.creative.toJson := rfl
  have pool : (resp.creatives.map ServeCreative.toJson).filterMap served =
    resp.creatives.map adOf := by
    rw [List.filterMap_map, ← List.filterMap_eq_map]
    exact congrArg (List.filterMap · resp.creatives) (funext served_toJson)
  simp only [serveCreatives, Option.map_some, reads, list, single, Option.bind_some, Serde.asArray,
    Option.getD_some,
    pool, List.isEmpty_iff, List.map_eq_nil_iff, served_toJson, Option.toList_some]

theorem exists_unknown_code (pool : List Creative) : ∃ code, ∀ c ∈ pool, c.shortCode ≠ code := by
  obtain ⟨code, fresh⟩ := Infinite.exists_notMem_finset (pool.map Creative.shortCode).toFinset
  refine ⟨code, fun c mem same => fresh ?_⟩
  exact List.mem_toFinset.mpr (same ▸ List.mem_map_of_mem mem)

theorem notShown_iff {s : AppState C.VerifyingKey} {id url : String}
    (absent : ∀ c ∈ s.creatives, c.id ≠ id) : NotShown s id url ↔ FlatHarmless s id url := by
  constructor
  · intro hidden
    constructor
    · intro empty same
      have primary : (serve s).creative = flatPrimary := by rw [serve, empty]; rfl
      exact hidden.field (primary ▸ same.symm)
    · intro flat
      obtain ⟨code, unknown⟩ := exists_unknown_code s.creatives
      have fallback : (click C s code).response = .ok creativeUrl := by
        have missed : s.creatives.find? (·.shortCode = code) = none := by
          simpa using unknown
        rw [click, missed]
        exact redirectTo_creativeUrl
      exact flat ▸ hidden.redirect code (fallback.trans (congrArg _ flat.symm))
  · intro harmless
    have pool : ∀ c ∈ (serve s).creatives, c.id ≠ id := by
      intro c mem
      obtain ⟨stored, there, rfl⟩ := List.mem_map.mp mem
      exact absent stored there
    have primary : (serve s).creative.id ≠ id := by
      cases first : s.creatives with
      | nil =>
        have flat : (serve s).creative = flatPrimary := by rw [serve, first]; rfl
        rw [flat]
        exact (harmless.served first).symm
      | cons c others =>
        have head : (serve s).creative = c.served := by rw [serve, first]; rfl
        rw [head]
        exact absent c (first ▸ List.mem_cons_self)
    refine ⟨primary, pool, ?_, ?_⟩
    · intro J body reads ad mem
      rw [serveCreatives_toJson reads] at mem
      split at mem
      · rw [List.mem_singleton.mp mem]
        exact primary
      · obtain ⟨c, there, rfl⟩ := List.mem_map.mp mem
        exact pool c there
    · intro code redirected
      unfold click at redirected
      split at redirected
      · rename_i c found
        exact ⟨c, List.mem_of_find?_eq_some found, redirectTo_ok redirected⟩
      · have target : creativeUrl = url :=
          redirectTo_ok (show redirectTo creativeUrl = .ok url from redirected)
        obtain ⟨c, mem, same⟩ := harmless.clicked target.symm
        exact ⟨c, mem, same.trans target⟩

/-- After a delete that answered 200, and until the id is created again, nothing of the
creative is shown exactly where the flat copy of the first house ad does no harm. -/
theorem removed_not_shown {srv : ServerState C.VerifyingKey} {presented : Option String}
    {id : String}
    (deleted : (adminDeleteCreative C srv.mem srv.db presented id).response = .ok ())
    (rs : List Request) (uncreated : Uncreated id (srv.step C (.adminDelete presented id)) rs) :
    let s := ((srv.step C (.adminDelete presented id)).after rs).mem
    ∀ row ∈ srv.db.creatives, row.creative.id = id →
      (NotShown s id row.creative.url ↔ FlatHarmless s id row.creative.url) := by
  intro s row _ _
  exact notShown_iff ((deleted_gone deleted).after uncreated).absent

theorem fresh_creatives (now : Int) (token : Option String) :
    (ServerState.fresh C now token).mem.creatives = housePool ∧
      (ServerState.fresh C now token).db.creatives = housePool.map (⟨·, true, now⟩) ∧
      (ServerState.fresh C now token).mem.adminToken = token.filter (· ≠ "") := by
  have empty : (loadCreatives Database.fresh).isEmpty = true := by
    simp [loadCreatives, Database.fresh]
  simp only [ServerState.fresh, ServerState.opened, AppState.open, empty, if_true]
  refine ⟨trivial, ?_, trivial⟩
  simp [housePool, Database.exec, upsertCreative, Database.fresh]

theorem delete_active {srv : ServerState C.VerifyingKey} {token : String}
    (own : srv.mem.adminToken = some token)
    (id : String)
    (active : srv.db.creatives.any (fun row => row.creative.id = id ∧ row.active) = true) :
    (adminDeleteCreative C srv.mem srv.db (some token) id).response = .ok () ∧
      let srv' := srv.step C (.adminDelete (some token) id)
      srv'.mem.creatives = srv.mem.creatives.filter (·.id ≠ id) ∧ srv'.mem.adminToken = some token ∧
        srv'.db.creatives = (srv.db.exec (.deleteCreative id)).creatives := by
  have granted : checkAdmin C srv.mem (some token) = none := by simp [checkAdmin, own]
  simp only [ServerState.step, ServerState.effect, adminDeleteCreative, granted, active, if_true]
  exact ⟨trivial, trivial, own, rfl⟩

theorem removed_not_shown_second :
    NotShown (C := Reference.crates)
      (((ServerState.fresh Reference.crates 0 (some "t")).step Reference.crates
        (.adminDelete (some "t") "cr_house_2")).after
        [.click "Kp7T", .restart 1 none]).mem "cr_house_2" "https://example.com/ctxgraph" := by
  obtain ⟨pool, rows, token⟩ := fresh_creatives (C := Reference.crates) 0 (some "t")
  have active : (ServerState.fresh Reference.crates 0 (some "t")).db.creatives.any
      (fun row => row.creative.id = "cr_house_2" ∧ row.active) = true := by
    rw [rows]
    decide
  have row : (⟨⟨"cr_house_2", "ctxgraph — see what your agent sees ↗",
    "https://example.com/ctxgraph", "Kp7T", "acct:house",
      "House Ad — ctxgraph"⟩, true, 0⟩ : CreativeRow) ∈
        (ServerState.fresh Reference.crates 0 (some "t")).db.creatives := by
    rw [rows]
    simp [housePool]
  refine (removed_not_shown (delete_active token "cr_house_2" active).1
    [.click "Kp7T", .restart 1 none]
    ⟨by rintro _ ⟨⟩, by rintro _ ⟨⟩, trivial⟩ _ row rfl).mpr ⟨?_, ?_⟩
  · intro _
    decide
  · intro same
    exact absurd same (by decide)

/-- All three removed: the pool is empty, and the first one is served and clicked again. -/
theorem removed_house_shown :
    let operator := some "t"
    let srv := (ServerState.fresh Reference.crates 0 operator).after
      [.adminDelete operator "cr_house_2", .adminDelete operator "cr_house_3"]
    (adminDeleteCreative Reference.crates srv.mem srv.db operator "cr_house_1").response = .ok () ∧
      let s := (srv.step Reference.crates (.adminDelete operator "cr_house_1")).mem
      (serve s).creative.id = "cr_house_1" ∧
        (click Reference.crates s "AbC9").response = .ok "https://example.com/cloakpipe" ∧
          s.creatives = [] := by
  intro operator srv
  obtain ⟨pool, rows, token⟩ := fresh_creatives (C := Reference.crates) 0 (some "t")
  obtain ⟨-, pool₂, token₂, rows₂⟩ := delete_active token "cr_house_2" (by rw [rows]; decide)
  rw [pool] at pool₂
  rw [Database.exec, rows] at rows₂
  obtain ⟨-, pool₃, token₃, rows₃⟩ := delete_active token₂ "cr_house_3" (by rw [rows₂]; decide)
  rw [pool₂] at pool₃
  rw [Database.exec, rows₂] at rows₃
  obtain ⟨deleted, pool₁, -⟩ := delete_active token₃ "cr_house_1" (by rw [rows₃]; decide)
  have empty :
      (srv.step Reference.crates (.adminDelete operator "cr_house_1")).mem.creatives = [] := by
    refine pool₁.trans ?_
    rw [pool₃]
    rfl
  refine ⟨deleted, ?_, ?_, empty⟩
  · rw [serve, empty]
    rfl
  · rw [click, empty]
    exact redirectTo_creativeUrl

end Spnr.EndToEnd
