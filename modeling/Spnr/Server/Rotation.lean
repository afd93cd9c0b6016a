import Mathlib.Data.String.Basic
import Spnr.Proto.Reference
import Spnr.Server.Serve

/-! The serving pool over restarts. Memory has the active creatives as they were created;
the table gives them back by whole second and then by their random id. -/
namespace Spnr.Server

variable {C : Crates}

/-- `ORDER BY created_unix, id`. -/
def rowLe (r r' : CreativeRow) : Bool :=
  decide (r.createdUnix < r'.createdUnix ∨ r.createdUnix = r'.createdUnix ∧
    r.creative.id ≤ r'.creative.id)

theorem rowLe_iff {r r' : CreativeRow} : rowLe r r' = true ↔
    r.createdUnix < r'.createdUnix ∨ r.createdUnix = r'.createdUnix ∧
    r.creative.id ≤ r'.creative.id :=
  decide_eq_true_iff

theorem rowLe_trans (a b c : CreativeRow) (ab : rowLe a b = true) (bc : rowLe b c = true) :
    rowLe a c = true := by
  rw [rowLe_iff] at ab bc ⊢
  rcases ab with earlier | ⟨same, below⟩
  · exact .inl (by rcases bc with later | ⟨same, -⟩ <;> omega)
  · rcases bc with later | ⟨same', below'⟩
    · exact .inl (by omega)
    · exact .inr ⟨same.trans same', below.trans below'⟩

theorem rowLe_total (a b : CreativeRow) : (rowLe a b || rowLe b a) = true := by
  rw [Bool.or_eq_true, rowLe_iff, rowLe_iff]
  rcases lt_trichotomy a.createdUnix b.createdUnix with earlier | same | later
  · exact .inl (.inl earlier)
  · rcases le_total a.creative.id b.creative.id with below | above
    · exact .inl (.inr ⟨same, below⟩)
    · exact .inr (.inr ⟨same.symm, above⟩)
  · exact .inr (.inl later)

theorem rowLe_antisymm {a b : CreativeRow} (ab : rowLe a b = true) (ba : rowLe b a = true) :
    a.creative.id = b.creative.id := by
  rw [rowLe_iff] at ab ba
  rcases ab with earlier | ⟨same, below⟩
  · rcases ba with later | ⟨same, -⟩ <;> omega
  · rcases ba with later | ⟨-, above⟩
    · omega
    · exact le_antisymm below above

abbrev DistinctIds (rows : List CreativeRow) : Prop := (rows.map fun row => row.creative.id).Nodup

theorem DistinctIds.unique {rows : List CreativeRow} (distinct : DistinctIds rows)
    {r r' : CreativeRow} (mem : r ∈ rows)
    (mem' : r' ∈ rows) (same : r.creative.id = r'.creative.id) : r = r' :=
  List.inj_on_of_nodup_map distinct mem mem' same

def activeRows (rows : List CreativeRow) : List CreativeRow :=
  (rows.mergeSort rowLe).filter (·.active)

theorem activeRows_perm (rows : List CreativeRow) :
    (activeRows rows).Perm (rows.filter (·.active)) :=
  (List.mergeSort_perm rows rowLe).filter _

theorem mem_activeRows {rows : List CreativeRow} {row : CreativeRow} :
    row ∈ activeRows rows ↔ row ∈ rows ∧ row.active = true := by
  rw [(activeRows_perm rows).mem_iff, List.mem_filter]

theorem activeRows_sorted (rows : List CreativeRow) :
    (activeRows rows).Pairwise (rowLe · · = true) :=
  (List.pairwise_mergeSort rowLe_trans rowLe_total rows).filter _

theorem activeRows_eq {rows l : List CreativeRow} (distinct : DistinctIds rows)
    (perm : l.Perm (rows.filter (·.active)))
    (sorted : l.Pairwise (rowLe · · = true)) : activeRows rows = l := by
  apply List.Perm.eq_of_pairwise ?_ (activeRows_sorted rows) sorted
    ((activeRows_perm rows).trans perm.symm)
  intro a b mem mem' ab ba
  have there := (mem_activeRows.mp mem).1
  have there' := (List.mem_filter.mp (perm.mem_iff.mp mem')).1
  exact distinct.unique there there' (rowLe_antisymm ab ba)

def createdAt (rows : List CreativeRow) (id : String) (now : Int) : Int :=
  ((rows.find? (·.creative.id = id)).map CreativeRow.createdUnix).getD now

theorem upsertCreative_perm {rows : List CreativeRow} (distinct : DistinctIds rows) (c : Creative)
    (now : Int) : (upsertCreative c true now rows).Perm
      ((rows.filter fun row => row.creative.id ≠ c.id) ++
        [⟨c, true, createdAt rows c.id now⟩]) := by
  induction rows with
  | nil => exact .refl _
  | cons row rows ih =>
    obtain ⟨fresh, rest⟩ := List.nodup_cons.mp distinct
    unfold upsertCreative
    by_cases same : row.creative.id = c.id
    · have others : rows.filter (fun row => row.creative.id ≠ c.id) = rows := by
        rw [List.filter_eq_self]
        intro other mem
        have apart : other.creative.id ≠ c.id :=
          fun twice => fresh (List.mem_map.mpr ⟨other, mem, twice.trans same.symm⟩)
        simpa using apart
      have time : createdAt (row :: rows) c.id now = row.createdUnix := by simp [createdAt, same]
      rw [if_pos same, List.filter_cons_of_neg (by simpa using same), others, time]
      exact (List.perm_append_singleton _ _).symm
    · have time : createdAt (row :: rows) c.id now = createdAt rows c.id now := by
        simp [createdAt, same]
      rw [if_neg same, List.filter_cons_of_pos (by simpa using same), time]
      exact (ih rest).cons row

theorem DistinctIds.upsert {rows : List CreativeRow} (distinct : DistinctIds rows) (c : Creative)
    (now : Int) : DistinctIds (upsertCreative c true now rows) := by
  have perm := (upsertCreative_perm distinct c now).map fun row => row.creative.id
  refine perm.nodup_iff.mpr ?_
  rw [List.map_append]
  refine List.Nodup.append ?_ (List.nodup_singleton _) ?_
  · exact List.Nodup.sublist (List.filter_sublist.map _) distinct
  · intro id mem mem'
    obtain ⟨row, kept, rfl⟩ := List.mem_map.mp mem
    have other := (List.mem_filter.mp kept).2
    rw [List.map_singleton, List.mem_singleton] at mem'
    simp [mem'] at other

/-- The order of the table puts the row before a row with the time and the id. -/
def Before (row : CreativeRow) (time : Int) (id : String) : Prop :=
  row.createdUnix < time ∨ row.createdUnix = time ∧ row.creative.id < id

theorem createdAt_mem {rows : List CreativeRow} (distinct : DistinctIds rows) {row : CreativeRow}
    (mem : row ∈ rows) (now : Int) : createdAt rows row.creative.id now = row.createdUnix := by
  cases found : rows.find? (·.creative.id = row.creative.id) with
  | none => exact absurd (List.find?_eq_none.mp found row mem) (by simp)
  | some r =>
    have same : r.creative.id = row.creative.id := by simpa using List.find?_some found
    obtain rfl := distinct.unique (List.mem_of_find?_eq_some found) mem same
    rw [createdAt, found]
    rfl

theorem mem_upsert {rows : List CreativeRow} (distinct : DistinctIds rows) {c : Creative}
    {now : Int} {row : CreativeRow} : row ∈ upsertCreative c true now rows ↔
      row ∈ rows ∧ row.creative.id ≠ c.id ∨ row = ⟨c, true, createdAt rows c.id now⟩ := by
  rw [(upsertCreative_perm distinct c now).mem_iff, List.mem_append, List.mem_filter,
    List.mem_singleton]
  simp

theorem activeRows_ids {rows : List CreativeRow} (distinct : DistinctIds rows) :
    DistinctIds (activeRows rows) := by
  refine ((activeRows_perm rows).map fun row => row.creative.id).nodup_iff.mpr ?_
  exact List.Nodup.sublist (List.filter_sublist.map _) distinct

theorem before_of_last {rows : List CreativeRow} (distinct : DistinctIds rows)
    {c : Creative} {now : Int}
    (same : (activeRows (upsertCreative c true now rows)).map (·.creative) = (activeRows rows).map
      (·.creative) ++ [c])
    {row : CreativeRow} (mem : row ∈ rows) (active : row.active = true) :
    Before row (createdAt rows c.id now) c.id := by
  obtain ⟨front, last, whole, fronts, lasts⟩ := List.map_eq_append_iff.mp same
  obtain ⟨new, rfl, created⟩ := List.map_eq_singleton_iff.mp lasts
  have ids := activeRows_ids (distinct.upsert c now)
  have sorted := activeRows_sorted (upsertCreative c true now rows)
  rw [whole] at sorted
  rw [DistinctIds, whole, List.map_append] at ids
  have there : new ∈ activeRows (upsertCreative c true now rows) := by simp [whole]
  have new_eq : new = ⟨c, true, createdAt rows c.id now⟩ := by
    rcases (mem_upsert distinct).mp (mem_activeRows.mp there).1 with ⟨-, other⟩ | same
    · exact absurd (congrArg Creative.id created) other
    · exact same
  obtain ⟨old, inFront, oldCreative⟩ : ∃ old ∈ front, old.creative = row.creative := by
    have pooled : row.creative ∈ front.map (·.creative) := by
      rw [fronts]
      exact List.mem_map_of_mem (mem_activeRows.mpr ⟨mem, active⟩)
    exact List.mem_map.mp pooled
  have apart : old.creative.id ≠ c.id := by
    intro same
    have twice := List.disjoint_of_nodup_append ids (List.mem_map_of_mem inFront)
    exact twice (by simp [same, created])
  obtain rfl : old = row := by
    have stored : old ∈ activeRows (upsertCreative c true now rows) := by simp [whole, inFront]
    rcases (mem_upsert distinct).mp (mem_activeRows.mp stored).1 with ⟨old_mem, -⟩ | same
    · exact distinct.unique old_mem mem (congrArg Creative.id oldCreative)
    · exact absurd (by rw [same]) apart
  have order := (List.pairwise_append.mp sorted).2.2 old inFront new List.mem_cons_self
  rw [new_eq, rowLe_iff] at order
  exact order.imp_right fun tie => ⟨tie.1, lt_of_le_of_ne tie.2 apart⟩

theorem active_upsert {rows : List CreativeRow} (distinct : DistinctIds rows) (c : Creative)
    (now : Int) :
    (activeRows (upsertCreative c true now rows)).map (·.creative) = (activeRows rows).map
      (·.creative) ++ [c] ↔
      ∀ row ∈ rows, row.active = true → Before row (createdAt rows c.id now) c.id := by
  constructor
  · exact fun same row mem active => before_of_last distinct same mem active
  · intro before
    have others : (rows.filter fun row => row.creative.id ≠ c.id).filter (·.active) = rows.filter
      (·.active) := by
      rw [List.filter_filter]
      apply List.filter_congr
      intro row mem
      cases active : row.active with
      | false => rfl
      | true =>
        have apart : row.creative.id ≠ c.id := by
          intro same
          have first := before row mem active
          rw [← same, createdAt_mem distinct mem] at first
          rcases first with earlier | ⟨-, below⟩
          · exact absurd earlier (lt_irrefl _)
          · exact absurd below (lt_irrefl _)
        simpa using apart
    have perm := (upsertCreative_perm distinct c now).filter (·.active)
    rw [List.filter_append, others] at perm
    have last : activeRows (upsertCreative c true now rows) =
        activeRows rows ++ [⟨c, true, createdAt rows c.id now⟩] := by
      apply activeRows_eq (distinct.upsert c now)
      · exact ((activeRows_perm rows).append_right _).trans perm.symm
      · refine List.pairwise_append.mpr ⟨activeRows_sorted rows, List.pairwise_singleton _ _, ?_⟩
        intro row mem new single
        obtain ⟨stored, active⟩ := mem_activeRows.mp mem
        rw [List.mem_singleton.mp single, rowLe_iff]
        exact (before row stored active).imp_right fun tie => ⟨tie.1, tie.2.le⟩
    rw [last, List.map_append]
    rfl

def deleteRow (id : String) (row : CreativeRow) : CreativeRow :=
  if row.creative.id = id ∧ row.active then { row with active := false } else row

theorem deleteRow_creative (id : String) (row : CreativeRow) :
    (deleteRow id row).creative = row.creative := by
  unfold deleteRow
  split <;> rfl

theorem DistinctIds.delete {rows : List CreativeRow} (distinct : DistinctIds rows) (id : String) :
    DistinctIds (rows.map (deleteRow id)) := by
  unfold DistinctIds
  rw [List.map_map]
  exact (List.map_congr_left fun row _ => congrArg Creative.id (deleteRow_creative id row)) ▸
    distinct

theorem filter_delete (id : String) (rows : List CreativeRow) :
    (rows.map (deleteRow id)).filter (·.active) = (rows.filter (·.active)).filter
      (·.creative.id ≠ id) := by
  induction rows with
  | nil => rfl
  | cons row rows ih =>
    rw [List.map_cons, List.filter_cons, List.filter_cons, ih]
    cases active : row.active with
    | false => simp [deleteRow, active]
    | true =>
      by_cases same : row.creative.id = id
      · simp [deleteRow, active, same]
      · simp [deleteRow, active, same]

theorem active_delete {rows : List CreativeRow} (distinct : DistinctIds rows) (id : String) :
    (activeRows (rows.map (deleteRow id))).map (·.creative) =
      ((activeRows rows).map (·.creative)).filter (·.id ≠ id) := by
  have left : activeRows (rows.map (deleteRow id)) = (activeRows rows).filter
    (·.creative.id ≠ id) := by
    apply activeRows_eq (distinct.delete id)
    · rw [filter_delete]
      exact (activeRows_perm rows).filter _
    · exact (activeRows_sorted rows).filter _
  rw [left, List.filter_map]
  rfl

/-- The table has rows, one for each id. -/
structure Tabled (db : Database) : Prop where
  distinct : DistinctIds db.creatives
  seeded : db.creatives ≠ []

/-- A start rebuilds the pool that the process serves. -/
def Survives (srv : ServerState C.VerifyingKey) : Prop :=
  ∀ now token, (AppState.open C srv.db now token).1.creatives = srv.mem.creatives

structure CreateGranted (srv : ServerState C.VerifyingKey) (presented : Option String)
    (req : NewCreativeReq) : Prop where
  admin : checkAdmin C srv.mem presented = none
  text : RustStd.trim req.text ≠ ""
  url : RustStd.trim req.url ≠ ""

/-- Of a create: every active row comes before the new one in the order of the table. -/
def SortsLast (srv : ServerState C.VerifyingKey) : Request → Prop
  | .adminCreate presented req fresh => CreateGranted srv presented req →
  ∀ row ∈ srv.db.creatives, row.active = true →
      Before row (createdAt srv.db.creatives fresh.creativeId fresh.now) fresh.creativeId
  | _ => True

theorem open_creatives {db : Database} (tabled : Tabled db) (now : Int) (token : Option String) :
    AppState.open C db now token = ({ toLoaded := load C db
                                      creatives := (activeRows db.creatives).map (·.creative)
                                      adminToken := token.filter (· ≠ "") }, []) := by
  have rows : (loadCreatives db).isEmpty = false := by
    have length : (loadCreatives db).length = db.creatives.length := List.length_mergeSort _
    rw [Bool.eq_false_iff, Ne, List.isEmpty_iff]
    intro empty
    exact tabled.seeded
      (List.eq_nil_of_length_eq_zero (length.symm.trans (congrArg List.length empty)))
  rw [AppState.open, rows, if_neg Bool.false_ne_true]
  rfl

theorem survives_iff {srv : ServerState C.VerifyingKey} (tabled : Tabled srv.db) :
    Survives srv ↔ (activeRows srv.db.creatives).map (·.creative) = srv.mem.creatives := by
  constructor
  · intro survives
    have same := survives 0 none
    rwa [open_creatives tabled] at same
  · intro same now token
    rw [open_creatives tabled]
    exact same

theorem adminCreate_granted {srv : ServerState C.VerifyingKey} {presented : Option String}
    {req : NewCreativeReq} (granted : CreateGranted srv presented req) (fresh : Fresh) :
    ∃ c : Creative, c.id = fresh.creativeId ∧
      (srv.step C (.adminCreate presented req fresh)).mem.creatives = srv.mem.creatives ++ [c] ∧
      (srv.step C (.adminCreate presented req fresh)).db = srv.db.exec
        (.insertCreative c true fresh.now) := by
  have whole : ¬(RustStd.trim req.text = "" ∨ RustStd.trim req.url = "") :=
    not_or.mpr ⟨granted.text, granted.url⟩
  have run : ∃ c : Creative, c.id = fresh.creativeId ∧
    adminCreateCreative C srv.mem presented req fresh =
      ⟨{ srv.mem with creatives := srv.mem.creatives ++ [c] }, [.insertCreative c true fresh.now],
        .ok c⟩ := by
    unfold adminCreateCreative
    rw [granted.admin]
    dsimp only
    rw [if_neg whole]
    exact ⟨_, rfl, rfl⟩
  obtain ⟨c, id, run⟩ := run
  refine ⟨c, id, ?_, ?_⟩
  · simp only [ServerState.step, ServerState.effect, run]
  · simp only [ServerState.step, ServerState.effect, run]
    rfl

theorem adminCreate_refused {srv : ServerState C.VerifyingKey} {presented : Option String}
    {req : NewCreativeReq}
    (refused : ¬ CreateGranted srv presented req) (fresh : Fresh) :
    srv.step C (.adminCreate presented req fresh) = srv := by
  simp only [ServerState.step, ServerState.effect, adminCreateCreative]
  cases admin : checkAdmin C srv.mem presented with
  | some refusal => rfl
  | none =>
    dsimp only
    by_cases blank : RustStd.trim req.text = "" ∨ RustStd.trim req.url = ""
    · rw [if_pos blank]
      rfl
    · exact absurd ⟨admin, (not_or.mp blank).1, (not_or.mp blank).2⟩ refused

theorem step_delete (srv : ServerState C.VerifyingKey) (presented : Option String) (id : String) :
    (srv.step C (.adminDelete presented id)) = srv ∨
      (srv.step C (.adminDelete presented id)).db.creatives = srv.db.creatives.map (deleteRow id) ∧
        ((srv.step C (.adminDelete presented id)).mem.creatives = srv.mem.creatives.filter
          (·.id ≠ id) ∨ (srv.step C (.adminDelete presented id)).mem.creatives = srv.mem.creatives ∧
            ∀ row ∈ srv.db.creatives, row.active = true → row.creative.id ≠ id) := by
  simp only [ServerState.step, ServerState.effect]
  unfold adminDeleteCreative
  split
  · exact .inl rfl
  · split
    · exact .inr ⟨rfl, .inl rfl⟩
    · rename_i absent
      refine .inr ⟨rfl, .inr ⟨rfl, fun row mem active same => absent ?_⟩⟩
      exact List.any_eq_true.mpr ⟨row, mem, decide_eq_true ⟨same, active⟩⟩

section

variable {srv : ServerState C.VerifyingKey} (tabled : Tabled srv.db) (survives : Survives srv)
include tabled survives

theorem create_survives (presented : Option String) (req : NewCreativeReq) (fresh : Fresh) :
    let r := Request.adminCreate presented req fresh
    Tabled (srv.step C r).db ∧ (Survives (srv.step C r) ↔ SortsLast srv r) := by
  intro r
  by_cases granted : CreateGranted srv presented req
  · obtain ⟨c, id, pool, table⟩ := adminCreate_granted granted fresh
    have next : Tabled (srv.step C r).db := by
      rw [table]
      exact ⟨tabled.distinct.upsert c fresh.now, upsertCreative_ne_nil c fresh.now srv.db.creatives⟩
    have rows := active_upsert tabled.distinct c fresh.now
    rw [(survives_iff tabled).mp survives, id] at rows
    refine ⟨next, ?_⟩
    rw [survives_iff next, pool, table]
    exact rows.trans ⟨fun before _ => before, fun before => before granted⟩
  · have refused : srv.step C r = srv := adminCreate_refused granted fresh
    rw [refused]
    exact ⟨tabled, fun _ allowed => absurd allowed granted, fun _ => survives⟩

theorem delete_survives (presented : Option String) (id : String) :
    Tabled (srv.step C (.adminDelete presented id)).db ∧
    Survives (srv.step C (.adminDelete presented id)) := by
  rcases step_delete srv presented id with unchanged | ⟨table, pool⟩
  · rw [unchanged]
    exact ⟨tabled, survives⟩
  · have same := (survives_iff tabled).mp survives
    have next : Tabled (srv.step C (.adminDelete presented id)).db := by
      constructor
      · rw [table]
        exact tabled.distinct.delete id
      · rw [table]
        simpa using tabled.seeded
    refine ⟨next, (survives_iff next).mpr ?_⟩
    rw [table, active_delete tabled.distinct, same]
    rcases pool with gone | ⟨kept, absent⟩
    · exact gone.symm
    · rw [kept, List.filter_eq_self]
      intro c mem
      rw [← same] at mem
      obtain ⟨row, served, rfl⟩ := List.mem_map.mp mem
      obtain ⟨stored, active⟩ := mem_activeRows.mp served
      simpa using absent row stored active

omit survives in
theorem restart_survives (now : Int) (token : Option String) :
    Tabled (srv.step C (.restart now token)).db ∧ Survives (srv.step C (.restart now token)) := by
  have opened : srv.step C (.restart now token) = ⟨(AppState.open C srv.db now token).1,
    srv.db⟩ := by
    simp only [ServerState.step, ServerState.effect, open_creatives tabled, Database.execAll_nil]
  rw [opened]
  refine ⟨tabled, fun now' token' => ?_⟩
  rw [open_creatives tabled, open_creatives tabled]

theorem other_survives {r : Request} (plain : r.operator = false) :
    Tabled (srv.step C r).db ∧ Survives (srv.step C r) := by
  obtain ⟨pool, others⟩ := effect_other srv plain
  have rows : (srv.step C r).db.creatives = srv.db.creatives := execAll_other others srv.db
  have next : Tabled (srv.step C r).db := by
    constructor
    · rw [rows]
      exact tabled.distinct
    · rw [rows]
      exact tabled.seeded
  refine ⟨next, (survives_iff next).mpr ?_⟩
  rw [rows, (survives_iff tabled).mp survives]
  exact pool.symm

theorem step_survives (r : Request) : Tabled (srv.step C r).db ∧
    (Survives (srv.step C r) ↔ SortsLast srv r) := by
  have free {P Q : Prop} (kept : P ∧ Q) : P ∧ (Q ↔ True) :=
    ⟨kept.1, fun _ => trivial, fun _ => kept.2⟩
  cases r with
  | adminCreate presented req fresh => exact create_survives tabled survives presented req fresh
  | adminDelete presented id => exact free (delete_survives tabled survives presented id)
  | restart now token => exact free (restart_survives tabled now token)
  | _ => exact free (other_survives tabled survives rfl)

end

def houseRows (now : Int) : List CreativeRow := housePool.map fun c => ⟨c, true, now⟩

theorem houseRows_sorted (now : Int) : (houseRows now).Pairwise (rowLe · · = true) := by
  have names : (["cr_house_1", "cr_house_2", "cr_house_3"] : List String).Pairwise (· ≤ ·) := by
    decide
  simp only [houseRows, housePool, List.map_cons, List.map_nil, List.pairwise_cons, List.mem_cons,
    List.not_mem_nil, or_false, forall_eq_or_imp, forall_eq, rowLe_iff] at names ⊢
  simp

theorem fresh_eq (now : Int) (token : Option String) : ServerState.fresh C now token =
    ⟨{ toLoaded := load C .fresh, creatives := housePool, adminToken := token.filter (· ≠ "") },
      { Database.fresh with creatives := houseRows now }⟩ := by
  have empty : (loadCreatives Database.fresh).isEmpty = true := by
    simp [loadCreatives, Database.fresh]
  rw [ServerState.fresh, ServerState.opened, AppState.open, empty]
  rfl

theorem fresh_survives (now : Int) (token : Option String) :
    Tabled (ServerState.fresh C now token).db ∧ Survives (ServerState.fresh C now token) := by
  have distinct : DistinctIds (houseRows now) := by
    have ids : (houseRows now).map (fun row => row.creative.id) = ["cr_house_1", "cr_house_2",
      "cr_house_3"] := rfl
    rw [DistinctIds, ids]
    decide
  have tabled : Tabled (ServerState.fresh C now token).db := by
    rw [fresh_eq]
    exact ⟨distinct, List.cons_ne_nil _ _⟩
  have active : activeRows (houseRows now) = houseRows now :=
    activeRows_eq distinct (.refl _) (houseRows_sorted now)
  refine ⟨tabled, (survives_iff tabled).mpr ?_⟩
  rw [fresh_eq, active]
  rfl

theorem run_survives {srv : ServerState C.VerifyingKey} (tabled : Tabled srv.db)
    (survives : Survives srv) (rs : List Request) :
    (∀ before after, rs = before ++ after → Survives (srv.after before)) ↔
      ∀ before r after, rs = before ++ r :: after → SortsLast (srv.after before) r := by
  induction rs generalizing srv with
  | nil =>
    constructor
    · intro _ before r after split
      simp at split
    · intro _ before after split
      obtain ⟨rfl, -⟩ := List.nil_eq_append_iff.mp split
      exact survives
  | cons first rs ih =>
    obtain ⟨next, kept⟩ := step_survives tabled survives first
    constructor
    · intro every
      have now : Survives (srv.step C first) := every [first] rs rfl
      have later := (ih next now).mp fun before after split =>
        every (first :: before) after (by rw [split]; rfl)
      intro before r after split
      cases before with
      | nil =>
        obtain ⟨rfl, -⟩ := List.cons.inj split
        exact kept.mp now
      | cons head before =>
        obtain ⟨rfl, rest⟩ := List.cons.inj split
        exact later before r after rest
    · intro every
      have now : Survives (srv.step C first) := kept.mpr (every [] first rs rfl)
      have later := (ih next now).mpr fun before r after split =>
        every (first :: before) r after (by rw [split]; rfl)
      intro before after split
      cases before with
      | nil => exact survives
      | cons head before =>
        obtain ⟨rfl, rest⟩ := List.cons.inj split
        exact later before after rest

/-- The pool survives a restart at every point of a run exactly when each create of the run
puts its row at the end of the table's order. -/
theorem rotation_survives (C : Crates) (now : Int) (token : Option String) (rs : List Request) :
    (∀ before after,
      rs = before ++ after → Survives ((ServerState.fresh C now token).after before)) ↔
      ∀ before r after, rs = before ++ r :: after →
      SortsLast ((ServerState.fresh C now token).after before) r := by
  obtain ⟨tabled, survives⟩ := fresh_survives (C := C) now token
  exact run_survives tabled survives rs

/-! Two creates in one second. -/

def acme (id : String) : Request :=
  .adminCreate (some "t0ken") ⟨"Acme ↗", "https://acme.example", none⟩ ⟨id, "Ac1ME2", 10⟩

theorem acme_granted (srv : ServerState C.VerifyingKey)
    (operator : srv.mem.adminToken = some "t0ken") :
    CreateGranted srv (some "t0ken") ⟨"Acme ↗", "https://acme.example", none⟩ := by
  constructor
  · rw [checkAdmin, operator]
    rfl
  · decide
  · decide

theorem acme_rows : ((ServerState.fresh Reference.crates 0 (some "t0ken")).step Reference.crates
    (acme "cr_9f3c2b1a")).db.creatives = houseRows 0 ++
      [⟨⟨"cr_9f3c2b1a", "Acme ↗", "https://acme.example", "Ac1ME2", "acct:advertiser", ""⟩,
        true, 10⟩] := by
  rw [fresh_eq]
  rfl

/-- The second one comes back in front of the first. -/
theorem rotation_swapped :
    ¬ Survives ((ServerState.fresh Reference.crates 0 (some "t0ken")).after [acme "cr_9f3c2b1a",
      acme "cr_1b2c3d4e"]) := by
  obtain ⟨tabled, survives⟩ := fresh_survives (C := Reference.crates) 0 (some "t0ken")
  obtain ⟨tabled', survives'⟩ := step_survives tabled survives (acme "cr_9f3c2b1a")
  have first := survives'.mpr fun _ row mem _ => by
    rw [fresh_eq] at mem ⊢
    obtain ⟨c, -, rfl⟩ := List.mem_map.mp mem
    exact .inl (show (0 : Int) < 10 by decide)
  intro second
  have last := (step_survives tabled' first (acme "cr_1b2c3d4e")).2.mp second
    (acme_granted _ (by rw [fresh_eq]; rfl)) _
      (by rw [acme_rows]; exact List.mem_append_right _ List.mem_cons_self) rfl
  rw [acme_rows] at last
  rcases last with earlier | ⟨-, below⟩
  · exact absurd (show (10 : Int) < 10 from earlier) (by decide)
  · exact absurd (show "cr_9f3c2b1a" < "cr_1b2c3d4e" from below) (by decide)

end Spnr.Server
