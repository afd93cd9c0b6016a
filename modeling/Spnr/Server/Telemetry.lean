import Mathlib.Data.Finset.Sort
import Spnr.Server.Operator

/-! The connected sessions of the admin view. A row of `device_meta` is written only by a
registration, and after any run it says of its device what the registrations since the
first boot said last. -/
namespace Spnr.Server

open RustStd Transition

variable {C : Crates}

/-- `ORDER BY last_seen DESC, device_id`. -/
def seenLe (rows : HashMap String DeviceMetaRow) (id id' : String) : Prop :=
  let lastSeen id := ((rows.lookup id).map DeviceMetaRow.lastSeen).getD 0
  lastSeen id' < lastSeen id ∨ lastSeen id = lastSeen id' ∧ id ≤ id'

instance seenLe_decidable (rows : HashMap String DeviceMetaRow) : DecidableRel (seenLe rows) :=
  fun _ _ => inferInstanceAs (Decidable (_ ∨ _))

instance seenLe_trans (rows : HashMap String DeviceMetaRow) : IsTrans String (seenLe rows) := by
  constructor
  rintro a b c (newer | ⟨same, le⟩) (newer' | ⟨same', le'⟩)
  · exact .inl (lt_trans newer' newer)
  · exact .inl (same' ▸ newer)
  · exact .inl (same ▸ newer')
  · exact .inr ⟨same.trans same', String.le_trans le le'⟩

instance seenLe_antisymm (rows : HashMap String DeviceMetaRow) : Std.Antisymm (seenLe rows) := by
  constructor
  rintro a b (newer | ⟨same, le⟩) (newer' | ⟨same', le'⟩)
  · exact absurd newer (lt_asymm newer')
  · exact absurd newer (same' ▸ lt_irrefl _)
  · exact absurd newer' (same ▸ lt_irrefl _)
  · exact String.le_antisymm le le'

instance seenLe_total (rows : HashMap String DeviceMetaRow) : Std.Total (seenLe rows) := by
  constructor
  intro a b
  rcases lt_trichotomy (((rows.lookup a).map DeviceMetaRow.lastSeen).getD 0)
    (((rows.lookup b).map DeviceMetaRow.lastSeen).getD 0) with older | same | newer
  · exact .inr (.inl older)
  · rcases String.le_total a b with le | le
    · exact .inl (.inr ⟨same, le⟩)
    · exact .inr (.inr ⟨same.symm, le⟩)
  · exact .inl (.inl newer)

def listDeviceMeta (db : Database) : List (String × DeviceMetaRow) :=
  (db.deviceMeta.keys.sort (seenLe db.deviceMeta)).filterMap fun id =>
    (db.deviceMeta.lookup id).map (id, ·)

structure AdminDevice where
  deviceId : String
  email : String
  ip : String
  os : String
  arch : String
  hostname : String
  version : String
  impressions : Nat
  firstSeen : Int
  lastSeen : Int
  deriving DecidableEq

def adminDevice (s : AppState C.VerifyingKey) (id : String) (r : DeviceMetaRow) : AdminDevice where
  deviceId := id
  email := r.email.getD ""
  ip := r.ip.getD ""
  os := r.os.getD ""
  arch := r.arch.getD ""
  hostname := r.hostname.getD ""
  version := r.version.getD ""
  impressions := (s.impressions.lookup (accountOf id)).getD 0
  firstSeen := r.firstSeen
  lastSeen := r.lastSeen

def adminListDevices (s : AppState C.VerifyingKey) (db : Database) (presented : Option String) :
    Except (Nat × String) (List AdminDevice) :=
  match checkAdmin C s presented with
  | some refusal => .error refusal
  | none => .ok ((listDeviceMeta db).map fun row => adminDevice s row.1 row.2)

theorem mem_listDeviceMeta {db : Database} {id : String} {r : DeviceMetaRow} :
    (id, r) ∈ listDeviceMeta db ↔ db.deviceMeta.lookup id = some r := by
  rw [listDeviceMeta, List.mem_filterMap]
  constructor
  · rintro ⟨id', -, found⟩
    obtain ⟨row, there, same⟩ := Option.map_eq_some_iff.mp found
    cases same
    exact there
  · intro found
    have key : id ∈ db.deviceMeta.keys := by
      rw [Finmap.mem_keys, ← Finmap.lookup_isSome, found]
      rfl
    exact ⟨id, (Finset.mem_sort _).mpr key, by rw [found]; rfl⟩

theorem listDeviceMeta_sorted (db : Database) :
    (listDeviceMeta db).Pairwise fun row row' => row.1 ≠ row'.1 ∧
      (row'.2.lastSeen < row.2.lastSeen ∨ row.2.lastSeen = row'.2.lastSeen ∧ row.1 ≤ row'.1) := by
  have sorted := Finset.pairwise_sort db.deviceMeta.keys (seenLe db.deviceMeta)
  have distinct := Finset.sort_nodup db.deviceMeta.keys (seenLe db.deviceMeta)
  rw [listDeviceMeta, List.pairwise_filterMap]
  refine (distinct.and sorted).imp ?_
  rintro a b ⟨apart, before⟩ row here row' there
  obtain ⟨r, found, rfl⟩ := Option.map_eq_some_iff.mp here
  obtain ⟨r', found', rfl⟩ := Option.map_eq_some_iff.mp there
  simp only [seenLe, found, found', Option.map_some, Option.getD_some] at before
  exact ⟨apart, before⟩

structure Sighting where
  peer : Peer
  req : RegisterReq
  now : Int

def Action.sighting (C : Crates) (d : String) : Action → Option Sighting
  | .complete (.register peer req now) =>
    if req.deviceId = d ∧ (decodePubkey C req.pubkey).isSome then some ⟨peer, req, now⟩ else none
  | .crash (.register peer req now) k _ _ =>
    if req.deviceId = d ∧ (decodePubkey C req.pubkey).isSome ∧
      4 ≤ k then some ⟨peer, req, now⟩ else none
  | _ => none

def sightings (C : Crates) (d : String) (acts : List Action) : List Sighting :=
  acts.filterMap (Action.sighting C d)

/-- What was said last about a field, blanks aside. -/
def lastSaid (field : RegisterReq → Option String) (seen : List Sighting) : Option String :=
  (seen.filterMap fun s => optStr (field s.req)).getLast?

def recorded (seen : List Sighting) : Option DeviceMetaRow :=
  match seen.head?, seen.getLast? with
  | some first, some last => some {
      ip := some (clientIp last.peer)
      os := lastSaid RegisterReq.os seen
      arch := lastSaid RegisterReq.arch seen
      hostname := lastSaid RegisterReq.hostname seen
      version := lastSaid RegisterReq.version seen
      email := lastSaid RegisterReq.email seen
      firstSeen := first.now
      lastSeen := last.now }
  | _, _ => none

def Sighting.row (s : Sighting) : DeviceMetaRow :=
  ⟨some (clientIp s.peer), optStr s.req.os, optStr s.req.arch, optStr s.req.hostname,
    optStr s.req.version, optStr s.req.email, s.now, s.now⟩

theorem lastSaid_concat (field : RegisterReq → Option String) (seen : List Sighting)
    (s : Sighting) :
    lastSaid field (seen ++ [s]) = (optStr (field s.req) <|> lastSaid field seen) := by
  rw [lastSaid, List.filterMap_append]
  cases said : optStr (field s.req) with
  | none => simp [said, lastSaid]
  | some v => simp [said]

theorem recorded_concat (seen : List Sighting) (s : Sighting) :
    recorded (seen ++ [s]) = some (match recorded seen with
      | some old => old.merge s.row
      | none => s.row) := by
  rcases seen with _ | ⟨first, rest⟩
  · have alone (field : RegisterReq → Option String) : lastSaid field [s] =
      optStr (field s.req) := by
      have said := lastSaid_concat field [] s
      rw [List.nil_append] at said
      rw [said]
      simp [lastSaid]
    simp [recorded, alone, Sighting.row]
  · have last : (first :: rest ++ [s]).getLast? = some s := List.getLast?_concat
    have before : ∃ previous, (first :: rest).getLast? = some previous :=
      ⟨_, List.getLast?_eq_some_getLast (List.cons_ne_nil first rest)⟩
    obtain ⟨previous, found⟩ := before
    have head : (first :: rest ++ [s]).head? = some first := rfl
    simp only [recorded, head, last, found, List.head?_cons, lastSaid_concat, DeviceMetaRow.merge,
      Sighting.row]
    rfl

def Stmt.OnMeta : Stmt → Bool
  | .upsertDeviceMeta _ _ => true
  | _ => false

theorem exec_meta (db : Database) {w : Stmt} (other : w.OnMeta = false) :
    (db.exec w).deviceMeta = db.deviceMeta := by
  cases w with
  | upsertDeviceMeta => cases other
  | updateDeviceHead => simp only [Database.exec]; split <;> rfl
  | ensureBalance => simp only [Database.exec]; split <;> rfl
  | ensureImpressions => simp only [Database.exec]; split <;> rfl
  | insertRedemption => simp only [Database.exec]; split <;> rfl
  | _ => rfl

theorem execAll_meta {ws : List Stmt} (others : ∀ w ∈ ws, w.OnMeta = false) (db : Database) :
    (db.execAll ws).deviceMeta = db.deviceMeta := by
  induction ws generalizing db with
  | nil => rfl
  | cons w ws ih =>
    obtain ⟨first, rest⟩ := List.forall_mem_cons.mp others
    rw [Database.execAll_cons, ih rest, exec_meta db first]

theorem Stmt.Aside.offMeta {w : Stmt} (aside : w.Aside) : w.OnMeta = false := by
  cases w with
  | upsertDeviceMeta => cases aside
  | _ => rfl

theorem ingestAll_meta (ses : List SignedEvent) (s : AppState C.VerifyingKey) (d : String) :
    ∀ w ∈ (ingestAll s d ses).2, w.OnMeta = false := by
  induction ses generalizing s with
  | nil => simp [ingestAll]
  | cons se rest ih =>
    intro w mem
    rcases List.mem_append.mp mem with now | later
    · rcases ingestEvent_cases s d se with ⟨dev, -, here⟩ | ⟨-, here⟩
      · rw [here] at now
        by_cases accrues : Accrues se.e <;> simp [acceptWrites, newLedger, accrues] at now
        all_goals
          rcases now with rfl | rfl | rfl | rfl | rfl | rfl | rfl <;> rfl
      · rw [here] at now
        cases List.mem_singleton.mp now
        rfl
    · exact ih _ w later

def Request.isRegister : Request → Bool
  | .register _ _ _ => true
  | _ => false

theorem effect_meta (srv : ServerState C.VerifyingKey) {r : Request}
    (other : r.isRegister = false) : ∀ w ∈ (srv.effect C r).2, w.OnMeta = false := by
  cases r with
  | register peer req now => cases other
  | ingest req =>
    rw [ingest_effect]
    exact ingestAll_meta req.events srv.mem req.deviceId
  | redeem req order =>
    simp only [ServerState.effect]
    rcases redeem_cases srv.mem req order with ⟨account, requested, -, -, h⟩ | ⟨error, -, h⟩ <;>
      simp [h, payOut, Stmt.OnMeta]
  | _ => exact fun w mem => (aside_writes srv rfl w mem).offMeta

theorem opened_meta (db : Database) (now : Int) (token : Option String) :
    (ServerState.opened C db now token).db.deviceMeta = db.deviceMeta := by
  have aside :=
    aside_writes (C := C) ⟨(AppState.open C db now token).1, db⟩ (r := .restart now token) rfl
  exact execAll_meta (fun w mem => (aside w mem).offMeta) db

theorem register_meta (srv : ServerState C.VerifyingKey) (peer : Peer) (req : RegisterReq)
    (now : Int) (k : Nat) (d : String) :
    (srv.db.execAll ((srv.effect C (.register peer req now)).2.take k)).deviceMeta.lookup d =
      if req.deviceId = d ∧ (decodePubkey C req.pubkey).isSome ∧ 4 ≤ k then
        some (match srv.db.deviceMeta.lookup d with
          | some old => old.merge (Sighting.row ⟨peer, req, now⟩)
          | none => Sighting.row ⟨peer, req, now⟩)
      else srv.db.deviceMeta.lookup d := by
  cases key : decodePubkey C req.pubkey with
  | none => simp [ServerState.effect, register, key]
  | some pubkey =>
    -- the statements but the last do not touch the table
    obtain ⟨first, others, same⟩ : ∃ first, (∀ w ∈ first, w.OnMeta = false) ∧ first.length = 3 ∧
        (srv.effect C (.register peer req now)).2 =
          first ++ [.upsertDeviceMeta req.deviceId (Sighting.row ⟨peer, req, now⟩)] := by
      refine ⟨[.upsertDevice req.deviceId ⟨C.hexEncode (C.keyBytes pubkey), accountOf req.deviceId,
        genesisPrev, none⟩,
        .ensureBalance (accountOf req.deviceId), .ensureImpressions (accountOf req.deviceId)],
          ?_, rfl, ?_⟩
      · simp [Stmt.OnMeta]
      · simp [ServerState.effect, register, key, Sighting.row]
    obtain ⟨three, writes⟩ := same
    rw [writes]
    by_cases whole : 4 ≤ k
    · have all :
        (first ++ [Stmt.upsertDeviceMeta req.deviceId (Sighting.row ⟨peer, req, now⟩)]).take k =
          first ++ [.upsertDeviceMeta req.deviceId (Sighting.row ⟨peer, req, now⟩)] := by
        apply List.take_of_length_le
        simp only [List.length_append, List.length_singleton]
        omega
      have before := execAll_meta others srv.db
      rw [all, Database.execAll_append, Database.execAll_cons, Database.execAll_nil,
        Database.exec, before]
      by_cases mine : req.deviceId = d
      · subst mine
        cases srv.db.deviceMeta.lookup req.deviceId <;> simp [whole, Finmap.lookup_insert]
      · rw [if_neg fun h => mine h.1]
        cases srv.db.deviceMeta.lookup req.deviceId <;> simp [Ne.symm mine]
    · have short : ∀ w ∈
        (first ++ [Stmt.upsertDeviceMeta req.deviceId (Sighting.row ⟨peer, req, now⟩)]).take k,
          w.OnMeta = false := by
        rw [List.take_append_of_le_length (by omega)]
        exact fun w mem => others w (List.mem_of_mem_take mem)
      rw [execAll_meta short, if_neg fun h => whole h.2.2]

theorem act_meta (srv : ServerState C.VerifyingKey) (a : Action) (d : String) :
    (srv.act C a).db.deviceMeta.lookup d =
      match a.sighting C d with
      | some s => some (match srv.db.deviceMeta.lookup d with
        | some old => old.merge s.row
        | none => s.row)
      | none => srv.db.deviceMeta.lookup d := by
  cases a with
  | complete r =>
    cases other : r.isRegister with
    | false =>
      have none : (Action.complete r).sighting C d = none := by
        cases r <;> first | rfl | cases other
      rw [none]
      exact congrArg (Finmap.lookup d) (execAll_meta (effect_meta srv other) srv.db)
    | true =>
      cases r with
      | register peer req now =>
        have long : (srv.effect C (.register peer req now)).2.length ≤ 4 := by
          simp only [ServerState.effect, register]
          split <;> simp
        have row := register_meta srv peer req now 4 d
        rw [List.take_of_length_le long] at row
        rw [ServerState.act, ServerState.step]
        refine row.trans ?_
        simp only [Action.sighting, Nat.le_refl, and_true]
        split <;> rfl
      | _ => cases other
  | crash r k now token =>
    rw [ServerState.act, ServerState.crash, opened_meta]
    cases other : r.isRegister with
    | false =>
      have none : (Action.crash r k now token).sighting C d = none := by
        cases r <;> first | rfl | cases other
      have off : ∀ w ∈ (srv.effect C r).2.take k, w.OnMeta = false :=
        fun w mem => effect_meta srv other w (List.mem_of_mem_take mem)
      rw [none, execAll_meta off]
    | true =>
      cases r with
      | register peer req now =>
        rw [register_meta]
        simp only [Action.sighting]
        split <;> rfl
      | _ => cases other

theorem meta_recorded {now : Int} {token : Option String} {acts : List Action}
    {srv : ServerState C.VerifyingKey}
    (reached : Run Behaves (ServerState.fresh C now token) acts srv) (d : String) :
    srv.db.deviceMeta.lookup d = recorded (sightings C d acts) := by
  have follows (acts : List Action) (start : ServerState C.VerifyingKey) (before : List Sighting)
      (holds : start.db.deviceMeta.lookup d = recorded before) {srv : ServerState C.VerifyingKey}
      (run : Run Behaves start acts srv) : srv.db.deviceMeta.lookup d =
        recorded (before ++ sightings C d acts) := by
    induction acts generalizing start before with
    | nil =>
      cases run
      rw [sightings, List.filterMap_nil, List.append_nil]
      exact holds
    | cons a acts ih =>
      cases run with
      | cons first rest =>
        obtain rfl := first
        have row := act_meta start a d
        rw [holds] at row
        cases seen : a.sighting C d with
        | none =>
          rw [seen] at row
          rw [sightings, List.filterMap_cons_none seen]
          exact ih _ before row rest
        | some s =>
          rw [seen] at row
          rw [sightings, List.filterMap_cons_some seen, ← List.singleton_append,
            ← List.append_assoc]
          exact ih _ (before ++ [s]) (row.trans (recorded_concat before s).symm) rest
  refine follows acts _ [] ?_ reached
  rw [ServerState.fresh, opened_meta]
  rfl

/-- Who may look sees one line for each device that ever registered, latest first, with
what its registrations said last, however often the server was restarted or crashed. -/
theorem sessions_listed {now : Int} {token : Option String} {acts : List Action}
    {srv : ServerState C.VerifyingKey}
    (reached : Run Behaves (ServerState.fresh C now token) acts srv) (presented : Option String) :
    (∀ refusal, checkAdmin C srv.mem presented = some refusal →
      adminListDevices srv.mem srv.db presented = .error refusal) ∧
    (checkAdmin C srv.mem presented = none → ∃ devices,
      adminListDevices srv.mem srv.db presented = .ok devices ∧
      (∀ x, x ∈ devices ↔ ∃ row, recorded (sightings C x.deviceId acts) = some row ∧
        x = adminDevice srv.mem x.deviceId row) ∧
      devices.Pairwise fun x y => x.deviceId ≠ y.deviceId ∧
        (y.lastSeen < x.lastSeen ∨ x.lastSeen = y.lastSeen ∧ x.deviceId ≤ y.deviceId)) := by
  constructor
  · intro refusal denied
    rw [adminListDevices, denied]
  · intro granted
    refine ⟨_, by rw [adminListDevices, granted], ?_, ?_⟩
    · intro x
      rw [List.mem_map]
      constructor
      · rintro ⟨⟨id, row⟩, there, rfl⟩
        rw [mem_listDeviceMeta, meta_recorded reached] at there
        exact ⟨row, there, rfl⟩
      · rintro ⟨row, there, same⟩
        rw [← meta_recorded reached, ← mem_listDeviceMeta] at there
        exact ⟨(x.deviceId, row), there, same.symm⟩
    · rw [List.pairwise_map]
      exact listDeviceMeta_sorted srv.db

def revisits : List Action :=
  let req := firstRegister Reference.crates (Reference.key 7)
  [.complete
    (.register ⟨none, "10.0.0.1"⟩ { req with hostname := some "mill", os := some "linux" } 5),
    .crash (.click "AbC9") 0 6 (some "t0ken"),
    .complete (.register ⟨some "203.0.113.9, 10.0.0.1", "10.0.0.1"⟩
      { req with hostname := some " ", os := some "macos" } 9)]

theorem sessions_listed_revisits :
    ∃ srv, Run Behaves (ServerState.fresh Reference.crates 0 (some "t0ken")) revisits srv ∧
      ∃ devices, adminListDevices srv.mem srv.db (some "t0ken") = .ok devices ∧
        adminDevice srv.mem "d1" ⟨some "203.0.113.9", some "macos", none, some "mill", none, none,
          5, 9⟩ ∈ devices := by
  have run : Run Behaves (ServerState.fresh Reference.crates 0 (some "t0ken")) revisits
      (revisits.foldl (ServerState.act Reference.crates)
        (ServerState.fresh Reference.crates 0 (some "t0ken"))) :=
    .cons rfl (.cons rfl (.cons rfl (.nil _)))
  have env : ∀ a ∈ revisits, a.Configured (some "t0ken") := by simp [revisits, Action.Configured]
  have kept := run_token (C := Reference.crates) (fresh_token 0 (some "t0ken")) revisits env
  have granted : checkAdmin Reference.crates (revisits.foldl (ServerState.act Reference.crates)
      (ServerState.fresh Reference.crates 0 (some "t0ken"))).mem (some "t0ken") = none := by
    rw [checkAdmin_eq kept]
    rfl
  have said : recorded (sightings Reference.crates "d1" revisits) =
      some ⟨some "203.0.113.9", some "macos", none, some "mill", none, none, 5,
        9⟩ := by decide +kernel
  obtain ⟨-, listed⟩ := sessions_listed run (some "t0ken")
  obtain ⟨devices, answer, mem, -⟩ := listed granted
  exact ⟨_, run, devices, answer, (mem _).mpr ⟨_, said, rfl⟩⟩

end Spnr.Server
