import Spnr.Proto.Chain
import Spnr.Server.Credit

/-! The accepted history of one device. Its record, its chain head and its
impressions are functions of the events accepted since its registration, whatever
else is delivered to the server. -/
namespace Spnr.Server

open Transition

variable {C : Crates}

def Owned (s : Loaded C.VerifyingKey) : Prop :=
  ∀ d dev, s.devices.lookup d = some dev → dev.accountId = accountOf d

def NamesAccount : Stmt → Prop
  | .upsertDevice d row => row.accountId = accountOf d
  | _ => True

theorem Owned.insert {s v : Loaded C.VerifyingKey} (owned : Owned s) {d : String}
    (dev : DeviceRec C.VerifyingKey) (own : dev.accountId = accountOf d)
    (devices : v.devices = s.devices.insert d dev) : Owned v := by
  intro d' dev' known
  rw [devices, HashMap.lookup_insert] at known
  split at known
  · rename_i same
    cases Option.some.inj known
    rw [same]
    exact own
  · exact owned d' dev' known

theorem exec_owned {s : Loaded C.VerifyingKey} (owned : Owned s) {w : Stmt}
    (names : NamesAccount w) : Owned (s.exec C w) := by
  cases w with
  | upsertDevice d row =>
    cases key : decodePubkey C row.pubkeyHex with
    | some pubkey =>
      have own : row.accountId = accountOf d := names
      exact owned.insert ⟨pubkey, row.accountId, row.chainHead, row.ctrHead⟩ own
        (by simp only [Loaded.exec, key])
    | none =>
      intro d' dev known
      simp only [Loaded.exec, key, HashMap.lookup_erase] at known
      split at known
      · cases known
      · exact owned d' dev known
  | updateDeviceHead d head ctr =>
    cases known : s.devices.lookup d with
    | some dev =>
      exact owned.insert { dev with chainHead := head, ctrHead := ctr } (owned d dev known)
        (by simp only [Loaded.exec, known])
    | none => simpa only [Loaded.exec, known] using owned
  | ensureBalance a =>
    simp only [Loaded.exec]
    split <;> exact owned
  | ensureImpressions a =>
    simp only [Loaded.exec]
    split <;> exact owned
  | _ => exact owned

theorem execAll_owned (ws : List Stmt) {s : Loaded C.VerifyingKey} (owned : Owned s)
    (names : ∀ w ∈ ws, NamesAccount w) : Owned (s.execAll C ws) := by
  induction ws generalizing s with
  | nil => exact owned
  | cons w ws ih =>
    have first := exec_owned owned (names w List.mem_cons_self)
    exact ih first fun w' mem => names w' (List.mem_cons_of_mem _ mem)

theorem ingestAll_names (ses : List SignedEvent) (s : AppState C.VerifyingKey) (d : String) :
    ∀ w ∈ (ingestAll s d ses).2, NamesAccount w := by
  induction ses generalizing s with
  | nil => simp [ingestAll]
  | cons se rest ih =>
    intro w mem
    rcases List.mem_append.mp mem with first | later
    · rcases ingestEvent_cases s d se with ⟨dev, -, eq⟩ | ⟨-, eq⟩
      · rw [eq] at first
        by_cases accrues : Accrues se.e <;> simp [acceptWrites, newLedger, accrues] at first
        all_goals
          rcases first with rfl | rfl | rfl | rfl | rfl | rfl | rfl <;> trivial
      · rw [eq] at first
        cases List.mem_singleton.mp first
        trivial
    · exact ih _ w later

theorem Stmt.Aside.names {w : Stmt} (aside : w.Aside) : NamesAccount w := by
  cases w with
  | upsertDevice d row => cases aside
  | _ => trivial

theorem effect_names (srv : ServerState C.VerifyingKey) (r : Request) :
    ∀ w ∈ (srv.effect C r).2, NamesAccount w := by
  cases r with
  | ingest req =>
    rw [ingest_effect]
    exact ingestAll_names req.events srv.mem req.deviceId
  | register peer req now =>
    simp only [ServerState.effect, register]
    split <;> simp [NamesAccount]
  | redeem req order =>
    simp only [ServerState.effect]
    rcases redeem_cases srv.mem req order with ⟨account, requested, -, -, eq⟩ | ⟨error, -, eq⟩ <;>
      simp [eq, payOut, NamesAccount]
  | _ => exact fun w mem => (aside_writes srv rfl w mem).names

theorem act_owned {srv : ServerState C.VerifyingKey} (synced : Synced srv)
    (owned : Owned srv.mem.toLoaded) (a : Action) : Owned (srv.act C a).mem.toLoaded := by
  obtain ⟨r, k, view⟩ := act_view synced a
  rw [view]
  exact execAll_owned _ owned fun w mem => effect_names srv r w (List.mem_of_mem_take mem)

theorem reached_owned {now : Int} {token : Option String} {acts : List Action}
    {srv : ServerState C.VerifyingKey}
    (run : Run Behaves (ServerState.fresh C now token) acts srv) :
    Synced srv ∧ Owned srv.mem.toLoaded := by
  refine run.invariant (fun srv => Synced srv ∧ Owned srv.mem.toLoaded) ?_
    ⟨fresh_synced now token, ?_⟩
  · rintro s a t ⟨synced, owned⟩ rfl
    exact ⟨act_synced synced a, act_owned synced owned a⟩
  · rw [fresh_view]
    intro d dev known
    simp [load, Database.fresh] at known

def acceptedEvents (s : AppState C.VerifyingKey) (d : String) : List SignedEvent → List Event
  | [] => []
  | se :: rest =>
    let later := acceptedEvents (ingestEvent C s d se).1 d rest
    match acceptEvent C s d se with
    | .ok _ => se.e :: later
    | .error _ => later

def Request.fromDevice (d : String) : Request → Option IngestReq
  | .ingest req => if req.deviceId = d then some req else none
  | _ => none

def Request.carries (d : String) (r : Request) : List SignedEvent :=
  (r.fromDevice d).elim [] IngestReq.events

def acceptedBy (srv : ServerState C.VerifyingKey) (d : String) : List Request → List Event
  | [] => []
  | r :: rs => acceptedEvents srv.mem d (r.carries d) ++ acceptedBy (srv.step C r) d rs

def ServerState.after (srv : ServerState C.VerifyingKey) (rs : List Request) :
    ServerState C.VerifyingKey :=
  rs.foldl (ServerState.step C) srv

def Request.Registers (d : String) : Request → Prop
  | .register _ req _ => req.deviceId = d
  | _ => False

def impressionsIn (es : List Event) : Nat :=
  (es.map fun e => if Accrues e then (impCount e).toNat else 0).sum

/-- The device's part of the view after the events `es` were accepted from it. -/
structure Tracks (s : Loaded C.VerifyingKey) (d : String) (vk : C.VerifyingKey) (base : Nat)
    (es : List Event) : Prop where
  owned : Owned s
  device : s.devices.lookup d =
    some ⟨vk, accountOf d, headAfter C genesisPrev es, es.getLast?.map Event.ctr⟩
  chained : Chained C 0 genesisPrev es
  credited : impressionsOf s (accountOf d) = base + impressionsIn es

theorem Tracks.expected {s : Loaded C.VerifyingKey} {d : String} {vk : C.VerifyingKey} {base : Nat}
    {es : List Event} (tracks : Tracks s d vk base es) {dev : DeviceRec C.VerifyingKey}
    (known : s.devices.lookup d = some dev) :
    dev.pubkey = vk ∧ dev.accountId = accountOf d ∧ dev.chainHead = headAfter C genesisPrev es ∧
      expectedCtr dev = es.length := by
  cases Option.some.inj (known.symm.trans tracks.device)
  refine ⟨rfl, rfl, rfl, ?_⟩
  rcases List.eq_nil_or_concat es with rfl | ⟨before, last, rfl⟩
  · rfl
  · have chained := tracks.chained
    rw [List.concat_eq_append, chained_append] at chained
    obtain ⟨-, counter, -⟩ := chained
    simp only [List.concat_eq_append, expectedCtr, List.getLast?_append, List.getLast?_singleton,
      Option.some_or,
      Option.map_some, Option.getD_some, counter, List.length_append, List.length_singleton]
    omega

structure Frame (d : String) (s v : Loaded C.VerifyingKey) : Prop where
  device : v.devices.lookup d = s.devices.lookup d
  imps : impressionsOf v (accountOf d) = impressionsOf s (accountOf d)

theorem Frame.trans {d : String} {s m v : Loaded C.VerifyingKey} (first : Frame d s m)
    (second : Frame d m v) : Frame d s v :=
  ⟨second.device.trans first.device, second.imps.trans first.imps⟩

theorem Tracks.congr {s v : Loaded C.VerifyingKey} {d : String} {vk : C.VerifyingKey} {base : Nat}
    {es : List Event} (tracks : Tracks s d vk base es) (owned : Owned v) (frame : Frame d s v) :
    Tracks v d vk base es :=
  ⟨owned, frame.device.trans tracks.device, tracks.chained, frame.imps.trans tracks.credited⟩

theorem Tracks.accept {s : AppState C.VerifyingKey} {d : String} {vk : C.VerifyingKey} {base : Nat}
    {es : List Event} (tracks : Tracks s.toLoaded d vk base es) {se : SignedEvent}
    {dev : DeviceRec C.VerifyingKey} (accepts : Accepts s.toLoaded d se dev) :
    Tracks (advance C s d dev se.e).toLoaded d vk base (es ++ [se.e]) := by
  obtain ⟨key, account, head, next⟩ := tracks.expected accepts.known
  refine ⟨tracks.owned.insert { dev with
      chainHead := chainNext C (canonicalBytes C se.e), ctrHead :=
        some se.e.ctr } account rfl, ?_, ?_, ?_⟩
  · simp only [advance, HashMap.lookup_insert, if_true, headAfter_append, List.getLast?_append,
      List.getLast?_singleton, Option.some_or, Option.map_some, key, account]
    rfl
  · refine chained_append.mpr ⟨tracks.chained, ?_, ?_, trivial⟩
    · rw [accepts.counted, next, Nat.zero_add]
    · rw [accepts.chained, head]
  · rw [impressionsOf_advance, tracks.credited]
    by_cases accrues : Accrues se.e <;> simp [impressionsIn, accrues, account]
    omega

theorem acceptEvent_ok {s : AppState C.VerifyingKey} {d : String} {se : SignedEvent}
    {dev : DeviceRec C.VerifyingKey} (accepts : Accepts s.toLoaded d se dev) :
    acceptEvent C s d se = .ok (advance C s d dev se.e, acceptWrites C s d dev se.e) := by
  rw [acceptEvent, (verifyEvent_ok s d se dev).mpr accepts]
  rfl

theorem acceptEvent_error {s : AppState C.VerifyingKey} {d : String} {se : SignedEvent}
    (rejects : ∀ dev, ¬ Accepts s.toLoaded d se dev) :
    ∃ reason, acceptEvent C s d se = .error reason := by
  cases checks : verifyEvent C s d se with
  | ok dev => exact absurd ((verifyEvent_ok s d se dev).mp checks) (rejects dev)
  | error reason => exact ⟨reason, by rw [acceptEvent, checks]; rfl⟩

theorem rejected_unchanged {s : AppState C.VerifyingKey} {d : String} {se : SignedEvent}
    {reason : String} (rejects : acceptEvent C s d se = .error reason) :
    ingestEvent C s d se =
      ({ s with rejected := s.rejected + 1 }, [.kvSet "rejected" (s.rejected + 1)]) := by
  simp only [ingestEvent, rejects]

theorem acceptedEvents_cons_ok {s : AppState C.VerifyingKey} {d : String} {se : SignedEvent}
    {dev : DeviceRec C.VerifyingKey} (accepts : Accepts s.toLoaded d se dev)
    (rest : List SignedEvent) :
    acceptedEvents s d (se :: rest) = se.e :: acceptedEvents (ingestEvent C s d se).1 d rest := by
  simp only [acceptedEvents, acceptEvent_ok accepts]

theorem acceptedEvents_cons_error {s : AppState C.VerifyingKey} {d : String} {se : SignedEvent}
    (rejects : ∀ dev, ¬ Accepts s.toLoaded d se dev) (rest : List SignedEvent) :
    acceptedEvents s d (se :: rest) = acceptedEvents (ingestEvent C s d se).1 d rest := by
  obtain ⟨reason, error⟩ := acceptEvent_error rejects
  simp only [acceptedEvents, error]

theorem Tracks.event {s : AppState C.VerifyingKey} {d : String} {vk : C.VerifyingKey} {base : Nat}
    {es : List Event} (tracks : Tracks s.toLoaded d vk base es) (se : SignedEvent) :
    (∃ dev, Accepts s.toLoaded d se dev ∧
      Tracks (ingestEvent C s d se).1.toLoaded d vk base (es ++ [se.e])) ∨
    ((∀ dev, ¬ Accepts s.toLoaded d se dev) ∧
      Tracks (ingestEvent C s d se).1.toLoaded d vk base es) := by
  rcases ingestEvent_cases s d se with ⟨dev, accepts, eq⟩ | ⟨rejects, eq⟩
  · left
    refine ⟨dev, accepts, ?_⟩
    rw [eq]
    have next := tracks.accept accepts
    exact next.congr next.owned ⟨rfl, rfl⟩
  · right
    refine ⟨rejects, ?_⟩
    rw [eq]
    exact tracks.congr tracks.owned ⟨rfl, rfl⟩

theorem Tracks.batch {d : String} {vk : C.VerifyingKey} {base : Nat} (ses : List SignedEvent)
    {s : AppState C.VerifyingKey} {es : List Event} (tracks : Tracks s.toLoaded d vk base es) :
    Tracks (ingestAll s d ses).1.toLoaded d vk base (es ++ acceptedEvents s d ses) := by
  induction ses generalizing s es with
  | nil => simpa [ingestAll, acceptedEvents] using tracks
  | cons se rest ih =>
    rcases tracks.event se with ⟨dev, accepts, one⟩ | ⟨rejects, one⟩
    · rw [acceptedEvents_cons_ok accepts]
      simpa [ingestAll] using ih one
    · rw [acceptedEvents_cons_error rejects]
      exact ih one

def SignedUnder (vk : C.VerifyingKey) (se : SignedEvent) : Prop :=
  ∃ sig, C.hexDecode se.s = some sig ∧ DeviceKey.verify C se.e sig vk = true

theorem Tracks.batch_signed {d : String} {vk : C.VerifyingKey} {base : Nat} (ses : List SignedEvent)
    {s : AppState C.VerifyingKey} {es : List Event} (tracks : Tracks s.toLoaded d vk base es) :
    ∀ e ∈ acceptedEvents s d ses, ∃ se ∈ ses, se.e = e ∧ SignedUnder vk se := by
  induction ses generalizing s es with
  | nil => simp [acceptedEvents]
  | cons se rest ih =>
    intro e mem
    rcases tracks.event se with ⟨dev, accepts, one⟩ | ⟨rejects, one⟩
    · rw [acceptedEvents_cons_ok accepts] at mem
      rcases List.mem_cons.mp mem with rfl | later
      · have key := (tracks.expected accepts.known).1
        exact ⟨se, List.mem_cons_self, rfl, key ▸ accepts.signed⟩
      · obtain ⟨se', within, same, signed⟩ := ih one e later
        exact ⟨se', List.mem_cons_of_mem _ within, same, signed⟩
    · rw [acceptedEvents_cons_error rejects] at mem
      obtain ⟨se', within, same, signed⟩ := ih one e mem
      exact ⟨se', List.mem_cons_of_mem _ within, same, signed⟩

theorem advance_frame {s : AppState C.VerifyingKey} {d d' : String} (owned : Owned s.toLoaded)
    (others : d' ≠ d) {se : SignedEvent} {dev : DeviceRec C.VerifyingKey}
    (accepts : Accepts s.toLoaded d' se dev) :
    Owned (advance C s d' dev se.e).toLoaded ∧
    Frame d s.toLoaded (advance C s d' dev se.e).toLoaded := by
  have account := owned d' dev accepts.known
  have apart : accountOf d ≠ dev.accountId := by
    intro same
    exact others (accountOf_injective (account.symm.trans same.symm))
  refine ⟨owned.insert { dev with
      chainHead := chainNext C (canonicalBytes C se.e), ctrHead :=
        some se.e.ctr } account rfl, ?_, ?_⟩
  · simp only [advance]
    rw [HashMap.lookup_insert, if_neg others.symm]
  · rw [impressionsOf_advance, if_neg fun h => apart h.2]

theorem others_frame {d d' : String} (apart : d' ≠ d) (ses : List SignedEvent)
    {s : AppState C.VerifyingKey}
    (owned : Owned s.toLoaded) : Frame d s.toLoaded (ingestAll s d' ses).1.toLoaded := by
  induction ses generalizing s with
  | nil => exact ⟨rfl, rfl⟩
  | cons se rest ih =>
    have one : Owned (ingestEvent C s d' se).1.toLoaded ∧
        Frame d s.toLoaded (ingestEvent C s d' se).1.toLoaded := by
      rcases ingestEvent_cases s d' se with ⟨dev, accepts, eq⟩ | ⟨-, eq⟩
      · obtain ⟨owned', frame⟩ := advance_frame owned apart accepts
        rw [eq]
        exact ⟨owned', frame.device, frame.imps⟩
      · rw [eq]
        exact ⟨owned, rfl, rfl⟩
    exact one.2.trans (ih one.1)

theorem step_frame {srv : ServerState C.VerifyingKey} (synced : Synced srv) {d : String}
    (owned : Owned srv.mem.toLoaded) {r : Request} (once : ¬ r.Registers d)
    (silent : r.fromDevice d = none) : Frame d srv.mem.toLoaded (srv.step C r).mem.toLoaded := by
  have step := step_cases synced r
  generalize (srv.step C r).mem.toLoaded = after at step ⊢
  cases step with
  | register peer req now =>
    have apart : d ≠ req.deviceId := fun same => once same.symm
    refine ⟨?_, (register_views (s := srv.mem) peer req now (accountOf d)).2⟩
    simp only [register]
    split
    · rfl
    · exact Finmap.lookup_insert_of_ne _ apart
  | ingest req =>
    have apart : req.deviceId ≠ d := by
      intro same
      simp [Request.fromDevice, same] at silent
    exact others_frame apart req.events owned
  | redeem req order pays => exact ⟨rfl, rfl⟩
  | other clicks => exact ⟨rfl, rfl⟩

theorem step_fromDevice (srv : ServerState C.VerifyingKey) {d : String} {r : Request}
    {req : IngestReq} (batch : r.fromDevice d = some req) :
    r = .ingest req ∧ req.deviceId = d ∧ r.carries d = req.events ∧
      (srv.step C r).mem = (ingestAll srv.mem d req.events).1 := by
  cases r with
  | ingest req' =>
    simp only [Request.fromDevice] at batch
    split at batch
    · rename_i same
      cases Option.some.inj batch
      subst same
      exact ⟨rfl, rfl, by simp [Request.carries,
        Request.fromDevice], congrArg Prod.fst (ingest_eq srv.mem req)⟩
    · cases batch
  | _ => cases batch

theorem Tracks.step {srv : ServerState C.VerifyingKey} (synced : Synced srv) {d : String}
    {vk : C.VerifyingKey} {base : Nat} {es : List Event}
    (tracks : Tracks srv.mem.toLoaded d vk base es) {r : Request} (once : ¬ r.Registers d) :
    Tracks (srv.step C r).mem.toLoaded d vk base
      (es ++ acceptedEvents srv.mem d (r.carries d)) := by
  cases batch : r.fromDevice d with
  | some req =>
    obtain ⟨-, -, carried, state⟩ := step_fromDevice srv batch
    rw [state, carried]
    exact tracks.batch req.events
  | none =>
    have frame := step_frame synced tracks.owned once batch
    have kept : Tracks (srv.step C r).mem.toLoaded d vk base es :=
      tracks.congr (act_owned synced tracks.owned (.complete r)) frame
    simpa [Request.carries, batch, acceptedEvents] using kept

theorem after_append (srv : ServerState C.VerifyingKey) (rs rs' : List Request) :
    srv.after (rs ++ rs') = (srv.after rs).after rs' := List.foldl_append

theorem acceptedBy_append (rs rs' : List Request) (srv : ServerState C.VerifyingKey) (d : String) :
    acceptedBy srv d (rs ++ rs') = acceptedBy srv d rs ++ acceptedBy (srv.after rs) d rs' := by
  induction rs generalizing srv with
  | nil => rfl
  | cons r rs ih =>
    rw [List.cons_append, acceptedBy, ih, acceptedBy, List.append_assoc]
    rfl

theorem after_synced (rs : List Request) {srv : ServerState C.VerifyingKey} (synced : Synced srv) :
    Synced (srv.after rs) := by
  induction rs generalizing srv with
  | nil => exact synced
  | cons r rs ih => exact ih (step_synced synced r)

theorem Tracks.run {d : String} {vk : C.VerifyingKey} {base : Nat} (rs : List Request)
    {srv : ServerState C.VerifyingKey} (synced : Synced srv) {es : List Event}
    (tracks : Tracks srv.mem.toLoaded d vk base es) (once : ∀ r ∈ rs, ¬ r.Registers d) :
    Tracks (srv.after rs).mem.toLoaded d vk base (es ++ acceptedBy srv d rs) := by
  induction rs generalizing srv es with
  | nil => simpa [ServerState.after, acceptedBy] using tracks
  | cons r rs ih =>
    have next := tracks.step synced (once r List.mem_cons_self)
    have rest := ih (step_synced synced r) next fun r' mem => once r' (List.mem_cons_of_mem _ mem)
    simpa [ServerState.after, acceptedBy] using rest

theorem Tracks.run_signed {d : String} {vk : C.VerifyingKey} {base : Nat} (rs : List Request)
    {srv : ServerState C.VerifyingKey} (synced : Synced srv) {es : List Event}
    (tracks : Tracks srv.mem.toLoaded d vk base es) (once : ∀ r ∈ rs, ¬ r.Registers d) :
    ∀ e ∈ acceptedBy srv d rs, ∃ r ∈ rs, ∃ se ∈ r.carries d, se.e = e ∧ SignedUnder vk se := by
  induction rs generalizing srv es with
  | nil => simp [acceptedBy]
  | cons r rs ih =>
    intro e mem
    rcases List.mem_append.mp mem with now | later
    · exact ⟨r, List.mem_cons_self, tracks.batch_signed (r.carries d) e now⟩
    · have next := tracks.step synced (once r List.mem_cons_self)
      obtain ⟨r', within, carried⟩ :=
        ih (step_synced synced r) next (fun r' mem => once r' (List.mem_cons_of_mem _ mem)) e later
      exact ⟨r', List.mem_cons_of_mem _ within, carried⟩

theorem register_tracks {srv : ServerState C.VerifyingKey} (synced : Synced srv)
    (owned : Owned srv.mem.toLoaded) (peer : Peer) (req : RegisterReq) (now : Int)
    {vk : C.VerifyingKey} (decodes : decodePubkey C req.pubkey = some vk) :
    Tracks (srv.step C (.register peer req now)).mem.toLoaded req.deviceId vk
      (impressionsOf srv.mem.toLoaded (accountOf req.deviceId)) [] := by
  refine ⟨act_owned synced owned (.complete (.register peer req now)), ?_, trivial, ?_⟩
  · simp only [ServerState.step, ServerState.effect, register, decodes]
    exact Finmap.lookup_insert _
  · exact (register_views (s := srv.mem) peer req now _).2

end Spnr.Server
