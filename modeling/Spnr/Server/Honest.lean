import Spnr.Server.Accepted

/-! Traffic of one honest device among the requests of everyone else: what is
delivered in order is accepted, what comes after a gap is not, and a device the
server does not know is refused. -/
namespace Spnr.Server

variable {C : Crates}

def Request.ids : Request → List String
  | .ingest req => req.events.map (·.e.id)
  | _ => []

theorem ingestAll_seen (ses : List SignedEvent) (s : AppState C.VerifyingKey) (d : String) :
    ∀ id ∈ (ingestAll s d ses).1.seenEventIds, id ∈ s.seenEventIds ∨ id ∈ ses.map (·.e.id) := by
  induction ses generalizing s with
  | nil =>
    intro id seen
    exact .inl seen
  | cons se rest ih =>
    intro id seen
    rcases ih (ingestEvent C s d se).1 id seen with before | later
    · rcases ingestEvent_cases s d se with ⟨dev, -, eq⟩ | ⟨-, eq⟩
      · rw [eq] at before
        rcases Finset.mem_insert.mp before with rfl | old
        · exact .inr List.mem_cons_self
        · exact .inl old
      · rw [eq] at before
        exact .inl before
    · exact .inr (List.mem_cons_of_mem _ later)

theorem step_seen {srv : ServerState C.VerifyingKey} (synced : Synced srv) (r : Request) :
    ∀ id ∈ (srv.step C r).mem.seenEventIds, id ∈ srv.mem.seenEventIds ∨ id ∈ r.ids := by
  intro id seen
  have step := step_cases synced r
  generalize (srv.step C r).mem.toLoaded = after at step seen
  cases step with
  | register peer req now =>
    simp only [register] at seen
    split at seen <;> exact .inl seen
  | ingest req => exact ingestAll_seen req.events srv.mem req.deviceId id seen
  | redeem req order pays => exact .inl seen
  | other clicks => exact .inl seen

theorem Tracks.honest_batch {d : String} {key : C.SigningKey} {base : Nat} (batch : List Event)
    {s : AppState C.VerifyingKey} {es : List Event}
    (tracks : Tracks s.toLoaded d (C.verifyingKey key) base es)
    (chained : Chained C 0 genesisPrev (es ++ batch)) (distinct : (batch.map Event.id).Nodup)
    (unseen : ∀ e ∈ batch, e.id ∉ s.seenEventIds) :
    acceptedEvents s d (batch.map (signedBy C key)) = batch := by
  induction batch generalizing s es with
  | nil => rfl
  | cons e batch ih =>
    obtain ⟨-, counter, prev, -⟩ := chained_append.mp chained
    obtain ⟨own, -, head, next⟩ := tracks.expected tracks.device
    have accepts := signedBy_accepts tracks.device own (prev.trans head.symm)
      (by rw [counter, next, Nat.zero_add]) (unseen e List.mem_cons_self)
    rw [List.map_cons] at distinct
    obtain ⟨new, distinct⟩ := List.nodup_cons.mp distinct
    rcases tracks.event (signedBy C key e) with ⟨-, -, grown⟩ | ⟨rejects, -⟩
    · have later : ∀ e' ∈ batch, e'.id ∉ (ingestEvent C s d (signedBy C key e)).1.seenEventIds := by
        intro e' mem
        rw [ingestEvent_accepted accepts]
        intro seen
        rcases Finset.mem_insert.mp seen with same | old
        · exact new (List.mem_map.mpr ⟨e', mem, same⟩)
        · exact unseen e' (List.mem_cons_of_mem _ mem) old
      have rest := ih grown (by simpa [signedBy] using chained) distinct later
      rw [List.map_cons, acceptedEvents_cons_ok accepts, rest]
      rfl
    · exact absurd accepts (rejects _)

/-- The ids of `es` are drawn once, and by nobody else on the server. -/
structure FreshIds (srv : ServerState C.VerifyingKey) (d : String) (rs : List Request)
    (es : List Event) : Prop where
  distinct : (es.map Event.id).Nodup
  unseen : ∀ e ∈ es, e.id ∉ srv.mem.seenEventIds
  unused : ∀ r ∈ rs, r.fromDevice d = none → ∀ e ∈ es, e.id ∉ r.ids

theorem FreshIds.first {srv : ServerState C.VerifyingKey} {d : String} {rs later : List Request}
    {es rest : List Event} (fresh : FreshIds srv d (rs ++ later) (es ++ rest)) :
    FreshIds srv d rs es := by
  have distinct := fresh.distinct
  rw [List.map_append, List.nodup_append'] at distinct
  constructor
  · exact distinct.1
  · intro e mem
    exact fresh.unseen e (List.mem_append_left _ mem)
  · intro r mem silent e inside
    exact fresh.unused r (List.mem_append_left _ mem) silent e (List.mem_append_left _ inside)

theorem FreshIds.step {srv : ServerState C.VerifyingKey} (synced : Synced srv) {d : String}
    {r : Request} {rs : List Request} {first rest : List Event} {key : C.SigningKey}
    (carried : r.carries d = first.map (signedBy C key))
    (fresh : FreshIds srv d (r :: rs) (first ++ rest)) : FreshIds (srv.step C r) d rs rest := by
  have distinct := fresh.distinct
  rw [List.map_append, List.nodup_append'] at distinct
  obtain ⟨-, distinct, apart⟩ := distinct
  refine ⟨distinct, ?_, ?_⟩
  · intro e mem seen
    rcases step_seen synced r e.id seen with old | now
    · exact fresh.unseen e (List.mem_append_right _ mem) old
    · cases batch : r.fromDevice d with
      | none => exact fresh.unused r List.mem_cons_self batch e (List.mem_append_right _ mem) now
      | some req =>
        obtain ⟨rfl, -, events, -⟩ := step_fromDevice srv batch
        rw [Request.ids, ← events, carried, List.map_map] at now
        exact apart now (List.mem_map_of_mem mem)
  · intro r' mem silent e inside
    exact fresh.unused r' (List.mem_cons_of_mem _ mem) silent e (List.mem_append_right _ inside)

theorem Tracks.honest_run {d : String} {key : C.SigningKey} {base : Nat} (rs : List Request)
    {srv : ServerState C.VerifyingKey} (synced : Synced srv) {es fs : List Event}
    (tracks : Tracks srv.mem.toLoaded d (C.verifyingKey key) base es)
    (once : ∀ r ∈ rs, ¬ r.Registers d) (chained : Chained C 0 genesisPrev (es ++ fs))
    (carried : rs.flatMap (Request.carries d) = fs.map (signedBy C key))
    (fresh : FreshIds srv d rs fs) : acceptedBy srv d rs = fs := by
  induction rs generalizing srv es fs with
  | nil =>
    have none : fs = [] := by simpa using carried.symm
    rw [none]
    rfl
  | cons r rs ih =>
    rw [List.flatMap_cons] at carried
    obtain ⟨first, rest, rfl, now, later⟩ := List.append_eq_map_iff.mp carried
    rw [← List.append_assoc] at chained
    have distinct := fresh.distinct
    rw [List.map_append, List.nodup_append'] at distinct
    have accepted : acceptedEvents srv.mem d (r.carries d) = first := by
      rw [← now]
      exact tracks.honest_batch first (chained_append.mp chained).1 distinct.1
        fun e mem => fresh.unseen e (List.mem_append_left _ mem)
    have next := tracks.step synced (once r List.mem_cons_self)
    rw [accepted] at next
    rw [acceptedBy, accepted, ih (step_synced synced r) next
      (fun r' mem => once r' (List.mem_cons_of_mem _ mem)) chained later.symm
        (fresh.step synced now.symm)]

theorem Tracks.late_batch {d : String} {vk : C.VerifyingKey} {base : Nat} (ses : List SignedEvent)
    {s : AppState C.VerifyingKey} {es : List Event} (tracks : Tracks s.toLoaded d vk base es)
    (late : ∀ se ∈ ses, es.length < se.e.ctr) : acceptedEvents s d ses = [] := by
  induction ses generalizing s with
  | nil => rfl
  | cons se rest ih =>
    rcases tracks.event se with ⟨dev, accepts, -⟩ | ⟨rejects, kept⟩
    · have counted := accepts.counted
      rw [(tracks.expected accepts.known).2.2.2] at counted
      have := late se List.mem_cons_self
      omega
    · rw [acceptedEvents_cons_error rejects]
      exact ih kept fun se' mem => late se' (List.mem_cons_of_mem _ mem)

theorem Tracks.late_run {d : String} {vk : C.VerifyingKey} {base : Nat} (rs : List Request)
    {srv : ServerState C.VerifyingKey} (synced : Synced srv) {es : List Event}
    (tracks : Tracks srv.mem.toLoaded d vk base es) (once : ∀ r ∈ rs, ¬ r.Registers d)
    (late : ∀ se ∈ rs.flatMap (Request.carries d), es.length < se.e.ctr) :
    acceptedBy srv d rs = [] := by
  induction rs generalizing srv with
  | nil => rfl
  | cons r rs ih =>
    rw [List.flatMap_cons] at late
    have none := tracks.late_batch (r.carries d) fun se mem => late se (List.mem_append_left _ mem)
    have next := tracks.step synced (once r List.mem_cons_self)
    rw [none, List.append_nil] at next
    rw [acceptedBy, none,
      ih (step_synced synced r) next (fun r' mem => once r' (List.mem_cons_of_mem _ mem))
      fun se mem => late se (List.mem_append_right _ mem)]
    rfl

structure Unregistered (s : Loaded C.VerifyingKey) (d : String) : Prop where
  owned : Owned s
  device : s.devices.lookup d = none
  imps : impressionsOf s (accountOf d) = 0

theorem unknown_rejected {s : AppState C.VerifyingKey} {d : String}
    (unknown : s.devices.lookup d = none)
    (se : SignedEvent) : ∀ dev, ¬ Accepts s.toLoaded d se dev := by
  intro dev accepts
  have known := accepts.known
  rw [unknown] at known
  cases known

theorem Unregistered.batch {d : String} (ses : List SignedEvent) {s : AppState C.VerifyingKey}
    (unregistered : Unregistered s.toLoaded d) :
    acceptedEvents s d ses = [] ∧ Unregistered (ingestAll s d ses).1.toLoaded d := by
  induction ses generalizing s with
  | nil => exact ⟨rfl, unregistered⟩
  | cons se rest ih =>
    have rejects := unknown_rejected unregistered.device se
    have kept : Unregistered (ingestEvent C s d se).1.toLoaded d := by
      rw [ingestEvent_rejected rejects]
      exact ⟨unregistered.owned, unregistered.device, unregistered.imps⟩
    rw [acceptedEvents_cons_error rejects]
    exact ih kept

theorem Unregistered.step {srv : ServerState C.VerifyingKey} (synced : Synced srv) {d : String}
    (unregistered : Unregistered srv.mem.toLoaded d) {r : Request} (once : ¬ r.Registers d) :
    acceptedEvents srv.mem d (r.carries d) = [] ∧ Unregistered (srv.step C r).mem.toLoaded d := by
  cases batch : r.fromDevice d with
  | some req =>
    obtain ⟨-, -, carried, state⟩ := step_fromDevice srv batch
    rw [state, carried]
    exact unregistered.batch req.events
  | none =>
    have frame := step_frame synced unregistered.owned once batch
    refine ⟨by simp [Request.carries, batch, acceptedEvents], ?_⟩
    exact ⟨act_owned synced unregistered.owned (.complete r),
      frame.device.trans unregistered.device, frame.imps.trans unregistered.imps⟩

theorem Unregistered.run {d : String} (rs : List Request) {srv : ServerState C.VerifyingKey}
    (synced : Synced srv) (unregistered : Unregistered srv.mem.toLoaded d)
    (once : ∀ r ∈ rs, ¬ r.Registers d) :
    acceptedBy srv d rs = [] ∧ Synced (srv.after rs) ∧
    Unregistered (srv.after rs).mem.toLoaded d := by
  induction rs generalizing srv with
  | nil => exact ⟨rfl, synced, unregistered⟩
  | cons r rs ih =>
    obtain ⟨none, kept⟩ := unregistered.step synced (once r List.mem_cons_self)
    obtain ⟨later, synced', kept'⟩ :=
      ih (step_synced synced r) kept fun r' mem => once r' (List.mem_cons_of_mem _ mem)
    refine ⟨?_, synced', kept'⟩
    rw [acceptedBy, none, later]
    rfl

theorem fresh_unregistered (now : Int) (token : Option String) (d : String) :
    Unregistered (ServerState.fresh C now token).mem.toLoaded d := by
  rw [fresh_view]
  constructor
  · intro d' dev known
    simp [load, Database.fresh] at known
  · simp [load, Database.fresh]
  · simp [load, Database.fresh, impressionsOf]

end Spnr.Server
