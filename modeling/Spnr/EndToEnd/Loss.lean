import Spnr.EndToEnd.Delivery

/-! Lost POSTs. The daemon moves its chain on whatever becomes of a batch, and the
server takes only the next link, so the first loss decides what is ever paid. -/
namespace Spnr.EndToEnd

open RustStd Transition Server Spnrd

variable {C : Crates}

def arrived (posts : List Post) : List (List String) := (posts.filter Post.delivered).map Post.batch

def beforeLoss (posts : List Post) : List (List String) :=
  (posts.takeWhile Post.delivered).map Post.batch

theorem posts_split (posts : List Post) :
    (arrived posts = beforeLoss posts ∧ posts.map Post.batch = beforeLoss posts) ∨
    ∃ lost rest, posts = posts.takeWhile Post.delivered ++ lost :: rest ∧
      arrived posts = beforeLoss posts ++ arrived rest := by
  induction posts with
  | nil => exact .inl ⟨rfl, rfl⟩
  | cons p posts ih =>
    cases through : p.delivered with
    | false =>
      right
      exact ⟨p, posts, by simp [through], by simp [arrived, beforeLoss, through]⟩
    | true =>
      rcases ih with ⟨all, every⟩ | ⟨lost, rest, split, later⟩
      · left
        simp only [arrived, beforeLoss] at all every
        simp [arrived, beforeLoss, through, all, every]
      · right
        refine ⟨lost, rest, ?_, ?_⟩
        · simp only [List.takeWhile_cons, through, if_true, List.cons_append]
          exact congrArg (p :: ·) split
        · simp only [arrived, beforeLoss] at later
          simp [arrived, beforeLoss, through, later]

theorem batch_events {key : C.SigningKey} {batches : List (List String)} {es : List Event}
    (split : batches.flatten = es.map (Daemon.envelope key)) :
    ∀ batch ∈ batches, ∃ chunk, chunk ⊆ es ∧ batch = chunk.map (Daemon.envelope key) := by
  induction batches generalizing es with
  | nil => simp
  | cons first batches ih =>
    rw [List.flatten_cons] at split
    obtain ⟨chunk, rest, rfl, rfl, later⟩ := List.append_eq_map_iff.mp split
    intro batch mem
    rcases List.mem_cons.mp mem with rfl | mem
    · exact ⟨chunk, List.subset_append_left _ _, rfl⟩
    · obtain ⟨chunk', inside, same⟩ := ih later.symm batch mem
      exact ⟨chunk', List.subset_append_of_subset_right _ inside, same⟩

theorem received_among {key : C.SigningKey} {batches : List (List String)} {es : List Event}
    (small : ∀ e ∈ es, e.ctr < 2 ^ 64)
    (chunks : ∀ batch ∈ batches, ∃ chunk, chunk ⊆ es ∧ batch = chunk.map (Daemon.envelope key)) :
    ∀ se ∈ (received C (DeviceKey.deviceId C key) batches).flatMap IngestReq.events, se.e ∈ es := by
  induction batches with
  | nil => simp [received]
  | cons batch batches ih =>
    obtain ⟨chunk, inside, rfl⟩ := chunks batch List.mem_cons_self
    intro se mem
    rw [received_cons key fun e mem => small e (inside mem), List.flatMap_cons] at mem
    rcases List.mem_append.mp mem with now | later
    · obtain ⟨e, within, rfl⟩ := List.mem_map.mp now
      exact inside within
    · exact ih (fun batch' mem => chunks batch' (List.mem_cons_of_mem _ mem)) se later

theorem arrived_among {key : C.SigningKey} {posts : List Post} {es : List Event}
    (small : ∀ e ∈ es, e.ctr < 2 ^ 64)
    (sent : (posts.map Post.batch).flatten = es.map (Daemon.envelope key)) :
    ∀ se ∈ (received C (DeviceKey.deviceId C key) (arrived posts)).flatMap IngestReq.events,
      se.e ∈ es := by
  apply received_among small
  intro batch got
  obtain ⟨p, inside, rfl⟩ := List.mem_map.mp got
  exact batch_events sent _ (List.mem_map_of_mem (List.mem_of_mem_filter inside))

theorem Tracks.accepted_before_loss {d : Daemon C} (started : d.Started) (gs : List Datagram)
    (fits : FitsI64 (5000 * (d.run gs).impressionsTotal)) {posts : List Post}
    (all : (posts.map Post.batch).flatten = (d.emitted gs).map (Daemon.envelope d.key))
    (nonempty : ∀ p ∈ posts, p.batch ≠ []) {srv : ServerState C.VerifyingKey} (synced : Synced srv)
    {base : Nat}
    (tracks : Tracks srv.mem.toLoaded (DeviceKey.deviceId C d.key) (C.verifyingKey d.key) base [])
    {rs : List Request} (once : ∀ r ∈ rs, ¬ r.Registers (DeviceKey.deviceId C d.key))
    (delivered : rs.filterMap (Request.fromDevice (DeviceKey.deviceId C d.key)) =
      received C (DeviceKey.deviceId C d.key) (arrived posts))
    (fresh : FreshIds srv (DeviceKey.deviceId C d.key) rs (d.emitted gs)) :
    (acceptedBy srv (DeviceKey.deviceId C d.key) rs).map (Daemon.envelope d.key) =
      (beforeLoss posts).flatten ∧
      acceptedBy srv (DeviceKey.deviceId C d.key) rs ⊆ d.emitted gs := by
  have chained := started.chained gs
  have small := emitted_ctr started gs fits
  rcases posts_split posts with ⟨through, every⟩ | ⟨lost, rest, split, through⟩
  · rw [every] at all
    rw [through] at delivered
    rw [tracks.honest_run rs synced once chained (received_carried delivered small all) fresh, all]
    exact ⟨rfl, List.Subset.refl _⟩
  · -- the events before the loss, the lost ones, and those that come too late
    rw [split, List.map_append, List.flatten_append] at all
    obtain ⟨kept, tail, events, before, others⟩ := List.append_eq_map_iff.mp all
    rw [List.map_cons, List.flatten_cons] at others
    obtain ⟨gone, late, rfl, missing, after⟩ := List.append_eq_map_iff.mp others.symm
    rw [events] at chained small fresh ⊢
    rw [through, received, List.filterMap_append] at delivered
    obtain ⟨first, second, rfl, heard, unheard⟩ := List.filterMap_eq_append_iff.mp delivered
    have carried :=
      received_carried heard (fun e mem => small e (List.mem_append_left _ mem)) before.symm
    have onceFirst : ∀ r ∈ first, ¬ r.Registers (DeviceKey.deviceId C d.key) :=
      fun r mem => once r (List.mem_append_left _ mem)
    have accepted :=
      tracks.honest_run first synced onceFirst (chained_append.mp chained).1 carried fresh.first
    have next := tracks.run first synced onceFirst
    rw [accepted, List.nil_append] at next
    have some : 0 < gone.length := by
      have batch := nonempty lost (by rw [split]; exact List.mem_append_right _ List.mem_cons_self)
      rw [← missing] at batch
      rcases gone with _ | ⟨e, gone⟩
      · exact absurd rfl batch
      · exact Nat.succ_pos _
    rw [← List.append_assoc] at chained
    have high := (chained_append.mp chained).2.ctr_le
    have tooLate : ∀ se ∈ second.flatMap (Request.carries (DeviceKey.deviceId C d.key)),
        kept.length < se.e.ctr := by
      intro se mem
      rw [carried_flatMap, unheard] at mem
      have inside := arrived_among
        (fun e mem => small e (List.mem_append_right _ (List.mem_append_right _ mem)))
          after.symm se mem
      have := high se.e inside
      rw [List.length_append] at this
      omega
    have none := next.late_run second (after_synced first synced)
      (fun r mem => once r (List.mem_append_right _ mem)) tooLate
    rw [acceptedBy_append, accepted, none, List.append_nil]
    exact ⟨before, List.subset_append_left _ _⟩

theorem paid_until_first_loss {d : Daemon C} (started : d.Started) (gs : List Datagram)
    {sent : List String}
    (networked : (d.run gs).tx = some sent) (fits : FitsI64 (5000 * (d.run gs).impressionsTotal))
    {now : Int} {token : Option String} {before after : List Request} {peer : Peer}
    {req : RegisterReq}
    {regNow : Int} (own : RegistersKey d.key req)
    (once : ∀ r ∈ before ++ after, ¬ r.Registers req.deviceId)
    {posts : List Post} (all : (posts.map Post.batch).flatten = sent)
    (nonempty : ∀ p ∈ posts, p.batch ≠ [])
    (delivered :
      after.filterMap (Request.fromDevice req.deviceId) = received C req.deviceId (arrived posts))
    (fresh : FreshIds
      (((ServerState.fresh C now token).after before).step C (.register peer req regNow))
      req.deviceId after (d.emitted gs)) :
    let unregistered := (ServerState.fresh C now token).after before
    let registered := unregistered.step C (.register peer req regNow)
    -- the registration got through
    ((acceptedBy registered req.deviceId after).map (Daemon.envelope d.key) =
      (beforeLoss posts).flatten ∧
      impressionsOf (registered.after after).mem.toLoaded (accountOf req.deviceId) =
        counted (acceptedBy registered req.deviceId after)) ∧
    -- it was lost as well
    (acceptedBy unregistered req.deviceId after = [] ∧
      impressionsOf (unregistered.after after).mem.toLoaded (accountOf req.deviceId) = 0) := by
  intro unregistered registered
  have onceBefore : ∀ r ∈ before, ¬ r.Registers req.deviceId :=
    fun r mem => once r (List.mem_append_left _ mem)
  have onceAfter : ∀ r ∈ after, ¬ r.Registers req.deviceId :=
    fun r mem => once r (List.mem_append_right _ mem)
  obtain ⟨synced, tracks⟩ := first_registration now token own onceBefore peer regNow
  obtain ⟨-, syncedBefore, unknown⟩ :=
    (fresh_unregistered (C := C) now token req.deviceId).run before
      (fresh_synced now token) onceBefore
  obtain ⟨none, -, still⟩ := unknown.run after syncedBefore onceAfter
  have final := tracks.run after synced onceAfter
  have envelopes := all.trans (sent_envelopes started networked)
  rw [own.deviceId] at tracks onceAfter delivered fresh final ⊢
  obtain ⟨accepted, among⟩ :=
    Tracks.accepted_before_loss started gs fits envelopes nonempty synced tracks
    onceAfter delivered fresh
  refine ⟨⟨accepted, ?_⟩, ?_, ?_⟩
  · have credited := final.credited
    rw [List.nil_append, Nat.zero_add] at credited
    rw [← paid_impressions fun e mem => (Daemon.run_advances gs d).paid e (among mem)]
    exact credited
  · rw [← own.deviceId]
    exact none
  · rw [← own.deviceId]
    exact still.imps

/-! Two turns, each posted by itself, and the first POST fails. -/

def lossyPosts : List Post :=
  [⟨firstEvents.map (Daemon.envelope (Reference.key 7)), false⟩,
    ⟨secondEvents.map (Daemon.envelope (Reference.key 7)), true⟩]

theorem twoTurns_sent :
    (pairedDaemon.run twoTurns).tx = some (lossyPosts.map Post.batch).flatten := by
  have sent : (pairedDaemon.run twoTurns).tx =
      some ((pairedDaemon.emitted twoTurns).map (Daemon.envelope (Reference.key 7))) :=
    (Daemon.run_advances twoTurns pairedDaemon).sent
  rw [sent, ← List.take_append_drop 1 (pairedDaemon.emitted twoTurns), List.map_append]
  simp [lossyPosts, firstEvents, secondEvents]

theorem secondEvents_late : ∀ e ∈ secondEvents, 0 < e.ctr := by decide +kernel

theorem lossyPosts_nonempty : ∀ p ∈ lossyPosts, p.batch ≠ [] := by decide +kernel

theorem lossyPosts_arrive :
    received Reference.crates pairedRegister.deviceId (arrived lossyPosts) =
      [pairedBatch secondEvents] := by
  have small : ∀ e ∈ secondEvents, e.ctr < 2 ^ 64 :=
    fun e mem => emitted_ctr pairedDaemon_started twoTurns twoTurns_fits e
      (List.mem_of_mem_drop mem)
  have one : arrived lossyPosts = [secondEvents.map (Daemon.envelope (Reference.key 7))] := by
    simp [arrived, lossyPosts]
  rw [one, pairedRegister, received_cons (Reference.key 7) small]
  simp [pairedBatch, pairedRegister, received]

theorem lost_post_strands :
    (pairedDaemon.run twoTurns).tx = some (lossyPosts.map Post.batch).flatten ∧
      received Reference.crates pairedRegister.deviceId (arrived lossyPosts) =
        [pairedBatch secondEvents] ∧
      (pairedBatch secondEvents).events.length = 1 ∧
      acceptedBy pairedServer pairedRegister.deviceId
        [.ingest (pairedBatch secondEvents)] = [] := by
  refine ⟨twoTurns_sent, lossyPosts_arrive, by decide +kernel, ?_⟩
  obtain ⟨synced, tracks⟩ := first_registration (C := Reference.crates) 0 none
    (show RegistersKey (Reference.key 7) pairedRegister from ⟨rfl, rfl⟩)
    (show ∀ r ∈ ([] : List Request), ¬ r.Registers pairedRegister.deviceId by simp)
      ⟨none, "127.0.0.1"⟩ 0
  refine tracks.late_run [.ingest (pairedBatch secondEvents)] synced
    (by simp [Request.Registers]) ?_
  intro se mem
  have carried : se ∈ secondEvents.map (signedBy Reference.crates (Reference.key 7)) := by
    simpa [Request.carries, Request.fromDevice, pairedBatch] using mem
  obtain ⟨e, inside, rfl⟩ := List.mem_map.mp carried
  exact secondEvents_late e inside

theorem paid_until_first_loss_twoTurns :
    (acceptedBy pairedServer pairedRegister.deviceId [.ingest (pairedBatch secondEvents)]).map
        (Daemon.envelope (Reference.key 7)) = (beforeLoss lossyPosts).flatten ∧
      beforeLoss lossyPosts = [] := by
  have once : ∀ r ∈ ([] : List Request) ++ [.ingest (pairedBatch secondEvents)],
      ¬ r.Registers pairedRegister.deviceId := by simp [Request.Registers]
  have delivered : [Request.ingest (pairedBatch secondEvents)].filterMap
      (Request.fromDevice pairedRegister.deviceId) =
        received Reference.crates pairedRegister.deviceId (arrived lossyPosts) := by
    rw [lossyPosts_arrive]
    simp [Request.fromDevice, pairedBatch]
  have fresh := pairedServer_fresh (show (twoTurns.map Datagram.ulid).Nodup by decide)
    [pairedBatch secondEvents] (by simp [pairedBatch])
  obtain ⟨⟨accepted, -⟩, -⟩ :=
    paid_until_first_loss pairedDaemon_started twoTurns twoTurns_sent twoTurns_fits
    ⟨rfl, rfl⟩ once rfl lossyPosts_nonempty delivered fresh
  exact ⟨accepted, by simp [beforeLoss, lossyPosts]⟩

end Spnr.EndToEnd
