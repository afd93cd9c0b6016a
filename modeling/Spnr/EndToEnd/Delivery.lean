import Spnr.Daemon.Overlap
import Spnr.EndToEnd.Body
import Spnr.EndToEnd.Chain
import Spnr.Server.Honest

/-! Client and server in lockstep. The daemon's envelopes, posted in batches of
any size and read back by the server, are accepted one by one. -/
namespace Spnr.EndToEnd

open RustStd Transition Server Spnrd

variable {C : Crates}

theorem enqueue_all {envelopes : List String}
    (appends : ∀ env ∈ envelopes, (asBytes env).length < 2 ^ 32) (queue : List UInt8) :
    envelopes.foldl Daemon.enqueue queue =
      queue ++ (envelopes.map asBytes).flatMap Queue.frame := by
  induction envelopes generalizing queue with
  | nil => simp
  | cons env envelopes ih =>
    have one : Daemon.enqueue queue env = queue ++ Queue.frame (asBytes env) := by
      simp only [Daemon.enqueue, Queue.append, if_pos (appends env List.mem_cons_self),
        Option.getD_some]
    have rest := ih (fun env' mem => appends env' (List.mem_cons_of_mem _ mem))
      (queue ++ Queue.frame (asBytes env))
    rw [List.foldl_cons, one, rest]
    simp

theorem queue_reads_back {d : Daemon C} {gs : List Datagram}
    (appends : ∀ e ∈ d.emitted gs, (asBytes (Daemon.envelope d.key e)).length < 2 ^ 32) :
    ∃ appended, (d.run gs).queue = d.queue ++ appended ∧
      Queue.readAll appended = (d.emitted gs).map fun e => asBytes (Daemon.envelope d.key e) := by
  have small : ∀ env ∈ (d.emitted gs).map (Daemon.envelope d.key),
    (asBytes env).length < 2 ^ 32 := by
    intro env mem
    obtain ⟨e, inside, rfl⟩ := List.mem_map.mp mem
    exact appends e inside
  refine ⟨_, (Daemon.run_advances gs d).queued.trans (enqueue_all small d.queue), ?_⟩
  rw [Queue.readAll_frames _ fun r mem => ?_]
  · rw [List.map_map]
    rfl
  · obtain ⟨env, inside, rfl⟩ := List.mem_map.mp mem
    exact small env inside

theorem length_le_counted {es : List Event} (paid : ∀ e ∈ es, Daemon.Paid e) :
    es.length ≤ counted es := by
  induction es with
  | nil => exact Nat.le_refl 0
  | cons e es ih =>
    obtain ⟨-, n, count, positive, -⟩ := paid e List.mem_cons_self
    have rest := ih fun e' mem => paid e' (List.mem_cons_of_mem _ mem)
    have one : 1 ≤ e.count := by simpa [Event.count, count] using positive
    unfold counted at *
    rw [List.length_cons, List.map_cons, List.sum_cons]
    omega

theorem emitted_ctr {d : Daemon C} (started : d.Started) (gs : List Datagram)
    (fits : FitsI64 (5000 * (d.run gs).impressionsTotal)) : ∀ e ∈ d.emitted gs, e.ctr < 2 ^ 64 := by
  intro e mem
  have advances := Daemon.run_advances gs d
  have few := length_le_counted advances.paid
  have total := advances.total
  obtain ⟨inside, -⟩ := List.getElem?_eq_some_iff.mp ((started.chained gs).eq_of_ctr mem)
  have high := fits.2
  omega

/-- The requests of a sequence of batches that all reach the handler. -/
def received (C : Crates) (deviceId : String) (batches : List (List String)) : List IngestReq :=
  batches.filterMap fun batch => IngestReq.fromText C (postBody deviceId batch)

theorem received_cons (key : C.SigningKey) {first : List Event}
    (small : ∀ e ∈ first, e.ctr < 2 ^ 64) (batches : List (List String)) :
    received C (DeviceKey.deviceId C key) (first.map (Daemon.envelope key) :: batches) =
      ⟨DeviceKey.deviceId C key, first.map (signedBy C key)⟩ :: received C
        (DeviceKey.deviceId C key) batches := by
  simp only [received, List.filterMap_cons, fromText_postBody key small]

theorem received_events (key : C.SigningKey) (batches : List (List String)) {es : List Event}
    (small : ∀ e ∈ es, e.ctr < 2 ^ 64) (split : batches.flatten = es.map (Daemon.envelope key)) :
    (received C (DeviceKey.deviceId C key) batches).flatMap IngestReq.events =
      es.map (signedBy C key) := by
  induction batches generalizing es with
  | nil =>
    have none : es = [] := by simpa using split.symm
    rw [none]
    rfl
  | cons batch batches ih =>
    rw [List.flatten_cons] at split
    obtain ⟨first, rest, rfl, rfl, later⟩ := List.append_eq_map_iff.mp split
    have others := ih (fun e mem => small e (List.mem_append_right _ mem)) later.symm
    rw [received_cons key fun e mem => small e (List.mem_append_left rest mem),
      List.flatMap_cons, others, List.map_append]

theorem carried_flatMap (d : String) (rs : List Request) :
    rs.flatMap (Request.carries d) =
      (rs.filterMap (Request.fromDevice d)).flatMap IngestReq.events := by
  induction rs with
  | nil => rfl
  | cons r rs ih =>
    rw [List.flatMap_cons, ih]
    cases batch : r.fromDevice d with
    | none => simp [Request.carries, batch, List.filterMap_cons_none batch]
    | some req => simp [Request.carries, batch, List.filterMap_cons_some batch]

theorem received_carried {key : C.SigningKey} {rs : List Request} {batches : List (List String)}
    {es : List Event}
    (heard : rs.filterMap (Request.fromDevice (DeviceKey.deviceId C key)) = received C
      (DeviceKey.deviceId C key) batches)
    (small : ∀ e ∈ es, e.ctr < 2 ^ 64) (split : batches.flatten = es.map (Daemon.envelope key)) :
    rs.flatMap (Request.carries (DeviceKey.deviceId C key)) = es.map (signedBy C key) := by
  rw [carried_flatMap, heard]
  exact received_events key batches small split

/-- The registration of the daemon's own key, under its own device id. -/
structure RegistersKey (key : C.SigningKey) (req : RegisterReq) : Prop where
  deviceId : req.deviceId = DeviceKey.deviceId C key
  pubkey : req.pubkey = C.hexEncode (C.keyBytes (C.verifyingKey key))

theorem clean_run_after {s t : ServerState C.VerifyingKey} {rs : List Request}
    (run : Run CleanStep s rs t) : t = s.after rs := by
  induction run with
  | nil => rfl
  | cons first _ ih =>
    obtain ⟨-, rfl⟩ := first
    exact ih

theorem first_registration (now : Int) (token : Option String) {before : List Request}
    {key : C.SigningKey}
    {req : RegisterReq} (own : RegistersKey key req)
    (once : ∀ r ∈ before, ¬ r.Registers req.deviceId) (peer : Peer) (regNow : Int) :
    let registered :=
      ((ServerState.fresh C now token).after before).step C (.register peer req regNow)
    Synced registered ∧ Tracks registered.mem.toLoaded req.deviceId (C.verifyingKey key) 0 [] := by
  intro registered
  obtain ⟨-, synced, unregistered⟩ :=
    (fresh_unregistered (C := C) now token req.deviceId).run before (fresh_synced now token) once
  have decodes : decodePubkey C req.pubkey = some (C.verifyingKey key) := by
    rw [own.pubkey]
    exact decodePubkey_hexEncode C _
  have tracks := register_tracks synced unregistered.owned peer req regNow decodes
  rw [unregistered.imps] at tracks
  exact ⟨step_synced synced _, tracks⟩

theorem sent_envelopes {d : Daemon C} (started : d.Started) {gs : List Datagram}
    {sent : List String}
    (networked : (d.run gs).tx = some sent) :
    sent = (d.emitted gs).map (Daemon.envelope d.key) := by
  have channel := (Daemon.run_advances gs d).sent
  rw [networked] at channel
  cases started with
  | offline key queue statusCache => cases channel
  | online key queue statusCache server pool =>
    obtain ⟨-, -, -, -, -, tx⟩ :=
      Daemon.networked_still (Daemon.new C key queue statusCache) server pool
    rw [tx] at channel
    simpa using channel

theorem client_server_agree {d : Daemon C} (started : d.Started) (gs : List Datagram)
    {sent : List String}
    (networked : (d.run gs).tx = some sent) (appends : ∀ env ∈ sent, (asBytes env).length < 2 ^ 32)
    (fits : FitsI64 (5000 * (d.run gs).impressionsTotal)) {now : Int} {token : Option String}
    {before after : List Request} {peer : Peer} {req : RegisterReq} {regNow : Int}
    (own : RegistersKey d.key req) (once : ∀ r ∈ before ++ after, ¬ r.Registers req.deviceId)
    {srv : ServerState C.VerifyingKey}
    (run : Run CleanStep (ServerState.fresh C now token)
      (before ++ .register peer req regNow :: after) srv)
    {batches : List (List String)} (all : batches.flatten = sent)
    (delivered :
      after.filterMap (Request.fromDevice req.deviceId) = received C req.deviceId batches)
    (fresh : FreshIds
      (((ServerState.fresh C now token).after before).step C (.register peer req regNow))
      req.deviceId after (d.emitted gs)) :
    acceptedBy (((ServerState.fresh C now token).after before).step C (.register peer req regNow))
        req.deviceId after = d.emitted gs ∧
      sent = (d.emitted gs).map (Daemon.envelope d.key) ∧
      (∃ appended, (d.run gs).queue = d.queue ++ appended ∧ Queue.readAll appended =
        sent.map asBytes) ∧
      (∀ (k : Nat) (e : Event), (d.emitted gs)[k]? = some e → e.ctr = k) ∧
      (∀ e : Event, (d.emitted gs)[0]? = some e → e.prev = genesisPrev) ∧
      (∀ (k : Nat) (last e : Event), (d.emitted gs)[k]? = some last →
        (d.emitted gs)[k + 1]? = some e → e.prev = chainNext C (canonicalBytes C last)) ∧
      impressionsOf srv.mem.toLoaded (accountOf req.deviceId) = (d.run gs).impressionsTotal ∧
      balanceOf srv.mem.toLoaded (accountOf req.deviceId) +
          redeemedBy srv.mem.ledger (accountOf req.deviceId) =
            5000 * (d.run gs).impressionsTotal := by
  have advances := Daemon.run_advances gs d
  have chained := started.chained gs
  have small := emitted_ctr started gs fits
  have envelopes := sent_envelopes started networked
  obtain ⟨synced, tracks⟩ := first_registration now token own
    (fun r mem => once r (List.mem_append_left _ mem)) peer regNow
  have carried : after.flatMap (Request.carries req.deviceId) =
      (d.emitted gs).map (signedBy C d.key) := by
    rw [own.deviceId] at delivered ⊢
    exact received_carried delivered small (all.trans envelopes)
  have later : ∀ r ∈ after, ¬ r.Registers req.deviceId :=
    fun r mem => once r (List.mem_append_right _ mem)
  have accepted := tracks.honest_run after synced later chained carried fresh
  have final := tracks.run after synced later
  have reached := clean_run_after run
  rw [after_append] at reached
  have imps : impressionsOf srv.mem.toLoaded (accountOf req.deviceId) =
    (d.run gs).impressionsTotal := by
    have credited := final.credited
    rw [accepted, List.nil_append, paid_impressions advances.paid] at credited
    rw [reached, advances.total, started.genesis.2.2]
    exact credited
  refine ⟨accepted, envelopes, ?_, ?_, ?_, ?_, imps, ?_⟩
  · rw [envelopes] at appends ⊢
    rw [List.map_map]
    exact queue_reads_back fun e mem => appends _ (List.mem_map_of_mem mem)
  · intro k e here
    exact (chained.get here).1
  · intro e first
    exact (chained.get first).2
  · intro k last e there here
    exact chained.prev_succ here there
  · rw [((clean_run_conserved run).2.accounts (accountOf req.deviceId)).account, imps]

/-! Two turns, the event of each posted in a batch of its own. -/

def secondTurn : List Datagram :=
  [⟨.hook "UserPromptSubmit" "a", 10000, "u5"⟩, ⟨.heartbeat "a", 10500, "u6"⟩,
    ⟨.heartbeat "a", 12500, "u7"⟩, ⟨.heartbeat "a", 14500, "u8"⟩, ⟨.hook "Stop" "a", 16000, "u9"⟩]

def twoTurns : List Datagram := oneTurn ++ secondTurn

def thirdTurn : List Datagram :=
  [⟨.hook "UserPromptSubmit" "a", 20000, "u10"⟩, ⟨.heartbeat "a", 20500, "u11"⟩,
    ⟨.heartbeat "a", 22500, "u12"⟩,
    ⟨.heartbeat "a", 24500, "u13"⟩, ⟨.hook "Stop" "a", 26000, "u14"⟩]

def threeTurns : List Datagram := oneTurn ++ secondTurn ++ thirdTurn

def threeEnvelopes : List String :=
  (pairedDaemon.emitted threeTurns).map (Daemon.envelope (Reference.key 7))

theorem threeEnvelopes_short : ∀ env ∈ threeEnvelopes, (asBytes env).length < 1000 := by
  decide +kernel

theorem twoTurns_short :
    ∀ env ∈ (pairedDaemon.emitted twoTurns).map (Daemon.envelope (Reference.key 7)),
    (asBytes env).length < 1000 := by
  intro env mem
  apply threeEnvelopes_short
  rw [threeEnvelopes, threeTurns, Daemon.emitted_append, List.map_append]
  exact List.mem_append_left _ mem

def firstEvents : List Event := (pairedDaemon.emitted twoTurns).take 1
def secondEvents : List Event := (pairedDaemon.emitted twoTurns).drop 1

theorem twoTurns_total : (pairedDaemon.run twoTurns).impressionsTotal = 2 := by decide +kernel

theorem twoTurns_fits : FitsI64 (5000 * (pairedDaemon.run twoTurns).impressionsTotal) := by
  rw [twoTurns_total]
  decide

def pairedRegister : RegisterReq :=
  ⟨DeviceKey.deviceId Reference.crates (Reference.key 7),
    Reference.crates.hexEncode
      (Reference.crates.keyBytes (Reference.crates.verifyingKey (Reference.key 7))),
    none, none, none, none, none⟩

def pairedBatch (es : List Event) : IngestReq :=
  ⟨pairedRegister.deviceId, es.map (signedBy Reference.crates (Reference.key 7))⟩

def pairedServer : ServerState Reference.crates.VerifyingKey :=
  (ServerState.fresh Reference.crates 0 none).step Reference.crates
    (.register ⟨none, "127.0.0.1"⟩ pairedRegister 0)

theorem pairedServer_unseen : pairedServer.mem.seenEventIds = ∅ := by
  have none := fresh_seenEventIds (C := Reference.crates) 0 none
  simp only [pairedServer, ServerState.step, ServerState.effect, register]
  split <;> exact none

theorem pairedServer_fresh {gs : List Datagram} (ulids : (gs.map Datagram.ulid).Nodup)
    (rs : List IngestReq) (batches : ∀ req ∈ rs, req.deviceId = pairedRegister.deviceId) :
    FreshIds pairedServer pairedRegister.deviceId (rs.map .ingest) (pairedDaemon.emitted gs) := by
  refine ⟨(Daemon.emitted_ids gs pairedDaemon).nodup ulids, ?_, ?_⟩
  · intro e _
    rw [pairedServer_unseen]
    exact Finset.notMem_empty _
  · intro r mem silent
    obtain ⟨req, sent, rfl⟩ := List.mem_map.mp mem
    simp [Request.fromDevice, batches req sent] at silent

theorem twoTurns_split : firstEvents ++ secondEvents = pairedDaemon.emitted twoTurns :=
  List.take_append_drop 1 _

theorem client_server_agree_twoTurns :
    ∃ srv, Run CleanStep (ServerState.fresh Reference.crates 0 none)
        [.register ⟨none, "127.0.0.1"⟩ pairedRegister 0, .ingest (pairedBatch firstEvents),
          .ingest (pairedBatch secondEvents)] srv ∧
      (pairedBatch firstEvents).events.length = 1 ∧ (pairedBatch secondEvents).events.length = 1 ∧
      impressionsOf srv.mem.toLoaded (accountOf pairedRegister.deviceId) = 2 ∧
      ∀ last e : Event, (pairedDaemon.emitted twoTurns)[0]? = some last →
      (pairedDaemon.emitted twoTurns)[1]? = some e →
        e.prev = chainNext Reference.crates (canonicalBytes Reference.crates last) := by
  have first : (pairedBatch firstEvents).events.length = 1 := by decide +kernel
  have second : (pairedBatch secondEvents).events.length = 1 := by decide +kernel
  have few :
      ([pairedBatch firstEvents, pairedBatch secondEvents].flatMap IngestReq.events).length < 2 ^ 16 := by
    simp [first, second]
  have appends : ∀ env ∈ (pairedDaemon.emitted twoTurns).map (Daemon.envelope (Reference.key 7)),
      (asBytes env).length < 2 ^ 32 := fun env mem => (twoTurns_short env mem).trans (by decide)
  have networked : (pairedDaemon.run twoTurns).tx =
      some ((pairedDaemon.emitted twoTurns).map (Daemon.envelope (Reference.key 7))) :=
    (Daemon.run_advances twoTurns pairedDaemon).sent
  have all : [firstEvents.map (Daemon.envelope (Reference.key 7)),
    secondEvents.map (Daemon.envelope (Reference.key 7))].flatten =
      (pairedDaemon.emitted twoTurns).map (Daemon.envelope (Reference.key 7)) := by
    rw [← twoTurns_split, List.map_append]
    simp
  have small := emitted_ctr pairedDaemon_started twoTurns twoTurns_fits
  rw [← twoTurns_split] at small
  have delivered :
    [Request.ingest (pairedBatch firstEvents), .ingest (pairedBatch secondEvents)].filterMap
      (Request.fromDevice pairedRegister.deviceId) =
        received Reference.crates pairedRegister.deviceId
        [firstEvents.map (Daemon.envelope (Reference.key 7)),
          secondEvents.map (Daemon.envelope (Reference.key 7))] := by
    rw [pairedRegister,
      received_cons (Reference.key 7) fun e mem => small e (List.mem_append_left _ mem),
      received_cons (Reference.key 7) fun e mem => small e (List.mem_append_right _ mem)]
    simp [Request.fromDevice, pairedBatch, pairedRegister, received]
  have fresh := pairedServer_fresh (show (twoTurns.map Datagram.ulid).Nodup by decide)
    [pairedBatch firstEvents, pairedBatch secondEvents] (by simp [pairedBatch])
  have once : ∀ r ∈ ([] : List Request) ++ [.ingest (pairedBatch firstEvents),
    .ingest (pairedBatch secondEvents)],
      ¬ r.Registers pairedRegister.deviceId := by simp [Request.Registers]
  obtain ⟨srv, run⟩ :=
    first_batches_clean (C := Reference.crates) 0 none ⟨none, "127.0.0.1"⟩ pairedRegister 0 few
  obtain ⟨-, -, -, -, -, chain, imps, -⟩ :=
    client_server_agree pairedDaemon_started twoTurns networked appends
    twoTurns_fits ⟨rfl, rfl⟩ once run all delivered fresh
  exact ⟨srv, run, first, second, imps.trans twoTurns_total, chain 0⟩

end Spnr.EndToEnd
