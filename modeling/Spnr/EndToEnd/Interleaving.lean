import Spnr.EndToEnd.Delivery
import Spnr.Lib.Mpsc
import Spnr.Server.Replays

/-! The daemon, its flush task, the network and the server taking turns in any order. A
batch that the task has handed on reaches the server at once, late, out of turn, more
than once or never, unless it is refused for its size, and other requests come in between. -/
namespace Spnr.EndToEnd

open RustStd Transition Server Spnrd

variable {C : Crates}

/-- The daemon with its channel and flush task on one side, the server on the other. -/
structure System (C : Crates) where
  daemon : Daemon C
  pipe : Mpsc.Pipe String
  server : ServerState C.VerifyingKey

inductive Turn where
  | datagram (g : Datagram)
  | flush (op : Mpsc.Op String)
  | arrive (i : Nat)
  | refused (i : Nat)
  | other (r : Request)

/-- What the daemon puts on the channel for one datagram. -/
def sends (d : Daemon C) (g : Datagram) : List String :=
  ((d.handle g).tx.getD []).drop (d.tx.getD []).length

def Fits (deviceId : String) (batch : List String) : Prop := WithinLimit (postBody deviceId batch)

instance (deviceId : String) (batch : List String) : Decidable (Fits deviceId batch) :=
  inferInstanceAs (Decidable (WithinLimit _))

/-- The server after a posted batch; a body that the extractor refuses never reaches the handler. -/
def arrival (srv : ServerState C.VerifyingKey) (deviceId : String) (batch : List String) :
    ServerState C.VerifyingKey :=
  match ingestBody C (postBody deviceId batch) with
  | some req => srv.step C (.ingest req)
  | none => srv

inductive System.Step : System C → Turn → System C → Prop where
  | datagram (s : System C) (g : Datagram) :
      Step s (.datagram g)
        { s with
          daemon := s.daemon.handle g
          pipe := { s.pipe with channel := s.pipe.channel ++ sends s.daemon g } }
  | flush {s : System C} {op : Mpsc.Op String} {pipe : Mpsc.Pipe String} :
      op.sent = [] → Mpsc.Step s.pipe op pipe → Step s (.flush op) { s with pipe := pipe }
  | arrive {s : System C} {i : Nat} {batch : List String} :
      s.pipe.handed[i]? = some batch → Fits (DeviceKey.deviceId C s.daemon.key) batch →
        Step s (.arrive i)
          { s with server := arrival s.server (DeviceKey.deviceId C s.daemon.key) batch }
  | refused {s : System C} {i : Nat} {batch : List String} :
      s.pipe.handed[i]? = some batch → ¬ Fits (DeviceKey.deviceId C s.daemon.key) batch →
        Step s (.refused i) s
  | other (s : System C) (r : Request) : Step s (.other r) { s with server := s.server.step C r }

def System.start (d : Daemon C) (srv : ServerState C.VerifyingKey) : System C :=
  ⟨d, ⟨[], .waiting, []⟩, srv⟩

def Turn.datagrams : Turn → List Datagram
  | .datagram g => [g]
  | .flush _ | .arrive _ | .refused _ | .other _ => []

def Turn.heard (k : Nat) : Turn → Nat
  | .arrive i => if i = k then k + 1 else k
  | .datagram _ | .flush _ | .refused _ | .other _ => k

def datagramsIn (ts : List Turn) : List Datagram := ts.flatMap Turn.datagrams

def heardIn (ts : List Turn) : Nat := ts.foldl Turn.heard 0

/-- The turns that neither the daemon's peers nor its user take. -/
def Turn.Internal : Turn → Prop
  | .flush _ | .arrive _ | .refused _ => True
  | .datagram _ | .other _ => False

/-- A request of anyone else: it cannot sign for the device, and the
device's ids are not its own. -/
structure Foreign (d : Daemon C) (own : Set String) (es : List Event) (r : Request) : Prop where
  once : ¬ r.Registers (DeviceKey.deviceId C d.key)
  signed : ∀ se ∈ r.carries (DeviceKey.deviceId C d.key), SignedUnder (C.verifyingKey d.key) se →
    se.e ∈ es
  apart : r.fromDevice (DeviceKey.deviceId C d.key) = none → ∀ id ∈ r.ids, id ∉ own

/-- After the datagrams `gs` and `k` batches in turn, towards the history `es`. -/
structure Flowing (d : Daemon C) (own : Set String) (base : Nat) (es : List Event)
    (gs : List Datagram) (k : Nat) (s : System C) : Prop where
  daemon : s.daemon = d.run gs
  emitted : d.emitted gs <+: es
  all : s.pipe.all = (d.emitted gs).map (Daemon.envelope d.key)
  full : s.pipe.Full
  turn : k ≤ s.pipe.handed.length
  synced : Synced s.server
  server : ∃ m, (s.pipe.handed.take k).flatten.length ≤ m ∧
    Reached s.server.mem.toLoaded (DeviceKey.deviceId C d.key) (C.verifyingKey d.key) base own es m

theorem sends_eq {d : Daemon C} {sent : List String} (networked : d.tx = some sent) (g : Datagram) :
    sends d g = (d.emits g).map (Daemon.envelope d.key) := by
  have channel := (Daemon.handle_advances d g).sent
  rw [networked, Option.map_some] at channel
  rw [sends, channel, networked, Option.getD_some, Option.getD_some, List.drop_left]

theorem take_flatten_of_append {handed handed' : List (List String)}
    (grown : handed <+: handed') {k : Nat}
    (inside : k ≤ handed.length) : (handed'.take k).flatten = (handed.take k).flatten := by
  obtain ⟨more, rfl⟩ := grown
  rw [List.take_append_of_le_length inside]

theorem handed_stretch {key : C.SigningKey} {handed : List (List String)} {es : List Event}
    {rest : List String}
    (all : handed.flatten ++ rest = es.map (Daemon.envelope key)) {i : Nat} {batch : List String}
    (here : handed[i]? = some batch) :
    ∃ before chunk after, es = before ++ chunk ++ after ∧ batch = chunk.map (Daemon.envelope key) ∧
      before.length = (handed.take i).flatten.length := by
  obtain ⟨inside, same⟩ := List.getElem?_eq_some_iff.mp here
  have split : handed = handed.take i ++ batch :: handed.drop (i + 1) := by
    rw [← same, List.getElem_cons_drop, List.take_append_drop]
  rw [split, List.flatten_append, List.flatten_cons, List.append_assoc, List.append_assoc] at all
  obtain ⟨before, others, rfl, earlier, later⟩ := List.append_eq_map_iff.mp all
  obtain ⟨chunk, after, rfl, now, -⟩ := List.append_eq_map_iff.mp later.symm
  refine ⟨before, chunk, after, (List.append_assoc _ _ _).symm, now.symm, ?_⟩
  rw [← earlier, List.length_map]

section

variable {d : Daemon C} {own : Set String} {base : Nat} {es : List Event} {gs : List Datagram}
  {k : Nat} {s s' : System C}

theorem Flowing.datagram (networked : d.tx = some []) (flowing : Flowing d own base es gs k s)
    (g : Datagram) (later : d.emitted (gs ++ [g]) <+: es) :
    Flowing d own base es (gs ++ [g]) k
      { s with
        daemon := s.daemon.handle g
        pipe := { s.pipe with channel := s.pipe.channel ++ sends s.daemon g } } := by
  have advances := Daemon.run_advances gs d
  have channel := advances.sent
  rw [networked, Option.map_some] at channel
  have sent : sends s.daemon g = ((d.run gs).emits g).map (Daemon.envelope d.key) := by
    rw [flowing.daemon, sends_eq channel, advances.key]
  constructor
  · rw [flowing.daemon, Daemon.run, Daemon.run, List.foldl_append]
    rfl
  · exact later
  · have all := flowing.all
    rw [Daemon.emitted_append, Daemon.emitted, Daemon.emitted, List.append_nil, List.map_append,
      ← all, ← sent]
    simp [Mpsc.Pipe.all]
  · exact ⟨flowing.full.handed, flowing.full.held⟩
  · exact flowing.turn
  · exact flowing.synced
  · exact flowing.server

theorem Flowing.flush (flowing : Flowing d own base es gs k s) {op : Mpsc.Op String}
    {pipe : Mpsc.Pipe String} (silent : op.sent = []) (step : Mpsc.Step s.pipe op pipe) :
    Flowing d own base es gs k { s with pipe := pipe } := by
  have all := step.all
  rw [silent, List.append_nil] at all
  obtain ⟨m, reached, server⟩ := flowing.server
  refine ⟨flowing.daemon, flowing.emitted, all.trans flowing.all, step.full flowing.full,
    flowing.turn.trans step.handed.length_le, flowing.synced, m, ?_, server⟩
  rw [take_flatten_of_append step.handed flowing.turn]
  exact reached

/-- The history from genesis, its counters within `u64`, its ids the device's own. -/
structure History (d : Daemon C) (own : Set String) (es : List Event) : Prop where
  chained : Chained C 0 genesisPrev es
  ids : OwnIds own es
  few : es.length < 2 ^ 64

theorem History.small (history : History d own es) : ∀ e ∈ es, e.ctr < 2 ^ 64 := by
  intro e mem
  obtain ⟨inside, -⟩ := List.getElem?_eq_some_iff.mp (history.chained.eq_of_ctr mem)
  have := history.few
  omega

theorem History.arrival (history : History d own es) {chunk : List Event} (inside : chunk ⊆ es)
    (srv : ServerState C.VerifyingKey)
    (fits : Fits (DeviceKey.deviceId C d.key) (chunk.map (Daemon.envelope d.key))) :
    EndToEnd.arrival srv (DeviceKey.deviceId C d.key) (chunk.map (Daemon.envelope d.key)) =
      srv.step C (.ingest ⟨DeviceKey.deviceId C d.key, chunk.map (signedBy C d.key)⟩) := by
  have read := fromText_postBody d.key fun e mem => history.small e (inside mem)
  rw [EndToEnd.arrival, ingestBody, extract_within fits, ← IngestReq.fromText, read]

theorem ingest_mem (srv : ServerState C.VerifyingKey) (req : IngestReq) :
    (srv.step C (.ingest req)).mem = (ingestAll srv.mem req.deviceId req.events).1 := by
  rw [ServerState.step, ingest_effect]

theorem Flowing.arrive (history : History d own es)
    (flowing : Flowing d own base es gs k s) {i : Nat}
    {batch : List String} (here : s.pipe.handed[i]? = some batch)
    (fits : Fits (DeviceKey.deviceId C s.daemon.key) batch) :
    Flowing d own base es gs (Turn.heard k (.arrive i))
      { s with server := arrival s.server (DeviceKey.deviceId C s.daemon.key) batch } := by
  obtain ⟨later, rfl⟩ := flowing.emitted
  have all := flowing.all
  obtain ⟨m, reached, server⟩ := flowing.server
  have envelopes : s.pipe.handed.flatten ++
    (s.pipe.consumer.held ++ s.pipe.channel ++ later.map (Daemon.envelope d.key)) =
      (d.emitted gs ++ later).map (Daemon.envelope d.key) := by
    rw [List.map_append, ← all, Mpsc.Pipe.all, List.append_assoc, List.append_assoc,
      List.append_assoc]
  obtain ⟨before, chunk, after, split, rfl, position⟩ := handed_stretch envelopes here
  have inside : chunk ⊆ d.emitted gs ++ later := by
    rw [split]
    exact List.subset_append_of_subset_left _ (List.subset_append_right _ _)
  have key : s.daemon.key = d.key := by rw [flowing.daemon, (Daemon.run_advances gs d).key]
  rw [key] at fits ⊢
  rw [history.arrival inside s.server fits]
  have signed : ∀ se ∈ chunk.map (signedBy C d.key), SignedUnder (C.verifyingKey d.key) se →
    se.e ∈ d.emitted gs ++ later := by
    intro se mem _
    obtain ⟨e, within, rfl⟩ := List.mem_map.mp mem
    exact inside within
  have synced :=
    step_synced flowing.synced (.ingest ⟨DeviceKey.deviceId C d.key, chunk.map (signedBy C d.key)⟩)
  rw [Turn.heard]
  split
  · -- its turn: everything before it is accepted, so the whole batch is
    rename_i turn
    subst turn
    obtain ⟨m', -, beyond, next⟩ :=
      server.honest_batch history.chained history.ids chunk split (position.trans_le reached)
    refine ⟨flowing.daemon, flowing.emitted, flowing.all, flowing.full, ?_, synced, m', ?_, ?_⟩
    · exact (List.getElem?_eq_some_iff.mp here).1
    · rw [List.take_add_one, here, Option.toList_some, List.flatten_append,
        List.length_append, ← position, List.flatten_singleton, List.length_map]
      exact beyond
    · rw [ingest_mem]
      exact next
  · obtain ⟨m', more, next⟩ := server.batch history.chained _ signed
    refine ⟨flowing.daemon, flowing.emitted, flowing.all, flowing.full, flowing.turn, synced, m',
      reached.trans more, ?_⟩
    rw [ingest_mem]
    exact next

theorem Flowing.other (history : History d own es) (flowing : Flowing d own base es gs k s)
    {r : Request}
    (foreign : Foreign d own es r) :
    Flowing d own base es gs k { s with server := s.server.step C r } := by
  obtain ⟨m, reached, server⟩ := flowing.server
  obtain ⟨m', more, next⟩ :=
    server.step flowing.synced history.chained foreign.once foreign.signed foreign.apart
  exact ⟨flowing.daemon, flowing.emitted, flowing.all, flowing.full, flowing.turn,
    step_synced flowing.synced r, m', reached.trans more, next⟩

theorem Flowing.step (networked : d.tx = some []) (history : History d own es)
    (flowing : Flowing d own base es gs k s)
    {t : Turn} (step : System.Step s t s') (later : d.emitted (gs ++ t.datagrams) <+: es)
    (foreign : ∀ r, t = .other r → Foreign d own es r) :
    Flowing d own base es (gs ++ t.datagrams) (t.heard k) s' := by
  cases step with
  | datagram g => exact flowing.datagram networked g later
  | flush silent step =>
    rw [Turn.datagrams, List.append_nil]
    exact flowing.flush silent step
  | arrive here fits =>
    rw [Turn.datagrams, List.append_nil]
    exact flowing.arrive history here fits
  | refused =>
    rw [Turn.datagrams, List.append_nil]
    exact flowing
  | other r =>
    rw [Turn.datagrams, List.append_nil]
    exact flowing.other history (foreign r rfl)

theorem Flowing.run (networked : d.tx = some []) (history : History d own es) {ts : List Turn}
    (run : Run System.Step s ts s') (flowing : Flowing d own base es gs k s)
    (later : d.emitted (gs ++ datagramsIn ts) <+: es)
    (foreign : ∀ r, .other r ∈ ts → Foreign d own es r) :
    Flowing d own base es (gs ++ datagramsIn ts) (ts.foldl Turn.heard k) s' := by
  induction run generalizing gs k with
  | nil => rwa [datagramsIn, List.flatMap_nil, List.append_nil]
  | @cons s mid t turn ts first rest ih =>
    rw [datagramsIn, List.flatMap_cons, ← List.append_assoc] at later ⊢
    have now : d.emitted (gs ++ turn.datagrams) <+: es := by
      rw [Daemon.emitted_append] at later
      exact (List.prefix_append _ _).trans later
    have next :=
      flowing.step networked history first now fun r same => foreign r (same ▸ List.mem_cons_self)
    exact ih next later fun r mem => foreign r (List.mem_cons_of_mem _ mem)

end

structure Agreed (s : System C) (base : Nat) : Prop where
  head : ∃ dev, s.server.mem.devices.lookup (DeviceKey.deviceId C s.daemon.key) = some dev ∧
    dev.chainHead = s.daemon.prev ∧ expectedCtr dev = s.daemon.ctr
  paid : impressionsOf s.server.mem.toLoaded (accountOf (DeviceKey.deviceId C s.daemon.key)) =
    base + s.daemon.impressionsTotal

section

variable {d : Daemon C} {own : Set String} {base : Nat} {gs : List Datagram} {k : Nat}
  {s : System C}

theorem agreed_of_reached (started : d.Started) (daemon : s.daemon = d.run gs) {m : Nat}
    (reached : Reached s.server.mem.toLoaded (DeviceKey.deviceId C d.key) (C.verifyingKey d.key)
      base own (d.emitted gs) m)
    (whole : (d.emitted gs).length ≤ m) : Agreed s base := by
  have advances := Daemon.run_advances gs d
  obtain ⟨ctr, prev, total⟩ := started.genesis
  have tracks := reached.tracks
  rw [List.take_of_length_le whole] at tracks
  obtain ⟨-, -, head, next⟩ := tracks.expected tracks.device
  constructor
  · refine ⟨_, by rw [daemon, advances.key]; exact tracks.device, ?_, ?_⟩
    · rw [daemon, advances.prev, prev, head]
    · rw [daemon, advances.ctr, ctr, next, Nat.zero_add]
  · rw [daemon, advances.key, tracks.credited, paid_impressions advances.paid, advances.total,
      total, Nat.zero_add]

theorem flush_run {p q : Mpsc.Pipe String} {ops : List (Mpsc.Op String)}
    (run : Run Mpsc.Step p ops q)
    (silent : ∀ op ∈ ops, op.sent = []) (s : System C) (start : s.pipe = p) :
    Run System.Step s (ops.map .flush) { s with pipe := q } := by
  induction run generalizing s with
  | nil p =>
    subst start
    exact .nil s
  | cons first rest ih =>
    subst start
    exact .cons (.flush (silent _ List.mem_cons_self) first)
      (ih (fun op mem => silent op (List.mem_cons_of_mem _ mem)) _ rfl)

theorem arrive_run (left : Nat) (s : System C) {k : Nat} (rest : k + left = s.pipe.handed.length)
    (fits : ∀ batch ∈ s.pipe.handed, Fits (DeviceKey.deviceId C s.daemon.key) batch) :
    ∃ ts server, (∀ t ∈ ts, t.Internal) ∧ datagramsIn ts = [] ∧
    ts.foldl Turn.heard k = s.pipe.handed.length ∧
      Run System.Step s ts { s with server := server } := by
  induction left generalizing s k with
  | zero => exact ⟨[], s.server, nofun, rfl, rest, .nil s⟩
  | succ left ih =>
    have here : s.pipe.handed[k]? = some s.pipe.handed[k] := List.getElem?_eq_getElem (by omega)
    have rest' : k + 1 + left = s.pipe.handed.length := by omega
    obtain ⟨ts, server, internal, none, heard, run⟩ :=
      ih { s with server := arrival s.server (DeviceKey.deviceId C s.daemon.key) s.pipe.handed[k] }
        rest' fits
    refine ⟨.arrive k :: ts, server, List.forall_mem_cons.mpr ⟨trivial, internal⟩, none, ?_,
      .cons (.arrive here (fits _ (List.getElem_mem _))) run⟩
    rw [List.foldl_cons, Turn.heard, if_pos rfl]
    exact heard

theorem Flowing.settles (started : d.Started) (networked : d.tx = some [])
    (history : History d own (d.emitted gs)) (flowing : Flowing d own base (d.emitted gs) gs k s)
    (fit : ∀ batch ∈ s.pipe.handed, Fits (DeviceKey.deviceId C d.key) batch)
    (last : Fits (DeviceKey.deviceId C d.key) (s.pipe.consumer.held ++ s.pipe.channel)) :
    ∃ ts s', (∀ t ∈ ts, t.Internal) ∧ Run System.Step s ts s' ∧ s'.daemon = s.daemon ∧
      s'.pipe.handed.flatten = (d.emitted gs).map (Daemon.envelope d.key) ∧ Agreed s' base := by
  obtain ⟨ops, more, silent, whole, drained⟩ := Mpsc.settles s.pipe
  have key : s.daemon.key = d.key := by rw [flowing.daemon, (Daemon.run_advances gs d).key]
  have fits : ∀ batch ∈ s.pipe.handed ++ more, Fits (DeviceKey.deviceId C s.daemon.key) batch := by
    rw [key]
    intro batch mem
    rcases List.mem_append.mp mem with old | new
    · exact fit batch old
    · exact whole batch new ▸ last
  generalize s.pipe.handed ++ more = handed at drained fits
  have first := flush_run drained silent s rfl
  have grown := flowing.turn.trans (drained.invariant (fun p => s.pipe.handed <+: p.handed)
    (fun _ _ _ before step => before.trans step.handed) List.prefix_rfl).length_le
  obtain ⟨ts, server, internal, none, heard, second⟩ :=
    arrive_run (handed.length - k) { s with pipe := ⟨[], .waiting, handed⟩ }
      (Nat.add_sub_of_le grown) fits
  have run := first.append second
  have quiet : datagramsIn (ops.map .flush ++ ts) = [] := by
    rw [datagramsIn, List.flatMap_append, List.append_eq_nil_iff]
    refine ⟨?_, none⟩
    rw [List.flatMap_eq_nil_iff]
    intro t mem
    obtain ⟨op, -, rfl⟩ := List.mem_map.mp mem
    rfl
  have inside : ∀ t ∈ ops.map Turn.flush ++ ts, t.Internal := by
    intro t mem
    rcases List.mem_append.mp mem with flush | arrive
    · obtain ⟨op, -, rfl⟩ := List.mem_map.mp flush
      trivial
    · exact internal t arrive
  have turns : (ops.map Turn.flush).foldl Turn.heard k = k := by
    clear drained silent first run quiet inside
    induction ops with
    | nil => rfl
    | cons op ops ih => exact ih
  have final := flowing.run networked history run (by rw [quiet, List.append_nil]) fun r mem =>
    absurd (inside _ mem) id
  rw [quiet, List.append_nil, List.foldl_append, turns, heard] at final
  obtain ⟨m, reached, server'⟩ := final.server
  have all := final.all
  simp only [Mpsc.Pipe.all, Mpsc.Consumer.held, List.append_nil] at all
  refine ⟨_, _, inside, run, rfl, all, agreed_of_reached started flowing.daemon server' ?_⟩
  rw [List.take_length, all, List.length_map] at reached
  exact reached

end

/-- A networked daemon whose key has just been registered at a server with any past, and
what is left to the world: foreign requests, and ids that nobody else draws. -/
structure Deployed (d : Daemon C) (own : Set String) (srv : ServerState C.VerifyingKey)
    (ts : List Turn) (s : System C) : Prop where
  started : d.Started
  networked : d.tx = some []
  reached : ∃ now token acts peer req regNow before,
    Run Behaves (ServerState.fresh C now token) acts before ∧
    RegistersKey d.key req ∧ (∀ id ∈ before.mem.seenEventIds, id ∉ own) ∧
    srv = before.step C (.register peer req regNow)
  run : Run System.Step (System.start d srv) ts s
  ulids : ((datagramsIn ts).map Datagram.ulid).Nodup
  drawn : ∀ g ∈ datagramsIn ts, g.ulid ∈ own
  few : (d.emitted (datagramsIn ts)).length < 2 ^ 64
  foreign : ∀ r, .other r ∈ ts → Foreign d own (d.emitted (datagramsIn ts)) r

section

variable {d : Daemon C} {own : Set String} {srv : ServerState C.VerifyingKey} {ts : List Turn}
  {s : System C}

theorem Deployed.history (deployed : Deployed d own srv ts s) :
    History d own (d.emitted (datagramsIn ts)) := by
  have ids := Daemon.emitted_ids (datagramsIn ts) d
  refine ⟨deployed.started.chained _, ⟨ids.nodup deployed.ulids, ?_⟩, deployed.few⟩
  intro e mem
  obtain ⟨g, got, same⟩ := List.mem_map.mp (ids.subset (List.mem_map_of_mem mem))
  rw [← same]
  exact deployed.drawn g got

theorem Deployed.flowing (deployed : Deployed d own srv ts s) :
    Flowing d own (impressionsOf srv.mem.toLoaded (accountOf (DeviceKey.deviceId C d.key)))
      (d.emitted (datagramsIn ts)) (datagramsIn ts) (heardIn ts) s := by
  obtain ⟨now, token, acts, peer, req, regNow, before, past, registers, unspent, rfl⟩ :=
    deployed.reached
  obtain ⟨synced, owned⟩ := reached_owned past
  have decodes : decodePubkey C req.pubkey = some (C.verifyingKey d.key) := by
    rw [registers.pubkey]
    exact decodePubkey_hexEncode C _
  have tracks := register_tracks synced owned peer req regNow decodes
  rw [registers.deviceId] at tracks
  have credited := tracks.credited
  rw [show impressionsIn ([] : List Event) = 0 from rfl, Nat.add_zero] at credited
  rw [← credited] at tracks
  have start : Flowing d own (impressionsOf (before.step C (.register peer req regNow)).mem.toLoaded
      (accountOf (DeviceKey.deviceId C d.key))) (d.emitted (datagramsIn ts)) [] 0
      (System.start d (before.step C (.register peer req regNow))) := by
    refine ⟨rfl, List.nil_prefix, rfl, ⟨by simp [System.start], by simp [System.start]⟩,
      Nat.zero_le _,
      step_synced synced (.register peer req regNow), 0, Nat.le_refl 0, tracks, Nat.zero_le _, ?_⟩
    intro id seen mine
    rcases step_seen synced (.register peer req regNow) id seen with old | now
    · exact absurd mine (unspent id old)
    · cases now
  exact start.run deployed.networked deployed.history deployed.run List.prefix_rfl deployed.foreign

/-- Whatever the interleaving, every emitted event is in one place, the server has accepted a
stretch from the start that reaches at least as far as the batches that came in turn, and
it has paid for just that stretch. -/
theorem interleaving_safe (deployed : Deployed d own srv ts s) :
    let deviceId := DeviceKey.deviceId C d.key
    let es := d.emitted (datagramsIn ts)
    s.daemon = d.run (datagramsIn ts) ∧
      s.pipe.handed.flatten ++ s.pipe.consumer.held ++ s.pipe.channel =
        es.map (Daemon.envelope d.key) ∧
      (∀ batch ∈ s.pipe.handed, batch ≠ []) ∧
      ∃ m, (s.pipe.handed.take (heardIn ts)).flatten.length ≤ m ∧ m ≤ es.length ∧
        s.server.mem.devices.lookup deviceId = some ⟨C.verifyingKey d.key, accountOf deviceId,
          headAfter C genesisPrev (es.take m), (es.take m).getLast?.map Event.ctr⟩ ∧
        impressionsOf s.server.mem.toLoaded (accountOf deviceId) =
          impressionsOf srv.mem.toLoaded (accountOf deviceId) + counted (es.take m) ∧
        counted (es.take m) ≤ s.daemon.impressionsTotal := by
  intro deviceId es
  have flowing := deployed.flowing
  have advances := Daemon.run_advances (datagramsIn ts) d
  obtain ⟨m, reached, tracks, inside, -⟩ := flowing.server
  refine ⟨flowing.daemon, flowing.all, flowing.full.handed, m, reached, inside,
    tracks.device, ?_, ?_⟩
  · have paid : ∀ e ∈ es.take m, Daemon.Paid e :=
      fun e mem => advances.paid e (List.mem_of_mem_take mem)
    rw [tracks.credited, paid_impressions paid]
  · rw [flowing.daemon, advances.total]
    have split : counted es = counted (es.take m) + counted (es.drop m) := by
      rw [← counted_append, List.take_append_drop]
    change counted (es.take m) ≤ d.impressionsTotal + counted es
    omega

/-- While the batches fit, no interleaving is a dead end: the flush task and late deliveries alone
lead to agreement, and so does one POST of the whole history. -/
theorem interleaving_recovers (deployed : Deployed d own srv ts s) :
    let deviceId := DeviceKey.deviceId C d.key
    let base := impressionsOf srv.mem.toLoaded (accountOf deviceId)
    let envelopes := (d.emitted (datagramsIn ts)).map (Daemon.envelope d.key)
    ((∀ batch ∈ s.pipe.handed, Fits deviceId batch) →
      Fits deviceId (s.pipe.consumer.held ++ s.pipe.channel) →
      ∃ ts' s', (∀ t ∈ ts', t.Internal) ∧ Run System.Step s ts' s' ∧ s'.daemon = s.daemon ∧
        s'.pipe.handed.flatten = envelopes ∧ Agreed s' base) ∧
    (Fits deviceId envelopes →
      Agreed { s with server := arrival s.server deviceId envelopes } base) := by
  intro deviceId base envelopes
  have flowing := deployed.flowing
  have history := deployed.history
  refine ⟨flowing.settles deployed.started deployed.networked history, fun fits => ?_⟩
  obtain ⟨m, -, server⟩ := flowing.server
  have all : d.emitted (datagramsIn ts) = [] ++ d.emitted (datagramsIn ts) ++ [] := by simp
  obtain ⟨m', -, whole, next⟩ :=
    server.honest_batch history.chained history.ids _ all (Nat.zero_le m)
  rw [List.length_nil, Nat.zero_add] at whole
  have final : Reached (arrival s.server deviceId envelopes).mem.toLoaded deviceId
    (C.verifyingKey d.key) base own
      (d.emitted (datagramsIn ts)) m' := by
    rw [history.arrival (List.Subset.refl _) s.server fits, ingest_mem]
    exact next
  exact agreed_of_reached deployed.started flowing.daemon final whole

end

/-! Three turns, the event of each handed on by itself. The second batch arrives before the first
one, which comes twice, and the third is lost; the server restarts, and somebody else registers. -/

def posted (gs : List Datagram) : List Turn :=
  gs.map .datagram ++ [.flush .recv, .flush .empty, .flush .done]

def visitor : Request :=
  .register ⟨none, "203.0.113.9"⟩ ⟨"visitor", "00", none, none, none, none, none⟩ 5

def busyTurns : List Turn :=
  posted oneTurn ++ posted secondTurn ++ posted thirdTurn ++
    [.arrive 1, .other (.restart 7 none), .arrive 0, .other visitor, .arrive 0, .arrive 1]

theorem datagrams_run (gs : List Datagram) {s : System C} {sent : List String}
    (networked : s.daemon.tx = some sent) : Run System.Step s (gs.map .datagram)
      { s with
        daemon := s.daemon.run gs
        pipe := { s.pipe with
          channel :=
  s.pipe.channel ++ (s.daemon.emitted gs).map (Daemon.envelope s.daemon.key) } } := by
  induction gs generalizing s sent with
  | nil =>
    simp only [Daemon.emitted, List.map_nil, List.append_nil]
    exact .nil s
  | cons g gs ih =>
    have advances := Daemon.handle_advances s.daemon g
    have rest := ih (s := { s with
      daemon := s.daemon.handle g
      pipe := { s.pipe with channel := s.pipe.channel ++ sends s.daemon g } })
      (advances.sent.trans (congrArg (Option.map _) networked))
    dsimp only at rest
    rw [sends_eq networked, advances.key, List.append_assoc, ← List.map_append] at rest
    have first := System.Step.datagram s g
    rw [sends_eq networked] at first
    exact .cons first rest

theorem posted_run {gs : List Datagram} {d : Daemon C} {sent : List String}
    (networked : d.tx = some sent) {e : Event}
    (one : d.emitted gs = [e]) (handed : List (List String)) (srv : ServerState C.VerifyingKey) :
    Run System.Step ⟨d, ⟨[], .waiting, handed⟩, srv⟩ (posted gs)
      ⟨d.run gs, ⟨[], .waiting, handed ++ [[Daemon.envelope d.key e]]⟩, srv⟩ := by
  have seen := datagrams_run (s := ⟨d, ⟨[], .waiting, handed⟩, srv⟩) gs networked
  dsimp only at seen
  rw [one, List.nil_append, List.map_singleton] at seen
  have flushed :
    Run System.Step (⟨d.run gs, ⟨[Daemon.envelope d.key e], .waiting, handed⟩, srv⟩ : System C)
      [.flush .recv, .flush .empty, .flush .done]
      ⟨d.run gs, ⟨[], .waiting, handed ++ [[Daemon.envelope d.key e]]⟩, srv⟩ :=
    .cons (.flush rfl .recv) (.cons (.flush rfl .empty) (.cons (.flush rfl .done) (.nil _)))
  exact seen.append flushed

theorem intercalate_length (batch : List String) {most : Nat}
    (short : ∀ env ∈ batch, (asBytes env).length < most) :
    (asBytes (String.intercalate "," batch)).length ≤ most * batch.length := by
  induction batch with
  | nil => exact Nat.zero_le _
  | cons env batch ih =>
    have first := short env List.mem_cons_self
    have rest := ih fun env' mem => short env' (List.mem_cons_of_mem _ mem)
    cases batch with
    | nil => simpa using Nat.le_of_lt first
    | cons env' batch =>
      have comma : (asBytes ",").length = 1 := rfl
      rw [String.intercalate_cons_cons, asBytes_append, asBytes_append, List.length_append,
        List.length_append, comma, List.length_cons, Nat.mul_succ]
      omega

theorem fits_of_short {deviceId : String} {batch : List String}
    (name : (asBytes deviceId).length ≤ 100)
    (short : ∀ env ∈ batch, (asBytes env).length < 1000) (few : batch.length ≤ 2000) :
    Fits deviceId batch := by
  have events := intercalate_length batch short
  have opening : (asBytes "\x7b\"device_id\":\"").length = 14 := rfl
  have middle : (asBytes "\",\"events\":[").length = 12 := rfl
  have closing : (asBytes "]\x7d").length = 2 := rfl
  unfold Fits WithinLimit bodyLimit postBody
  rw [asBytes_append, asBytes_append, asBytes_append, asBytes_append, List.length_append,
    List.length_append, List.length_append, List.length_append, opening, middle, closing]
  omega

theorem threeEnvelopes_fit : ∀ batch ∈ threeEnvelopes :: threeEnvelopes.map ([·]),
    Fits (DeviceKey.deviceId Reference.crates (Reference.key 7)) batch := by
  have name : (asBytes (DeviceKey.deviceId Reference.crates (Reference.key 7))).length ≤ 100 := by
    decide +kernel
  have three : threeEnvelopes.length = 3 := by decide +kernel
  intro batch mem
  rcases List.mem_cons.mp mem with rfl | alone
  · exact fits_of_short name threeEnvelopes_short (by omega)
  · obtain ⟨env, inside, rfl⟩ := List.mem_map.mp alone
    refine fits_of_short name ?_ (show 1 ≤ 2000 by decide)
    intro env' here
    rw [List.mem_singleton.mp here]
    exact threeEnvelopes_short env inside

theorem busyTurns_run :
    ∃ srv, Run System.Step (System.start pairedDaemon pairedServer) busyTurns
      ⟨pairedDaemon.run threeTurns, ⟨[], .waiting, threeEnvelopes.map ([·])⟩, srv⟩ := by
  have single {gs : List Datagram} {d : Daemon Reference.crates}
    (length : (d.emitted gs).length = 1) :
      ∃ e, d.emitted gs = [e] := List.length_eq_one_iff.mp length
  obtain ⟨e, first⟩ := single (show (pairedDaemon.emitted oneTurn).length = 1 by decide +kernel)
  obtain ⟨e', second⟩ :=
    single (show ((pairedDaemon.run oneTurn).emitted secondTurn).length = 1 by decide +kernel)
  obtain ⟨e'', third⟩ :=
    single (show (((pairedDaemon.run oneTurn).run secondTurn).emitted thirdTurn).length = 1 by
      decide +kernel)
  have advances := Daemon.run_advances oneTurn pairedDaemon
  have advances' := Daemon.run_advances secondTurn (pairedDaemon.run oneTurn)
  have envelopes : threeEnvelopes = [Daemon.envelope pairedDaemon.key e,
    Daemon.envelope (pairedDaemon.run oneTurn).key e',
      Daemon.envelope ((pairedDaemon.run oneTurn).run secondTurn).key e''] := by
    have run : pairedDaemon.run (oneTurn ++ secondTurn) =
      (pairedDaemon.run oneTurn).run secondTurn := List.foldl_append
    rw [threeEnvelopes, threeTurns, Daemon.emitted_append, Daemon.emitted_append, run, first,
      second, third, advances'.key, advances.key]
    rfl
  have fits := threeEnvelopes_fit
  rw [envelopes] at fits ⊢
  have last : ((pairedDaemon.run oneTurn).run secondTurn).run thirdTurn =
    pairedDaemon.run threeTurns := by
    rw [threeTurns, Daemon.run, Daemon.run, Daemon.run, Daemon.run, List.foldl_append,
      List.foldl_append]
  have flushed := ((posted_run (d := pairedDaemon) rfl first [] pairedServer).append
    (posted_run advances.sent second _ _)).append (posted_run advances'.sent third _ _)
  rw [last] at flushed
  have fit (batch : List String) (mem : batch ∈ threeEnvelopes.map ([·])) :
      Fits (DeviceKey.deviceId Reference.crates (pairedDaemon.run threeTurns).key) batch := by
    rw [(Daemon.run_advances threeTurns pairedDaemon).key]
    exact threeEnvelopes_fit batch (List.mem_cons_of_mem _ mem)
  rw [envelopes] at fit
  exact ⟨_, flushed.append (.cons (.arrive rfl (fit _ (by simp)))
    (.cons (.other _ _) (.cons (.arrive rfl (fit _ (by simp)))
    (.cons (.other _ _)
      (.cons (.arrive rfl (fit _ (by simp))) (.cons (.arrive rfl (fit _ (by simp))) (.nil _)))))))⟩

theorem busyTurns_deployed :
    ∃ s, Deployed pairedDaemon (threeTurns.map Datagram.ulid).toFinset pairedServer busyTurns s ∧
      s.daemon = pairedDaemon.run threeTurns ∧
      s.pipe = ⟨[], .waiting, threeEnvelopes.map ([·])⟩ := by
  obtain ⟨srv, run⟩ := busyTurns_run
  have got : datagramsIn busyTurns = threeTurns := rfl
  have past : Run Behaves (ServerState.fresh Reference.crates 0 none) []
    (ServerState.fresh Reference.crates 0 none) := .nil _
  refine ⟨_, ⟨pairedDaemon_started, rfl,
    ⟨0, none, [], ⟨none, "127.0.0.1"⟩, pairedRegister, 0, _, past, ⟨rfl, rfl⟩, ?_, rfl⟩,
    run, ?_, ?_, ?_, ?_⟩, rfl, rfl⟩
  · rw [fresh_view]
    simp [load, Database.fresh]
  · rw [got]
    decide
  · rw [got]
    intro g mem
    exact List.mem_toFinset.mpr (List.mem_map_of_mem mem)
  · rw [got]
    decide +kernel
  · intro r mem
    have named : "visitor" ≠ DeviceKey.deviceId Reference.crates pairedDaemon.key := by
      decide +kernel
    have others : r = .restart 7 none ∨ r = visitor := by simpa [busyTurns, posted] using mem
    rcases others with rfl | rfl
    · exact ⟨id, fun se carried => absurd carried List.not_mem_nil,
        fun _ id own => absurd own List.not_mem_nil⟩
    · exact ⟨named, fun se carried => absurd carried List.not_mem_nil,
        fun _ id own => absurd own List.not_mem_nil⟩

theorem threeTurns_counts : (pairedDaemon.emitted threeTurns).map Event.count = [1, 1, 1] := by
  decide +kernel

theorem interleaving_safe_busyTurns :
    ∃ s, Deployed pairedDaemon (threeTurns.map Datagram.ulid).toFinset pairedServer busyTurns s ∧
      s.pipe.handed = threeEnvelopes.map ([·]) ∧
      ∃ m, 2 ≤ m ∧ m ≤ 3 ∧
      s.server.mem.devices.lookup (DeviceKey.deviceId Reference.crates pairedDaemon.key) =
          some ⟨Reference.crates.verifyingKey pairedDaemon.key,
            accountOf (DeviceKey.deviceId Reference.crates pairedDaemon.key),
            headAfter Reference.crates genesisPrev ((pairedDaemon.emitted threeTurns).take m),
            ((pairedDaemon.emitted threeTurns).take m).getLast?.map Event.ctr⟩ ∧
        impressionsOf s.server.mem.toLoaded
          (accountOf (DeviceKey.deviceId Reference.crates pairedDaemon.key)) = m := by
  obtain ⟨s, deployed, daemon, pipe⟩ := busyTurns_deployed
  have heard : heardIn busyTurns = 2 := rfl
  have got : datagramsIn busyTurns = threeTurns := rfl
  have base : impressionsOf pairedServer.mem.toLoaded
    (accountOf (DeviceKey.deviceId Reference.crates pairedDaemon.key)) = 0 := by
    decide +kernel
  obtain ⟨-, -, -, m, reached, inside, device, paid, -⟩ := interleaving_safe deployed
  rw [got] at inside device paid
  have three : (pairedDaemon.emitted threeTurns).length = 3 := by
    rw [← List.length_map (f := Event.count), threeTurns_counts]
    rfl
  have two : ((threeEnvelopes.map ([·])).take 2).flatten.length = 2 := by
    have whole : ((threeEnvelopes.take 2).map ([·])).flatten = threeEnvelopes.take 2 := by
      rw [← List.flatMap_def]
      exact List.flatMap_singleton' _
    rw [← List.map_take, whole, List.length_take, threeEnvelopes, List.length_map, three]
    rfl
  rw [heard, pipe, two] at reached
  rw [three] at inside
  have each : counted ((pairedDaemon.emitted threeTurns).take m) = m := by
    rw [counted, List.map_take, threeTurns_counts]
    rcases (show m = 2 ∨ m = 3 by omega) with rfl | rfl <;> rfl
  rw [base, Nat.zero_add, each] at paid
  exact ⟨s, deployed, by rw [pipe], m, reached, inside, device, paid⟩

theorem interleaving_recovers_busyTurns :
    ∃ s, Deployed pairedDaemon (threeTurns.map Datagram.ulid).toFinset pairedServer busyTurns s ∧
      s.daemon.impressionsTotal = 3 ∧ (∃ ts' s', Run System.Step s ts' s' ∧ Agreed s' 0) ∧
      Agreed
        { s with
          server :=
            arrival s.server (DeviceKey.deviceId Reference.crates pairedDaemon.key) threeEnvelopes }
        0 := by
  obtain ⟨s, deployed, daemon, pipe⟩ := busyTurns_deployed
  have base : impressionsOf pairedServer.mem.toLoaded
    (accountOf (DeviceKey.deviceId Reference.crates pairedDaemon.key)) = 0 := by
    decide +kernel
  obtain ⟨late, together⟩ := interleaving_recovers deployed
  rw [base] at late together
  have nothing : Fits (DeviceKey.deviceId Reference.crates pairedDaemon.key)
    (s.pipe.consumer.held ++ s.pipe.channel) := by
    rw [pipe]
    decide +kernel
  obtain ⟨ts', s', -, run, -, -, agreed⟩ := late
    (fun batch mem => threeEnvelopes_fit batch (List.mem_cons_of_mem _ (by rwa [pipe] at mem))) nothing
  refine ⟨s, deployed, ?_, ⟨ts', s', run, agreed⟩,
    together (threeEnvelopes_fit _ List.mem_cons_self)⟩
  rw [daemon]
  decide +kernel

end Spnr.EndToEnd
