import Spnr.Daemon.Emitted
import Spnr.Server.Accepted

/-! What the server accepts of one daemon's events, over any network. The daemon's
history and the accepted one are two chains from genesis, so the second is a
prefix of the first whatever is dropped, repeated, reordered or forged. -/
namespace Spnr.EndToEnd

open Transition Server Spnrd

variable {C : Crates}

theorem paid_accrues {e : Event} (paid : Daemon.Paid e) :
    Accrues e ∧ (impCount e).toNat = e.count := by
  obtain ⟨imp, n, count, positive, -⟩ := paid
  have counts : impCount e = n.toNat := by simp [impCount, count]
  refine ⟨⟨imp, by omega⟩, ?_⟩
  simp [impCount, Event.count]

theorem paid_impressions {es : List Event} (paid : ∀ e ∈ es, Daemon.Paid e) :
    impressionsIn es = counted es := by
  induction es with
  | nil => rfl
  | cons e es ih =>
    obtain ⟨accrues, count⟩ := paid_accrues (paid e List.mem_cons_self)
    have rest := ih fun e' mem => paid e' (List.mem_cons_of_mem _ mem)
    unfold impressionsIn counted at *
    rw [List.map_cons, List.sum_cons, List.map_cons, List.sum_cons, rest, if_pos accrues, count]

/-- The events signed under the device's key on the wire are the daemon's own. -/
def OnlyEmitted (vk : C.VerifyingKey) (deviceId : String) (rs : List Request)
    (es : List Event) : Prop :=
  ∀ r ∈ rs, ∀ se ∈ r.carries deviceId, SignedUnder vk se → se.e ∈ es

theorem accepted_prefix_of_emitted {srv : ServerState C.VerifyingKey} (synced : Synced srv)
    {deviceId : String}
    {vk : C.VerifyingKey} {base : Nat} (tracks : Tracks srv.mem.toLoaded deviceId vk base [])
    {rs : List Request}
    (once : ∀ r ∈ rs, ¬ r.Registers deviceId) {d : Daemon C} (started : d.Started)
    {gs : List Datagram} (only : OnlyEmitted vk deviceId rs (d.emitted gs)) :
    acceptedBy srv deviceId rs <+: d.emitted gs ∧
      impressionsOf (srv.after rs).mem.toLoaded (accountOf deviceId) =
        base + counted (acceptedBy srv deviceId rs) := by
  have final := tracks.run rs synced once
  rw [List.nil_append] at final
  have among : ∀ e ∈ acceptedBy srv deviceId rs, e ∈ d.emitted gs := by
    intro e mem
    obtain ⟨r, sent, se, carried, rfl, signed⟩ := tracks.run_signed rs synced once e mem
    exact only r sent se carried signed
  have paid : ∀ e ∈ acceptedBy srv deviceId rs, Daemon.Paid e :=
    fun e mem => (Daemon.run_advances gs d).paid e (among e mem)
  refine ⟨final.chained.prefix_of_subset (started.chained gs) among, ?_⟩
  rw [final.credited, paid_impressions paid]

theorem accepted_chain {now : Int} {token : Option String} {acts : List Action}
    {srv : ServerState C.VerifyingKey} (run : Run Behaves (ServerState.fresh C now token) acts srv)
    (peer : Peer) (req : RegisterReq) (regNow : Int) {vk : C.VerifyingKey}
    (decodes : decodePubkey C req.pubkey = some vk) {rs : List Request}
    (once : ∀ r ∈ rs, ¬ r.Registers req.deviceId) :
    let registered := srv.step C (.register peer req regNow)
    let accepted := acceptedBy registered req.deviceId rs
    (∀ (k : Nat) (e : Event), accepted[k]? = some e → e.ctr = k) ∧
    (∀ e : Event, accepted[0]? = some e → e.prev = genesisPrev) ∧
    (∀ (k : Nat) (before e : Event), accepted[k]? = some before → accepted[k + 1]? = some e →
      e.prev = chainNext C (canonicalBytes C before)) ∧
    (accepted.map Event.ctr).Nodup ∧
    (∀ (s : AppState C.VerifyingKey) d se reason, acceptEvent C s d se = .error reason →
      (ingestEvent C s d se).1.devices = s.devices ∧
      (ingestEvent C s d se).1.seenEventIds = s.seenEventIds ∧
      (ingestEvent C s d se).1.ledger = s.ledger ∧ (ingestEvent C s d se).1.balances = s.balances ∧
      (ingestEvent C s d se).1.impressions = s.impressions) ∧
    ∀ (d : Daemon C) gs, d.Started → OnlyEmitted vk req.deviceId rs (d.emitted gs) →
      accepted <+: d.emitted gs ∧
      impressionsOf (registered.after rs).mem.toLoaded (accountOf req.deviceId) =
        impressionsOf srv.mem.toLoaded (accountOf req.deviceId) + counted accepted := by
  intro registered accepted
  obtain ⟨synced, owned⟩ := reached_owned run
  have start := register_tracks synced owned peer req regNow decodes
  have synced' : Synced registered := step_synced synced _
  have final := start.run rs synced' once
  have chained : Chained C 0 genesisPrev accepted := final.chained
  refine ⟨?_, ?_, ?_, chained.nodup, ?_, ?_⟩
  · intro k e here
    exact (chained.get here).1
  · intro e first
    exact (chained.get first).2
  · intro k before e last here
    exact chained.prev_succ here last
  · intro s d se reason rejects
    rw [rejected_unchanged rejects]
    exact ⟨rfl, rfl, rfl, rfl, rfl⟩
  · intro d gs started only
    exact accepted_prefix_of_emitted synced' start once started only

/-! A daemon that sees one turn of six seconds. -/

def pairedDaemon : Daemon Reference.crates :=
  (Daemon.new Reference.crates (Reference.key 7) [] none).networked "https://spnr.example" []

theorem pairedDaemon_started : pairedDaemon.Started := .online _ _ _ _ _

def oneTurn : List Datagram :=
  [⟨.hook "UserPromptSubmit" "a", 0, "u0"⟩, ⟨.heartbeat "a", 500, "u1"⟩,
    ⟨.heartbeat "a", 2500, "u2"⟩, ⟨.heartbeat "a", 4500, "u3"⟩, ⟨.hook "Stop" "a", 6000, "u4"⟩]

theorem accepted_chain_twice :
    let batch : Request :=
      .ingest
        ⟨"d1", (pairedDaemon.emitted oneTurn).map (signedBy Reference.crates (Reference.key 7))⟩
    let registered := (ServerState.fresh Reference.crates 0 none).step Reference.crates
      (.register ⟨none, "127.0.0.1"⟩ (firstRegister Reference.crates (Reference.key 7)) 0)
    acceptedBy registered "d1" [batch, batch] <+: pairedDaemon.emitted oneTurn := by
  intro batch registered
  have twice : ∀ r ∈ [batch, batch], r = batch := by simp
  have only : OnlyEmitted (Reference.crates.verifyingKey (Reference.key 7)) "d1" [batch, batch]
      (pairedDaemon.emitted oneTurn) := by
    rintro r sent se carried -
    rw [twice r sent] at carried
    obtain ⟨e, emitted, rfl⟩ := List.mem_map.mp carried
    exact emitted
  have decodes :=
    decodePubkey_hexEncode Reference.crates (Reference.crates.verifyingKey (Reference.key 7))
  have once : ∀ r ∈ [batch, batch], ¬ r.Registers "d1" := by
    intro r sent
    rw [twice r sent]
    exact id
  obtain ⟨-, -, -, -, -, whole⟩ := accepted_chain (.nil (ServerState.fresh Reference.crates 0 none))
    ⟨none, "127.0.0.1"⟩ (firstRegister Reference.crates (Reference.key 7)) 0 decodes once
  exact (whole pairedDaemon oneTurn pairedDaemon_started only).1

end Spnr.EndToEnd
