import Mathlib.Data.Set.Basic
import Spnr.Daemon.Emitted
import Spnr.EndToEnd.Body
import Spnr.Lib.JsonRead

/-! What the signed bytes of an event bind: two events with the same canonical bytes are
the same event, and the envelope parses back to the event that was signed. -/
namespace Spnr

open RustStd

theorem EventType.wire_injective {ty ty' : EventType} (same : ty.wire = ty'.wire) : ty = ty' := by
  have read := EventType.ofWire_wire ty
  rw [same, EventType.ofWire_wire] at read
  exact (Option.some.inj read).symm

theorem Event.toJson_injective {e e' : Event} (same : e.toJson = e'.toJson) : e = e' := by
  obtain ⟨ms, shape, -, v, id, ctr, prev, t, ty, session, creative, n⟩ := e.toJson_members
  obtain ⟨ms', shape', -, v', id', ctr', prev', t', ty', session', creative', n'⟩ :=
    e'.toJson_members
  obtain rfl : ms = ms' := Json.obj.inj (shape.symm.trans (same.trans shape'))
  have v_eq : e.v = e'.v :=
    UInt8.toNat_inj.mp (Int.ofNat.inj (Json.int.inj (Option.some.inj (v.symm.trans v'))))
  have id_eq : e.id = e'.id := Json.str.inj (Option.some.inj (id.symm.trans id'))
  have ctr_eq : e.ctr = e'.ctr :=
    Int.ofNat.inj (Json.int.inj (Option.some.inj (ctr.symm.trans ctr')))
  have prev_eq : e.prev = e'.prev := Json.str.inj (Option.some.inj (prev.symm.trans prev'))
  have t_eq : e.t = e'.t := Int64.toInt_inj.mp (Json.int.inj (Option.some.inj (t.symm.trans t')))
  have ty_eq : e.ty = e'.ty :=
    EventType.wire_injective (Json.str.inj (Option.some.inj (ty.symm.trans ty')))
  have session_eq : e.session = e'.session :=
    Json.str.inj (Option.some.inj (session.symm.trans session'))
  have creative_eq : e.creative = e'.creative :=
    Option.map_injective (fun _ _ same => Json.str.inj same) (creative.symm.trans creative')
  have n_eq : e.n = e'.n :=
    Option.map_injective (fun _ _ same => UInt32.toNat_inj.mp (Int.ofNat.inj (Json.int.inj same)))
      (n.symm.trans n')
  cases e
  cases e'
  simp only at v_eq id_eq ctr_eq prev_eq t_eq ty_eq session_eq creative_eq n_eq
  subst v_eq id_eq ctr_eq prev_eq t_eq ty_eq session_eq creative_eq n_eq
  rfl

variable {C : Crates}

theorem canonicalBytes_text (e : Event) : Json.Text e.toJson (canonicalBytes C e).toList := by
  obtain ⟨text, canonical, denotes⟩ := C.serdeJcs_text e
  rw [canonicalBytes, canonical]
  exact denotes

theorem canonicalBytes_injective {e e' : Event} (same : canonicalBytes C e = canonicalBytes C e') :
    e = e' := by
  have read := Json.read_text (canonicalBytes_text (C := C) e)
  rw [same, Json.read_text (canonicalBytes_text e')] at read
  exact Event.toJson_injective (Option.some.inj read).symm

theorem hexEncode_injective {bytes bytes' : List UInt8}
    (same : C.hexEncode bytes = C.hexEncode bytes') : bytes = bytes' := by
  have read := C.hexDecode_hexEncode bytes
  rw [same, C.hexDecode_hexEncode] at read
  exact (Option.some.inj read).symm

/-- A signature is accepted for one message only, among the canonical bytes of the events `S`. -/
def IdealSignatures (C : Crates) (vk : C.VerifyingKey) (S : Set Event) : Prop :=
  ∀ e ∈ S, ∀ e' ∈ S, ∀ sig, C.verify vk (asBytes (canonicalBytes C e)) sig = true →
    C.verify vk (asBytes (canonicalBytes C e')) sig = true →
      asBytes (canonicalBytes C e) = asBytes (canonicalBytes C e')

/-- The digest tells the canonical bytes of the events `S` apart. -/
def CollisionFree (C : Crates) (S : Set Event) : Prop :=
  ∀ e ∈ S, ∀ e' ∈ S,
    C.blake3 (asBytes (canonicalBytes C e)) = C.blake3 (asBytes (canonicalBytes C e')) →
    asBytes (canonicalBytes C e) = asBytes (canonicalBytes C e')

theorem signature_binds {vk : C.VerifyingKey} {S : Set Event} (ideal : IdealSignatures C vk S)
    {e e' : Event}
    (known : e ∈ S) (known' : e' ∈ S) {sig : List UInt8}
    (accepted : DeviceKey.verify C e sig vk = true)
    (accepted' : DeviceKey.verify C e' sig vk = true) : e = e' := by
  unfold DeviceKey.verify at accepted accepted'
  split at accepted
  · rename_i length
    rw [if_pos length] at accepted'
    exact canonicalBytes_injective
      (asBytes_injective (ideal e known e' known' sig accepted accepted'))
  · cases accepted

theorem link_binds {S : Set Event} (free : CollisionFree C S) {e e' : Event} (known : e ∈ S)
    (known' : e' ∈ S)
    (same : chainNext C (canonicalBytes C e) = chainNext C (canonicalBytes C e')) : e = e' := by
  have digests := hexEncode_injective (String.append_right_inj _ |>.mp same)
  exact canonicalBytes_injective (asBytes_injective (free e known e' known' digests))

end Spnr

namespace Spnr.EndToEnd

open RustStd Server Spnrd

variable {C : Crates}

theorem envelope_reads (key : C.SigningKey) {e : Event} (small : e.ctr < 2 ^ 64) :
    (C.fromStr (Daemon.envelope key e)).bind SignedEvent.fromJson = some (signedBy C key e) := by
  have within : Json.Within 127 (signedBy C key e).toJson := SignedEvent.toJson_within small 125
  rw [C.fromStr_text _ _ within (envelope_text key e), Option.bind_some]
  exact SignedEvent.fromJson_toJson small

/-- The canonical bytes determine the event, the daemon's envelopes parse back to the event
they sign, and neither a signature nor a link fits two events. -/
theorem signed_bytes_bind :
    (∀ e e' : Event, asBytes (canonicalBytes C e) = asBytes (canonicalBytes C e') → e = e') ∧
    (∀ (d : Daemon C) sessionId n recvMs ulid, d.ctr < 2 ^ 64 →
      let e := d.impressionEvent sessionId n recvMs ulid
      let after := d.emitImpressions sessionId n recvMs ulid
      after.queue = (Queue.append d.queue (asBytes (Daemon.envelope d.key e))).getD d.queue ∧
      after.tx = d.tx.map (· ++ [Daemon.envelope d.key e]) ∧
      (C.fromStr (Daemon.envelope d.key e)).bind SignedEvent.fromJson = some (signedBy C d.key e)) ∧
    (∀ key (e : Event), e.ctr < 2 ^ 64 →
      (C.fromStr (Daemon.envelope key e)).bind SignedEvent.fromJson = some (signedBy C key e)) ∧
    (∀ vk S, IdealSignatures C vk S → ∀ e ∈ S, ∀ e' ∈ S, ∀ sig,
      DeviceKey.verify C e sig vk = true → DeviceKey.verify C e' sig vk = true → e = e') ∧
    (∀ S, CollisionFree C S → ∀ e ∈ S, ∀ e' ∈ S,
      chainNext C (canonicalBytes C e) = chainNext C (canonicalBytes C e') → e = e') := by
  refine ⟨fun e e' same => canonicalBytes_injective (asBytes_injective same), ?_,
    fun key e small => envelope_reads key small,
    fun vk S ideal e known e' known' sig => signature_binds ideal known known',
    fun S free e known e' known' => link_binds free known known'⟩
  intro d sessionId n recvMs ulid small e after
  have still := Daemon.writeStatusCache_still { d with
    prev := chainNext C (canonicalBytes C e)
    ctr := d.ctr + 1
    impressionsTotal := d.impressionsTotal + n
    queue := (Queue.append d.queue (asBytes (Daemon.envelope d.key e))).getD d.queue
    tx := d.tx.map (· ++ [Daemon.envelope d.key e]) }
  refine ⟨still.queued, ?_, envelope_reads d.key small⟩
  rw [show after.tx = _ from still.sent, List.map_nil]
  simp only [List.append_nil, Option.map_id']

end Spnr.EndToEnd
