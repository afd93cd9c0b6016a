import Spnr.Daemon.Flush
import Spnr.Lib.Ascii
import Spnr.Server.Accept
import Spnr.Server.Body

/-! The text the daemon posts and the request the server reads from it. The body
is assembled from strings on one side and parsed on the other; between them it
is a JSON text of the request. -/
namespace Spnr.EndToEnd

open Json Server Spnrd

variable {C : Crates}

theorem alphanum_plain {c : Char} (alphanum : c.isAlphanum) : Plain c := by
  have range := Ascii.alphanum_range alphanum
  have quoted : quote.toNat = 34 := rfl
  have escaped : backslash.toNat = 92 := rfl
  refine ⟨by omega, ?_, ?_⟩
  · rintro rfl
    omega
  · rintro rfl
    omega

theorem toLower_plain {c : Char} (alphanum : c.isAlphanum) : Plain c.toLower := by
  unfold Char.toLower
  split
  · rename_i upper
    have low : 65 ≤ c.val.toNat := upper.1
    have high : c.val.toNat ≤ 90 := upper.2
    have value : (c.val + ('a'.val - 'A'.val)).toNat = c.val.toNat + 32 := by
      rw [UInt32.toNat_add]
      exact Nat.mod_eq_of_lt (show c.val.toNat + 32 < 2 ^ 32 by omega)
    refine ⟨?_, ?_, ?_⟩
    · change 32 ≤ (c.val + ('a'.val - 'A'.val)).toNat
      omega
    · intro same
      have quoted : (c.val + ('a'.val - 'A'.val)).toNat = 34 := congrArg Char.toNat same
      omega
    · intro same
      have escaped : (c.val + ('a'.val - 'A'.val)).toNat = 92 := congrArg Char.toNat same
      omega
  · exact alphanum_plain alphanum

theorem deviceId_plain (key : C.SigningKey) : ∀ c ∈ (DeviceKey.deviceId C key).toList, Plain c := by
  intro c mem
  change c ∈ (String.map Char.toLower _).toList at mem
  rw [String.toList_map] at mem
  obtain ⟨c, inside, rfl⟩ := List.mem_map.mp mem
  exact toLower_plain (C.base32Encode_alphanum _ c inside)

theorem envelope_text (key : C.SigningKey) (e : Event) :
    Text (signedBy C key e).toJson (Daemon.envelope key e).toList := by
  obtain ⟨text, canonical, denotes⟩ := C.serdeJcs_text e
  have hex :=
    literal_plain fun c mem => alphanum_plain (C.hexEncode_alphanum (DeviceKey.sign C key e) c mem)
  have e_name := name_literal (show "e".toList = ['e'] from rfl) rfl
  have s_name := name_literal (show "s".toList = ['s'] from rfl) rfl
  have members := Members.cons e_name denotes (.one s_name (.str hex))
  have whole := Text.obj members
  rw [Daemon.envelope, canonicalBytes, canonical]
  simpa [SignedEvent.toJson, signedBy, String.toList_append] using whole

theorem batch_text (key : C.SigningKey) (es : List Event) :
    Items ((es.map (signedBy C key)).map SignedEvent.toJson)
      (String.intercalate "," (es.map (Daemon.envelope key))).toList := by
  induction es with
  | nil => simpa using Items.nil
  | cons e es ih =>
    cases es with
    | nil => simpa using Items.one (envelope_text key e)
    | cons f es =>
      have whole := Items.cons (envelope_text key e) ih
      simp only [List.map_cons, String.intercalate_cons_cons, String.toList_append]
      simpa using whole

theorem postBody_text (key : C.SigningKey) (es : List Event) :
    Text (IngestReq.toJson ⟨DeviceKey.deviceId C key, es.map (signedBy C key)⟩)
      (postBody (DeviceKey.deviceId C key) (es.map (Daemon.envelope key))).toList := by
  have deviceId_name := name_literal
    (show "device_id".toList = ['d', 'e', 'v', 'i', 'c', 'e', '_', 'i', 'd'] from rfl) rfl
  have events_name :=
    name_literal (show "events".toList = ['e', 'v', 'e', 'n', 't', 's'] from rfl) rfl
  have members := Members.cons deviceId_name (.str (literal_plain (deviceId_plain key)))
    (.one events_name (.arr (batch_text key es)))
  -- the five pieces of the assembled text, spelled out
  have whole : Text (IngestReq.toJson ⟨DeviceKey.deviceId C key, es.map (signedBy C key)⟩)
      (('\x7b' :: quote :: ['d', 'e', 'v', 'i', 'c', 'e', '_', 'i', 'd', quote, ':', quote]) ++
        (DeviceKey.deviceId C key).toList ++
        (quote :: ',' :: quote :: ['e', 'v', 'e', 'n', 't', 's', quote, ':', '[']) ++
        (String.intercalate "," (es.map (Daemon.envelope key))).toList ++ [']', '\x7d']) := by
    have object := Text.obj members
    simp only [List.cons_append, List.nil_append, List.append_assoc] at object ⊢
    exact object
  unfold postBody
  rw [String.toList_append, String.toList_append, String.toList_append, String.toList_append]
  exact whole

theorem fromText_postBody (key : C.SigningKey) {es : List Event}
    (small : ∀ e ∈ es, e.ctr < 2 ^ 64) :
    IngestReq.fromText C (postBody (DeviceKey.deviceId C key) (es.map (Daemon.envelope key))) =
      some ⟨DeviceKey.deviceId C key, es.map (signedBy C key)⟩ := by
  have ranges : ∀ se ∈ es.map (signedBy C key), se.e.ctr < 2 ^ 64 := by
    intro se mem
    obtain ⟨e, inside, rfl⟩ := List.mem_map.mp mem
    exact small e inside
  rw [IngestReq.fromText,
    C.fromStr_text _ _ (IngestReq.toJson_within ranges) (postBody_text key es), Option.bind_some]
  exact IngestReq.fromJson_toJson ranges

end Spnr.EndToEnd
