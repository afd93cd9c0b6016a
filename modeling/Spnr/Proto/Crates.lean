import Spnr.Lib.RustStd
import Spnr.Proto.Event

/-! The third-party crates behind the protocol, as parameters with the laws their
documentation states, and the functions of `spnr-proto` over them. -/
namespace Spnr

open RustStd

/-- `ed25519-dalek`, `blake3`, `data-encoding`, `serde_jcs` and `serde_json`. -/
structure Crates where
  VerifyingKey : Type
  SigningKey : Type
  verifyingKey : SigningKey → VerifyingKey
  /-- `VerifyingKey::as_bytes`, and `from_bytes` on 32 bytes: not every 32 bytes are a key. -/
  keyBytes : VerifyingKey → List UInt8
  fromBytes : List UInt8 → Option VerifyingKey
  keyBytes_length : ∀ vk, (keyBytes vk).length = 32
  fromBytes_keyBytes : ∀ vk, fromBytes (keyBytes vk) = some vk
  sign : SigningKey → List UInt8 → List UInt8
  verify : VerifyingKey → List UInt8 → List UInt8 → Bool
  sign_length : ∀ sk m, (sign sk m).length = 64
  verify_sign : ∀ sk m, verify (verifyingKey sk) m (sign sk m) = true
  blake3 : List UInt8 → List UInt8
  /-- `data_encoding::HEXLOWER` and the alphabet of `BASE32_NOPAD`. -/
  hexEncode : List UInt8 → String
  hexDecode : String → Option (List UInt8)
  hexDecode_hexEncode : ∀ bytes, hexDecode (hexEncode bytes) = some bytes
  hexEncode_alphanum : ∀ bytes, ∀ c ∈ (hexEncode bytes).toList, c.isAlphanum
  base32Encode : List UInt8 → String
  base32Encode_alphanum : ∀ bytes, ∀ c ∈ (base32Encode bytes).toList, c.isAlphanum
  /-- `serde_jcs::to_vec`, whose bytes are always the UTF-8 of a JSON text of the event. -/
  serdeJcs : Event → Option String
  serdeJcs_text : ∀ e, ∃ text, serdeJcs e = some text ∧ Json.Text e.toJson text.toList
  /-- `serde_json::from_str`: a JSON text parses to the value it denotes, up to 127 levels deep. -/
  fromStr : String → Option Json
  fromStr_text : ∀ v text, Json.Within 127 v → Json.Text v text.toList → fromStr text = some v

variable (C : Crates)

/-- The canonical bytes of an event; a byte string that is UTF-8, kept as its text. -/
def canonicalBytes (e : Event) : String := (C.serdeJcs e).getD ""

def chainNext (prevCanonical : String) : String :=
  "b3:" ++ C.hexEncode (C.blake3 (asBytes prevCanonical))

namespace DeviceKey

def sign (key : C.SigningKey) (e : Event) : List UInt8 :=
  C.sign key (asBytes (canonicalBytes C e))

/-- `Signature::from_slice` refuses any length but 64. -/
def verify (e : Event) (sig : List UInt8) (vk : C.VerifyingKey) : Bool :=
  if sig.length = 64 then C.verify vk (asBytes (canonicalBytes C e)) sig else false

def deviceId (key : C.SigningKey) : String :=
  (C.base32Encode ((C.keyBytes (C.verifyingKey key)).take 10)).toLower

theorem verify_sign (key : C.SigningKey) (e : Event) :
    verify C e (sign C key e) (C.verifyingKey key) = true := by
  simp only [verify, sign, C.sign_length, if_true, C.verify_sign]

end DeviceKey

/-- `decode_pubkey`: lowercase hex of exactly 32 bytes that are a key. -/
def decodePubkey (hex : String) : Option C.VerifyingKey := do
  let bytes ← C.hexDecode hex
  if bytes.length = 32 then C.fromBytes bytes else none

@[simp] theorem decodePubkey_hexEncode (vk : C.VerifyingKey) :
    decodePubkey C (C.hexEncode (C.keyBytes vk)) = some vk := by
  simp [decodePubkey, C.hexDecode_hexEncode, C.keyBytes_length, C.fromBytes_keyBytes]

end Spnr
