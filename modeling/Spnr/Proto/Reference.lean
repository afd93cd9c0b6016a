import Spnr.Lib.Encoding
import Spnr.Lib.JsonRead
import Spnr.Proto.Crates

/-! An instance of the third-party crates, so that their laws are known to hold
together. The encodings and the JSON functions are the real ones on the texts the
program writes; the digest and the signature are stand-ins without secrecy. -/
namespace Spnr.Reference

open RustStd

/-- 32 bytes that depend on every byte of the input. -/
def digest (bytes : List UInt8) : List UInt8 :=
  let h := bytes.foldl (fun h b => (h * 257 + b.toNat + 1) % 2 ^ 256) 0
  (List.range 32).map fun i => UInt8.ofNat (h / 256 ^ i % 256)

theorem digest_length (bytes : List UInt8) : (digest bytes).length = 32 := by simp [digest]

abbrev Key := { bytes : List UInt8 // bytes.length = 32 }

def signature (key : Key) (message : List UInt8) : List UInt8 :=
  key.val ++ digest (key.val ++ message)

theorem atoms_of_event (e : Event) :
    ∃ ms, e.toJson = .obj ms ∧ ∀ m ∈ ms, Json.IsAtom m.2 := by
  refine ⟨_, rfl, ?_⟩
  intro m mem
  simp only [List.mem_append, List.mem_cons, List.not_mem_nil, or_false, Option.mem_toList,
    Option.map_eq_some_iff] at mem
  rcases mem with ((⟨c, -, rfl⟩ | rfl | rfl) | ⟨n, -, rfl⟩) | rfl | rfl | rfl | rfl | rfl
  · exact .inr ⟨_, rfl⟩
  · exact .inl ⟨_, rfl⟩
  · exact .inr ⟨_, rfl⟩
  · exact .inl ⟨_, rfl⟩
  · exact .inr ⟨_, rfl⟩
  · exact .inr ⟨_, rfl⟩
  · exact .inl ⟨_, rfl⟩
  · exact .inr ⟨_, rfl⟩
  · exact .inl ⟨_, rfl⟩

def printEvent (e : Event) : String :=
  match e.toJson with
  | .obj ms => String.ofList (Json.flatObject ms)
  | _ => ""

theorem printEvent_text (e : Event) : Json.Text e.toJson (printEvent e).toList := by
  obtain ⟨ms, shape, atoms⟩ := atoms_of_event e
  rw [printEvent, shape, String.toList_ofList]
  exact Json.flatObject_text atoms

def crates : Crates where
  VerifyingKey := Key
  SigningKey := Key
  verifyingKey := id
  keyBytes := Subtype.val
  fromBytes := fun bytes => if h : bytes.length = 32 then some ⟨bytes, h⟩ else none
  keyBytes_length := Subtype.property
  fromBytes_keyBytes := fun key => by simp [key.property]
  sign := signature
  verify := fun key message sig => sig == signature key message
  sign_length := fun key message => by simp [signature, key.property, digest_length]
  verify_sign := fun key message => by simp
  blake3 := digest
  hexEncode := Encoding.hexEncode
  hexDecode := Encoding.hexDecode
  hexDecode_hexEncode := Encoding.hexDecode_hexEncode
  hexEncode_alphanum := Encoding.hexEncode_alphanum
  base32Encode := Encoding.base32Encode
  base32Encode_alphanum := Encoding.base32Encode_alphanum
  serdeJcs := fun e => some (printEvent e)
  serdeJcs_text := fun e => ⟨printEvent e, rfl, printEvent_text e⟩
  fromStr := Json.read
  fromStr_text := fun _ _ _ text => Json.read_text text

def key (b : UInt8) : crates.SigningKey := (⟨List.replicate 32 b, by simp⟩ : Key)

end Spnr.Reference
