import Spnr.Daemon.Socket
import Spnr.Proto.Reference
import Spnr.Scan.Firewall

/-! The way from the host to the daemon: what a hook or the status line is given on its standard
input, the datagram it makes of it, the buffer it is received in, and the daemon it reaches. -/
namespace Spnr.EndToEnd

open Json RustStd Scan Spnrd

inductive HotBinary where
  | hook
  | status

def HotBinary.message (binary : HotBinary) (stdin : List UInt8) : Option SocketMsg :=
  (String.fromUTF8? stdin.toByteArray).bind fun blob =>
    match binary with
    | .hook => (extract blob).map fun named => .hook named.1 named.2
    | .status => (skimSession blob).map .heartbeat

def HotBinary.keys : HotBinary → List String
  | .hook => ["hook_event_name", "session_id"]
  | .status => ["session_id"]

/-- One run of a binary; `delivered` says whether the socket took the datagram. -/
structure Invocation where
  binary : HotBinary
  stdin : List UInt8
  delivered : Bool
  recvMs : UInt64
  ulid : String

def bufferLength : Nat := 64 * 1024

/-- A byte for the tag, and each string behind its length; a command is one byte more. -/
def datagramLength (m : SocketMsg) : Nat :=
  1 + match m with
    | .hook eventName sessionId =>
      (2 + (asBytes eventName).length) + (2 + (asBytes sessionId).length)
    | .heartbeat sessionId => 2 + (asBytes sessionId).length
    | .cmd _ => 1

def cut (s : String) : List UInt8 := (asBytes s).take Socket.u16Max

def Invocation.datagram (i : Invocation) : Option Datagram :=
  if i.delivered then
    ((i.binary.message i.stdin).filter fun m => datagramLength m ≤ bufferLength).map
      (⟨·, i.recvMs, i.ulid⟩)
  else none

/-- Two invocations that differ in nothing the keys ask for: the bytes are the same, or are
objects that differ in strings elsewhere. -/
structure Alike (i i' : Invocation) : Prop where
  binary : i.binary = i'.binary
  delivered : i.delivered = i'.delivered
  recvMs : i.recvMs = i'.recvMs
  ulid : i.ulid = i'.ulid
  stdin : i.stdin = i'.stdin ∨ ∃ o o', i.stdin = asBytes o.text ∧ i'.stdin = asBytes o'.text ∧
    Twin.Texts i.binary.keys o o'

theorem extract_twin {o o' : ObjectText}
    (twin : Twin.Texts ["hook_event_name", "session_id"] o o') :
    extract o.text = extract o'.text := by
  rw [extract, extract, skimString_text word_event, skimString_text word_event,
    skimString_text word_session,
    skimString_text word_session, first_twin List.mem_cons_self twin.tree,
    first_twin (List.mem_cons_of_mem _ List.mem_cons_self) twin.tree]

theorem skimSession_twin {o o' : ObjectText} (twin : Twin.Texts ["session_id"] o o') :
    skimSession o.text = skimSession o'.text := by
  rw [skimSession_text, skimSession_text, first_twin List.mem_cons_self twin.tree]

theorem Alike.message {i i' : Invocation} (alike : Alike i i') :
    i.binary.message i.stdin = i'.binary.message i'.stdin := by
  rw [← alike.binary]
  rcases alike.stdin with same | ⟨o, o', text, text', twin⟩
  · rw [same]
  · rw [text, text', HotBinary.message, HotBinary.message, fromUTF8_asBytes, fromUTF8_asBytes,
      Option.bind_some, Option.bind_some]
    generalize i.binary = binary at twin ⊢
    cases binary with
    | hook => exact congrArg (Option.map _) (extract_twin twin)
    | status => exact congrArg (Option.map _) (skimSession_twin twin)

theorem Alike.datagram {i i' : Invocation} (alike : Alike i i') : i.datagram = i'.datagram := by
  rw [Invocation.datagram, Invocation.datagram, alike.message, alike.delivered,
    alike.recvMs, alike.ulid]

end Spnr.EndToEnd
