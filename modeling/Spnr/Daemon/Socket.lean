import Spnr.Daemon.Daemon

/-! The datagrams of the daemon's socket (`spnr-proto/src/socket.rs`), and that `decode`
accepts exactly what `encode` writes. -/
namespace Spnr.Spnrd

open RustStd

def tagHook : UInt8 := 0x01
def tagHeartbeat : UInt8 := 0x02
def tagCmd : UInt8 := 0x03

def cmdPing : UInt8 := 0x01
def cmdPause : UInt8 := 0x02
def cmdResume : UInt8 := 0x03

namespace Socket

def u16Max : Nat := 65535

def toBeBytes (n : Nat) : List UInt8 := [UInt8.ofNat (n / 2 ^ 8), UInt8.ofNat n]
def fromBeBytes (a b : UInt8) : Nat := a.toNat * 256 + b.toNat

def checkedAdd (a b : Nat) : Option Nat := if a + b < 2 ^ 64 then some (a + b) else none

/-- A string longer than the prefix can count is cut, at any byte. -/
def putStr (out : List UInt8) (s : String) : List UInt8 :=
  let bytes := asBytes s
  let len := min bytes.length u16Max
  out ++ toBeBytes len ++ bytes.take len

def takeStr (bytes : List UInt8) (cursor : Nat) : Option (String × Nat) := do
  let lenEnd ← checkedAdd cursor 2
  if bytes.length < lenEnd then none
  else
    let len := fromBeBytes (bytes.getD cursor 0) (bytes.getD (cursor + 1) 0)
    let strEnd ← checkedAdd lenEnd len
    if bytes.length < strEnd then none
    else
      let s ← String.fromUTF8? ((bytes.take strEnd).drop lenEnd).toByteArray
      return (s, strEnd)

end Socket

open Socket

namespace SocketMsg

def encode : SocketMsg → List UInt8
  | .hook eventName sessionId => putStr (putStr [tagHook] eventName) sessionId
  | .heartbeat sessionId => putStr [tagHeartbeat] sessionId
  | .cmd c =>
    [tagCmd, match c with
      | .ping => cmdPing
      | .pause => cmdPause
      | .resume => cmdResume]

/-- The message that the bytes behind the tag start with, and the cursor behind it. -/
def decodeBody (tag : UInt8) (rest : List UInt8) : Option (SocketMsg × Nat) :=
  if tag = tagHook then do
    let (eventName, cursor) ← takeStr rest 0
    let (sessionId, cursor) ← takeStr rest cursor
    return (.hook eventName sessionId, cursor)
  else if tag = tagHeartbeat then do
    let (sessionId, cursor) ← takeStr rest 0
    return (.heartbeat sessionId, cursor)
  else if tag = tagCmd then
    match rest with
    | [] => none
    | cmdByte :: _ =>
      if cmdByte = cmdPing then some (.cmd .ping, 1)
      else if cmdByte = cmdPause then some (.cmd .pause, 1)
      else if cmdByte = cmdResume then some (.cmd .resume, 1)
      else none
  else none

def decode : List UInt8 → Option SocketMsg
  | [] => none
  | tag :: rest => do
    let (msg, cursor) ← decodeBody tag rest
    if cursor ≠ rest.length then none else some msg

def strings : SocketMsg → List String
  | .hook eventName sessionId => [eventName, sessionId]
  | .heartbeat sessionId => [sessionId]
  | .cmd _ => []

def Fits (m : SocketMsg) : Prop := ∀ s ∈ m.strings, (asBytes s).length ≤ u16Max

end SocketMsg

namespace Socket

def prefixed (raw : List UInt8) : List UInt8 := toBeBytes raw.length ++ raw

theorem fromBeBytes_toBeBytes {n : Nat} (small : n ≤ u16Max) :
    fromBeBytes (UInt8.ofNat (n / 2 ^ 8)) (UInt8.ofNat n) = n := by
  simp only [fromBeBytes, u16Max, UInt8.toNat_ofNat'] at small ⊢
  omega

theorem toBeBytes_fromBeBytes (a b : UInt8) : toBeBytes (fromBeBytes a b) = [a, b] := by
  have high := a.toNat_lt
  have low := b.toNat_lt
  have a_eq : UInt8.ofNat (fromBeBytes a b / 2 ^ 8) = a := by
    apply UInt8.toNat_inj.mp
    rw [UInt8.toNat_ofNat', fromBeBytes]
    omega
  have b_eq : UInt8.ofNat (fromBeBytes a b) = b := by
    apply UInt8.toNat_inj.mp
    rw [UInt8.toNat_ofNat', fromBeBytes]
    omega
  rw [toBeBytes, a_eq, b_eq]

theorem fromBeBytes_le (a b : UInt8) : fromBeBytes a b ≤ u16Max := by
  have high := a.toNat_lt
  have low := b.toNat_lt
  rw [fromBeBytes, u16Max]
  omega

theorem putStr_eq {s : String} (fits : (asBytes s).length ≤ u16Max) (out : List UInt8) :
    putStr out s = out ++ prefixed (asBytes s) := by
  rw [putStr, Nat.min_eq_left fits, List.take_length, prefixed, List.append_assoc]

theorem prefixed_cancel {raw raw' rest rest' : List UInt8} (fits : raw.length ≤ u16Max)
    (fits' : raw'.length ≤ u16Max) (same : prefixed raw ++ rest = prefixed raw' ++ rest') :
    raw = raw' ∧ rest = rest' := by
  simp only [prefixed, toBeBytes, List.cons_append, List.nil_append, List.cons.injEq] at same
  obtain ⟨high, low, tail⟩ := same
  have length : raw.length = raw'.length := by
    rw [← fromBeBytes_toBeBytes fits, ← fromBeBytes_toBeBytes fits', high, low]
  exact List.append_inj tail length

theorem fromUTF8_eq_some {bytes : List UInt8} {s : String} :
    String.fromUTF8? bytes.toByteArray = some s ↔ bytes = asBytes s := by
  constructor
  · intro read
    unfold String.fromUTF8? at read
    split at read
    · cases Option.some.inj read
      simp [asBytes, String.fromUTF8]
    · cases read
  · rintro rfl
    exact fromUTF8_asBytes s

theorem checkedAdd_eq {a b : Nat} (small : a + b < 2 ^ 64) : checkedAdd a b = some (a + b) :=
  if_pos small

theorem takeStr_cons {done more : List UInt8} {a b : UInt8} (near : done.length ≤ 2 ^ 32) :
    takeStr (done ++ a :: b :: more) done.length =
      if more.length < fromBeBytes a b then none
      else (String.fromUTF8? (more.take (fromBeBytes a b)).toByteArray).map
        fun s => (s, done.length + 2 + fromBeBytes a b) := by
  have len := fromBeBytes_le a b
  rw [u16Max] at len
  have first : (done ++ a :: b :: more).getD done.length 0 = a := by simp
  have second : (done ++ a :: b :: more).getD (done.length + 1) 0 = b := by simp
  have slice (n : Nat) : ((done ++ a :: b :: more).take (done.length + 2 + n)).drop
    (done.length + 2) = more.take n := by
    rw [Nat.add_assoc, List.take_length_add_append, List.drop_length_add_append, Nat.add_comm 2 n]
    rfl
  have enough : ¬ (done ++ a :: b :: more).length < done.length + 2 := by simp
  have short : (done ++ a :: b :: more).length < done.length + 2 + fromBeBytes a b ↔
    more.length < fromBeBytes a b := by
    simp only [List.length_append, List.length_cons]
    omega
  simp only [takeStr, checkedAdd_eq (show done.length + 2 < 2 ^ 64 by omega), first, second,
    Option.bind_eq_bind,
    Option.bind_some, if_neg enough,
      checkedAdd_eq (show done.length + 2 + fromBeBytes a b < 2 ^ 64 by omega), short,
    slice]
  split
  · rfl
  · cases String.fromUTF8? (more.take (fromBeBytes a b)).toByteArray <;> rfl

theorem takeStr_short {done rest : List UInt8} (near : done.length ≤ 2 ^ 32)
    (short : rest.length < 2) : takeStr (done ++ rest) done.length = none := by
  have few : (done ++ rest).length < done.length + 2 := by
    rw [List.length_append]
    omega
  rw [takeStr, checkedAdd_eq (by omega), Option.bind_eq_bind, Option.bind_some, if_pos few]

theorem takeStr_iff {done rest : List UInt8} {s : String} {next : Nat}
    (near : done.length ≤ 2 ^ 32) : takeStr (done ++ rest) done.length = some (s, next) ↔
      (asBytes s).length ≤ u16Max ∧ ∃ tail, rest = prefixed (asBytes s) ++ tail ∧
        next = (done ++ prefixed (asBytes s)).length := by
  constructor
  · intro taken
    match rest with
    | [] =>
      rw [takeStr_short near (by simp)] at taken
      cases taken
    | [a] =>
      rw [takeStr_short near (by simp)] at taken
      cases taken
    | a :: b :: more =>
      rw [takeStr_cons near] at taken
      split at taken
      · cases taken
      · rename_i enough
        obtain ⟨s', read, same⟩ := Option.map_eq_some_iff.mp taken
        obtain ⟨rfl, rfl⟩ := Prod.mk.inj same
        have bytes := fromUTF8_eq_some.mp read
        have length : (asBytes s').length = fromBeBytes a b := by
          rw [← bytes, List.length_take, Nat.min_eq_left (Nat.not_lt.mp enough)]
        refine ⟨length ▸ fromBeBytes_le a b, more.drop (fromBeBytes a b), ?_, ?_⟩
        · rw [prefixed, length, toBeBytes_fromBeBytes, ← bytes]
          simp
        · simp only [prefixed, toBeBytes, List.length_append, List.length_cons,
            List.length_nil, length]
          omega
  · rintro ⟨fits, tail, rfl, rfl⟩
    have len := fromBeBytes_toBeBytes fits
    simp only [prefixed, toBeBytes, List.cons_append, List.nil_append]
    rw [takeStr_cons near, len, if_neg (by simp), List.take_left, fromUTF8_asBytes, Option.map_some]
    simp only [List.length_append, List.length_cons]
    congr 2
    omega

theorem takeStr_front {rest : List UInt8} {s : String} {next : Nat} :
    takeStr rest 0 = some (s, next) ↔
      (asBytes s).length ≤ u16Max ∧ ∃ tail, rest = prefixed (asBytes s) ++ tail ∧
        next = (prefixed (asBytes s)).length := @takeStr_iff [] rest s next (Nat.zero_le _)

theorem takeStr_not_utf8 {done raw : List UInt8} (near : done.length ≤ 2 ^ 32)
    (short : raw.length ≤ u16Max)
    (invalid : String.fromUTF8? raw.toByteArray = none) (tail : List UInt8) :
    takeStr (done ++ (prefixed raw ++ tail)) done.length = none := by
  rw [Option.eq_none_iff_forall_ne_some]
  intro ⟨s, next⟩ taken
  obtain ⟨fits, tail', same, -⟩ := (takeStr_iff near).mp taken
  obtain ⟨rfl, -⟩ := prefixed_cancel short fits same
  rw [fromUTF8_asBytes] at invalid
  cases invalid

end Socket

namespace SocketMsg

theorem hook_encode {eventName sessionId : String} (fits : Fits (.hook eventName sessionId)) :
    encode (.hook eventName sessionId) = tagHook ::
      (prefixed (asBytes eventName) ++ prefixed (asBytes sessionId)) := by
  rw [encode, putStr_eq (fits sessionId (by simp [strings])),
    putStr_eq (fits eventName (by simp [strings]))]
  simp

theorem heartbeat_encode {sessionId : String} (fits : Fits (.heartbeat sessionId)) :
    encode (.heartbeat sessionId) = tagHeartbeat :: prefixed (asBytes sessionId) := by
  rw [encode, putStr_eq (fits sessionId (by simp [strings]))]
  rfl

theorem prefixed_length_le {s : String} (fits : (asBytes s).length ≤ u16Max) :
    (prefixed (asBytes s)).length ≤ 2 ^ 32 := by
  simp only [prefixed, toBeBytes, List.length_append, List.length_cons, List.length_nil,
    u16Max] at fits ⊢
  omega

theorem decodeBody_sound {tag : UInt8} {rest : List UInt8} {m : SocketMsg} {cursor : Nat}
    (decoded : decodeBody tag rest = some (m, cursor)) :
    Fits m ∧ ∃ tail, tag :: rest = encode m ++ tail ∧ cursor + 1 = (encode m).length := by
  unfold decodeBody at decoded
  split at decoded
  · rename_i hook
    obtain ⟨⟨eventName, c⟩, first, decoded⟩ := Option.bind_eq_some_iff.mp decoded
    obtain ⟨⟨sessionId, c'⟩, second, decoded⟩ := Option.bind_eq_some_iff.mp decoded
    obtain ⟨rfl, rfl⟩ := Prod.mk.inj (Option.some.inj decoded)
    obtain ⟨fits, tail, rfl, rfl⟩ := takeStr_front.mp first
    obtain ⟨fits', tail, rfl, rfl⟩ := (takeStr_iff (prefixed_length_le fits)).mp second
    have both : Fits (.hook eventName sessionId) := by simp [Fits, strings, fits, fits']
    refine ⟨both, tail, ?_, ?_⟩
    · rw [hook_encode both, hook, List.cons_append, List.append_assoc]
    · rw [hook_encode both, List.length_cons]
  · split at decoded
    · rename_i heartbeat
      obtain ⟨⟨sessionId, c⟩, first, decoded⟩ := Option.bind_eq_some_iff.mp decoded
      obtain ⟨rfl, rfl⟩ := Prod.mk.inj (Option.some.inj decoded)
      obtain ⟨fits, tail, rfl, rfl⟩ := takeStr_front.mp first
      have both : Fits (.heartbeat sessionId) := by simp [Fits, strings, fits]
      refine ⟨both, tail, ?_, ?_⟩
      · rw [heartbeat_encode both, heartbeat]
        rfl
      · rw [heartbeat_encode both]
        rfl
    · split at decoded
      · rename_i cmd
        subst cmd
        cases rest with
        | nil => cases decoded
        | cons cmdByte tail =>
          dsimp only at decoded
          split at decoded
          · rename_i ping
            obtain ⟨rfl, rfl⟩ := Prod.mk.inj (Option.some.inj decoded)
            exact ⟨nofun, tail, by rw [ping]; rfl, rfl⟩
          · split at decoded
            · rename_i pause
              obtain ⟨rfl, rfl⟩ := Prod.mk.inj (Option.some.inj decoded)
              exact ⟨nofun, tail, by rw [pause]; rfl, rfl⟩
            · split at decoded
              · rename_i resume
                obtain ⟨rfl, rfl⟩ := Prod.mk.inj (Option.some.inj decoded)
                exact ⟨nofun, tail, by rw [resume]; rfl, rfl⟩
              · cases decoded
      · cases decoded

theorem decodeBody_encode {m : SocketMsg} (fits : Fits m) (tail : List UInt8) :
    ∃ tag body, encode m = tag :: body ∧ decodeBody tag (body ++ tail) = some (m, body.length) := by
  cases m with
  | hook eventName sessionId =>
    have fits₁ : (asBytes eventName).length ≤ u16Max := fits eventName (by simp [strings])
    have fits₂ : (asBytes sessionId).length ≤ u16Max := fits sessionId (by simp [strings])
    have first := takeStr_front.mpr
      ⟨fits₁, prefixed (asBytes sessionId) ++ tail, rfl, rfl⟩
    have second := (takeStr_iff (prefixed_length_le fits₁)).mpr ⟨fits₂, tail, rfl, rfl⟩
    exact ⟨_, _, hook_encode fits, by simp [decodeBody, first, second]⟩
  | heartbeat sessionId =>
    have fits₁ : (asBytes sessionId).length ≤ u16Max := fits sessionId (by simp [strings])
    have first := takeStr_front.mpr ⟨fits₁, tail, rfl, rfl⟩
    have other : tagHeartbeat ≠ tagHook := by decide
    exact ⟨_, _, heartbeat_encode fits, by simp [decodeBody, other, first]⟩
  | cmd c => cases c <;> exact ⟨_, _, rfl, rfl⟩

theorem decode_encode {m : SocketMsg} (fits : Fits m) : decode (encode m) = some m := by
  obtain ⟨tag, body, encoded, decoded⟩ := decodeBody_encode fits []
  rw [List.append_nil] at decoded
  rw [encoded, decode, decoded, Option.bind_eq_bind, Option.bind_some]
  exact if_neg (by simp)

theorem decode_iff {bytes : List UInt8} {m : SocketMsg} :
    decode bytes = some m ↔ bytes = encode m ∧ Fits m := by
  constructor
  · intro decoded
    cases bytes with
    | nil => cases decoded
    | cons tag rest =>
      obtain ⟨⟨m', cursor⟩, body, framed⟩ := Option.bind_eq_some_iff.mp decoded
      obtain ⟨fits, tail, split, length⟩ := decodeBody_sound body
      dsimp only at framed
      split at framed
      · cases framed
      · rename_i whole
        cases Option.some.inj framed
        have sizes := congrArg List.length split
        simp only [List.length_cons, List.length_append] at sizes
        have empty : tail = [] := List.eq_nil_of_length_eq_zero (by omega)
        rw [split, empty, List.append_nil]
        exact ⟨rfl, fits⟩
  · rintro ⟨rfl, fits⟩
    exact decode_encode fits

theorem encode_cancel {m m' : SocketMsg} {rest rest' : List UInt8} (fits : Fits m) (fits' : Fits m')
    (same : encode m ++ rest = encode m' ++ rest') : m = m' ∧ rest = rest' := by
  obtain ⟨tag, body, encoded, decoded⟩ := decodeBody_encode fits rest
  obtain ⟨tag', body', encoded', decoded'⟩ := decodeBody_encode fits' rest'
  rw [encoded, encoded', List.cons_append, List.cons_append] at same
  obtain ⟨rfl, bodies⟩ := List.cons.inj same
  rw [bodies, decoded'] at decoded
  obtain ⟨message, length⟩ := Prod.mk.inj (Option.some.inj decoded)
  exact ⟨message.symm, (List.append_inj bodies length.symm).2⟩

theorem decode_prefix_free {bytes tail : List UInt8} {m m' : SocketMsg}
    (short : decode bytes = some m) (long : decode (bytes ++ tail) = some m') : tail = [] := by
  obtain ⟨rfl, fits⟩ := decode_iff.mp short
  obtain ⟨same, fits'⟩ := decode_iff.mp long
  rw [← List.append_nil (encode m')] at same
  exact (encode_cancel fits fits' same).2

theorem decode_unknown_tag {tag : UInt8} (unknown : tag ∉ [tagHook, tagHeartbeat, tagCmd])
    (rest : List UInt8) : decode (tag :: rest) = none := by
  simp only [List.mem_cons, List.not_mem_nil, or_false, not_or] at unknown
  obtain ⟨notHook, notHeartbeat, notCmd⟩ := unknown
  simp [decode, decodeBody, notHook, notHeartbeat, notCmd]

theorem decode_not_utf8 {raw : List UInt8} (short : raw.length ≤ u16Max)
    (invalid : String.fromUTF8? raw.toByteArray = none) (tail : List UInt8) :
    decode (tagHeartbeat :: (prefixed raw ++ tail)) = none ∧
    decode (tagHook :: (prefixed raw ++ tail)) = none ∧
      ∀ eventName : String, (asBytes eventName).length ≤ u16Max →
        decode (tagHook :: (prefixed (asBytes eventName) ++ (prefixed raw ++ tail))) = none := by
  have first : takeStr (prefixed raw ++ tail) 0 = none :=
    @takeStr_not_utf8 [] raw (Nat.zero_le _) short invalid tail
  have other : tagHeartbeat ≠ tagHook := by decide
  refine ⟨by simp [decode, decodeBody, other, first], by simp [decode, decodeBody, first], ?_⟩
  intro eventName fits
  have name := takeStr_front.mpr ⟨fits, prefixed raw ++ tail, rfl, rfl⟩
  simp [decode, decodeBody, name, takeStr_not_utf8 (prefixed_length_le fits) short invalid tail]

/-- The codec accepts exactly its encodings. -/
theorem decode_exact :
    (∀ bytes m, decode bytes = some m ↔ bytes = encode m ∧ Fits m) ∧
    (∀ m, Fits m → decode (encode m) = some m) ∧
    (∀ bytes bytes' m, decode bytes = some m → decode bytes' = some m → bytes = bytes') ∧
    (∀ bytes tail, tail ≠ [] → (decode bytes).isSome → decode (bytes ++ tail) = none) ∧
    (∀ bytes tail, tail ≠ [] → (decode (bytes ++ tail)).isSome → decode bytes = none) ∧
    (∀ tag rest, tag ∉ [tagHook, tagHeartbeat, tagCmd] → decode (tag :: rest) = none) ∧
    (∀ raw, raw.length ≤ u16Max → String.fromUTF8? raw.toByteArray = none → ∀ tail,
      decode (tagHeartbeat :: (prefixed raw ++ tail)) = none ∧
      decode (tagHook :: (prefixed raw ++ tail)) = none ∧
        ∀ eventName : String, (asBytes eventName).length ≤ u16Max →
          decode (tagHook :: (prefixed (asBytes eventName) ++ (prefixed raw ++ tail))) = none) := by
  refine ⟨fun _ _ => decode_iff, fun _ => decode_encode, ?_, ?_, ?_,
    fun _ rest unknown => decode_unknown_tag unknown rest, fun _ => decode_not_utf8⟩
  · intro bytes bytes' m decoded decoded'
    rw [(decode_iff.mp decoded).1, (decode_iff.mp decoded').1]
  · intro bytes tail more accepted
    obtain ⟨m, decoded⟩ := Option.isSome_iff_exists.mp accepted
    exact Option.eq_none_iff_forall_ne_some.mpr fun m' longer =>
      more (decode_prefix_free decoded longer)
  · intro bytes tail more accepted
    obtain ⟨m, decoded⟩ := Option.isSome_iff_exists.mp accepted
    exact Option.eq_none_iff_forall_ne_some.mpr fun m' shorter =>
      more (decode_prefix_free shorter decoded)

end SocketMsg

end Spnr.Spnrd
