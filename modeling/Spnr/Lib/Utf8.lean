import Spnr.Lib.Checked

/-! Byte positions in a `str`: its character boundaries, its slices, and what a cursor that moves
by bytes can stand on. -/
namespace RustStd

def utf8 (cs : List Char) : List UInt8 := cs.flatMap String.utf8EncodeChar

@[simp] theorem utf8_nil : utf8 [] = [] := rfl

@[simp] theorem utf8_cons (c : Char) (cs : List Char) :
    utf8 (c :: cs) = String.utf8EncodeChar c ++ utf8 cs := rfl

@[simp] theorem utf8_append (cs ds : List Char) : utf8 (cs ++ ds) = utf8 cs ++ utf8 ds :=
  List.flatMap_append

theorem asBytes_ofList (cs : List Char) : asBytes (String.ofList cs) = utf8 cs := by
  induction cs with
  | nil => rfl
  | cons c cs ih => rw [asBytes_cons, ih, utf8_cons]

theorem asBytes_eq (s : String) : asBytes s = utf8 s.toList := by
  rw [← asBytes_ofList, String.ofList_toList]

def isContinuation (b : UInt8) : Bool := 0x80 ≤ b.toNat && b.toNat < 0xC0

theorem encode_first (c : Char) : ∃ b bs, String.utf8EncodeChar c = b :: bs ∧
    isContinuation b = false ∧ ∀ b ∈ bs, 128 ≤ b.toNat := by
  by_cases ascii : c.toNat < 128
  · refine ⟨_, [], encode_ascii ascii, ?_, fun b mem => absurd mem List.not_mem_nil⟩
    rw [isContinuation, UInt8.toNat_ofNat', Nat.mod_eq_of_lt (by omega), Bool.and_eq_false_iff]
    exact .inl (decide_eq_false (by omega))
  · have wide := Nat.not_lt.mp ascii
    have high := (encode_wide wide).1
    have large : ¬ c.val.toNat ≤ 127 := Nat.not_le_of_lt wide
    have start (n : Nat) (low : 0xC0 ≤ n) (top : n < 256) :
      isContinuation (UInt8.ofNat n) = false := by
      rw [isContinuation, UInt8.toNat_ofNat', Nat.mod_eq_of_lt (by omega), Bool.and_eq_false_iff]
      exact .inr (decide_eq_false (by omega))
    rw [String.utf8EncodeChar, if_neg large] at high ⊢
    split at high <;> rename_i two
    · rw [if_pos two]
      exact ⟨_, _, rfl, start _ (by omega) (by omega),
        fun b mem => high b (List.mem_cons_of_mem _ mem)⟩
    · rw [if_neg two]
      split at high <;> rename_i three
      · rw [if_pos three]
        exact ⟨_, _, rfl, start _ (by omega) (by omega),
          fun b mem => high b (List.mem_cons_of_mem _ mem)⟩
      · rw [if_neg three]
        exact ⟨_, _, rfl, start _ (by omega) (by omega),
          fun b mem => high b (List.mem_cons_of_mem _ mem)⟩

theorem encode_append_inj {c d : Char} {as bs : List UInt8}
    (same : String.utf8EncodeChar c ++ as = String.utf8EncodeChar d ++ bs) : c = d ∧ as = bs := by
  have first := ByteArray.utf8DecodeChar?_utf8EncodeChar_append (b := as.toByteArray) (c := c)
  have second := ByteArray.utf8DecodeChar?_utf8EncodeChar_append (b := bs.toByteArray) (c := d)
  rw [← List.toByteArray_append] at first second
  rw [same, second] at first
  obtain rfl := Option.some.inj first
  exact ⟨rfl, List.append_cancel_left same⟩

theorem utf8_prefix {xs ys : List Char} : utf8 xs <+: utf8 ys ↔ xs <+: ys := by
  constructor
  · intro bytes
    induction xs generalizing ys with
    | nil => exact List.nil_prefix
    | cons c xs ih =>
      obtain ⟨rest, same⟩ := bytes
      cases ys with
      | nil =>
        obtain ⟨b, bs, encoded, -⟩ := encode_first c
        rw [utf8_cons, encoded] at same
        cases same
      | cons d ys =>
        rw [utf8_cons, utf8_cons, List.append_assoc] at same
        obtain ⟨rfl, behind⟩ := encode_append_inj same
        rw [List.prefix_cons_inj]
        exact ih ⟨rest, behind⟩
  · rintro ⟨rest, rfl⟩
    rw [utf8_append]
    exact List.prefix_append _ _

def isCharBoundary (bytes : List UInt8) (i : Nat) : Bool :=
  match bytes[i]? with
  | some b => i == 0 || !isContinuation b
  | none => i == bytes.length

namespace Checked

def str (s : String) (start stop : Nat) : Checked String :=
  let bytes := asBytes s
  if start ≤ stop ∧ isCharBoundary bytes start = true ∧ isCharBoundary bytes stop = true then
    match String.fromUTF8? ((bytes.drop start).take (stop - start)).toByteArray with
    | some part => .ok part
    | none => .error .boundary
  else .error .boundary

end Checked

theorem boundary_between (front rest : List Char) :
    isCharBoundary (utf8 (front ++ rest)) (utf8 front).length = true := by
  rw [isCharBoundary, utf8_append]
  cases rest with
  | nil => simp
  | cons c cs =>
    obtain ⟨b, bs, encoded, starts, -⟩ := encode_first c
    rw [utf8_cons, encoded, List.getElem?_append_right (Nat.le_refl _), Nat.sub_self]
    simp [starts]

theorem str_ok {s : String} {a b c : List Char} (split : s.toList = a ++ b ++ c) :
    Checked.str s (utf8 a).length (utf8 (a ++ b)).length = .ok (String.ofList b) := by
  have part : ((asBytes s).drop (utf8 a).length).take ((utf8 (a ++ b)).length - (utf8 a).length) =
      asBytes (String.ofList b) := by
    simp only [asBytes_eq, String.toList_ofList, split, utf8_append, List.append_assoc,
      List.drop_left, List.length_append, Nat.add_sub_cancel_left, List.take_left]
  have start : isCharBoundary (asBytes s) (utf8 a).length = true := by
    rw [asBytes_eq, split, List.append_assoc]
    exact boundary_between _ _
  have stop : isCharBoundary (asBytes s) (utf8 (a ++ b)).length = true := by
    rw [asBytes_eq, split]
    exact boundary_between _ _
  have order : (utf8 a).length ≤ (utf8 (a ++ b)).length := by simp
  unfold Checked.str
  dsimp only
  rw [if_pos ⟨order, start, stop⟩, part, fromUTF8_asBytes]

theorem str_front {s : String} {a b : List Char} (split : s.toList = a ++ b) :
    Checked.str s 0 (utf8 a).length = .ok (String.ofList a) :=
  str_ok (a := []) split

theorem str_back {s : String} {a b : List Char} (split : s.toList = a ++ b) :
    Checked.str s (utf8 a).length (asBytes s).length = .ok (String.ofList b) := by
  rw [asBytes_eq, split]
  apply str_ok
  rw [split, List.append_nil]

/-- A cursor between characters, and the text behind it. -/
def At (s : String) (i : Nat) (rest : List Char) : Prop := ∃ front, s.toList = front ++ rest ∧
    i = (utf8 front).length

/-- A cursor that may be inside a character, and the text behind that character. -/
def Near (s : String) (i : Nat) (rest : List Char) : Prop :=
  ∃ tail : List UInt8, (∀ b ∈ tail, 128 ≤ b.toNat) ∧ (asBytes s).drop i = tail ++ utf8 rest

theorem At.drop {s : String} {i : Nat} {rest : List Char} (cursor : At s i rest) :
    (asBytes s).drop i = utf8 rest := by
  obtain ⟨front, split, rfl⟩ := cursor
  rw [asBytes_eq, split, utf8_append, List.drop_left]

theorem At.length {s : String} {i : Nat} {rest : List Char} (cursor : At s i rest) :
    i + (utf8 rest).length = (asBytes s).length := by
  obtain ⟨front, split, rfl⟩ := cursor
  rw [asBytes_eq, split, utf8_append, List.length_append]

theorem near_between {s : String} {i : Nat} {rest : List Char}
    (here : (asBytes s).drop i = utf8 rest) : Near s i rest :=
  ⟨[], fun _ mem => absurd mem List.not_mem_nil, here⟩

theorem At.near {s : String} {i : Nat} {rest : List Char} (cursor : At s i rest) : Near s i rest :=
  near_between cursor.drop

theorem At.skip {s : String} {i : Nat} {u rest : List Char} (cursor : At s i (u ++ rest)) :
    At s (i + (utf8 u).length) rest := by
  obtain ⟨front, split, rfl⟩ := cursor
  refine ⟨front ++ u, ?_, ?_⟩
  · rw [split, List.append_assoc]
  · rw [utf8_append, List.length_append]

theorem At.behind {s : String} {i j : Nat} {u rest : List Char} (cursor : At s i (u ++ rest))
    (here : (asBytes s).drop j = utf8 rest) (inside : j ≤ (asBytes s).length) :
    j = i + (utf8 u).length := by
  have whole := cursor.skip.length
  have left := congrArg List.length here
  rw [List.length_drop] at left
  omega

theorem At.slice {s : String} {i : Nat} {u rest : List Char} (cursor : At s i (u ++ rest)) :
    Checked.str s i (i + (utf8 u).length) = .ok (String.ofList u) := by
  obtain ⟨front, split, rfl⟩ := cursor
  rw [← List.append_assoc] at split
  rw [← List.length_append, ← utf8_append]
  exact str_ok split

theorem drop_succ {α : Type} {xs : List α} {i : Nat} {x : α} {rest : List α}
    (here : xs.drop i = x :: rest) : xs[i]? = some x ∧ xs.drop (i + 1) = rest := by
  constructor
  · rw [← List.head?_drop, here]
    rfl
  · rw [← List.drop_drop, here]
    rfl

theorem encode_low {c : Char} {b : UInt8} {bs : List UInt8}
    (encoded : String.utf8EncodeChar c = b :: bs)
    (low : b.toNat < 128) : c = Char.ofNat b.toNat ∧ bs = [] := by
  by_cases ascii : c.toNat < 128
  · rw [encode_ascii ascii] at encoded
    obtain ⟨rfl, rfl⟩ := List.cons.inj encoded
    rw [UInt8.toNat_ofNat', Nat.mod_eq_of_lt (by omega), Char.ofNat_toNat]
    exact ⟨rfl, rfl⟩
  · have high := (encode_wide (Nat.not_lt.mp ascii)).1 b (by rw [encoded]; exact List.mem_cons_self)
    omega

theorem encode_byte {b : UInt8} (low : b.toNat < 128) :
    String.utf8EncodeChar (Char.ofNat b.toNat) = [b] := by
  have valid : b.toNat.isValidChar := .inl (by omega)
  have back : (Char.ofNat b.toNat).toNat = b.toNat := by
    rw [Char.ofNat, dif_pos valid]
    rfl
  rw [encode_ascii (by omega), back, UInt8.ofNat_toNat]

theorem encode_is {c : Char} {b : UInt8} {bs : List UInt8}
    (encoded : String.utf8EncodeChar c = b :: bs) (d : Char)
    (ascii : d.toNat < 128) : (b == UInt8.ofNat d.toNat) = (c == d) := by
  rw [Bool.eq_iff_iff, beq_iff_eq, beq_iff_eq]
  constructor
  · rintro rfl
    have low : (UInt8.ofNat d.toNat).toNat = d.toNat := by
      rw [UInt8.toNat_ofNat', Nat.mod_eq_of_lt (by omega)]
    obtain ⟨same, -⟩ := encode_low encoded (by omega)
    rw [same, low, Char.ofNat_toNat]
  · rintro rfl
    rw [encode_ascii ascii] at encoded
    exact (List.cons.inj encoded).1.symm

theorem byte_ne {b d : UInt8} (high : 128 ≤ b.toNat) (low : d.toNat < 128) : b ≠ d := by
  rintro rfl
  omega

theorem char_ne {c d : Char} (wide : 128 ≤ c.toNat) (ascii : d.toNat < 128) : c ≠ d := by
  rintro rfl
  omega

/-! ### At the next character -/

section

variable {s : String} {i : Nat} {c : Char} {rest : List Char} (cursor : At s i (c :: rest))
include cursor

theorem At.index : ∃ b bs, String.utf8EncodeChar c = b :: bs ∧
    Checked.index (asBytes s) i = .ok b := by
  obtain ⟨b, bs, encoded, -⟩ := encode_first c
  have bytes := cursor.drop
  rw [utf8_cons, encoded, List.cons_append] at bytes
  exact ⟨b, bs, encoded, Checked.index_ok (drop_succ bytes).1⟩

theorem At.next (ascii : c.toNat < 128) : At s (i + 1) rest := by
  have skipped : At s (i + (utf8 [c]).length) rest := cursor.skip
  rw [utf8_cons, encode_ascii ascii] at skipped
  exact skipped

theorem At.inside : i < (asBytes s).length := by
  obtain ⟨b, bs, encoded, -⟩ := encode_first c
  have whole := cursor.length
  rw [utf8_cons, encoded, List.length_append, List.length_cons] at whole
  omega

end

theorem At.over {s : String} {i : Nat} (cursor : At s i []) : i = (asBytes s).length :=
  cursor.length

/-! ### Inside a character -/

theorem near_first {s : String} {i : Nat} {c : Char} {rest : List Char}
    (here : (asBytes s).drop i = utf8 (c :: rest)) : Near s (i + 1) rest := by
  obtain ⟨b, bs, encoded, -, high⟩ := encode_first c
  rw [utf8_cons, encoded, List.cons_append] at here
  exact ⟨bs, high, (drop_succ here).2⟩

section

variable {s : String} {i : Nat} {rest : List Char} (near : Near s i rest) {b : UInt8}
  (here : (asBytes s)[i]? = some b)
include near here

theorem Near.ascii (low : b.toNat < 128) : ∃ cs, rest = Char.ofNat b.toNat :: cs ∧
    (asBytes s).drop i = utf8 rest ∧ (asBytes s).drop (i + 1) = utf8 cs := by
  obtain ⟨tail, high, bytes⟩ := near
  rw [← List.head?_drop, bytes] at here
  cases tail with
  | cons t tail =>
    obtain rfl := Option.some.inj here
    have := high t List.mem_cons_self
    omega
  | nil =>
    cases rest with
    | nil => cases here
    | cons c cs =>
      obtain ⟨first, bs, encoded, -⟩ := encode_first c
      rw [List.nil_append] at bytes
      rw [List.nil_append, utf8_cons, encoded] at here
      obtain rfl := Option.some.inj here
      obtain ⟨rfl, rfl⟩ := encode_low encoded low
      refine ⟨cs, rfl, bytes, ?_⟩
      rw [utf8_cons, encoded] at bytes
      exact (drop_succ bytes).2

theorem Near.wide (high : 128 ≤ b.toNat) :
    Near s (i + 1) rest ∨ ∃ c cs, rest = c :: cs ∧ 128 ≤ c.toNat ∧ Near s (i + 1) cs := by
  obtain ⟨tail, highs, bytes⟩ := near
  cases tail with
  | cons t tail =>
    exact .inl ⟨tail, fun b mem => highs b (List.mem_cons_of_mem _ mem), (drop_succ bytes).2⟩
  | nil =>
    cases rest with
    | nil =>
      rw [← List.head?_drop, bytes] at here
      cases here
    | cons c cs =>
      refine .inr ⟨c, cs, rfl, ?_, near_first bytes⟩
      by_contra low
      rw [← List.head?_drop, bytes, List.nil_append, utf8_cons,
        encode_ascii (Nat.not_le.mp low)] at here
      obtain rfl := Option.some.inj here
      rw [UInt8.toNat_ofNat', Nat.mod_eq_of_lt (by omega)] at high
      omega

end

theorem Near.over {s : String} {i : Nat} {rest : List Char} (near : Near s i rest)
    (outside : (asBytes s).length ≤ i) : rest = [] := by
  obtain ⟨tail, -, bytes⟩ := near
  rw [List.drop_eq_nil_of_le outside, eq_comm, List.append_eq_nil_iff] at bytes
  cases rest with
  | nil => rfl
  | cons c cs =>
    obtain ⟨b, bs, encoded, -⟩ := encode_first c
    rw [utf8_cons, encoded] at bytes
    cases bytes.2

def findBytes (needle : List UInt8) : List UInt8 → Option Nat
  | [] => if needle = [] then some 0 else none
  | b :: rest =>
    if needle.isPrefixOf (b :: rest) then some 0 else (findBytes needle rest).map (· + 1)

def strFind (s needle : String) : Option Nat := findBytes (asBytes needle) (asBytes s)

def textBefore (needle : List Char) : List Char → Option (List Char)
  | [] => none
  | c :: cs => if needle.isPrefixOf (c :: cs) then some [] else (textBefore needle cs).map (c :: ·)

theorem textBefore_split {needle hay u : List Char} (found : textBefore needle hay = some u) :
    ∃ after, hay = u ++ (needle ++ after) := by
  induction hay generalizing u with
  | nil => cases found
  | cons c cs ih =>
    rw [textBefore] at found
    split at found
    · rename_i here
      obtain rfl := Option.some.inj found
      obtain ⟨after, same⟩ := List.isPrefixOf_iff_prefix.mp here
      exact ⟨after, same.symm⟩
    · obtain ⟨u, later, rfl⟩ := Option.map_eq_some_iff.mp found
      obtain ⟨after, rfl⟩ := ih later
      exact ⟨after, rfl⟩

theorem findBytes_skip {needle : List UInt8} {n : UInt8} {ns : List UInt8}
    (starts : needle = n :: ns) {bs : List UInt8} (other : ∀ b ∈ bs, b ≠ n) (rest : List UInt8) :
    findBytes needle (bs ++ rest) = (findBytes needle rest).map (· + bs.length) := by
  induction bs with
  | nil => simp
  | cons b bs ih =>
    have miss : needle.isPrefixOf (b :: (bs ++ rest)) = false := by
      rw [starts, List.isPrefixOf, Bool.and_eq_false_iff]
      exact .inl (beq_eq_false_iff_ne.mpr (other b List.mem_cons_self).symm)
    rw [List.cons_append, findBytes, miss, if_neg Bool.false_ne_true,
      ih fun b mem => other b (List.mem_cons_of_mem _ mem), Option.map_map]
    rfl

theorem findBytes_text {n : Char} (ascii : n.toNat < 128) (ns hay : List Char) :
    findBytes (utf8 (n :: ns)) (utf8 hay) = (textBefore (n :: ns) hay).map fun u =>
      (utf8 u).length := by
  have starts : utf8 (n :: ns) = UInt8.ofNat n.toNat :: utf8 ns := by
    rw [utf8_cons, encode_ascii ascii]
    rfl
  induction hay with
  | nil =>
    rw [starts]
    rfl
  | cons c cs ih =>
    obtain ⟨b, bs, encoded, -, high⟩ := encode_first c
    have same : (utf8 (n :: ns)).isPrefixOf (utf8 (c :: cs)) = (n :: ns).isPrefixOf (c :: cs) := by
      rw [Bool.eq_iff_iff, List.isPrefixOf_iff_prefix, List.isPrefixOf_iff_prefix]
      exact utf8_prefix
    have inner : ∀ b ∈ bs, b ≠ UInt8.ofNat n.toNat := by
      rintro _ mem rfl
      have := high _ mem
      rw [UInt8.toNat_ofNat', Nat.mod_eq_of_lt (by omega)] at this
      omega
    rw [utf8_cons c, encoded, List.cons_append] at same ⊢
    rw [findBytes, same, textBefore]
    split
    · rfl
    · rw [findBytes_skip starts inner, ih, Option.map_map, Option.map_map, Option.map_map]
      apply congrArg (fun f => Option.map f (textBefore (n :: ns) cs))
      funext u
      simp only [Function.comp_apply, utf8_cons, encoded, List.length_append, List.length_cons]
      omega

def isSecond (a b : UInt8) : Bool :=
  let (a, b) := (a.toNat, b.toNat)
  if a = 0xE0 then 0xA0 ≤ b && b ≤ 0xBF
  else if a = 0xED then 0x80 ≤ b && b ≤ 0x9F
  else if a = 0xF0 then 0x90 ≤ b && b ≤ 0xBF
  else if a = 0xF4 then 0x80 ≤ b && b ≤ 0x8F
  else 0xE1 ≤ a && a ≤ 0xF3 && 0x80 ≤ b && b ≤ 0xBF

/-- How many bytes that start no character are replaced by one character. -/
def illFormed : List UInt8 → Nat
  | a :: b :: rest =>
    if isSecond a b then if 0xF0 ≤ a.toNat ∧ rest.head?.any isContinuation then 3 else 2 else 1
  | _ => 1

/-- Each turn takes a character or replaces what is none, so that the length is fuel enough. -/
def lossy : Nat → List UInt8 → List Char
  | fuel + 1, b :: bs =>
    match (b :: bs).toByteArray.utf8DecodeChar? 0 with
    | some c => c :: lossy fuel ((b :: bs).drop c.utf8Size)
    | none => '\uFFFD' :: lossy fuel ((b :: bs).drop (illFormed (b :: bs)))
  | _, _ => []

def fromUtf8Lossy (bytes : List UInt8) : String := String.ofList (lossy bytes.length bytes)

theorem lossy_utf8 (cs : List Char) {fuel : Nat} (enough : cs.length ≤ fuel) :
    lossy fuel (utf8 cs) = cs := by
  induction cs generalizing fuel with
  | nil => cases fuel <;> rfl
  | cons c cs ih =>
    obtain ⟨fuel, rfl⟩ : ∃ f, fuel = f + 1 := ⟨fuel - 1, by rw [List.length_cons] at enough; omega⟩
    have decoded :=
      ByteArray.utf8DecodeChar?_utf8EncodeChar_append (b := (utf8 cs).toByteArray) (c := c)
    have size : (String.utf8EncodeChar c).length = c.utf8Size := String.length_utf8EncodeChar c
    obtain ⟨b, bs, encoded, -, -⟩ := encode_first c
    rw [← List.toByteArray_append] at decoded
    rw [utf8_cons, encoded, List.cons_append, lossy, ← List.cons_append, ← encoded, decoded]
    dsimp only
    rw [← size, List.drop_left, ih (Nat.le_of_succ_le_succ enough)]

theorem length_le_utf8 (cs : List Char) : cs.length ≤ (utf8 cs).length := by
  induction cs with
  | nil => exact Nat.le_refl 0
  | cons c cs ih =>
    obtain ⟨b, bs, encoded, -, -⟩ := encode_first c
    rw [utf8_cons, encoded, List.length_append, List.length_cons, List.length_cons]
    omega

theorem fromUtf8Lossy_asBytes (s : String) : fromUtf8Lossy (asBytes s) = s := by
  rw [fromUtf8Lossy, asBytes_eq, lossy_utf8 _ (length_le_utf8 _), String.ofList_toList]

end RustStd
