import Mathlib.Data.List.Basic

/-! Strings of UTF-16 code units, in which a surrogate need not have its other half, and
their code points. -/

@[ext]
structure Utf16 where
  units : List UInt16
  deriving DecidableEq

namespace Utf16

instance : Append Utf16 := ⟨fun s t => ⟨s.units ++ t.units⟩⟩

/-- `alone` is a surrogate without its other half. -/
inductive CodePoint where
  | char (c : Char)
  | alone (u : UInt16)
  deriving DecidableEq

def isHigh (u : UInt16) : Bool := 0xD800 ≤ u.toNat && u.toNat < 0xDC00
def isLow (u : UInt16) : Bool := 0xDC00 ≤ u.toNat && u.toNat < 0xE000
def isSurrogate (u : UInt16) : Bool := 0xD800 ≤ u.toNat && u.toNat < 0xE000

def pair (high low : UInt16) : Char :=
  Char.ofNat (0x10000 + (high.toNat - 0xD800) * 0x400 + (low.toNat - 0xDC00))

def single (u : UInt16) : CodePoint :=
  if isSurrogate u then .alone u else .char (Char.ofNat u.toNat)

def decode : List UInt16 → List CodePoint
  | [] => []
  | [u] => [single u]
  | u :: v :: rest => if isHigh u && isLow v then .char (pair u v) :: decode rest else single u ::
      decode (v :: rest)

def encode : CodePoint → List UInt16
  | .char c =>
    if c.toNat < 0x10000 then [UInt16.ofNat c.toNat]
    else [UInt16.ofNat (0xD800 + (c.toNat - 0x10000) / 0x400),
      UInt16.ofNat (0xDC00 + (c.toNat - 0x10000) % 0x400)]
  | .alone u => [u]

def codePoints (s : Utf16) : List CodePoint := decode s.units

def ofString (s : String) : Utf16 := ⟨s.toList.flatMap fun c => encode (.char c)⟩

instance : Coe String Utf16 := ⟨ofString⟩

theorem append_right_inj (s : Utf16) {t u : Utf16} : s ++ t = s ++ u ↔ t = u := by
  constructor
  · intro same
    exact Utf16.ext (List.append_cancel_left (congrArg units same))
  · rintro rfl
    rfl

theorem units_ofString {s : String} (small : ∀ c ∈ s.toList, c.toNat < 0x10000) :
    (ofString s).units = s.toList.map fun c => UInt16.ofNat c.toNat := by
  have chars (cs : List Char) (small : ∀ c ∈ cs, c.toNat < 0x10000) :
      (cs.flatMap fun c => encode (.char c)) = cs.map fun c => UInt16.ofNat c.toNat := by
    induction cs with
    | nil => rfl
    | cons c cs ih =>
      rw [List.flatMap_cons, ih fun d mem => small d (List.mem_cons_of_mem _ mem), encode,
        if_pos (small c List.mem_cons_self)]
      rfl
  exact chars s.toList small

theorem toNat_ofNat {n : Nat} (valid : n.isValidChar) : (Char.ofNat n).toNat = n := by
  rw [Char.ofNat, dif_pos valid]
  rfl

theorem encode_single (u : UInt16) : encode (single u) = [u] := by
  unfold single
  split
  · rfl
  · rename_i plain
    have bound := u.toNat_lt
    simp only [isSurrogate, Bool.and_eq_true, decide_eq_true_eq, not_and, Nat.not_lt] at plain
    have valid : u.toNat.isValidChar := by
      unfold Nat.isValidChar
      omega
    rw [encode, toNat_ofNat valid, if_pos bound, UInt16.ofNat_toNat]

theorem encode_pair {u v : UInt16} (high : isHigh u = true) (low : isLow v = true) :
    encode (.char (pair u v)) = [u, v] := by
  simp only [isHigh, isLow, Bool.and_eq_true, decide_eq_true_eq] at high low
  have valid : (0x10000 + (u.toNat - 0xD800) * 0x400 + (v.toNat - 0xDC00)).isValidChar := by
    unfold Nat.isValidChar
    omega
  have first : 0xD800 + (0x10000 + (u.toNat - 0xD800) * 0x400 + (v.toNat - 0xDC00) - 0x10000) /
    0x400 = u.toNat := by omega
  have second : 0xDC00 + (0x10000 + (u.toNat - 0xD800) * 0x400 + (v.toNat - 0xDC00) - 0x10000) %
    0x400 = v.toNat := by omega
  rw [encode, pair, toNat_ofNat valid, if_neg (by omega), first, second, UInt16.ofNat_toNat,
    UInt16.ofNat_toNat]

theorem encode_decode (us : List UInt16) : (decode us).flatMap encode = us := by
  fun_induction decode us with
  | case1 => rfl
  | case2 u => rw [List.flatMap_cons, encode_single, List.flatMap_nil, List.append_nil]
  | case3 u v rest both ih =>
    obtain ⟨high, low⟩ := Bool.and_eq_true_iff.mp both
    rw [List.flatMap_cons, encode_pair high low, ih]
    rfl
  | case4 u v rest both ih =>
    rw [List.flatMap_cons, encode_single, ih]
    rfl

theorem plain_parts {u : UInt16} (plain : isSurrogate u = false) : isHigh u = false ∧
    isLow u = false := by
  simp only [isSurrogate, isHigh, isLow, Bool.and_eq_false_iff, decide_eq_false_iff_not] at plain ⊢
  omega

theorem not_low_of_high {u : UInt16} (high : isHigh u = true) : isLow u = false := by
  simp only [isHigh, isLow, Bool.and_eq_true, Bool.and_eq_false_iff, decide_eq_true_eq,
    decide_eq_false_iff_not] at high ⊢
  omega

theorem decode_append (us : List UInt16) {vs : List UInt16}
    (start : ∀ v ∈ vs.head?, isLow v = false) : decode (us ++ vs) = decode us ++ decode vs := by
  fun_induction decode us with
  | case1 => rfl
  | case2 a =>
    cases vs with
    | nil => rfl
    | cons v vs =>
      have notLow := start v rfl
      rw [List.singleton_append, decode, notLow, Bool.and_false, if_neg Bool.false_ne_true]
      rfl
  | case3 a b rest both ih =>
    rw [List.cons_append, List.cons_append, decode, if_pos both, ih]
    rfl
  | case4 a b rest both ih =>
    rw [List.cons_append, List.cons_append, decode, if_neg both, ← List.cons_append, ih]
    rfl

theorem decode_plain {u : UInt16} (plain : isSurrogate u = false) (us vs : List UInt16) :
    decode (us ++ u :: vs) = decode us ++ single u :: decode vs := by
  obtain ⟨notHigh, notLow⟩ := plain_parts plain
  have first : decode (u :: vs) = single u :: decode vs := by
    cases vs with
    | nil => rfl
    | cons v vs => rw [decode, notHigh, Bool.false_and, if_neg Bool.false_ne_true]
  rw [decode_append us, first]
  intro v mem
  obtain rfl := Option.some.inj mem
  exact notLow

theorem decode_plains {us : List UInt16} (plain : ∀ u ∈ us, isSurrogate u = false) :
    decode us = us.map single := by
  induction us with
  | nil => rfl
  | cons u us ih =>
    have first := decode_plain (plain u List.mem_cons_self) [] us
    rw [List.nil_append] at first
    rw [first, ih fun v mem => plain v (List.mem_cons_of_mem _ mem)]
    rfl

theorem mem_decode {u : UInt16} (plain : isSurrogate u = false) {us : List UInt16} :
    single u ∈ decode us ↔ u ∈ us := by
  constructor
  · intro mem
    rw [← encode_decode us, List.mem_flatMap]
    exact ⟨single u, mem, by rw [encode_single]; exact List.mem_singleton.mpr rfl⟩
  · intro mem
    obtain ⟨front, back, rfl⟩ := List.append_of_mem mem
    rw [decode_plain plain]
    exact List.mem_append_right _ List.mem_cons_self

section

variable {c : Char} (small : c.toNat < 0x10000)
include small

theorem toNat_unit : (UInt16.ofNat c.toNat).toNat = c.toNat := UInt16.toNat_ofNat_of_lt' small

theorem plain_unit : isSurrogate (UInt16.ofNat c.toNat) = false := by
  have valid : c.toNat.isValidChar := c.valid
  unfold Nat.isValidChar at valid
  simp only [isSurrogate, toNat_unit small, Bool.and_eq_false_iff, decide_eq_false_iff_not]
  omega

theorem single_unit : single (UInt16.ofNat c.toNat) = .char c := by
  rw [single, plain_unit small, toNat_unit small, Char.ofNat_toNat]
  rfl

end

theorem toNat_low (c : Char) :
    (UInt16.ofNat (0xDC00 + (c.toNat - 0x10000) % 0x400)).toNat = 0xDC00 +
      (c.toNat - 0x10000) % 0x400 := by
  apply UInt16.toNat_ofNat_of_lt'
  rw [UInt16.size]
  omega

theorem low_unit (c : Char) :
    isLow (UInt16.ofNat (0xDC00 + (c.toNat - 0x10000) % 0x400)) = true := by
  simp only [isLow, toNat_low c, Bool.and_eq_true, decide_eq_true_eq]
  omega

section

variable {c : Char} (large : ¬ c.toNat < 0x10000)
include large

theorem toNat_high :
    (UInt16.ofNat (0xD800 + (c.toNat - 0x10000) / 0x400)).toNat = 0xD800 +
      (c.toNat - 0x10000) / 0x400 := by
  have valid : c.toNat.isValidChar := c.valid
  unfold Nat.isValidChar at valid
  apply UInt16.toNat_ofNat_of_lt'
  rw [UInt16.size]
  omega

theorem high_unit : isHigh (UInt16.ofNat (0xD800 + (c.toNat - 0x10000) / 0x400)) = true := by
  have valid : c.toNat.isValidChar := c.valid
  unfold Nat.isValidChar at valid
  simp only [isHigh, toNat_high large, Bool.and_eq_true, decide_eq_true_eq]
  omega

theorem pair_units : pair (UInt16.ofNat (0xD800 + (c.toNat - 0x10000) / 0x400))
    (UInt16.ofNat (0xDC00 + (c.toNat - 0x10000) % 0x400)) = c := by
  have whole : 0x10000 + (0xD800 + (c.toNat - 0x10000) / 0x400 - 0xD800) * 0x400 +
      (0xDC00 + (c.toNat - 0x10000) % 0x400 - 0xDC00) = c.toNat := by omega
  rw [pair, toNat_high large, toNat_low c, whole, Char.ofNat_toNat]

end

theorem decode_char (c : Char) (us : List UInt16) :
    decode (encode (.char c) ++ us) = .char c :: decode us := by
  rw [encode]
  split
  · rename_i small
    rw [List.singleton_append, ← single_unit small]
    exact decode_plain (plain_unit small) [] us
  · rename_i large
    rw [List.cons_append, List.cons_append, List.nil_append, decode, high_unit large, low_unit c,
      pair_units large]
    rfl

example : decode [0xD83D, 0xDE80, 0xD83D, 0x21] = [.char '🚀', .alone 0xD83D, .char '!'] := by decide

theorem codePoints_ofString (s : String) : (ofString s).codePoints = s.toList.map .char := by
  have chars (cs : List Char) : decode (cs.flatMap fun c => encode (.char c)) = cs.map .char := by
    induction cs with
    | nil => rfl
    | cons c cs ih => rw [List.flatMap_cons, decode_char, ih, List.map_cons]
  exact chars s.toList

theorem ofString_injective {s t : String} (same : ofString s = ofString t) : s = t := by
  have chars := congrArg codePoints same
  rw [codePoints_ofString, codePoints_ofString] at chars
  apply String.toList_injective
  exact List.map_injective_iff.mpr (fun a b eq => CodePoint.char.inj eq) chars

theorem starts_ofString (s : String) : ∀ v ∈ (ofString s).units.head?, isLow v = false := by
  intro v first
  unfold ofString at first
  cases chars : s.toList with
  | nil =>
    rw [chars] at first
    cases first
  | cons c cs =>
    simp only [chars, List.flatMap_cons, encode] at first
    split at first
    · rename_i small
      obtain rfl := Option.some.inj first
      exact (plain_parts (plain_unit small)).2
    · rename_i large
      obtain rfl := Option.some.inj first
      exact not_low_of_high (high_unit large)

theorem endsWith_iff (s : Utf16) (ending : String) :
    (ofString ending).units <:+ s.units ↔ ending.toList.map .char <:+ s.codePoints := by
  rw [← codePoints_ofString]
  constructor
  · rintro ⟨front, split⟩
    refine ⟨decode front, ?_⟩
    change decode front ++ decode (ofString ending).units = decode s.units
    rw [← split, decode_append front (starts_ofString ending)]
  · rintro ⟨front, split⟩
    refine ⟨front.flatMap encode, ?_⟩
    have whole := congrArg (List.flatMap encode) split
    rw [List.flatMap_append, codePoints, codePoints, encode_decode, encode_decode] at whole
    exact whole

end Utf16
