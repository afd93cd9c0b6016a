import Spnr.Portal.Auction

/-! The gate against terminal injection: what the lint accepts is a grammar of one line, and
a creative is stored only through it. -/
namespace Spnr.Portal

def punctuation : List Char := ['—', '.', ',', ':', '\'', '&', '+', '/', ARROW, '-']

structure Grammar (U : Unicode) (text : Utf16) : Prop where
  shortest : 1 ≤ text.codePoints.length
  longest : text.codePoints.length ≤ MAX_LEN
  characters : ∀ p ∈ text.codePoints,
    ∃ c, p = .char c ∧ (U.letter c = true ∨ U.number c = true ∨ c = ' ' ∨ c ∈ punctuation)
  trailing : [.char ' ', .char ARROW] <:+ text.codePoints
  once : text.codePoints.count (.char ARROW) = 1

def separatorChars : List Char := ['\u2028', '\u2029']

/-- Controls (`Cc`) and the separators of lines and paragraphs (`Zl`, `Zp`) have categories of
their own, and are neither letters nor numbers. -/
structure Unicode.Separate (U : Unicode) : Prop where
  controls : ∀ c, isControl c = true → U.letter c = false ∧ U.number c = false
  separators : ∀ c ∈ separatorChars, U.letter c = false ∧ U.number c = false

def lineBreaks : List Char := ['\n', '\r'] ++ separatorChars

theorem allowed_iff {U : Unicode} {p : Utf16.CodePoint} : allowed U p = true ↔
    ∃ c, p = .char c ∧ (U.letter c = true ∨ U.number c = true ∨ c = ' ' ∨ c ∈ punctuation) := by
  cases p with
  | char c => simp [allowed, punctuation, or_assoc]
  | alone u => simp [allowed]

theorem lint_nil {U : Unicode} {text : Utf16} : lintCreative U text = [] ↔
    text.units.any (fun u => controlCode u.toNat) = false ∧
      text.units.any (fun u => u == 0x0D || u == 0x0A) = false ∧
      text.codePoints.length ≠ 0 ∧ text.codePoints.length ≤ MAX_LEN ∧
      (Utf16.ofString (String.ofList [' ', ARROW])).units <:+ text.units ∧
      text.codePoints.count (.char ARROW) = 1 ∧ allowList U text = true := by
  unfold lintCreative
  simp only [List.append_eq_nil_iff, ite_eq_right_iff, ite_eq_left_iff, List.cons_ne_nil,
    imp_false, not_not,
    Bool.not_eq_true, Bool.not_eq_false, List.isSuffixOf_iff_suffix, Nat.not_lt, and_assoc, ne_eq]

section

variable {U : Unicode} (separate : U.Separate)
include separate

theorem Unicode.Separate.not_listed {c : Char} (special : isControl c = true ∨ c ∈ separatorChars) :
    ¬ (U.letter c = true ∨ U.number c = true ∨ c = ' ' ∨ c ∈ punctuation) := by
  have classes : U.letter c = false ∧ U.number c = false := by
    rcases special with control | separator
    · exact separate.controls c control
    · exact separate.separators c separator
  have others : (' ' :: punctuation).all (fun d => !isControl d && !separatorChars.contains d) =
    true := by decide
  rintro (letter | number | listed)
  · rw [classes.1] at letter
    cases letter
  · rw [classes.2] at number
    cases number
  · have plain := List.all_eq_true.mp others c (List.mem_cons.mpr listed)
    simp only [Bool.and_eq_true, Bool.not_eq_true', List.contains_eq_mem,
      decide_eq_false_iff_not] at plain
    rcases special with control | separator
    · rw [plain.1] at control
      cases control
    · exact plain.2 separator

theorem Grammar.harmless {text : Utf16} (grammar : Grammar U text) {c : Char}
    (mem : .char c ∈ text.codePoints) : isControl c = false ∧ c ∉ lineBreaks := by
  obtain ⟨_, same, listed⟩ := grammar.characters _ mem
  obtain rfl := Utf16.CodePoint.char.inj same
  have plain : ¬ (isControl _ = true ∨ _ ∈ separatorChars) :=
    fun special => separate.not_listed special listed
  rw [not_or, Bool.not_eq_true] at plain
  refine ⟨plain.1, fun lineBreak => ?_⟩
  rcases List.mem_append.mp lineBreak with low | high
  · have controls : ['\n', '\r'].all isControl = true := by decide
    rw [List.all_eq_true.mp controls c low] at plain
    cases plain.1
  · exact plain.2 high

theorem Grammar.no_control {text : Utf16} (grammar : Grammar U text) {u : UInt16}
    (mem : u ∈ text.units) : controlCode u.toNat = false := by
  by_contra control
  rw [Bool.not_eq_false] at control
  have low : u.toNat < 0xA0 := by
    simp only [controlCode, Bool.or_eq_true, Bool.and_eq_true, decide_eq_true_eq,
      beq_iff_eq] at control
    omega
  have plain : Utf16.isSurrogate u = false := by
    simp only [Utf16.isSurrogate, Bool.and_eq_false_iff, decide_eq_false_iff_not]
    omega
  have valid : u.toNat.isValidChar := by
    unfold Nat.isValidChar
    omega
  have there := (Utf16.mem_decode plain).mpr mem
  rw [Utf16.single, plain, if_neg Bool.false_ne_true] at there
  have harmless := (grammar.harmless separate there).1
  rw [isControl, Utf16.toNat_ofNat valid, control] at harmless
  cases harmless

theorem lint_grammar (text : Utf16) : lintCreative U text = [] ↔ Grammar U text := by
  rw [lint_nil]
  constructor
  · rintro ⟨-, -, -, longest, trailing, once, listed⟩
    simp only [allowList, Bool.and_eq_true, decide_eq_true_eq, List.all_eq_true] at listed
    constructor
    · exact listed.1.1
    · exact longest
    · exact fun p mem => allowed_iff.mp (listed.2 p mem)
    · exact (Utf16.endsWith_iff text _).mp trailing
    · exact once
  · intro grammar
    have clean : ∀ u ∈ text.units, controlCode u.toNat = false :=
      fun u mem => grammar.no_control separate mem
    refine ⟨?_, ?_, ?_, grammar.longest, ?_, grammar.once, ?_⟩
    · exact List.any_eq_false.mpr fun u mem => by rw [clean u mem]; exact Bool.false_ne_true
    · refine List.any_eq_false.mpr fun u mem newline => ?_
      have controls := clean u mem
      rcases (Bool.or_eq_true _ _).mp newline with cr | lf
      · rw [eq_of_beq cr] at controls
        cases controls
      · rw [eq_of_beq lf] at controls
        cases controls
    · exact Nat.pos_iff_ne_zero.mp grammar.shortest
    · exact (Utf16.endsWith_iff text _).mpr grammar.trailing
    · simp only [allowList, Bool.and_eq_true, decide_eq_true_eq, List.all_eq_true]
      exact ⟨⟨grammar.shortest, grammar.longest⟩,
        fun p mem => allowed_iff.mpr (grammar.characters p mem)⟩

end

structure CreativeGate (U : Unicode) (p : Opened) (id : Utf16) (text url : Js)
    (r : Opened × Result Campaign) : Prop where
  stores : (∃ updated, r.2 = .ok updated) ↔ Passes U p id text url
  stored : ∀ updated, r.2 = .ok updated →
    (∃ t u, text = .string t ∧ url = .string u ∧ updated.creative = some ⟨t, Js.trim u⟩) ∧
      updated.id = id ∧
      updated ∈ r.1.store.campaigns ∧ ∀ c ∈ r.1.store.campaigns, c.id = id → c = updated
  refused : ∀ error, r.2 = .error error → r.1 = p
  ids : r.1.store.campaigns.map Campaign.id = p.store.campaigns.map Campaign.id
  others : ∀ (i : Nat) (c : Campaign), p.store.campaigns[i]? = some c → c.id ≠ id →
    r.1.store.campaigns[i]? = some c

theorem set_gate (U : Unicode) (p : Opened) (id : Utf16) (text url : Js) (saved : Bool) :
    CreativeGate U p id text url (p.setCreative U id text url saved) := by
  by_cases passes : Passes U p id text url
  · obtain ⟨there, ⟨t, rfl, accepted⟩, ⟨u, rfl, nonempty⟩⟩ := passes
    obtain ⟨existing, rfl, mem, result⟩ := set_stores saved there accepted nonempty
    have campaigns :=
      persist_store { p with store := { p.store with campaigns := p.store.campaigns.map fun c =>
      if c.id = existing.id then { existing with creative := some ⟨t, Js.trim u⟩ } else c } } saved
    rw [result]
    constructor
    · exact ⟨fun _ => ⟨there, ⟨t, rfl, accepted⟩, ⟨u, rfl, nonempty⟩⟩, fun _ => ⟨_, rfl⟩⟩
    · rintro updated ok
      obtain rfl := Except.ok.inj ok
      rw [campaigns]
      refine ⟨⟨t, u, rfl, rfl, rfl⟩, rfl, List.mem_map.mpr ⟨existing, mem, if_pos rfl⟩, ?_⟩
      intro c after same
      obtain ⟨old, -, rfl⟩ := List.mem_map.mp after
      split
      · rfl
      · rename_i other
        rw [if_neg other] at same
        exact absurd same other
    · rintro error ⟨⟩
    · rw [campaigns, List.map_map]
      apply List.map_congr_left
      intro c _
      rw [Function.comp_apply]
      split
      · rename_i same
        exact same.symm
      · rfl
    · intro i c found other
      rw [campaigns, List.getElem?_map, found, Option.map_some, if_neg other]
  · obtain ⟨error, result⟩ := set_refuses saved passes
    rw [result]
    constructor
    · exact ⟨fun ⟨_, ok⟩ => (nomatch ok), fun passed => absurd passed passes⟩
    · rintro updated ⟨⟩
    · exact fun _ _ => rfl
    · rfl
    · exact fun _ _ found _ => found

/-- The lint accepts exactly its grammar, for strings of any code units, and nothing that a
terminal would take for a command; a creative is stored exactly when it passes. -/
theorem creative_gate (U : Unicode) (separate : U.Separate) :
    (∀ text, lintCreative U text = [] ↔ Grammar U text) ∧
      (∀ text, lintCreative U text = [] → ∀ c, .char c ∈ text.codePoints → isControl c = false ∧
        c ∉ lineBreaks) ∧
      ∀ p id text url saved, CreativeGate U p id text url (p.setCreative U id text url saved) := by
  refine ⟨lint_grammar separate, fun text ok c mem => ?_, set_gate U⟩
  exact ((lint_grammar separate text).mp ok).harmless separate mem

theorem creative_gate_ascii :
    Grammar ⟨Char.isAlpha, Char.isDigit⟩ "ship it ↗" ∧
    ¬ Grammar ⟨Char.isAlpha, Char.isDigit⟩ "ship it! ↗" := by
  have separate : Unicode.Separate ⟨Char.isAlpha, Char.isDigit⟩ := by
    constructor
    · intro c control
      have digit : c.isDigit ≠ true := by
        intro digit
        rw [isControl_digit digit] at control
        cases control
      have alpha : c.isAlpha ≠ true := by
        intro alpha
        rw [isControl_alpha alpha] at control
        cases control
      exact ⟨Bool.not_eq_true _ ▸ alpha, Bool.not_eq_true _ ▸ digit⟩
    · intro c mem
      have plain : separatorChars.all (fun c => !c.isAlpha && !c.isDigit) = true := by decide
      simpa using List.all_eq_true.mp plain c mem
  have lint := (creative_gate ⟨Char.isAlpha, Char.isDigit⟩ separate).1
  constructor
  · exact (lint "ship it ↗").mp (by decide)
  · intro grammar
    exact absurd ((lint "ship it! ↗").mpr grammar) (by decide)

/-- Half of a pair is a code point that no class has. -/
example : lintCreative ⟨Char.isAlpha, Char.isDigit⟩ ⟨[0xD83D, 0x20, 0x2197]⟩ =
    ["charset_not_allowed"] := by decide

end Spnr.Portal
