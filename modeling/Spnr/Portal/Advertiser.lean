import Spnr.Lib.Js
import Spnr.Portal.Grammar

/-! The content lint that the advertiser page runs in the browser (`Advertiser.tsx`), and the
texts on which it and the portal's own disagree. -/
namespace Spnr.Portal

def space : UInt16 := 0x20
def arrow : UInt16 := 0x2197

def ALLOWED_CHARSET (u : UInt16) : Bool :=
  (0x20 ≤ u.toNat && u.toNat ≤ 0x7e) || [0x2197, 0x2014, 0xb7, 0x2026, 0xe9].contains u

def lenOk (creativeText : Utf16) : Bool :=
  creativeText.units.length ≤ 48 && 0 < creativeText.units.length

def charsOk (creativeText : Utf16) : Bool := creativeText.units.all ALLOWED_CHARSET

def arrowOk (creativeText : Utf16) : Bool :=
  [arrow].isSuffixOf (Js.trim creativeText).units && creativeText.units.count arrow == 1

def allOk (creativeText : Utf16) : Bool :=
  lenOk creativeText && charsOk creativeText && arrowOk creativeText

/-- The classes `\p{L}` and `\p{N}` on the characters of the page's class: in ASCII they are the
letters and the digits, and `é` is a letter. -/
structure Unicode.Latin (U : Unicode) : Prop where
  ascii : ∀ c : Char, c.toNat < 0x80 → U.letter c = c.isAlpha ∧ U.number c = c.isDigit
  accented : U.letter 'é' = true
  symbols : ∀ c ∈ ['↗', '—', '·', '…'], U.letter c = false ∧ U.number c = false

def pageOnly : List Char :=
  ['!', '\x22', '#', '$', '%', '(', ')', '*', ';', '<', '=', '>', '?', '@', '[', '\x5c', ']', '^',
    '_', '\x60', '\x7b', '|', '\x7d', '~', '·', '…']

/-- A line of the page: an arrow with only spaces behind it. -/
structure PageLine (text : Utf16) (head : List UInt16) (after : Nat) : Prop where
  line : text.units = head ++ arrow :: List.replicate after space
  once : arrow ∉ head
  longest : text.units.length ≤ 48
  charset : ∀ u ∈ head, ALLOWED_CHARSET u = true

theorem PageLine.unit {text : Utf16} {head : List UInt16} {after : Nat}
    (page : PageLine text head after) {u : UInt16}
    (mem : u ∈ text.units) : u ∈ head ∨ u = arrow ∨ u = space := by
  rw [page.line] at mem
  rcases List.mem_append.mp mem with front | back
  · exact .inl front
  · rcases List.mem_cons.mp back with rfl | blank
    · exact .inr (.inl rfl)
    · exact .inr (.inr (List.eq_of_mem_replicate blank))

theorem PageLine.listed {text : Utf16} {head : List UInt16} {after : Nat}
    (page : PageLine text head after) : ∀ u ∈ text.units, ALLOWED_CHARSET u = true := by
  intro u mem
  rcases page.unit mem with front | rfl | rfl
  · exact page.charset u front
  · decide
  · decide

theorem charset_space {u : UInt16} (listed : ALLOWED_CHARSET u = true)
    (blank : Js.isSpace u = true) : u = space := by
  rcases (Bool.or_eq_true _ _).mp listed with ascii | other
  · simp only [Bool.and_eq_true, decide_eq_true_eq] at ascii
    simp only [Js.isSpace, Bool.or_eq_true, Bool.and_eq_true, decide_eq_true_eq,
      beq_iff_eq] at blank
    apply UInt16.toNat_inj.mp
    change u.toNat = 0x20
    omega
  · have visible : [0x2197, 0x2014, 0xb7, 0x2026, 0xe9].all (fun u => !Js.isSpace u) = true := by
      decide
    have seen := List.all_eq_true.mp visible u (List.contains_iff_mem.mp other)
    rw [blank] at seen
    cases seen

theorem allOk_iff (text : Utf16) : allOk text = true ↔ ∃ head after, PageLine text head after := by
  simp only [allOk, lenOk, charsOk, arrowOk, Bool.and_eq_true, decide_eq_true_eq, List.all_eq_true,
    List.isSuffixOf_iff_suffix, Js.trim_endsWith (show Js.isSpace arrow = false by decide),
      beq_iff_eq]
  constructor
  · rintro ⟨⟨⟨longest, -⟩, charset⟩, ⟨head, back, line, blank⟩, once⟩
    have spaces : back = List.replicate back.length space := by
      apply List.eq_replicate_of_mem
      intro u mem
      apply charset_space (charset u _) (blank u mem)
      rw [line]
      exact List.mem_append_right _ (List.mem_cons_of_mem _ mem)
    rw [line, List.count_append, List.count_cons_self] at once
    have before : head.count arrow = 0 := by omega
    refine ⟨head, back.length, ?_, List.count_eq_zero.mp before, longest, ?_⟩
    · rw [line, ← spaces]
    · intro u mem
      apply charset
      rw [line]
      exact List.mem_append_left _ mem
  · rintro ⟨head, after, page⟩
    refine ⟨⟨⟨page.longest, ?_⟩, page.listed⟩, ⟨head, _, page.line, ?_⟩, ?_⟩
    · rw [page.line, List.length_append, List.length_cons]
      omega
    · intro u mem
      rw [List.eq_of_mem_replicate mem]
      decide
    · have none : (List.replicate after space).count arrow = 0 := by
        rw [List.count_replicate]
        rfl
      rw [page.line, List.count_append, List.count_cons_self,
        List.count_eq_zero.mpr page.once, none]

theorem charset_plain {u : UInt16} (listed : ALLOWED_CHARSET u = true) :
    Utf16.isSurrogate u = false := by
  rcases (Bool.or_eq_true _ _).mp listed with ascii | other
  · simp only [Bool.and_eq_true, decide_eq_true_eq] at ascii
    simp only [Utf16.isSurrogate, Bool.and_eq_false_iff, decide_eq_false_iff_not]
    omega
  · have plain : [0x2197, 0x2014, 0xb7, 0x2026, 0xe9].all (fun u => !Utf16.isSurrogate u) =
      true := by decide
    simpa using List.all_eq_true.mp plain u (List.contains_iff_mem.mp other)

theorem PageLine.codePoints {text : Utf16} {head : List UInt16} {after : Nat}
    (page : PageLine text head after) : text.codePoints = text.units.map Utf16.single :=
  Utf16.decode_plains fun u mem => charset_plain (page.listed u mem)

/-- A line of the portal: an arrow at the end, behind a space. -/
structure ServerLine (U : Unicode) (text : Utf16) (head : List Utf16.CodePoint) : Prop where
  line : text.codePoints = head ++ [.char ' ', .char ARROW]
  once : .char ARROW ∉ head
  longest : text.codePoints.length ≤ 48
  characters : ∀ p ∈ head, ∃ c, p = .char c ∧
    (U.letter c = true ∨ U.number c = true ∨ c = ' ' ∨ c ∈ punctuation)

theorem grammar_iff (U : Unicode) (text : Utf16) : Grammar U text ↔
    ∃ head, ServerLine U text head := by
  constructor
  · intro grammar
    obtain ⟨head, line⟩ := grammar.trailing
    have once := grammar.once
    rw [← line, List.count_append] at once
    have last : [Utf16.CodePoint.char ' ', .char ARROW].count (.char ARROW) = 1 := by decide
    refine ⟨head, line.symm, List.count_eq_zero.mp (by omega), grammar.longest, ?_⟩
    intro p mem
    apply grammar.characters
    rw [← line]
    exact List.mem_append_left _ mem
  · rintro ⟨head, line, once, longest, characters⟩
    have last : [Utf16.CodePoint.char ' ', .char ARROW].count (.char ARROW) = 1 := by decide
    constructor
    · rw [line, List.length_append]
      exact Nat.le_add_left 1 (head.length + 1)
    · exact longest
    · intro p mem
      rw [line] at mem
      rcases List.mem_append.mp mem with front | back
      · exact characters p front
      · rcases List.mem_cons.mp back with rfl | back
        · exact ⟨' ', rfl, .inr (.inr (.inl rfl))⟩
        · obtain rfl := List.mem_singleton.mp back
          exact ⟨ARROW, rfl, .inr (.inr (.inr (by decide)))⟩
    · exact ⟨head, line.symm⟩
    · rw [line, List.count_append, List.count_eq_zero.mpr once, last]

theorem ascii_table : (List.range' 0x20 0x5f).all (fun n =>
    ((Char.ofNat n).isAlpha || (Char.ofNat n).isDigit || Char.ofNat n == ' ' || punctuation.contains
      (Char.ofNat n)) ==
      !pageOnly.contains (Char.ofNat n)) = true := by decide

theorem unit_cases {u : UInt16} (listed : ALLOWED_CHARSET u = true) :
    (0x20 ≤ u.toNat ∧ u.toNat ≤ 0x7e ∧ (Char.ofNat u.toNat).toNat = u.toNat) ∨
    Char.ofNat u.toNat ∈ ['↗', '—', '·', '…', 'é'] := by
  rcases (Bool.or_eq_true _ _).mp listed with ascii | other
  · simp only [Bool.and_eq_true, decide_eq_true_eq] at ascii
    have valid : u.toNat.isValidChar := .inl (by omega)
    exact .inl ⟨ascii.1, ascii.2, Utf16.toNat_ofNat valid⟩
  · have chars : [0x2197, 0x2014, 0xb7, 0x2026, 0xe9].all (fun u : UInt16 =>
        ['↗', '—', '·', '…', 'é'].contains (Char.ofNat u.toNat)) = true := by decide
    exact .inr
      (List.contains_iff_mem.mp (List.all_eq_true.mp chars u (List.contains_iff_mem.mp other)))

theorem single_listed {u : UInt16} (listed : ALLOWED_CHARSET u = true) :
    Utf16.single u = .char (Char.ofNat u.toNat) := by
  rw [Utf16.single, charset_plain listed, if_neg Bool.false_ne_true]

theorem spaced_suffix (head : List UInt16) (after : Nat) :
    [space, arrow] <:+ head ++ arrow :: List.replicate after space ↔ after = 0 ∧
    [space] <:+ head := by
  cases after with
  | zero =>
    rw [List.replicate_zero]
    constructor
    · rintro ⟨front, same⟩
      rw [List.append_cons] at same
      exact ⟨rfl, front, List.append_cancel_right same⟩
    · rintro ⟨-, front, rfl⟩
      refine ⟨front, ?_⟩
      rw [List.append_assoc]
      rfl
  | succ n =>
    constructor
    · rintro ⟨front, same⟩
      rw [List.replicate_succ', List.append_cons, ← List.cons_append, ← List.append_assoc] at same
      cases List.append_inj_right' same rfl
    · rintro ⟨none, -⟩
      cases none

theorem singles {ps : List Utf16.CodePoint}
    (each : ∀ p ∈ ps, ∃ u, ALLOWED_CHARSET u = true ∧ p = Utf16.single u) :
    ∃ us : List UInt16, ps = us.map Utf16.single ∧ ∀ u ∈ us, ALLOWED_CHARSET u = true := by
  induction ps with
  | nil => exact ⟨[], rfl, fun u mem => absurd mem List.not_mem_nil⟩
  | cons p ps ih =>
    obtain ⟨u, listed, rfl⟩ := each p List.mem_cons_self
    obtain ⟨us, rfl, all⟩ := ih fun q mem => each q (List.mem_cons_of_mem _ mem)
    refine ⟨u :: us, rfl, ?_⟩
    intro v mem
    rcases List.mem_cons.mp mem with rfl | rest
    · exact listed
    · exact all v rest

section

variable {U : Unicode} (latin : U.Latin)
include latin

theorem listed_unit {u : UInt16} (listed : ALLOWED_CHARSET u = true) :
    (U.letter (Char.ofNat u.toNat) = true ∨ U.number (Char.ofNat u.toNat) = true ∨
      Char.ofNat u.toNat = ' ' ∨
      Char.ofNat u.toNat ∈ punctuation) ↔ Char.ofNat u.toNat ∉ pageOnly := by
  rcases unit_cases listed with ⟨low, high, code⟩ | other
  · obtain ⟨letters, numbers⟩ := latin.ascii (Char.ofNat u.toNat) (by omega)
    have entry := List.all_eq_true.mp ascii_table u.toNat (List.mem_range'_1.mpr ⟨low, by omega⟩)
    rw [letters, numbers]
    rw [beq_iff_eq, Bool.eq_iff_iff] at entry
    simpa only [Bool.or_eq_true, beq_iff_eq, List.contains_eq_mem, decide_eq_true_eq,
      Bool.not_eq_true', decide_eq_false_iff_not, or_assoc] using entry
  · generalize Char.ofNat u.toNat = c at other
    simp only [List.mem_cons, List.not_mem_nil, or_false] at other
    rcases other with rfl | rfl | rfl | rfl | rfl
    · exact iff_of_true (.inr (.inr (.inr (by decide)))) (by decide)
    · exact iff_of_true (.inr (.inr (.inr (by decide)))) (by decide)
    · obtain ⟨letter, number⟩ := latin.symbols '·' (by decide)
      rw [letter, number]
      exact iff_of_false (by decide) (by decide)
    · obtain ⟨letter, number⟩ := latin.symbols '…' (by decide)
      rw [letter, number]
      exact iff_of_false (by decide) (by decide)
    · exact iff_of_true (.inl latin.accented) (by decide)

theorem PageLine.grammar {text : Utf16} {head : List UInt16} {after : Nat}
    (page : PageLine text head after) :
    Grammar U text ↔ after = 0 ∧ [space] <:+ head ∧ ∀ u ∈ head, Char.ofNat u.toNat ∉ pageOnly := by
  have codePoints := page.codePoints
  have units : (Utf16.ofString (String.ofList [' ', ARROW])).units = [space, arrow] := by decide
  have ending := Utf16.endsWith_iff text (String.ofList [' ', ARROW])
  rw [units, page.line, spaced_suffix, String.toList_ofList] at ending
  have size : text.codePoints.length = text.units.length := by rw [codePoints, List.length_map]
  constructor
  · intro grammar
    obtain ⟨last, spaced⟩ := ending.mpr grammar.trailing
    refine ⟨last, spaced, ?_⟩
    intro u mem
    have listed := page.charset u mem
    have there : Utf16.single u ∈ text.codePoints := by
      rw [codePoints, page.line]
      exact List.mem_map_of_mem (List.mem_append_left _ mem)
    rw [single_listed listed] at there
    obtain ⟨c, same, allowed⟩ := grammar.characters _ there
    rw [← Utf16.CodePoint.char.inj same] at allowed
    exact (listed_unit latin listed).mp allowed
  · rintro ⟨last, spaced, shared⟩
    constructor
    · rw [size, page.line, List.length_append, List.length_cons]
      omega
    · rw [size]
      exact page.longest
    · intro p mem
      rw [codePoints] at mem
      obtain ⟨u, there, rfl⟩ := List.mem_map.mp mem
      have listed := page.listed u there
      refine ⟨_, single_listed listed, (listed_unit latin listed).mpr ?_⟩
      rcases page.unit there with front | rfl | rfl
      · exact shared u front
      · decide
      · decide
    · exact ending.mp ⟨last, spaced⟩
    · have point : Utf16.CodePoint.char ARROW = Utf16.single arrow := by decide
      rw [codePoints, page.line, last, List.map_append, List.count_append, point]
      have before : (head.map Utf16.single).count (Utf16.single arrow) = 0 := by
        apply List.count_eq_zero.mpr
        intro mem
        obtain ⟨u, there, same⟩ := List.mem_map.mp mem
        have units := congrArg Utf16.encode same
        rw [Utf16.encode_single, Utf16.encode_single] at units
        rw [List.cons.inj units |>.1] at there
        exact page.once there
      rw [before]
      rfl

theorem narrow_unit {c : Char}
    (listed : U.letter c = true ∨ U.number c = true ∨ c = ' ' ∨ c ∈ punctuation)
    (narrow : 0x80 ≤ c.toNat → c ≠ 'é' → ¬ (U.letter c = true ∨ U.number c = true)) :
    ∃ u, ALLOWED_CHARSET u = true ∧ Utf16.CodePoint.char c = Utf16.single u := by
  have unit (small : c.toNat < 0x10000) (there : ALLOWED_CHARSET (UInt16.ofNat c.toNat) = true) :
      ∃ u, ALLOWED_CHARSET u = true ∧ Utf16.CodePoint.char c = Utf16.single u :=
    ⟨_, there, (Utf16.single_unit small).symm⟩
  rw [← or_assoc] at listed
  rcases listed with word | other
  · by_cases wide : 0x80 ≤ c.toNat
    · by_cases accented : c = 'é'
      · subst accented
        exact unit (by decide) (by decide)
      · exact absurd word (narrow wide accented)
    · obtain ⟨letters, numbers⟩ := latin.ascii c (Nat.not_le.mp wide)
      have low : 0x30 ≤ c.toNat ∧ c.toNat ≤ 0x7a := by
        rw [letters, numbers] at word
        have range := Ascii.alphanum_range ((Bool.or_eq_true _ _).mpr word)
        omega
      apply unit (by omega)
      rw [ALLOWED_CHARSET, Utf16.toNat_unit (by omega), Bool.or_eq_true]
      left
      rw [Bool.and_eq_true, decide_eq_true_eq, decide_eq_true_eq]
      omega
  · have chars : (' ' :: punctuation).all
      (fun c => decide (c.toNat < 0x10000) && ALLOWED_CHARSET (UInt16.ofNat c.toNat)) = true := by
      decide
    have there := List.all_eq_true.mp chars c (List.mem_cons.mpr other)
    rw [Bool.and_eq_true, decide_eq_true_eq] at there
    exact unit there.1 there.2

theorem wide_word {u : UInt16} (listed : ALLOWED_CHARSET u = true)
    (wide : 0x80 ≤ (Char.ofNat u.toNat).toNat) (other : Char.ofNat u.toNat ≠ 'é') :
    ¬ (U.letter (Char.ofNat u.toNat) = true ∨ U.number (Char.ofNat u.toNat) = true) := by
  rcases unit_cases listed with ⟨-, high, code⟩ | symbol
  · omega
  · have special : Char.ofNat u.toNat ∈ ['↗', '—', '·', '…'] := by
      generalize Char.ofNat u.toNat = c at *
      simp only [List.mem_cons, List.not_mem_nil, or_false] at symbol ⊢
      tauto
    obtain ⟨letter, number⟩ := latin.symbols _ special
    rw [letter, number]
    decide

omit latin in
theorem ServerLine.pageLine {text : Utf16} {front : List UInt16}
    (server : ServerLine U text (front.map Utf16.single))
    (listed : ∀ u ∈ front, ALLOWED_CHARSET u = true) : PageLine text (front ++ [space]) 0 := by
  have points : text.codePoints = (front ++ [space, arrow]).map Utf16.single := by
    rw [server.line, List.map_append]
    apply congrArg (front.map Utf16.single ++ ·)
    decide
  have units : text.units = front ++ [space, arrow] := by
    have encoded := Utf16.encode_decode text.units
    change text.codePoints.flatMap Utf16.encode = text.units at encoded
    rw [← encoded, points, List.flatMap_map]
    simp only [Utf16.encode_single, List.flatMap_singleton']
  constructor
  · rw [units, List.append_assoc]
    rfl
  · intro mem
    rcases List.mem_append.mp mem with before | last
    · apply server.once
      exact List.mem_map.mpr ⟨arrow, before, by decide⟩
    · cases List.mem_singleton.mp last
  · have longest := server.longest
    rw [points, List.length_map, ← units] at longest
    exact longest
  · intro u mem
    rcases List.mem_append.mp mem with before | last
    · exact listed u before
    · rw [List.mem_singleton.mp last]
      decide

theorem ServerLine.page {text : Utf16} {head : List Utf16.CodePoint}
    (server : ServerLine U text head) : (∃ front after, PageLine text front after) ↔
      ∀ c, .char c ∈ head → 0x80 ≤ c.toNat → c ≠ 'é' →
      ¬ (U.letter c = true ∨ U.number c = true) := by
  constructor
  · rintro ⟨front, after, page⟩ c mem wide other
    have there : .char c ∈ text.codePoints := by
      rw [server.line]
      exact List.mem_append_left _ mem
    rw [page.codePoints] at there
    obtain ⟨u, unit, same⟩ := List.mem_map.mp there
    have listed := page.listed u unit
    rw [single_listed listed] at same
    obtain rfl := Utf16.CodePoint.char.inj same
    exact wide_word latin listed wide other
  · intro narrow
    have each : ∀ p ∈ head, ∃ u, ALLOWED_CHARSET u = true ∧ p = Utf16.single u := by
      intro p mem
      obtain ⟨c, rfl, allowed⟩ := server.characters p mem
      exact narrow_unit latin allowed (narrow c mem)
    obtain ⟨front, rfl, listed⟩ := singles each
    exact ⟨front ++ [space], 0, server.pageLine listed⟩

end

/-- A text that only the page accepts: something comes after the arrow, no space comes before it, or
a character that is not on the portal's list does. -/
structure PageAlone (text : Utf16) (head : List UInt16) (after : Nat) :
    Prop extends PageLine text head after where
  off : 0 < after ∨ ¬ [space] <:+ head ∨ ∃ u ∈ head, Char.ofNat u.toNat ∈ pageOnly

/-- A text that only the portal accepts: it has a letter or a number outside
ASCII other than `é`. -/
structure ServerAlone (U : Unicode) (text : Utf16) (head : List Utf16.CodePoint) : Prop
    extends ServerLine U text head where
  off : ∃ c, .char c ∈ head ∧ 0x80 ≤ c.toNat ∧ c ≠ 'é' ∧ (U.letter c = true ∨ U.number c = true)

/-- The lint of the browser and that of the portal agree exactly on the texts that are neither a
line of the page off the portal's rules nor a line of the portal off the page's. -/
theorem lints_agree (U : Unicode) (separate : U.Separate) (latin : U.Latin) (text : Utf16) :
    (allOk text = true ↔ lintCreative U text = []) ↔
      (∀ head after, ¬ PageAlone text head after) ∧ ∀ head, ¬ ServerAlone U text head := by
  rw [allOk_iff, lint_grammar separate]
  constructor
  · intro agree
    constructor
    · rintro head after ⟨page, off⟩
      obtain ⟨last, spaced, shared⟩ := (page.grammar latin).mp (agree.mp ⟨head, after, page⟩)
      rcases off with behind | unspaced | ⟨u, mem, only⟩
      · omega
      · exact unspaced spaced
      · exact shared u mem only
    · rintro head ⟨server, c, mem, wide, other, word⟩
      have page := agree.mpr ((grammar_iff U text).mpr ⟨head, server⟩)
      exact (server.page latin).mp page c mem wide other word
  · rintro ⟨noPage, noServer⟩
    constructor
    · rintro ⟨head, after, page⟩
      have on : ¬ (0 < after ∨ ¬ [space] <:+ head ∨ ∃ u ∈ head, Char.ofNat u.toNat ∈ pageOnly) :=
        fun off => noPage head after ⟨page, off⟩
      rw [not_or, not_or, not_not] at on
      obtain ⟨last, spaced, shared⟩ := on
      exact (page.grammar latin).mpr ⟨by omega, spaced, fun u mem only => shared ⟨u, mem, only⟩⟩
    · intro grammar
      obtain ⟨head, server⟩ := (grammar_iff U text).mp grammar
      apply (server.page latin).mpr
      intro c mem wide other word
      exact noServer head ⟨server, c, mem, wide, other, word⟩

def western : Unicode := ⟨fun c => c.isAlpha || ['é', 'ü'].contains c, Char.isDigit⟩

theorem western_separate : western.Separate := by
  have accented : ['é', 'ü'].all (fun c => !isControl c) = true := by decide
  have separators : separatorChars.all (fun c => !western.letter c && !western.number c) =
    true := by decide
  constructor
  · intro c control
    simp only [western, Bool.or_eq_false_iff]
    refine ⟨⟨?_, ?_⟩, ?_⟩
    · by_contra alpha
      rw [isControl_alpha (Bool.not_eq_false _ ▸ alpha)] at control
      cases control
    · by_contra letter
      have plain :=
        List.all_eq_true.mp accented c (List.contains_iff_mem.mp (Bool.not_eq_false _ ▸ letter))
      rw [control] at plain
      cases plain
    · by_contra digit
      rw [isControl_digit (Bool.not_eq_false _ ▸ digit)] at control
      cases control
  · intro c mem
    simpa using List.all_eq_true.mp separators c mem

theorem western_latin : western.Latin := by
  constructor
  · intro c ascii
    have plain : ['é', 'ü'].contains c = false := by
      by_contra letter
      have wide : ['é', 'ü'].all (fun c => decide (0x80 ≤ c.toNat)) = true := by decide
      have large := of_decide_eq_true
        (List.all_eq_true.mp wide c (List.contains_iff_mem.mp (Bool.not_eq_false _ ▸ letter)))
      omega
    simp only [western, plain, Bool.or_false, and_self]
  · decide
  · have plain : ['↗', '—', '·', '…'].all (fun c => !western.letter c && !western.number c) =
      true := by decide
    intro c mem
    simpa using List.all_eq_true.mp plain c mem

theorem lints_agree_plain :
    (∀ head after, ¬ PageAlone "ship it ↗" head after) ∧
    ∀ head, ¬ ServerAlone western "ship it ↗" head :=
  (lints_agree western western_separate western_latin "ship it ↗").mp (by decide)

/-- The page takes an exclamation mark and the portal does not; with `ü` it
is the other way round. -/
theorem lints_disagree :
    (allOk "ship it! ↗" = true ∧ lintCreative western "ship it! ↗" = ["charset_not_allowed"]) ∧
      (allOk "Müller ↗" = false ∧ lintCreative western "Müller ↗" = []) ∧
      ¬ ∀ text : Utf16, (allOk text = true ↔ lintCreative western text = []) := by
  refine ⟨by decide, by decide, ?_⟩
  intro agree
  have accepted := (agree "ship it! ↗").mp (by decide)
  exact absurd accepted (by decide)

end Spnr.Portal
