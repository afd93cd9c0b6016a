import Spnr.Lib.JsonPrint
import Spnr.Lib.JsonRead

/-! Indented JSON texts, and the compact text that is left when the whitespace between
the tokens is dropped. -/
namespace Json

/-- What stands between the tokens: the line break before an item at each depth, and
the blank after a colon. -/
structure Layout where
  gap : Nat → List Char
  colon : List Char

def Layout.pretty : Layout := ⟨fun n => '\n' :: List.replicate (2 * n) ' ', [' ']⟩

def Layout.compact : Layout := ⟨fun _ => [], []⟩

mutual

/-- The text of a value at depth `n`; there is none for a fraction. -/
def print (l : Layout) (n : Nat) : Json → List Char
  | .null => ['n', 'u', 'l', 'l']
  | .bool true => ['t', 'r', 'u', 'e']
  | .bool false => ['f', 'a', 'l', 's', 'e']
  | .int i => (toString i).toList
  | .float _ => []
  | .str s => quote :: escape s.toList ++ [quote]
  | .arr [] => ['[', ']']
  | .arr (v :: vs) => '[' :: printItems l (n + 1) (v :: vs) ++ l.gap n ++ [']']
  | .obj [] => ['\x7b', '\x7d']
  | .obj (m :: ms) => '\x7b' :: printMembers l (n + 1) (m :: ms) ++ l.gap n ++ ['\x7d']

def printItems (l : Layout) (n : Nat) : List Json → List Char
  | [] => []
  | [v] => l.gap n ++ print l n v
  | v :: w :: vs => l.gap n ++ print l n v ++ ',' :: printItems l n (w :: vs)

def printMembers (l : Layout) (n : Nat) : List (String × Json) → List Char
  | [] => []
  | [(k, v)] => l.gap n ++ quote :: escape k.toList ++ quote :: ':' :: l.colon ++ print l n v
  | (k, v) :: m :: ms =>
    l.gap n ++ quote :: escape k.toList ++ quote :: ':' :: l.colon ++ print l n v ++ ',' ::
      printMembers l n (m :: ms)

end

def isBlank (c : Char) : Bool := c == ' ' || c == '\n' || c == '\t' || c == '\r'

/-- Drop the whitespace outside of string literals; `inside` one, everything stays. -/
def squeeze (inside : Bool) : List Char → List Char
  | [] => []
  | c :: cs =>
    if inside then
      if c = quote then c :: squeeze false cs
      else if c = backslash then
        match cs with
        | [] => [c]
        | e :: rest => c :: e :: squeeze true rest
      else c :: squeeze true cs
    else if c = quote then c :: squeeze true cs
    else if isBlank c then squeeze false cs
    else c :: squeeze false cs

theorem squeeze_outside (c : Char) (cs : List Char) : squeeze false (c :: cs) =
    if c = quote then c :: squeeze true cs else if isBlank c then squeeze false cs else c ::
      squeeze false cs := by
  rw [squeeze.eq_def]
  rfl

theorem squeeze_other {c : Char} (notQuote : c ≠ quote) (notBackslash : c ≠ backslash)
    (cs : List Char) : squeeze true (c :: cs) = c :: squeeze true cs := by
  rw [squeeze.eq_def]
  simp [notQuote, notBackslash]

theorem squeeze_blanks {bs : List Char} (blank : ∀ c ∈ bs, isBlank c = true) (rest : List Char) :
    squeeze false (bs ++ rest) = squeeze false rest := by
  induction bs with
  | nil => rfl
  | cons b bs ih =>
    have here := blank b List.mem_cons_self
    have other : b ≠ quote := by
      rintro rfl
      cases here
    rw [List.cons_append, squeeze_outside, if_neg other, if_pos here]
    exact ih fun c mem => blank c (List.mem_cons_of_mem _ mem)

def solid (c : Char) : Bool := !isBlank c && c != quote

theorem squeeze_solid_one {c : Char} (dark : solid c = true) (rest : List Char) :
    squeeze false (c :: rest) = c :: squeeze false rest := by
  simp only [solid, Bool.and_eq_true, Bool.not_eq_true', bne_iff_ne] at dark
  rw [squeeze_outside, if_neg dark.2, if_neg (by simp [dark.1])]

theorem squeeze_solid (ds : List Char) (dark : ds.all solid = true) (rest : List Char) :
    squeeze false (ds ++ rest) = ds ++ squeeze false rest := by
  induction ds with
  | nil => rfl
  | cons d ds ih =>
    rw [List.all_cons, Bool.and_eq_true] at dark
    rw [List.cons_append, squeeze_solid_one dark.1, ih dark.2, List.cons_append]

theorem hexDigit_inside {c : Char} {n : Nat} (h : hexDigit c = some n) : c ≠ quote ∧
    c ≠ backslash := by
  constructor
  · rintro rfl
    cases h
  · rintro rfl
    cases h

theorem squeeze_inside {cs ds : List Char} (literal : Literal cs ds) (rest : List Char) :
    squeeze true (ds ++ quote :: rest) = ds ++ quote :: squeeze false rest := by
  induction literal with
  | nil =>
    rw [List.nil_append, squeeze.eq_def]
    rfl
  | @plain c cs ds plain _ ih =>
    rw [List.cons_append, squeeze_other plain.2.1 plain.2.2, ih, List.cons_append]
  | @short c e cs ds _ _ ih =>
    simp only [List.cons_append]
    rw [squeeze.eq_def]
    simp [backslash_ne_quote, ih]
  | @code c h₁ h₂ h₃ h₄ cs ds hex _ ih =>
    simp only [hexFour, Option.bind_eq_bind, Option.bind_eq_some_iff] at hex
    obtain ⟨_, first, _, second, _, third, _, fourth, _⟩ := hex
    have stay (c : Char) (n : Nat) (digit : hexDigit c = some n) (more : List Char) :
        squeeze true (c :: more) = c :: squeeze true more := by
      obtain ⟨notQuote, notBackslash⟩ := hexDigit_inside digit
      exact squeeze_other notQuote notBackslash more
    simp only [List.cons_append]
    rw [squeeze.eq_def]
    simp [backslash_ne_quote, stay h₁ _ first, stay h₂ _ second, stay h₃ _ third,
      stay h₄ _ fourth, ih]

theorem squeeze_string (s : String) (rest : List Char) :
    squeeze false (quote :: escape s.toList ++ quote :: rest) =
      quote :: escape s.toList ++ quote :: squeeze false rest := by
  rw [List.cons_append, squeeze_outside, if_pos rfl, squeeze_inside (literal_escape s.toList),
    List.cons_append]

theorem digit_solid {c : Char} (digit : c.isDigit = true) : solid c = true := by
  have apart (d : Char) (other : d.isDigit = false) : c ≠ d := by
    rintro rfl
    rw [digit] at other
    cases other
  simp [solid, isBlank, apart ' ' rfl, apart '\n' rfl, apart '\t' rfl, apart '\r' rfl,
    apart quote rfl]

theorem int_solid (i : Int) : (toString i).toList.all solid = true := by
  rw [List.all_eq_true]
  intro c mem
  cases i with
  | ofNat n => exact digit_solid (digits_repr n c mem)
  | negSucc n =>
    rw [negSucc_text] at mem
    rcases List.mem_cons.mp mem with rfl | digit
    · rfl
    · exact digit_solid (digits_repr _ c digit)

structure Layout.Blank (l : Layout) : Prop where
  gap : ∀ n, ∀ c ∈ l.gap n, isBlank c = true
  colon : ∀ c ∈ l.colon, isBlank c = true

theorem Layout.pretty_blank : Layout.pretty.Blank := by
  constructor
  · intro n c mem
    rcases List.mem_cons.mp mem with rfl | blank
    · rfl
    · rw [(List.mem_replicate.mp blank).2]
      rfl
  · intro c mem
    rw [List.mem_singleton.mp mem]
    rfl

mutual

theorem squeeze_print {l : Layout} (blank : l.Blank) (n : Nat) (v : Json) (rest : List Char) :
    squeeze false (print l n v ++ rest) = print .compact n v ++ squeeze false rest := by
  match v with
  | .null => exact squeeze_solid ['n', 'u', 'l', 'l'] rfl rest
  | .bool true => exact squeeze_solid ['t', 'r', 'u', 'e'] rfl rest
  | .bool false => exact squeeze_solid ['f', 'a', 'l', 's', 'e'] rfl rest
  | .int i => exact squeeze_solid _ (int_solid i) rest
  | .float _ => rfl
  | .str s =>
    have text := squeeze_string s rest
    simpa [print] using text
  | .arr [] => exact squeeze_solid ['[', ']'] rfl rest
  | .arr (v :: vs) =>
    have items := squeeze_items blank (n + 1) (v :: vs) (l.gap n ++ ']' :: rest)
    simp only [print, List.cons_append, List.append_assoc, List.nil_append]
    rw [squeeze_solid_one rfl, items, squeeze_blanks (blank.gap n), squeeze_solid_one rfl]
    rfl
  | .obj [] => exact squeeze_solid ['\x7b', '\x7d'] rfl rest
  | .obj (m :: ms) =>
    have members := squeeze_members blank (n + 1) (m :: ms) (l.gap n ++ '\x7d' :: rest)
    simp only [print, List.cons_append, List.append_assoc, List.nil_append]
    rw [squeeze_solid_one rfl, members, squeeze_blanks (blank.gap n), squeeze_solid_one rfl]
    rfl

theorem squeeze_items {l : Layout} (blank : l.Blank) (n : Nat) (vs : List Json) (rest : List Char) :
    squeeze false (printItems l n vs ++ rest) = printItems .compact n vs ++ squeeze false rest := by
  match vs with
  | [] => rfl
  | [v] =>
    simp only [printItems, List.append_assoc]
    rw [squeeze_blanks (blank.gap n), squeeze_print blank n v rest]
    rfl
  | v :: w :: vs =>
    have others := squeeze_items blank n (w :: vs) rest
    simp only [printItems, List.append_assoc, List.cons_append]
    rw [squeeze_blanks (blank.gap n), squeeze_print blank n v, squeeze_solid_one rfl, others]
    rfl

theorem squeeze_members {l : Layout} (blank : l.Blank) (n : Nat) (ms : List (String × Json))
    (rest : List Char) :
    squeeze false (printMembers l n ms ++ rest) = printMembers .compact n ms ++
      squeeze false rest := by
  match ms with
  | [] => rfl
  | [(k, v)] =>
    have key := squeeze_string k (':' :: (l.colon ++ (print l n v ++ rest)))
    simp only [printMembers, List.append_assoc, List.cons_append] at key ⊢
    rw [squeeze_blanks (blank.gap n), key, squeeze_solid_one rfl, squeeze_blanks blank.colon,
      squeeze_print blank n v rest]
    rfl
  | (k, v) :: m :: ms =>
    have others := squeeze_members blank n (m :: ms) rest
    have key := squeeze_string k
      (':' :: (l.colon ++ (print l n v ++ ',' :: (printMembers l n (m :: ms) ++ rest))))
    simp only [printMembers, List.append_assoc, List.cons_append] at key ⊢
    rw [squeeze_blanks (blank.gap n), key, squeeze_solid_one rfl, squeeze_blanks blank.colon,
      squeeze_print blank n v, squeeze_solid_one rfl, others]
    rfl

end

end Json
