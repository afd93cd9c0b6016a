import Spnr.Lib.JsonPretty

/-! JSON texts as RFC 8259 has them: a tree with all its whitespace and with the content
of each string as it is written. -/
namespace Json

inductive Raw : List Char → Prop where
  | nil : Raw []
  | plain {c : Char} {cs : List Char} : Plain c → Raw cs → Raw (c :: cs)
  | short {e : Char} {cs : List Char} : (shortEscape e).isSome → Raw cs → Raw (backslash :: e :: cs)
  | code {h₁ h₂ h₃ h₄ : Char} {cs : List Char} :
      (∀ h ∈ [h₁, h₂, h₃, h₄], (hexDigit h).isSome) → Raw cs →
      Raw (backslash :: 'u' :: h₁ :: h₂ :: h₃ :: h₄ :: cs)

def quoted (raw : List Char) : List Char := quote :: raw ++ [quote]

def Digits (ds : List Char) : Prop := ds ≠ [] ∧ ∀ d ∈ ds, d.isDigit = true

structure Number where
  minus : Bool
  int : List Char
  frac : Option (List Char)
  exp : Option (Char × List Char × List Char)
  int_digits : Digits int
  no_zero : int = ['0'] ∨ int.head? ≠ some '0'
  frac_digits : ∀ ds ∈ frac, Digits ds
  exp_digits : ∀ e ∈ exp, (e.1 = 'e' ∨ e.1 = 'E') ∧ (e.2.1 = [] ∨ e.2.1 = ['+'] ∨ e.2.1 = ['-']) ∧
    Digits e.2.2

def Number.text (n : Number) : List Char :=
  (if n.minus then ['-'] else []) ++ n.int ++ (n.frac.map ('.' :: ·)).getD [] ++
    (n.exp.map fun e => e.1 :: e.2.1 ++ e.2.2).getD []

def Number.value (n : Number) : Int :=
  if n.minus then -(Nat.ofDigitChars 10 n.int 0 : Nat) else (Nat.ofDigitChars 10 n.int 0 : Nat)

theorem no_digits : ∀ ds ∈ (none : Option (List Char)), Digits ds := by
  rintro ds (_ | _)

structure Number.IsInt (n : Number) : Prop where
  frac : n.frac = none
  exp : n.exp = none

def Number.natural {ds : List Char} (digits : Digits ds)
    (no_zero : ds = ['0'] ∨ ds.head? ≠ some '0') : Number :=
  ⟨false, ds, none, none, digits, no_zero, no_digits, by rintro e (_ | _)⟩

inductive Atom : List Char → Prop where
  | null : Atom ['n', 'u', 'l', 'l']
  | true : Atom ['t', 'r', 'u', 'e']
  | false : Atom ['f', 'a', 'l', 's', 'e']
  | number (n : Number) : Atom n.text

inductive Bracket where
  | square | curly
  deriving DecidableEq

def Bracket.opens : Bracket → Char
  | .square => '['
  | .curly => '\x7b'

def Bracket.closes : Bracket → Char
  | .square => ']'
  | .curly => '\x7d'

structure Name where
  raw : List Char
  before : List Char
  after : List Char

mutual

inductive Tree where
  | atom (token : List Char)
  | str (raw : List Char)
  | empty (b : Bracket) (blank : List Char)
  | group (b : Bracket) (entries : Entries)

inductive Entries where
  | one (before : List Char) (name : Option Name) (value : Tree) (after : List Char)
  | more (before : List Char) (name : Option Name) (value : Tree) (after : List Char)
      (rest : Entries)

end

def Name.render : Option Name → List Char
  | none => []
  | some name => quoted name.raw ++ name.before ++ ':' :: name.after

mutual

def Tree.render : Tree → List Char
  | .atom token => token
  | .str raw => quoted raw
  | .empty b blank => b.opens :: blank ++ [b.closes]
  | .group b entries => b.opens :: entries.render ++ [b.closes]

def Entries.render : Entries → List Char
  | .one before name value after => before ++ Name.render name ++ value.render ++ after
  | .more before name value after rest => before ++ Name.render name ++ value.render ++ after ++
      ',' :: rest.render

end

def Blanks (cs : List Char) : Prop := ∀ c ∈ cs, isBlank c = true

structure Name.Valid (b : Bracket) (name : Option Name) : Prop where
  named : name.isSome ↔ b = .curly
  raw : ∀ n ∈ name, Raw n.raw
  before : ∀ n ∈ name, Blanks n.before
  after : ∀ n ∈ name, Blanks n.after

mutual

def Tree.Valid : Tree → Prop
  | .atom token => Atom token
  | .str raw => Raw raw
  | .empty _ blank => Blanks blank
  | .group b entries => entries.Valid b

def Entries.Valid (b : Bracket) : Entries → Prop
  | .one before name value after => Blanks before ∧ Name.Valid b name ∧ value.Valid ∧ Blanks after
  | .more before name value after rest =>
    Blanks before ∧ Name.Valid b name ∧ value.Valid ∧ Blanks after ∧ rest.Valid b

end

def Tree.IsObject : Tree → Prop
  | .empty b _ => b = .curly
  | .group b _ => b = .curly
  | _ => False

structure JsonText where
  before : List Char
  tree : Tree
  after : List Char
  before_blank : Blanks before
  valid : tree.Valid
  after_blank : Blanks after

def JsonText.text (t : JsonText) : String := String.ofList (t.before ++ t.tree.render ++ t.after)

structure ObjectText extends JsonText where
  object : tree.IsObject

/-- Plain characters and pairs of a backslash and an ASCII character: the content of a
string for a reader that knows no escapes. -/
inductive Paired : List Char → Prop where
  | nil : Paired []
  | plain {c : Char} {cs : List Char} : c ≠ quote → c ≠ backslash → Paired cs → Paired (c :: cs)
  | pair {e : Char} {cs : List Char} : e.toNat < 128 → Paired cs → Paired (backslash :: e :: cs)

theorem shortEscape_ascii {e : Char} (escape : (shortEscape e).isSome) : e.toNat < 128 := by
  unfold shortEscape at escape
  split at escape
  case h_9 => cases escape
  all_goals decide

theorem hexDigit_plain {h : Char} (digit : (hexDigit h).isSome) : h ≠ quote ∧ h ≠ backslash := by
  obtain ⟨n, digit⟩ := Option.isSome_iff_exists.mp digit
  exact hexDigit_inside digit

theorem raw_paired {raw : List Char} (content : Raw raw) : Paired raw := by
  induction content with
  | nil => exact .nil
  | plain plain _ ih => exact .plain plain.2.1 plain.2.2 ih
  | short escape _ ih => exact .pair (shortEscape_ascii escape) ih
  | @code h₁ h₂ h₃ h₄ cs digits _ ih =>
    apply Paired.pair (by decide)
    have step {h : Char} (mem : h ∈ [h₁, h₂, h₃, h₄]) {cs : List Char} (paired : Paired cs) :
      Paired (h :: cs) := by
      obtain ⟨notQuote, notSlash⟩ := hexDigit_plain (digits h mem)
      exact .plain notQuote notSlash paired
    apply step (by simp)
    apply step (by simp)
    apply step (by simp)
    apply step (by simp)
    exact ih

theorem raw_append {u w : List Char} (plain : u.all (fun c => decide (Plain c)) = true)
    (content : Raw w) : Raw (u ++ w) := by
  induction u with
  | nil => exact content
  | cons c u ih =>
    rw [List.all_cons, Bool.and_eq_true, decide_eq_true_eq] at plain
    exact .plain plain.1 (ih plain.2)

theorem raw_plain {cs : List Char} (plain : cs.all (fun c => decide (Plain c)) = true) :
    Raw cs := by
  have whole := raw_append plain .nil
  rw [List.append_nil] at whole
  exact whole

theorem blanks_nil : Blanks [] := by
  intro c mem
  cases mem

def Name.tight (raw : List Char) : Option Name := some ⟨raw, [], []⟩

theorem Name.tight_valid {raw : List Char} (content : Raw raw) :
    Name.Valid .curly (Name.tight raw) := by
  constructor
  · simp [Name.tight]
  · rintro n (_ | _)
    exact content
  · rintro n (_ | _)
    exact blanks_nil
  · rintro n (_ | _)
    exact blanks_nil

def Token (c : Char) : Prop := c.isAlphanum = true ∨ c = '+' ∨ c = '-' ∨ c = '.'

theorem digits_token {ds : List Char} (digits : Digits ds) : ∀ c ∈ ds, Token c := by
  intro c mem
  have digit := digits.2 c mem
  exact .inl (by simp [Char.isAlphanum, digit])

theorem sign_token {sign : List Char} (valid : sign = [] ∨ sign = ['+'] ∨ sign = ['-']) :
    ∀ c ∈ sign, Token c := by
  intro c mem
  rcases valid with rfl | rfl | rfl
  · cases mem
  · exact .inr (.inl (List.mem_singleton.mp mem))
  · exact .inr (.inr (.inl (List.mem_singleton.mp mem)))

theorem exponent_token {n : Number} {e : Char × List Char × List Char} (exp : n.exp = some e) :
    ∀ c ∈ e.1 :: e.2.1 ++ e.2.2, Token c := by
  intro c mem
  obtain ⟨letter, sign, digits⟩ := n.exp_digits e exp
  rw [List.cons_append, List.mem_cons, List.mem_append] at mem
  rcases mem with rfl | signed | digit
  · rcases letter with same | same
    · rw [same]
      exact .inl rfl
    · rw [same]
      exact .inl rfl
  · exact sign_token sign c signed
  · exact digits_token digits c digit

theorem number_token (n : Number) : ∀ c ∈ n.text, Token c := by
  intro c mem
  simp only [Number.text, List.mem_append] at mem
  rcases mem with ((sign | int) | frac) | exp
  · have valid : (if n.minus then ['-'] else []) = [] ∨ (if n.minus then ['-'] else []) = ['+'] ∨
        (if n.minus then ['-'] else []) = ['-'] := by
      cases n.minus with
      | true => exact .inr (.inr rfl)
      | false => exact .inl rfl
    exact sign_token valid c sign
  · exact digits_token n.int_digits c int
  · cases h : n.frac with
    | none =>
      rw [h] at frac
      cases frac
    | some ds =>
      rw [h] at frac
      rcases List.mem_cons.mp frac with rfl | digit
      · exact .inr (.inr (.inr rfl))
      · exact digits_token (n.frac_digits ds h) c digit
  · cases h : n.exp with
    | none =>
      rw [h] at exp
      cases exp
    | some e =>
      rw [h] at exp
      exact exponent_token h c exp

theorem alphanum_token {cs : List Char} (all : cs.all Char.isAlphanum = true) :
    ∀ c ∈ cs, Token c := by
  intro c mem
  exact .inl (List.all_eq_true.mp all c mem)

theorem atom_token {token : List Char} (atom : Atom token) : ∀ c ∈ token, Token c := by
  cases atom with
  | null => exact alphanum_token (by decide)
  | true => exact alphanum_token (by decide)
  | false => exact alphanum_token (by decide)
  | number n => exact number_token n

end Json
