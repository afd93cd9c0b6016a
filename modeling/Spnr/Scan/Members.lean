import Mathlib.Data.List.TakeWhile
import Spnr.Lib.Ascii
import Spnr.Lib.JsonTree
import Spnr.Scan.Scanners

/-! What the search loop finds in a JSON object: the value of the first member, in the order
of the text and at any depth, whose name is spelled like the key. -/
namespace Spnr.Scan

open Json RustStd

def isWordChar (c : Char) : Bool := c.isAlpha || c == '_'

structure Word (key : List Char) : Prop where
  some_ : key ≠ []
  chars : ∀ c ∈ key, isWordChar c = true

def named (key : List Char) (name : Option Name) : Bool := name.any fun n => n.raw == key

mutual

def first (key : List Char) : Tree → Option Tree
  | .group _ entries => firstOf key entries
  | _ => none

def firstOf (key : List Char) : Entries → Option Tree
  | .one _ name value _ => if named key name then some value else first key value
  | .more _ name value _ rest => if named key name then some value else (first key value).or
      (firstOf key rest)

end

mutual

theorem first_valid {key : List Char} {t v : Tree} (valid : t.Valid)
    (found : first key t = some v) : v.Valid := by
  cases t with
  | atom _ => cases found
  | str _ => cases found
  | empty _ _ => cases found
  | group b es => exact firstOf_valid valid found

theorem firstOf_valid {key : List Char} {b : Bracket} {es : Entries} {v : Tree} (valid : es.Valid b)
    (found : firstOf key es = some v) : v.Valid := by
  cases es with
  | one _ name w _ =>
    obtain ⟨-, -, valid, -⟩ := valid
    rw [firstOf] at found
    split at found
    · exact Option.some.inj found ▸ valid
    · exact first_valid valid found
  | more _ name w _ es =>
    obtain ⟨-, -, valid, -, valid_es⟩ := valid
    rw [firstOf] at found
    split at found
    · exact Option.some.inj found ▸ valid
    · rcases Option.or_eq_some_iff.mp found with inner | ⟨-, later⟩
      · exact first_valid valid inner
      · exact firstOf_valid valid_es later

end

theorem word_other {key : List Char} (word : Word key) {c : Char} (mem : c ∈ key) : c ≠ quote ∧
    c ≠ backslash := by
  have char := word.chars c mem
  constructor
  · rintro rfl
    cases char
  · rintro rfl
    cases char

section

variable {α : Type} (value : List Char → Option α) {key : List Char}

theorem search_shift {c : Char} (other : c ≠ quote) (before rest : List Char) :
    search value (quoted key) 0 before (c :: rest) = search value (quoted key) 0
      (c :: before) rest := by
  have miss : (quoted key).isPrefixOf (c :: rest) = false := by
    simp [quoted, List.isPrefixOf, Ne.symm other]
  rw [search, miss]
  rfl

theorem search_chunk {u : List Char} (plain : ∀ c ∈ u, c ≠ quote) (before rest : List Char) :
    search value (quoted key) 0 before (u ++ rest) = search value (quoted key) 0
      (u.reverse ++ before) rest := by
  induction u generalizing before with
  | nil => rfl
  | cons c u ih =>
    rw [List.cons_append, search_shift value (plain c List.mem_cons_self),
      ih fun d mem => plain d (List.mem_cons_of_mem _ mem)]
    simp

theorem search_skip (u before rest : List Char) :
    search value (quoted key) u.length before (u ++ rest) = search value (quoted key) 0
      (u.reverse ++ before) rest := by
  induction u generalizing before with
  | nil => rfl
  | cons c u ih =>
    rw [List.cons_append, List.length_cons, search, ih]
    simp

/-- The text cannot go on with the rest of a key, nor with a colon. -/
def Inert (rest : List Char) : Prop := ∀ c ∈ rest.head?, isWordChar c = false

theorem quoted_prefix {rest : List Char} : (quoted key).isPrefixOf (quote :: rest) = true ↔
    key ++ [quote] <+: rest := by
  simp [quoted, List.isPrefixOf_iff_prefix]

theorem search_quote {rest : List Char} (miss : ¬ key ++ [quote] <+: rest) (before : List Char) :
    search value (quoted key) 0 before (quote :: rest) = search value (quoted key) 0
      (quote :: before) rest := by
  have no : (quoted key).isPrefixOf (quote :: rest) = false :=
    Bool.eq_false_iff.mpr (mt quoted_prefix.mp miss)
  rw [search, no]
  rfl

theorem inert_miss (word : Word key) {rest : List Char} (inert : Inert rest) :
    ¬ key ++ [quote] <+: rest := by
  rintro ⟨tail, rfl⟩
  cases key with
  | nil => exact word.some_ rfl
  | cons c key =>
    have char := word.chars c List.mem_cons_self
    rw [inert c rfl] at char
    cases char

def counted (before rest : List Char) : Option (List Char) :=
  if prevOk before then afterColon rest else none

theorem search_key (before rest : List Char) :
    search value (quoted key) 0 before (quoted key ++ rest) = match counted before rest with
    | some text => value text
    | none => search value (quoted key) 0 ((quoted key).reverse ++ before) rest := by
  have hit : (quoted key).isPrefixOf (quote :: (key ++ [quote] ++ rest)) = true :=
    quoted_prefix.mpr (List.prefix_append _ _)
  have whole : quoted key ++ rest = quote :: (key ++ [quote] ++ rest) := rfl
  have left : (quote :: (key ++ [quote] ++ rest)).drop (quoted key).length = rest := by
    rw [← whole, List.drop_left]
  have size : (quoted key).length - 1 = (key ++ [quote]).length := by simp [quoted]
  rw [whole, search, hit, if_pos rfl, left, size, search_skip]
  have reversed : (key ++ [quote]).reverse ++ quote :: before = (quoted key).reverse ++ before := by
    simp [quoted]
  rw [reversed]
  rfl

theorem paired_quote {u w : List Char} (paired : Paired (u ++ quote :: w)) : backslash ∈ u := by
  generalize whole : u ++ quote :: w = cs at paired
  induction paired generalizing u with
  | nil => simp at whole
  | plain notQuote _ _ ih =>
    cases u with
    | nil =>
      rw [List.nil_append, List.cons.injEq] at whole
      exact absurd whole.1.symm notQuote
    | cons d u =>
      rw [List.cons_append, List.cons.injEq] at whole
      exact List.mem_cons_of_mem _ (ih whole.2)
  | pair _ _ _ =>
    cases u with
    | nil =>
      rw [List.nil_append, List.cons.injEq] at whole
      exact absurd whole.1 (by decide)
    | cons d u =>
      rw [List.cons_append, List.cons.injEq] at whole
      rw [whole.1]
      exact List.mem_cons_self

theorem paired_eq_key (word : Word key) {raw rest : List Char} (content : Paired raw)
    (pre : key ++ [quote] <+: raw ++ quote :: rest) : raw = key := by
  obtain ⟨tail, same⟩ := pre
  rw [List.append_assoc, List.singleton_append] at same
  rcases List.append_eq_append_iff.mp same with ⟨u, split, tails⟩ | ⟨u, split, tails⟩
  · cases u with
    | nil => simpa using split
    | cons c u =>
      rw [List.cons_append, List.cons.injEq] at tails
      obtain ⟨rfl, -⟩ := tails
      rw [split] at content
      exact absurd rfl (word_other word (paired_quote content)).2
  · cases u with
    | nil => simpa using split.symm
    | cons c u =>
      rw [List.cons_append, List.cons.injEq] at tails
      obtain ⟨rfl, -⟩ := tails
      have inside : quote ∈ key := by simp [split]
      exact absurd rfl (word_other word inside).1

theorem search_content (word : Word key) {raw rest : List Char} (content : Paired raw)
    (inert : Inert rest)
    (before : List Char) : search value (quoted key) 0 before (raw ++ quote :: rest) =
      search value (quoted key) 0 (quote :: raw.reverse ++ before) rest := by
  induction content generalizing before with
  | nil => exact search_quote value (inert_miss word inert) before
  | plain notQuote _ _ ih =>
    rw [List.cons_append, search_shift value notQuote, ih]
    simp
  | @pair e cs _ content ih =>
    have slash : backslash ≠ quote := backslash_ne_quote
    rw [List.cons_append, List.cons_append, search_shift value slash]
    by_cases isQuote : e = quote
    · subst isQuote
      by_cases match_ : key ++ [quote] <+: cs ++ quote :: rest
      · -- the key, as the end of the string, behind an escaped quote
        obtain rfl := paired_eq_key word content match_
        have again : quote :: (cs ++ quote :: rest) = quoted cs ++ rest := by simp [quoted]
        have uncounted : counted (backslash :: before) rest = none := by
          have before_ : prevOk (backslash :: before) = false := rfl
          rw [counted, before_]
          rfl
        rw [again, search_key, uncounted]
        simp [quoted]
      · rw [search_quote value match_, ih]
        simp
    · rw [search_shift value isQuote, ih]
      simp

theorem search_string (word : Word key) {raw rest : List Char} (content : Raw raw)
    (inert : Inert rest) {before : List Char} (uncounted : raw = key → counted before rest = none) :
    search value (quoted key) 0 before (quoted raw ++ rest) =
      search value (quoted key) 0 ((quoted raw).reverse ++ before) rest := by
  by_cases same : raw = key
  · subst same
    rw [search_key, uncounted rfl]
  · have paired : Paired raw := raw_paired content
    have miss : ¬ key ++ [quote] <+: raw ++ quote :: rest :=
      fun pre => same (paired_eq_key word paired pre)
    have again : quoted raw ++ rest = quote :: (raw ++ quote :: rest) := by simp [quoted]
    rw [again, search_quote value miss, search_content value word paired inert]
    simp [quoted]

theorem blank_shape {c : Char} (blank : isBlank c = true) :
    c ≠ quote ∧ isAsciiWhitespace c = true ∧ isWhitespace c = true ∧ isWordChar c = false := by
  simp only [isBlank, Bool.or_eq_true, beq_iff_eq] at blank
  rcases blank with ((rfl | rfl) | rfl) | rfl
  · decide
  · decide
  · decide
  · decide

theorem dropWhile_blanks {p : Char → Bool} (covers : ∀ c, isBlank c = true → p c = true)
    {blank : List Char} (blanks : Blanks blank) {c : Char} (stop : p c = false) (rest : List Char) :
    (blank ++ c :: rest).dropWhile p = c :: rest := by
  rw [List.dropWhile_append_of_pos fun d mem => covers d (blanks d mem),
    List.dropWhile_cons_of_neg (by simp [stop])]

def IsEnd (c : Char) : Prop := c = ',' ∨ c = ']' ∨ c = '\x7d'

theorem isEnd_shape {c : Char} (is_end : IsEnd c) :
    c ≠ quote ∧ c ≠ ':' ∧ isAsciiWhitespace c = false ∧ isWordChar c = false := by
  rcases is_end with rfl | rfl | rfl
  · decide
  · decide
  · decide

theorem inert_blank {blank : List Char} (blanks : Blanks blank) {c : Char}
    (stop : isWordChar c = false) (rest : List Char) : Inert (blank ++ c :: rest) := by
  intro d mem
  cases blank with
  | nil => exact Option.some.inj mem ▸ stop
  | cons b blank => exact Option.some.inj mem ▸ (blank_shape (blanks b List.mem_cons_self)).2.2.2

theorem afterColon_end {blank : List Char} (blanks : Blanks blank) {c : Char} (is_end : IsEnd c)
    (rest : List Char) : afterColon (blank ++ c :: rest) = none := by
  obtain ⟨-, colon, stop, -⟩ := isEnd_shape is_end
  rw [afterColon, dropWhile_blanks (fun _ blank => (blank_shape blank).2.1) blanks stop]
  split
  · rename_i same
    exact absurd (List.cons.inj same).1 colon
  · rfl

theorem prevOk_blank {blank : List Char} (blanks : Blanks blank) {c : Char}
    (opens : c = '\x7b' ∨ c = ',')
    (before : List Char) : prevOk (blank.reverse ++ c :: before) = true := by
  have reversed : Blanks blank.reverse := fun d mem => blanks d (List.mem_reverse.mp mem)
  have stop : isWhitespace c = false := by
    rcases opens with rfl | rfl
    · decide
    · decide
  rw [prevOk, dropWhile_blanks (fun _ blank => (blank_shape blank).2.2.1) reversed stop]
  simpa using opens

theorem token_range {c : Char} (token : Token c) : 42 < c.toNat ∧ c.toNat < 123 ∧ c.toNat ≠ 44 := by
  rcases token with word | rfl | rfl | rfl
  · have range := Ascii.alphanum_range word
    omega
  · decide
  · decide
  · decide

theorem token_shape {c : Char} (token : Token c) :
    c ≠ quote ∧ c ≠ ',' ∧ c ≠ '\x7d' ∧ isAsciiWhitespace c = false ∧ isWhitespace c = false := by
  obtain ⟨low, high, comma⟩ := token_range token
  have other (d : Char) (out : d.toNat ≤ 42 ∨ 123 ≤ d.toNat ∨ d.toNat = 44) : c ≠ d := by
    rintro rfl
    omega
  refine ⟨other _ (by decide), other _ (by decide), other _ (by decide), ?_, ?_⟩
  · simp [isAsciiWhitespace, other ' ' (by decide), other '\t' (by decide), other '\n' (by decide),
      other '\x0c' (by decide), other '\r' (by decide)]
  · simp only [isWhitespace, Bool.or_eq_false_iff, Bool.and_eq_false_iff, decide_eq_false_iff_not,
      beq_eq_false_iff_ne]
    omega

theorem number_some (n : Number) : n.text ≠ [] := by
  intro empty
  simp only [Number.text, List.append_eq_nil_iff] at empty
  exact n.int_digits.1 empty.1.1.2

theorem atom_some {token : List Char} (atom : Atom token) : token ≠ [] := by
  cases atom with
  | null => decide
  | true => decide
  | false => decide
  | number n => exact number_some n

theorem render_head {v : Tree} (valid : v.Valid) :
    ∃ c cs, v.render = c :: cs ∧ isAsciiWhitespace c = false ∧ isWhitespace c = false := by
  cases v with
  | atom token =>
    rw [Tree.Valid] at valid
    obtain ⟨c, cs, rfl⟩ := List.exists_cons_of_ne_nil (atom_some valid)
    exact ⟨c, cs, rfl, (token_shape (atom_token valid c List.mem_cons_self)).2.2.2⟩
  | str raw => exact ⟨quote, raw ++ [quote], rfl, by decide, by decide⟩
  | empty b blank =>
    refine ⟨b.opens, blank ++ [b.closes], rfl, ?_⟩
    cases b with
    | square => decide
    | curly => decide
  | group b entries =>
    refine ⟨b.opens, entries.render ++ [b.closes], rfl, ?_⟩
    cases b with
    | square => decide
    | curly => decide

theorem afterColon_name {name : Name} (before_ : Blanks name.before)
    (after : Blanks name.after) {c : Char} (stop : isAsciiWhitespace c = false) (rest : List Char) :
    afterColon (name.before ++ ':' :: name.after ++ c :: rest) = some (c :: rest) := by
  have covers (c : Char) (blank : isBlank c = true) : isAsciiWhitespace c = true :=
    (blank_shape blank).2.1
  have colon : isAsciiWhitespace ':' = false := by decide
  rw [List.append_assoc, afterColon, List.cons_append, dropWhile_blanks covers before_ colon]
  change some ((name.after ++ c :: rest).dropWhile isAsciiWhitespace) = _
  rw [dropWhile_blanks covers after stop]

structure Follows (rest : List Char) : Prop where
  inert : Inert rest
  colon : afterColon rest = none

theorem follows_end {blank : List Char} (blanks : Blanks blank) {c : Char} (is_end : IsEnd c)
    (rest : List Char) : Follows (blank ++ c :: rest) := by
  constructor
  · exact inert_blank blanks (isEnd_shape is_end).2.2.2 rest
  · exact afterColon_end blanks is_end rest

theorem isEnd_closes (b : Bracket) : IsEnd b.closes := by
  cases b with
  | square => exact .inr (.inl rfl)
  | curly => exact .inr (.inr rfl)

theorem bracket_other (b : Bracket) : b.opens ≠ quote ∧ b.closes ≠ quote := by
  cases b with
  | square => decide
  | curly => decide

theorem search_blanks {blank : List Char} (blanks : Blanks blank) (before rest : List Char) :
    search value (quoted key) 0 before (blank ++ rest) =
      search value (quoted key) 0 (blank.reverse ++ before) rest :=
  search_chunk value (fun c mem => (blank_shape (blanks c mem)).1) before rest

theorem search_other {name : Name} (word : Word key) (content : Raw name.raw)
    (other : name.raw ≠ key)
    (before_ : Blanks name.before) (after : Blanks name.after) (before rest : List Char) :
    search value (quoted key) 0 before (Name.render (some name) ++ rest) =
      search value (quoted key) 0 ((Name.render (some name)).reverse ++ before) rest := by
  have inert : Inert (name.before ++ ':' :: (name.after ++ rest)) :=
    inert_blank before_ (by decide) _
  have split : Name.render (some name) ++ rest =
      quoted name.raw ++ (name.before ++ ':' :: (name.after ++ rest)) := by simp [Name.render]
  have colon : ':' ≠ quote := by decide
  rw [split, search_string value word content inert (fun same => absurd same other),
    search_blanks value before_, search_shift value colon, search_blanks value after]
  simp [Name.render]

variable (result : Tree → Option α)

/-- The reader of a value stops at its end. -/
def Reads : Prop := ∀ (v : Tree) (blank : List Char) (c : Char) (rest : List Char),
  v.Valid → Blanks blank → c = ',' ∨ c = '\x7d' →
    value (v.render ++ (blank ++ c :: rest)) = result v

/-- What the search makes of a text: the value of the member it finds there, or
it goes on behind it. -/
def Outcome (key text : List Char) (found : Option Tree) : Prop := ∀ before rest, Follows rest →
  search value (quoted key) 0 before (text ++ rest) =
    match found with
    | some v => result v
    | none => search value (quoted key) 0 (text.reverse ++ before) rest

theorem search_entry (word : Word key) (reads : Reads value result) {b : Bracket}
    {blank after : List Char}
    {name : Option Name} {v : Tree} (blanks : Blanks blank) (named_ : Name.Valid b name)
    (valid : v.Valid)
    (after_ : Blanks after) (inner : Outcome value result key v.render (first key v)) {c : Char}
    (ends : c = ',' ∨ c = b.closes) {o : Char} (opens : o = ',' ∨ o = b.opens)
    (before rest : List Char) :
    search value (quoted key) 0 (o :: before)
      (blank ++ Name.render name ++ v.render ++ after ++ c :: rest) =
      match if named key name then some v else first key v with
      | some v => result v
      | none => search value (quoted key) 0
          ((blank ++ Name.render name ++ v.render ++ after).reverse ++ o :: before)
            (c :: rest) := by
  have is_end : IsEnd c := by
    rcases ends with rfl | rfl
    · exact .inl rfl
    · exact isEnd_closes b
  have follows : Follows (after ++ c :: rest) := follows_end after_ is_end rest
  have text : blank ++ Name.render name ++ v.render ++ after ++ c :: rest =
      blank ++ (Name.render name ++ (v.render ++ (after ++ c :: rest))) := by simp
  rw [text, search_blanks value blanks]
  -- what follows the name
  have onward : search value (quoted key) 0
    ((Name.render name).reverse ++ (blank.reverse ++ o :: before))
      (v.render ++ (after ++ c :: rest)) = match first key v with
        | some v => result v
        | none => search value (quoted key) 0
            ((blank ++ Name.render name ++ v.render ++ after).reverse ++ o :: before)
              (c :: rest) := by
    rw [inner _ _ follows, search_blanks value after_]
    simp
  cases name with
  | none => exact onward
  | some name =>
    obtain rfl : b = .curly := named_.named.mp rfl
    by_cases same : name.raw = key
    · have ok : prevOk (blank.reverse ++ o :: before) = true :=
        prevOk_blank blanks opens.symm before
      obtain ⟨d, ds, head, stop, -⟩ := render_head valid
      have colon :
        afterColon (name.before ++ ':' :: name.after ++ (v.render ++ (after ++ c :: rest))) =
          some (v.render ++ (after ++ c :: rest)) := by
        rw [head, List.cons_append]
        exact afterColon_name (named_.before _ rfl) (named_.after _ rfl) stop _
      have split : Name.render (some name) ++ (v.render ++ (after ++ c :: rest)) =
          quoted key ++
            (name.before ++ ':' :: name.after ++ (v.render ++ (after ++ c :: rest))) := by
        simp [Name.render, same]
      have hit : named key (some name) = true := by simp [named, same]
      rw [split, search_key, counted, ok, if_pos rfl, colon, hit, if_pos rfl]
      exact reads v after c rest valid after_ ends
    · have miss : named key (some name) = false := by simp [named, same]
      rw [search_other value word (named_.raw _ rfl) same (named_.before _ rfl)
        (named_.after _ rfl), miss]
      exact onward

mutual

theorem search_tree (word : Word key) (reads : Reads value result) (t : Tree) (valid : t.Valid) :
    Outcome value result key t.render (first key t) := by
  intro before rest follows
  cases t with
  | atom token =>
    rw [Tree.Valid] at valid
    exact search_chunk value (fun c mem => (token_shape (atom_token valid c mem)).1) before rest
  | str raw =>
    rw [Tree.Valid] at valid
    apply search_string value word valid follows.inert
    rintro -
    rw [counted, follows.colon]
    simp
  | empty b blank =>
    rw [Tree.Valid] at valid
    obtain ⟨opens, closes⟩ := bracket_other b
    have text : (Tree.empty b blank).render ++ rest = b.opens :: (blank ++ b.closes :: rest) := by
      simp [Tree.render]
    rw [text, search_shift value opens, search_blanks value valid, search_shift value closes]
    simp [first, Tree.render]
  | group b entries =>
    rw [Tree.Valid] at valid
    obtain ⟨opens, closes⟩ := bracket_other b
    have text : (Tree.group b entries).render ++ rest = b.opens ::
      (entries.render ++ b.closes :: rest) := by
      simp [Tree.render]
    rw [text, search_shift value opens, search_entries word reads entries valid (.inr rfl), first]
    cases firstOf key entries with
    | some v => rfl
    | none =>
      change search value (quoted key) 0 _ (b.closes :: rest) = _
      rw [search_shift value closes]
      simp [Tree.render]

theorem search_entries (word : Word key) (reads : Reads value result) {b : Bracket} (es : Entries)
    (valid : es.Valid b) {o : Char} (opens : o = ',' ∨ o = b.opens) (before rest : List Char) :
    search value (quoted key) 0 (o :: before) (es.render ++ b.closes :: rest) =
      match firstOf key es with
      | some v => result v
      | none =>
        search value (quoted key) 0 (es.render.reverse ++ o :: before) (b.closes :: rest) := by
  cases es with
  | one blank name v after =>
    obtain ⟨blanks, named_, valid, after_⟩ := valid
    exact search_entry value result word reads blanks named_ valid after_
      (search_tree word reads v valid) (.inr rfl) opens before rest
  | more blank name v after es =>
    obtain ⟨blanks, named_, valid, after_, valid_es⟩ := valid
    have entry := search_entry value result word reads blanks named_ valid after_
      (search_tree word reads v valid) (.inl rfl) opens before (es.render ++ b.closes :: rest)
    have text : (Entries.more blank name v after es).render ++ b.closes :: rest =
        blank ++ Name.render name ++ v.render ++ after ++ ',' ::
          (es.render ++ b.closes :: rest) := by
      simp [Entries.render]
    have comma : ',' ≠ quote := by decide
    rw [text, entry, firstOf]
    cases named key name with
    | true => rfl
    | false =>
      rw [if_neg Bool.false_ne_true, if_neg Bool.false_ne_true]
      cases first key v with
      | some v => rfl
      | none =>
        rw [Option.none_or]
        change search value (quoted key) 0 _ (',' :: _) = _
        rw [search_shift value comma, search_entries word reads es valid_es (.inl rfl)]
        simp [Entries.render]

end

theorem search_none {text : List Char} (plain : ∀ c ∈ text, c ≠ quote) (before : List Char) :
    search value (quoted key) 0 before text = none := by
  have whole : search value (quoted key) 0 before (text ++ []) = _ :=
    search_chunk value plain before []
  rw [List.append_nil] at whole
  rw [whole, search]

theorem follows_blank {blank : List Char} (blanks : Blanks blank) : Follows blank := by
  constructor
  · intro c mem
    exact (blank_shape (blanks c (List.mem_of_mem_head? mem))).2.2.2
  · have gone : blank.dropWhile isAsciiWhitespace = [] := by
      rw [List.dropWhile_eq_nil_iff]
      intro c mem
      exact (blank_shape (blanks c mem)).2.1
    rw [afterColon, gone]

theorem find_text {key : String} (word : Word key.toList) (reads : Reads value result)
    (t : JsonText) : find value t.text key = (first key.toList t.tree).bind result := by
  have found := search_tree value result word reads t.tree t.valid (t.before.reverse ++ []) t.after
    (follows_blank t.after_blank)
  have needle_ : needle key = quoted key.toList := rfl
  rw [find, JsonText.text, String.toList_ofList, needle_, List.append_assoc,
    search_blanks value t.before_blank, found]
  cases first key.toList t.tree with
  | some v => rfl
  | none =>
    apply search_none
    intro c mem
    exact (blank_shape (t.after_blank c mem)).1

end

end Spnr.Scan
