import Spnr.Scan.Values

/-! What the scanners take from an object: the members of its top level, when no member
with the same name lies inside the values before them. -/
namespace Spnr.Scan

open Json RustStd

def memberOf (key : List Char) : Entries → Option Tree
  | .one _ name v _ => if named key name then some v else none
  | .more _ name v _ es => if named key name then some v else memberOf key es

/-- Before the member there is no value with a member of the same name inside. -/
def Unshadowed (key : List Char) : Entries → Prop
  | .one _ name v _ => named key name = true ∨ first key v = none
  | .more _ name v _ es => named key name = true ∨ first key v = none ∧ Unshadowed key es

/-- The value of a member at the top level, the first of its name in the text. -/
def TopLevel (key : String) (t v : Tree) : Prop :=
  ∃ b es, t = .group b es ∧ memberOf key.toList es = some v ∧ Unshadowed key.toList es

theorem firstOf_member {key : List Char} {es : Entries} (unshadowed : Unshadowed key es) :
    firstOf key es = memberOf key es := by
  cases es with
  | one _ name v _ =>
    rw [firstOf, memberOf]
    rcases unshadowed with hit | outside
    · rw [hit]
      rfl
    · rw [outside]
  | more _ name v _ es =>
    rw [firstOf, memberOf]
    rcases unshadowed with hit | ⟨outside, unshadowed⟩
    · rw [hit]
      rfl
    · rw [outside, firstOf_member unshadowed, Option.none_or]

theorem first_top {key : String} {t v : Tree} (top : TopLevel key t v) :
    first key.toList t = some v := by
  obtain ⟨b, es, rfl, member, unshadowed⟩ := top
  exact (firstOf_member unshadowed).trans member

theorem dropWhile_none {p : Char → Bool} {cs : List Char} (none_ : ∀ c ∈ cs, p c = false) :
    cs.dropWhile p = cs := by
  cases cs with
  | nil => rfl
  | cons c cs => exact List.dropWhile_cons_of_neg (by simp [none_ c List.mem_cons_self])

theorem strip_none {p : Char → Bool} {cs : List Char} (none_ : ∀ c ∈ cs, p c = false) :
    ((cs.dropWhile p).reverse.dropWhile p).reverse = cs := by
  have reversed (c : Char) (mem : c ∈ cs.reverse) : p c = false := none_ c (List.mem_reverse.mp mem)
  rw [dropWhile_none none_, dropWhile_none reversed, List.reverse_reverse]

theorem integer_token {n : Number} :
    ∀ c ∈ n.text, isWhitespace c = false ∧ (c == quote) = false ∧ inToken c = true := by
  intro c mem
  obtain ⟨notQuote, notComma, notBrace, -, stop⟩ := token_shape (number_token n c mem)
  exact ⟨stop, by simp [notQuote], by simp [inToken, notComma, notBrace]⟩

theorem toNat_digits {ds : List Char} (digits : Digits ds) :
    (String.ofList ds).toNat? = some (Nat.ofDigitChars 10 ds 0) := by
  have isNat : (String.ofList ds).isNat = true := by
    apply String.isNat_of_isDigit
    · simpa using digits.1
    · rw [String.toList_ofList]
      exact digits.2
  have kept : ds.filter (· != '_') = ds := by
    rw [List.filter_eq_self]
    intro c mem
    have digit := digits.2 c mem
    have other : c ≠ '_' := by
      rintro rfl
      cases digit
    simpa using other
  rw [String.toNat?_eq_some_ofDigitChars isNat, String.toList_ofList, kept]

theorem splitSign_digits {ds : List Char} (digits : Digits ds) : splitSign ds = (false, ds) := by
  unfold splitSign
  split
  · exact absurd (digits.2 _ List.mem_cons_self) (by decide)
  · exact absurd (digits.2 _ List.mem_cons_self) (by decide)
  · rfl

theorem integer_text {n : Number} (int : n.IsInt) :
    n.text = (if n.minus then ['-'] else []) ++ n.int := by
  simp [Number.text, int.frac, int.exp]

theorem parseI64_integer {n : Number} (int : n.IsInt) :
    parseI64 (String.ofList n.text) = if FitsI64 n.value then some n.value else none := by
  have sign : splitSign n.text = (n.minus, n.int) := by
    rw [integer_text int]
    cases n.minus with
    | true => rfl
    | false => exact splitSign_digits n.int_digits
  have digits : n.int.all Char.isDigit = true := List.all_eq_true.mpr n.int_digits.2
  rw [parseI64, String.toList_ofList, sign]
  simp only [digits, if_true, toNat_digits n.int_digits, Option.bind_some]
  rfl

theorem integer_noDot {n : Number} (int : n.IsInt) : ∀ c ∈ n.text, (c != '.') = true := by
  intro c mem
  rw [integer_text int] at mem
  rcases List.mem_append.mp mem with sign | digit
  · cases minus : n.minus with
    | true =>
      rw [minus] at sign
      rw [List.mem_singleton.mp sign]
      rfl
    | false =>
      rw [minus] at sign
      cases sign
  · have digit := n.int_digits.2 c digit
    rw [bne_iff_ne]
    rintro rfl
    cases digit

theorem timestamp_integer {n : Number} (int : n.IsInt) :
    (tokenResult (.atom n.text)).bind parseUnixSeconds =
      if FitsI64 n.value then some n.value else none := by
  have whole : n.text.takeWhile inToken = n.text :=
    List.takeWhile_eq_self_iff.mpr fun c mem => (integer_token c mem).2.2
  have trimmed : trim (String.ofList n.text) = String.ofList n.text := by
    rw [trim, String.toList_ofList, strip_none fun c mem => (integer_token c mem).1]
  have matched : trimMatches (String.ofList n.text) '\x22' = String.ofList n.text := by
    have none_ : ∀ c ∈ n.text, (c == '\x22') = false := fun c mem => (integer_token c mem).2.1
    rw [trimMatches, trimEndMatches, String.toList_ofList, String.toList_ofList, strip_none none_]
  have noDot : n.text.takeWhile (· != '.') = n.text :=
    List.takeWhile_eq_self_iff.mpr (integer_noDot int)
  have result : tokenResult (.atom n.text) = some (String.ofList n.text) := by
    obtain ⟨c, cs, shape⟩ := List.exists_cons_of_ne_nil (number_some n)
    have notQuote : c ≠ quote := (token_shape (number_token n c (shape ▸ List.mem_cons_self))).1
    rw [tokenResult, Tree.render, shape, token_other notQuote, ← shape, whole, trimmed]
  rw [result, Option.bind_some, parseUnixSeconds, trimmed, matched, String.toList_ofList, noDot]
  exact parseI64_integer int

theorem paired_noQuote {raw : List Char} (content : Paired raw) (simple : ∀ c ∈ raw, Simple c) :
    ∀ c ∈ raw, (c == quote) = false := by
  intro c mem
  rw [beq_eq_false_iff_ne]
  rintro rfl
  obtain ⟨u, w, rfl⟩ := List.append_of_mem mem
  have slash : backslash ∈ u ++ quote :: w := List.mem_append_left _ (paired_quote content)
  exact (simple backslash slash).1 rfl

theorem unquote_quoted {raw : List Char} (content : Paired raw) (simple : ∀ c ∈ raw, Simple c) :
    unquote (String.ofList (quoted raw)) = String.ofList raw := by
  have trimmed : trim (String.ofList (quoted raw)) = String.ofList (quoted raw) := by
    have reversed : (quoted raw).reverse = quoted raw.reverse := by simp [quoted]
    have stays (cs : List Char) : (quoted cs).dropWhile isWhitespace = quoted cs :=
      List.dropWhile_cons_of_neg (by decide)
    rw [trim, String.toList_ofList, stays, reversed, stays, ← reversed, List.reverse_reverse]
  have none_ : ∀ c ∈ raw, (c == '\x22') = false := paired_noQuote content simple
  have reversed : ∀ c ∈ raw.reverse, (c == '\x22') = false :=
    fun c mem => none_ c (List.mem_reverse.mp mem)
  rw [unquote, trimmed, trimMatches, trimEndMatches, String.toList_ofList, String.toList_ofList]
  cases raw with
  | nil => rfl
  | cons c raw =>
    have off (cs : List Char) : (quote :: cs).dropWhile (· == '\x22') = cs.dropWhile
      (· == '\x22') :=
      List.dropWhile_cons_of_pos (by decide)
    have head : (c :: raw ++ [quote]).dropWhile (· == '\x22') = c :: raw ++ [quote] :=
      List.dropWhile_cons_of_neg (by simp [none_ c List.mem_cons_self])
    have back : (c :: raw ++ [quote]).reverse = quote :: (c :: raw).reverse := by simp
    rw [quoted, List.cons_append, off, head, back, off, dropWhile_none reversed,
      List.reverse_reverse]

/-- The record of a line whose timestamp and type stand at its top level. -/
structure Line (o : ObjectText) (record : Timing) : Prop where
  timestamp : ∃ n : Number, n.IsInt ∧ FitsI64 n.value ∧ TopLevel "timestamp" o.tree (.atom n.text) ∧
    record.ts = n.value
  type : ∃ raw : List Char, (∀ c ∈ raw, Simple c) ∧ TopLevel "type" o.tree (.str raw) ∧
    record.event = if EVENT_LABELS.contains (String.ofList raw) then String.ofList raw else UNKNOWN

theorem top_paired {key : String} {o : ObjectText} {raw : List Char}
    (top : TopLevel key o.tree (.str raw)) : Paired raw := by
  have valid : (Tree.str raw).Valid := first_valid o.valid (first_top top)
  rw [Tree.Valid] at valid
  exact raw_paired valid

theorem line_timing {o : ObjectText} {record : Timing} (line : Line o record) :
    timing o.text = some record := by
  obtain ⟨n, int, fits, timestamp, ts⟩ := line.timestamp
  obtain ⟨raw, simple, type, event⟩ := line.type
  have label : eventOf (tokenResult (.str raw)) = record.event := by
    rw [tokenResult_string (top_paired type), eventOf, Option.map_some,
      unquote_quoted (top_paired type) simple, event, Option.filter_some]
    cases EVENT_LABELS.contains (String.ofList raw) with
    | true => rfl
    | false => rfl
  have parsed := timestamp_integer int
  rw [if_pos fits] at parsed
  obtain ⟨tok, read, same⟩ := Option.bind_eq_some_iff.mp parsed
  rw [timing_text, first_top timestamp, first_top type, Option.bind_some, Option.bind_some,
    label, read, Option.bind_some, same, ← ts]
  rfl

/-- The scanners return the values at the top level. -/
theorem top_level :
    (∀ (o : ObjectText) (event session : List Char), event ≠ [] → session ≠ [] →
      (∀ c ∈ event, Simple c) → (∀ c ∈ session, Simple c) →
      TopLevel "hook_event_name" o.tree (.str event) → TopLevel "session_id" o.tree (.str session) →
      extract o.text = some (String.ofList event, String.ofList session)) ∧
    (∀ (o : ObjectText) (session : List Char), TopLevel "session_id" o.tree (.str session) →
      skimSession o.text = some (String.ofList session)) ∧
    ∀ (data : String) (os : List ObjectText) (records : List Timing),
      lines data = os.map (·.text) → List.Forall₂ Line os records →
      parseTimings data = records := by
  constructor
  · intro o event session someEvent someSession simpleEvent simpleSession topEvent topSession
    have isEmpty {cs : List Char} (some_ : cs ≠ []) : (String.ofList cs).isEmpty = false := by
      simpa using some_
    rw [extract, skimString_text word_event, skimString_text word_session, first_top topEvent,
      first_top topSession]
    simp only [Option.bind_some, stringResult, hookContent_simple simpleEvent,
      hookContent_simple simpleSession,
      Option.bind_eq_bind, isEmpty someEvent, isEmpty someSession, Bool.or_self,
        Bool.false_eq_true, if_false]
  constructor
  · intro o session top
    rw [skimSession_text, first_top top]
    rfl
  · intro data os records split lines_
    rw [parseTimings, split]
    clear split
    induction lines_ with
    | nil => rfl
    | cons line _ ih =>
      rw [List.map_cons, List.filterMap_cons, line_timing line]
      exact congrArg (_ :: ·) ih

theorem top_level_prompted :
    extract (prompted hi).text = some ("Stop", "s") ∧
    skimSession (prompted hi).text = some "s" ∧
    parseTimings (prompted hi).text = [⟨5, "user"⟩] := by
  have session : TopLevel "session_id" (prompted hi).tree (.str ['s']) :=
    ⟨.curly, _, rfl, rfl, .inr ⟨rfl, .inl rfl⟩⟩
  have event : TopLevel "hook_event_name" (prompted hi).tree (.str "Stop".toList) :=
    ⟨.curly, _, rfl, rfl, .inr ⟨rfl, .inr ⟨rfl, .inl rfl⟩⟩⟩
  have timestamp : TopLevel "timestamp" (prompted hi).tree (.atom five.text) :=
    ⟨.curly, _, rfl, rfl, .inr ⟨rfl, .inr ⟨rfl, .inr ⟨rfl, .inl rfl⟩⟩⟩⟩
  have type : TopLevel "type" (prompted hi).tree (.str "user".toList) :=
    ⟨.curly, _, rfl, rfl, .inr ⟨rfl, .inr ⟨rfl, .inr ⟨rfl, .inr ⟨rfl, .inl rfl⟩⟩⟩⟩⟩
  constructor
  · exact top_level.1 _ _ _ (by decide) (by decide) (simple_all (by decide))
      (simple_all (by decide)) event session
  constructor
  · exact top_level.2.1 _ _ session
  · have line : Line (prompted hi) ⟨5, "user"⟩ := by
      constructor
      · exact ⟨five, ⟨rfl, rfl⟩, by decide, timestamp, by decide⟩
      · exact ⟨"user".toList, simple_all (by decide), type, by decide⟩
    exact top_level.2.2 _ [prompted hi] _ (prompted_line hi (by decide)) (.cons line .nil)

def nested : ObjectText where
  before := []
  tree := .group .curly (.more [] (Name.tight "tool_input".toList)
      (.group .curly (.one [] (Name.tight "session_id".toList) (.str "inner".toList) [])) []
    (.more [] (Name.tight "session_id".toList) (.str "outer".toList) []
    (.one [] (Name.tight "hook_event_name".toList) (.str "Stop".toList) [])))
  after := []
  before_blank := blanks_nil
  valid := ⟨blanks_nil, Name.tight_valid (raw_plain (by decide)),
    ⟨blanks_nil, Name.tight_valid (raw_plain (by decide)), raw_plain (by decide), blanks_nil⟩,
      blanks_nil,
    blanks_nil, Name.tight_valid (raw_plain (by decide)), raw_plain (by decide), blanks_nil,
    blanks_nil, Name.tight_valid (raw_plain (by decide)), raw_plain (by decide), blanks_nil⟩
  object := rfl
  after_blank := blanks_nil

def disguised : ObjectText where
  before := []
  tree := .group .curly (.more []
      (Name.tight ("session".toList ++ backslash :: 'u' :: '0' :: '0' :: '5' :: 'f' :: ['i', 'd']))
        (.str ['s']) []
    (.one [] (Name.tight "hook_event_name".toList) (.str "Stop".toList) []))
  after := []
  before_blank := blanks_nil
  valid := ⟨blanks_nil,
    Name.tight_valid
      (raw_append (by decide) (.code (List.all_eq_true.mp (by decide)) (raw_plain (by decide)))),
    raw_plain (by decide), blanks_nil,
    blanks_nil, Name.tight_valid (raw_plain (by decide)), raw_plain (by decide), blanks_nil⟩
  object := rfl
  after_blank := blanks_nil

def stamped {blank : List Char} (blanks : Blanks blank) (n : Number) : ObjectText where
  before := []
  tree := .group .curly (.more [] (some ⟨"timestamp".toList, [], blank⟩) (.atom n.text) []
    (.one [] (Name.tight "type".toList) (.str "user".toList) []))
  after := []
  before_blank := blanks_nil
  valid := by
    have content : Raw "timestamp".toList := raw_plain (by decide)
    have name : Name.Valid .curly (some ⟨"timestamp".toList, [], blank⟩) := by
      constructor
      · simp
      · rintro n (_ | _)
        exact content
      · rintro n (_ | _)
        exact blanks_nil
      · rintro n (_ | _)
        exact blanks
    exact ⟨blanks_nil, name, .number n, blanks_nil,
      blanks_nil, Name.tight_valid (raw_plain (by decide)), raw_plain (by decide), blanks_nil⟩
  object := rfl
  after_blank := blanks_nil

def big : Number := @Number.natural "9223372036854775808".toList
    ⟨by decide, List.all_eq_true.mp (by decide)⟩ (by decide)

def thousand : Number :=
  ⟨false, ['1'], none, some ('e', [], ['3']),
    ⟨by decide, List.all_eq_true.mp (by decide)⟩, by decide,
    no_digits, by
      rintro e (_ | _); exact ⟨.inl rfl, .inl rfl, by decide, List.all_eq_true.mp (by decide)⟩⟩

theorem break_blank : Blanks ['\n'] := by simp [Blanks, isBlank]

/-- A value inside another comes before the one at the top level; a name with an escape is not
seen; a timestamp has to be a plain integer of 64 bits, and an object has to stand on one line. -/
theorem nested_first :
    nested.text =
      "\x7b\"tool_input\":\x7b\"session_id\":\"inner\"\x7d,\"session_id\":\"outer\"," ++
        "\"hook_event_name\":\"Stop\"\x7d" ∧
    extract nested.text = some ("Stop", "inner") ∧
    skimSession nested.text = some "inner" ∧
    disguised.text = "\x7b\"session\\u005fid\":\"s\",\"hook_event_name\":\"Stop\"\x7d" ∧
    extract disguised.text = none ∧
    (stamped blanks_nil big).text = "\x7b\"timestamp\":9223372036854775808,\"type\":\"user\"\x7d" ∧
    parseTimings (stamped blanks_nil big).text = [] ∧
    (stamped blanks_nil thousand).text = "\x7b\"timestamp\":1e3,\"type\":\"user\"\x7d" ∧
    parseTimings (stamped blanks_nil thousand).text = [] ∧
    (stamped break_blank five).text = "\x7b\"timestamp\":\n5,\"type\":\"user\"\x7d" ∧
    parseTimings (stamped break_blank five).text = [] := by
  have session : first "session_id".toList nested.tree = some (.str "inner".toList) := rfl
  have event : first "hook_event_name".toList nested.tree = some (.str "Stop".toList) := rfl
  have hidden : first "session_id".toList disguised.tree = none := rfl
  have shown : first "hook_event_name".toList disguised.tree = some (.str "Stop".toList) := rfl
  have line : lines (stamped blanks_nil big).text = [(stamped blanks_nil big).text] := by decide
  have late : first "timestamp".toList (stamped blanks_nil big).tree = some (.atom big.text) := rfl
  have large : (tokenResult (.atom big.text)).bind parseUnixSeconds = none := by
    rw [timestamp_integer ⟨rfl, rfl⟩, if_neg (by decide)]
  refine ⟨rfl, ?_, ?_, rfl, ?_, rfl, ?_, rfl, by decide, rfl, by decide⟩
  · rw [extract, skimString_text word_event, skimString_text word_session, session, event]
    decide
  · rw [skimSession_text, session]
    decide
  · rw [extract, skimString_text word_event, skimString_text word_session, hidden, shown]
    decide
  · obtain ⟨tok, read⟩ : ∃ tok, tokenResult (.atom big.text) = some tok := ⟨_, rfl⟩
    rw [read, Option.bind_some] at large
    rw [parseTimings, line, List.filterMap_cons, timing_text, late, Option.bind_some, read,
      Option.bind_some, large]
    rfl

end Spnr.Scan
