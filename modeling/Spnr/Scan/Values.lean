import Spnr.Scan.Members

/-! What the scanners make of the value of a member. Nothing behind the value counts. -/
namespace Spnr.Scan

open Json RustStd

def latin (c : Char) : List Char := (String.utf8EncodeChar c).map fun b => Char.ofNat b.toNat

def hookContent : List Char → List Char
  | [] => []
  | '\x5c' :: e :: rest => escaped (UInt8.ofNat e.toNat) :: hookContent rest
  | c :: rest => latin c ++ hookContent rest

def stringResult (content : List Char → List Char) : Tree → Option String
  | .str raw => some (String.ofList (content raw))
  | _ => none

def tokenResult (v : Tree) : Option String := token v.render

theorem unescape_cons {b : UInt8} (notQuote : b ≠ 0x22) (notSlash : b ≠ 0x5c) (rest : List UInt8) :
    unescape (b :: rest) = (unescape rest).map (Char.ofNat b.toNat :: ·) := by
  rw [unescape]
  · intro c tail same
    exact absurd same notSlash
  · exact notQuote

theorem unescape_plain {bs : List UInt8} (plain : ∀ b ∈ bs, b ≠ 0x22 ∧ b ≠ 0x5c)
    (rest : List UInt8) :
    unescape (bs ++ rest) = (unescape rest).map (bs.map (fun b => Char.ofNat b.toNat) ++ ·) := by
  induction bs with
  | nil =>
    change unescape rest = (unescape rest).map id
    rw [Option.map_id_fun, id]
  | cons b bs ih =>
    obtain ⟨notQuote, notSlash⟩ := plain b List.mem_cons_self
    rw [List.cons_append, unescape_cons notQuote notSlash,
      ih fun b mem => plain b (List.mem_cons_of_mem _ mem), Option.map_map]
    rfl

theorem encode_plain {c : Char} (notQuote : c ≠ quote) (notSlash : c ≠ backslash) :
    ∀ b ∈ String.utf8EncodeChar c, b ≠ 0x22 ∧ b ≠ 0x5c := by
  intro b mem
  by_cases ascii : c.toNat < 128
  · rw [encode_ascii ascii, List.mem_singleton] at mem
    subst mem
    have same {d : Char} (small : d.toNat < 128)
      (equal : UInt8.ofNat c.toNat = UInt8.ofNat d.toNat) : c = d := by
      apply Char.toNat_inj.mp
      have nats := congrArg UInt8.toNat equal
      rw [UInt8.toNat_ofNat', UInt8.toNat_ofNat', Nat.mod_eq_of_lt (by omega),
        Nat.mod_eq_of_lt (by omega)] at nats
      exact nats
    constructor
    · intro equal
      exact notQuote (same (by decide) equal)
    · intro equal
      exact notSlash (same (by decide) equal)
  · have high := (encode_wide (Nat.not_lt.mp ascii)).1 b mem
    constructor
    · rintro rfl
      exact absurd high (by decide)
    · rintro rfl
      exact absurd high (by decide)

theorem hookContent_plain {c : Char} (notSlash : c ≠ backslash) (rest : List Char) :
    hookContent (c :: rest) = latin c ++ hookContent rest := by
  rw [hookContent]
  intro e tail same
  exact absurd same notSlash

def Simple (c : Char) : Prop := c ≠ backslash ∧ c.toNat < 128

instance (c : Char) : Decidable (Simple c) := inferInstanceAs (Decidable (_ ∧ _))

theorem simple_all {cs : List Char} (all : cs.all (fun c => decide (Simple c)) = true) :
    ∀ c ∈ cs, Simple c := by
  intro c mem
  exact of_decide_eq_true (List.all_eq_true.mp all c mem)

theorem latin_ascii {c : Char} (ascii : c.toNat < 128) : latin c = [c] := by
  have back : (UInt8.ofNat c.toNat).toNat = c.toNat := by
    rw [UInt8.toNat_ofNat', Nat.mod_eq_of_lt (by omega)]
  rw [latin, encode_ascii ascii, List.map_singleton, back, Char.ofNat_toNat]

theorem hookContent_simple {raw : List Char} (simple : ∀ c ∈ raw, Simple c) :
    hookContent raw = raw := by
  induction raw with
  | nil => rfl
  | cons c raw ih =>
    obtain ⟨notSlash, ascii⟩ := simple c List.mem_cons_self
    rw [hookContent_plain notSlash, latin_ascii ascii,
      ih fun d mem => simple d (List.mem_cons_of_mem _ mem)]
    rfl

theorem unescape_content {raw : List Char} (content : Paired raw) (rest : List Char) :
    unescape (asBytes (String.ofList (raw ++ quote :: rest))) = some (hookContent raw) := by
  induction content with
  | nil =>
    rw [List.nil_append, asBytes_cons, encode_ascii (by decide)]
    rfl
  | plain notQuote notSlash _ ih =>
    rw [List.cons_append, asBytes_cons, unescape_plain (encode_plain notQuote notSlash), ih,
      hookContent_plain notSlash]
    rfl
  | pair ascii _ ih =>
    rw [List.cons_append, List.cons_append, asBytes_cons, asBytes_cons, encode_ascii ascii,
      encode_ascii (by decide), List.singleton_append, List.singleton_append]
    change unescape (0x5c :: _ :: _) = _
    rw [unescape, ih]
    rfl

theorem rawString_plain {c : Char} (notQuote : c ≠ quote) (notSlash : c ≠ backslash)
    (rest : List Char) : rawString (c :: rest) = (rawString rest).map (c :: ·) := by
  rw [rawString, if_neg notQuote]
  · intro same
    exact absurd same notSlash
  · intro d tail same
    exact absurd same notSlash

theorem rawString_content {raw : List Char} (content : Paired raw) (rest : List Char) :
    rawString (raw ++ quote :: rest) = some raw := by
  induction content with
  | nil => rfl
  | plain notQuote notSlash _ ih =>
    rw [List.cons_append, rawString_plain notQuote notSlash, ih]
    rfl
  | pair _ _ ih =>
    rw [List.cons_append, List.cons_append]
    change rawString ('\x5c' :: _ :: _) = _
    rw [rawString, ih]
    rfl

theorem render_other {v : Tree} (valid : v.Valid) (other : ∀ raw, v ≠ .str raw) :
    ∃ c cs, v.render = c :: cs ∧ c ≠ quote := by
  cases v with
  | atom token =>
    rw [Tree.Valid] at valid
    obtain ⟨c, cs, rfl⟩ := List.exists_cons_of_ne_nil (atom_some valid)
    exact ⟨c, cs, rfl, (token_shape (atom_token valid c List.mem_cons_self)).1⟩
  | str raw => exact absurd rfl (other raw)
  | empty b blank => exact ⟨b.opens, blank ++ [b.closes], rfl, (bracket_other b).1⟩
  | group b entries => exact ⟨b.opens, entries.render ++ [b.closes], rfl, (bracket_other b).1⟩

theorem stringValue_other (read : List Char → Option (List Char)) {c : Char} (notQuote : c ≠ quote)
    (cs : List Char) : stringValue read (c :: cs) = none := by
  unfold stringValue
  split
  · rename_i same
    exact absurd (List.cons.inj same).1 notQuote
  · rfl

theorem quoted_append (raw rest : List Char) :
    quoted raw ++ rest = quote :: (raw ++ quote :: rest) := by
  simp [quoted]

theorem reads_string {read : List Char → Option (List Char)} {content : List Char → List Char}
    (hit : ∀ {raw : List Char}, Paired raw → ∀ rest,
      read (raw ++ quote :: rest) = some (content raw)) :
    Reads (stringValue read) (stringResult content) := by
  intro v blank c rest valid _ _
  by_cases string : ∃ raw, v = .str raw
  · obtain ⟨raw, rfl⟩ := string
    rw [Tree.Valid] at valid
    rw [Tree.render, quoted_append]
    change (read _).map String.ofList = _
    rw [hit (raw_paired valid)]
    rfl
  · have other (raw : List Char) : v ≠ .str raw := fun same => string ⟨raw, same⟩
    obtain ⟨d, ds, head, notQuote⟩ := render_other valid other
    rw [head, List.cons_append, stringValue_other read notQuote]
    cases v with
    | str raw => exact absurd rfl (other raw)
    | atom _ => rfl
    | empty _ _ => rfl
    | group _ _ => rfl

theorem reads_hook : Reads hookValue (stringResult hookContent) := reads_string unescape_content

theorem reads_status : Reads statusValue (stringResult id) := reads_string rawString_content

def inToken (c : Char) : Bool := c != ',' && c != '\x7d'

theorem blank_inToken {c : Char} (blank : isBlank c = true) : inToken c = true := by
  simp only [isBlank, Bool.or_eq_true, beq_iff_eq] at blank
  rcases blank with ((rfl | rfl) | rfl) | rfl
  · rfl
  · rfl
  · rfl
  · rfl

theorem token_other {c : Char} (notQuote : c ≠ quote) (cs : List Char) :
    token (c :: cs) = some (trim (String.ofList ((c :: cs).takeWhile inToken))) := by
  rw [token]
  · rfl
  · intro same
    cases same
  · intro rest same
    exact absurd (List.cons.inj same).1 notQuote

theorem trim_blanks {c : Char} (stop : isWhitespace c = false) (cs : List Char) {blank : List Char}
    (blanks : Blanks blank) :
    trim (String.ofList (c :: cs ++ blank)) = trim (String.ofList (c :: cs)) := by
  have gone (d : Char) (mem : d ∈ blank.reverse) : isWhitespace d = true :=
    (blank_shape (blanks d (List.mem_reverse.mp mem))).2.2.1
  have head (ds : List Char) : (c :: ds).dropWhile isWhitespace = c :: ds :=
    List.dropWhile_cons_of_neg (by simp [stop])
  rw [trim, trim, String.toList_ofList, String.toList_ofList, List.cons_append, head, head,
    ← List.cons_append, List.reverse_append, List.dropWhile_append_of_pos gone]

theorem token_string {raw : List Char} (content : Paired raw) (rest : List Char) :
    token (quoted raw ++ rest) = some (String.ofList (quoted raw)) := by
  rw [quoted_append]
  change (rawString (raw ++ quote :: rest)).map _ = _
  rw [rawString_content content]
  rfl

theorem tokenResult_string {raw : List Char} (content : Paired raw) :
    tokenResult (.str raw) = some (String.ofList (quoted raw)) := by
  have alone := token_string content []
  rw [List.append_nil] at alone
  exact alone

theorem reads_token : Reads token tokenResult := by
  intro v blank c rest valid blanks ends
  by_cases string : ∃ raw, v = .str raw
  · obtain ⟨raw, rfl⟩ := string
    rw [Tree.Valid] at valid
    rw [Tree.render, token_string (raw_paired valid), tokenResult_string (raw_paired valid)]
  · have other (raw : List Char) : v ≠ .str raw := fun same => string ⟨raw, same⟩
    obtain ⟨d, ds, head, notQuote⟩ := render_other valid other
    obtain ⟨_, _, head', _, stop⟩ := render_head valid
    obtain ⟨rfl, rfl⟩ := List.cons.inj (head ▸ head')
    have stops : inToken c = false := by
      rcases ends with rfl | rfl
      · rfl
      · rfl
    have through (e : Char) (mem : e ∈ blank) : inToken e = true := blank_inToken (blanks e mem)
    rw [tokenResult, head, List.cons_append, token_other notQuote, token_other notQuote,
      ← List.cons_append, List.takeWhile_append]
    split
    · rename_i whole
      have all : (d :: ds).takeWhile inToken = d :: ds :=
        (List.takeWhile_prefix _).eq_of_length whole
      rw [all, List.takeWhile_append_of_pos through, List.takeWhile_cons_of_neg (by simp [stops]),
        List.append_nil, trim_blanks stop ds blanks]
    · rfl

theorem skimString_text {key : String} (word : Word key.toList) (t : JsonText) :
    skimString t.text key = (first key.toList t.tree).bind (stringResult hookContent) :=
  find_text hookValue (stringResult hookContent) word reads_hook t

theorem word_session : Word "session_id".toList := ⟨by decide, List.all_eq_true.mp (by decide)⟩

theorem word_event : Word "hook_event_name".toList := ⟨by decide, List.all_eq_true.mp (by decide)⟩

theorem word_timestamp : Word "timestamp".toList := ⟨by decide, List.all_eq_true.mp (by decide)⟩

theorem word_type : Word "type".toList := ⟨by decide, List.all_eq_true.mp (by decide)⟩

theorem skimSession_text (t : JsonText) :
    skimSession t.text = (first "session_id".toList t.tree).bind (stringResult id) :=
  find_text statusValue (stringResult id) word_session reads_status t

def bare (t : JsonText) : JsonText := ⟨[], t.tree, [], blanks_nil, t.valid, blanks_nil⟩

theorem object_end {t : Tree} (object : t.IsObject) :
    ∃ cs, t.render = '\x7b' :: cs ++ ['\x7d'] := by
  cases t with
  | atom _ => cases object
  | str _ => cases object
  | empty b blank =>
    obtain rfl : b = .curly := object
    exact ⟨blank, rfl⟩
  | group b entries =>
    obtain rfl : b = .curly := object
    exact ⟨entries.render, rfl⟩

theorem trim_text (o : ObjectText) : trim o.text = (bare o.toJsonText).text := by
  obtain ⟨cs, shape⟩ := object_end o.object
  have covers (c : Char) (blank : isBlank c = true) : isWhitespace c = true :=
    (blank_shape blank).2.2.1
  have after : Blanks o.after.reverse := fun c mem => o.after_blank c (List.mem_reverse.mp mem)
  have opens : isWhitespace '\x7b' = false := by decide
  have closes : isWhitespace '\x7d' = false := by decide
  have whole : o.before ++ o.tree.render ++ o.after = o.before ++ '\x7b' ::
    (cs ++ '\x7d' :: o.after) := by simp [shape]
  have reversed : ('\x7b' :: (cs ++ '\x7d' :: o.after)).reverse = o.after.reverse ++ '\x7d' ::
    (cs.reverse ++ ['\x7b']) := by
    simp
  rw [trim, JsonText.text, String.toList_ofList, whole,
    dropWhile_blanks covers o.before_blank opens, reversed, dropWhile_blanks covers after closes]
  simp [JsonText.text, bare, shape]

theorem text_some (o : ObjectText) : (bare o.toJsonText).text.isEmpty = false := by
  obtain ⟨cs, shape⟩ := object_end o.object
  simp [JsonText.text, bare, shape]

theorem linesOf_one {cs : List Char} (some_ : cs ≠ []) (inside : '\n' ∉ cs) :
    linesOf cs = [cs] := by
  induction cs with
  | nil => exact absurd rfl some_
  | cons c cs ih =>
    have notBreak : c ≠ '\n' := fun same => inside (same ▸ List.mem_cons_self)
    have inside : '\n' ∉ cs := fun mem => inside (List.mem_cons_of_mem _ mem)
    cases cs with
    | nil =>
      rw [linesOf]
      · exact notBreak
      · rintro tail - same
        cases same
    | cons d cs =>
      apply linesOf.eq_5 c d cs (d :: cs) [] notBreak
      · rintro tail - same
        exact inside ((List.cons.inj same).1 ▸ List.mem_cons_self)
      · exact ih (List.cons_ne_nil _ _) inside

theorem lines_one {s : String} (some_ : s.toList ≠ []) (inside : '\n' ∉ s.toList) :
    lines s = [s] := by
  rw [lines, linesOf_one some_ inside, List.map_singleton, String.ofList_toList]

theorem timing_text (o : ObjectText) : timing o.text =
    ((first "timestamp".toList o.tree).bind tokenResult).bind fun tok =>
      (parseUnixSeconds tok).map fun ts =>
        ⟨ts, eventOf ((first "type".toList o.tree).bind tokenResult)⟩ := by
  have timestamp : valueForKey (bare o.toJsonText).text "timestamp" =
    (first "timestamp".toList o.tree).bind tokenResult :=
    find_text token tokenResult word_timestamp reads_token (bare o.toJsonText)
  have type : valueForKey (bare o.toJsonText).text "type" =
    (first "type".toList o.tree).bind tokenResult :=
    find_text token tokenResult word_type reads_token (bare o.toJsonText)
  generalize (first "timestamp".toList o.tree).bind tokenResult = found at timestamp ⊢
  generalize (first "type".toList o.tree).bind tokenResult = label at type ⊢
  simp only [timing, trim_text, text_some, if_neg Bool.false_ne_true, timestamp, type]
  cases found with
  | none => simp
  | some tok =>
    cases parsed : parseUnixSeconds tok with
    | none => simp [parsed]
    | some ts => simp [parsed]

def five : Number := @Number.natural ['5'] ⟨by decide, List.all_eq_true.mp (by decide)⟩ (by decide)

def prompted {prompt : List Char} (content : Raw prompt) : ObjectText where
  before := []
  tree := .group .curly (.more [] (Name.tight "prompt".toList) (.str prompt) []
    (.more [] (Name.tight "session_id".toList) (.str ['s']) []
    (.more [] (Name.tight "hook_event_name".toList) (.str "Stop".toList) []
    (.more [] (Name.tight "timestamp".toList) (.atom five.text) []
    (.one [] (Name.tight "type".toList) (.str "user".toList) [])))))
  after := []
  before_blank := blanks_nil
  valid := by
    have name (cs : List Char) (plain : cs.all (fun c => decide (Plain c)) = true) :
      Name.Valid .curly (Name.tight cs) :=
      Name.tight_valid (raw_plain plain)
    exact ⟨blanks_nil, name _ (by decide), content, blanks_nil,
      blanks_nil, name _ (by decide), raw_plain (by decide), blanks_nil,
      blanks_nil, name _ (by decide), raw_plain (by decide), blanks_nil,
      blanks_nil, name _ (by decide), .number five, blanks_nil,
      blanks_nil, name _ (by decide), raw_plain (by decide), blanks_nil⟩
  object := rfl
  after_blank := blanks_nil

theorem prompted_line {prompt : List Char} (content : Raw prompt)
    (inside : '\n' ∉ (prompted content).tree.render) :
    lines (prompted content).text = [(prompted content).text] := by
  have chars : (prompted content).text.toList = (prompted content).tree.render := by
    simp [JsonText.text, prompted]
  apply lines_one
  · rw [chars]
    exact List.cons_ne_nil _ _
  · rw [chars]
    exact inside

theorem hi : Raw ['h', 'i'] := raw_plain (by decide)

end Spnr.Scan
