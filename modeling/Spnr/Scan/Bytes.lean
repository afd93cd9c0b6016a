import Spnr.Lib.Utf8
import Spnr.Scan.Values

/-! The scanners as they run, by byte indices into the text: every index, slice and addition can
fail and every loop can run on. None does, and they find what the scanners over characters find. -/
namespace Spnr.Scan

open Json RustStd Checked

namespace Bytes

def isAsciiWhitespace (b : UInt8) : Bool :=
  b == 0x20 || b == 0x09 || b == 0x0a || b == 0x0c || b == 0x0d

def whitespaceTurn (bytes : List UInt8) (i : Nat) : Checked (Turn Nat Nat) := do
  if i < bytes.length then
    if isAsciiWhitespace (← index bytes i) then return .next (← usize (i + 1)) else return .done i
  else return .done i

def skipWhitespace (bytes : List UInt8) (i : Nat) : Checked Nat :=
  loop (whitespaceTurn bytes) (bytes.length + 1) i

def prevOk (before : String) : Bool :=
  let trimmed := (before.toList.reverse.dropWhile isWhitespace).reverse
  (trimmed.getLast?.map fun c => c == '\x7b' || c == ',').getD true

def afterColon (bytes : List UInt8) (i : Nat) : Checked (Option Nat) := do
  let i ← skipWhitespace bytes i
  if bytes.length ≤ i then return none
  else if (← index bytes i) != 0x3a then return none
  else
    let i ← skipWhitespace bytes (← usize (i + 1))
    return some i

/-- One turn of `while let Some(rel) = blob[from..].find(&needle)`; `value` goes on from the index
of the value. -/
def searchTurn {α : Type} (value : String → Nat → Checked (Option α)) (blob needle : String)
    (start : Nat) : Checked (Turn Nat (Option α)) := do
  let bytes := asBytes blob
  match strFind (← str blob start bytes.length) needle with
  | none => return .done none
  | some rel =>
    let start ← usize (start + rel)
    let stop ← usize (start + (asBytes needle).length)
    if !prevOk (← str blob 0 start) then return .next stop
    else
      match ← afterColon bytes stop with
      | none => return .next stop
      | some i => return .done (← value blob i)

def find {α : Type} (value : String → Nat → Checked (Option α)) (blob key : String) :
    Checked (Option α) :=
  loop (searchTurn value blob (String.ofList (needle key))) ((asBytes blob).length + 1) 0

def stringValue (read : String → Nat → Checked (Option String)) (blob : String) (i : Nat) :
    Checked (Option String) := do
  let bytes := asBytes blob
  if bytes.length ≤ i then return none
  else if (← index bytes i) != 0x22 then return none
  else read blob (← usize (i + 1))

/-- The guard of the arm for a backslash; one at the very end is an ordinary byte. -/
def escapes (bytes : List UInt8) (j : Nat) (b : UInt8) : Checked Bool := do
  if b == 0x5c then return decide ((← usize (j + 1)) < bytes.length) else return false

def unescapeTurn (bytes : List UInt8) : Nat × String → Checked (Turn (Nat × String) (Option String))
  | (j, out) => do
    if j < bytes.length then
      let b ← index bytes j
      if ← escapes bytes j b then
        let c ← index bytes (← usize (j + 1))
        return .next (← usize (j + 2), out.push (escaped c))
      else if b == 0x22 then return .done (some out)
      else return .next (← usize (j + 1), out.push (Char.ofNat b.toNat))
    else return .done none

def unescape (blob : String) (start : Nat) : Checked (Option String) :=
  loop (unescapeTurn (asBytes blob)) ((asBytes blob).length + 1) (start, "")

def hookValue : String → Nat → Checked (Option String) := stringValue unescape

def skimString (blob key : String) : Checked (Option String) := find hookValue blob key

/-- One turn of the loop for the closing quote. After a backslash it passes over two bytes, the
second of which may be the first one of several. -/
def closingTurn (bytes : List UInt8) (j : Nat) : Checked (Turn Nat (Option Nat)) := do
  if j < bytes.length then
    if (← index bytes j) == 0x5c then return .next (← usize (j + 2))
    else if (← index bytes j) == 0x22 then return .done (some j)
    else return .next (← usize (j + 1))
  else return .done none

def closingQuote (blob : String) (start : Nat) : Checked (Option Nat) :=
  loop (closingTurn (asBytes blob)) ((asBytes blob).length + 1) start

def rawString (blob : String) (vstart : Nat) : Checked (Option String) := do
  match ← closingQuote blob vstart with
  | some j => return some (← str blob vstart j)
  | none => return none

def statusValue : String → Nat → Checked (Option String) := stringValue rawString

def skimSession (blob : String) : Checked (Option String) := find statusValue blob "session_id"

def bareTurn (bytes : List UInt8) (j : Nat) : Checked (Turn Nat Nat) := do
  if j < bytes.length then
    if (← index bytes j) != 0x2c && (← index bytes j) != 0x7d then
      return .next (← usize (j + 1))
    else return .done j
  else return .done j

def token (line : String) (i : Nat) : Checked (Option String) := do
  let bytes := asBytes line
  if bytes.length ≤ i then return none
  else if (← index bytes i) == 0x22 then
    let vstart := i
    match ← closingQuote line (← usize (i + 1)) with
    | some j => return some (← str line vstart (← usize (j + 1)))
    | none => return none
  else
    let vstart := i
    let j ← loop (bareTurn bytes) (bytes.length + 1) i
    return some (trim (← str line vstart j))

def valueForKey (line key : String) : Checked (Option String) := find token line key

end Bytes

theorem whitespace_byte {c : Char} {b : UInt8} {bs : List UInt8}
    (encoded : String.utf8EncodeChar c = b :: bs) :
    Bytes.isAsciiWhitespace b = isAsciiWhitespace c := by
  have space : (b == 0x20) = (c == ' ') := encode_is encoded ' ' (by decide)
  have tab : (b == 0x09) = (c == '\t') := encode_is encoded '\t' (by decide)
  have lf : (b == 0x0a) = (c == '\n') := encode_is encoded '\n' (by decide)
  have ff : (b == 0x0c) = (c == '\x0c') := encode_is encoded '\x0c' (by decide)
  have cr : (b == 0x0d) = (c == '\r') := encode_is encoded '\r' (by decide)
  rw [Bytes.isAsciiWhitespace, isAsciiWhitespace, space, tab, lf, ff, cr]

theorem prevOk_eq (front : List Char) :
    Bytes.prevOk (String.ofList front) = prevOk front.reverse := by
  rw [Bytes.prevOk, prevOk, String.toList_ofList, List.getLast?_reverse]
  cases front.reverse.dropWhile isWhitespace with
  | nil => rfl
  | cons c cs => rfl

section

variable {blob : String} (small : (asBytes blob).length < 2 ^ 63)
include small

theorem skipWhitespace_ok {i : Nat} {rest : List Char} (cursor : At blob i rest) :
    ∃ j, Bytes.skipWhitespace (asBytes blob) i = .ok j ∧
    At blob j (rest.dropWhile isAsciiWhitespace) := by
  have split := List.takeWhile_append_dropWhile (p := isAsciiWhitespace) (l := rest)
  rw [← split] at cursor
  refine ⟨_, ?_, cursor.skip⟩
  rw [split] at cursor
  apply loop_ok (fun j => ∃ u rest', rest = u ++ rest' ∧ At blob j rest' ∧
    rest.takeWhile isAsciiWhitespace = u ++ rest'.takeWhile isAsciiWhitespace)
      (fun j => (asBytes blob).length - j)
  · rintro j ⟨u, rest', rfl, here, taken⟩
    have place : j = i + (utf8 u).length := by
      have := cursor.skip.length
      have := here.length
      omega
    cases rest' with
    | nil =>
      left
      rw [taken, Bytes.whitespaceTurn, if_neg (by rw [here.over]; exact Nat.lt_irrefl _),
        List.takeWhile_nil, List.append_nil, place]
      rfl
    | cons c cs =>
      have inside := here.inside
      obtain ⟨b, bs, encoded, byte⟩ := here.index
      rw [Bytes.whitespaceTurn, if_pos inside, byte, ok_bind, whitespace_byte encoded]
      cases blank : isAsciiWhitespace c with
      | false =>
        left
        rw [taken, List.takeWhile_cons_of_neg (by rw [blank]; exact Bool.false_ne_true),
          List.append_nil, place]
        rfl
      | true =>
        right
        have ascii : c.toNat < 128 := by
          simp only [isAsciiWhitespace, Bool.or_eq_true, beq_iff_eq] at blank
          rcases blank with (((rfl | rfl) | rfl) | rfl) | rfl <;> decide
        rw [if_pos rfl, usize_ok (show j + 1 < 2 ^ 64 by omega), ok_bind]
        refine ⟨j + 1, rfl,
          ⟨u ++ [c], cs, (List.append_cons u c cs), here.next ascii, ?_⟩, by omega⟩
        rw [taken, List.takeWhile_cons_of_pos blank, List.append_assoc, List.singleton_append]
  · exact ⟨[], rest, rfl, cursor, rfl⟩
  · omega

theorem afterColon_ok {i : Nat} {rest : List Char} (cursor : At blob i rest) :
    match afterColon rest with
    | none => Bytes.afterColon (asBytes blob) i = .ok none
    | some text => ∃ j, Bytes.afterColon (asBytes blob) i = .ok (some j) ∧ At blob j text := by
  obtain ⟨j, skipped, here⟩ := skipWhitespace_ok small cursor
  rw [Bytes.afterColon, skipped, ok_bind, afterColon]
  cases left : rest.dropWhile isAsciiWhitespace with
  | nil =>
    rw [left] at here
    rw [if_pos (Nat.le_of_eq here.over.symm)]
    rfl
  | cons c cs =>
    rw [left] at here
    have inside := here.inside
    obtain ⟨b, bs, encoded, byte⟩ := here.index
    have colon : (b == 0x3a) = (c == ':') := encode_is encoded ':' (by decide)
    rw [if_neg (Nat.not_le.mpr inside), byte, ok_bind, bne, colon]
    by_cases same : c = ':'
    · subst same
      obtain ⟨k, more, value⟩ := skipWhitespace_ok small (here.next (by decide))
      refine ⟨k, ?_, value⟩
      rw [if_neg (by decide), usize_ok (show j + 1 < 2 ^ 64 by omega), ok_bind, more]
      rfl
    · rw [beq_eq_false_iff_ne.mpr same]
      split
      · rename_i text found
        split at found
        · rename_i colon'
          exact absurd (List.cons.inj colon').1 same
        · rfl
      · rename_i text found
        split at found
        · rename_i colon'
          exact absurd (List.cons.inj colon').1 same
        · cases found

end

theorem search_before {α : Type} (value : List Char → Option α) (key hay before : List Char) :
    search value (quoted key) 0 before hay =
      match textBefore (quoted key) hay with
      | none => none
      | some u => search value (quoted key) 0 (u.reverse ++ before) (hay.drop u.length) := by
  induction hay generalizing before with
  | nil => rfl
  | cons c cs ih =>
    rw [textBefore]
    cases hit : (quoted key).isPrefixOf (c :: cs) with
    | true => rfl
    | false =>
      rw [search, hit, if_neg Bool.false_ne_true, if_neg Bool.false_ne_true, ih (c :: before)]
      cases textBefore (quoted key) cs with
      | none => rfl
      | some u =>
        simp only [Option.map_some, List.reverse_cons, List.append_assoc, List.singleton_append,
          List.length_cons, List.drop_succ_cons]

/-- `value` over bytes does what `value'` does over characters. -/
def Mirrors {α : Type} (value : String → Nat → Checked (Option α))
    (value' : List Char → Option α) : Prop :=
  ∀ (blob : String) (i : Nat) (text : List Char), (asBytes blob).length < 2 ^ 63 → At blob i text →
    value blob i = .ok (value' text)

/-- What the search has passed over and what is left of the text. -/
def Searching {α : Type} (value : List Char → Option α) (key : List Char) (blob : String)
    (found : Option α) (start : Nat) : Prop :=
  ∃ front rest, blob.toList = front ++ rest ∧ start = (utf8 front).length ∧
    search value (quoted key) 0 front.reverse rest = found

theorem searching_onward {α : Type} (value : List Char → Option α) {blob : String}
    {key before after : List Char} (split : blob.toList = (before ++ quoted key) ++ after) :
    At blob ((utf8 before).length + (utf8 (quoted key)).length) after ∧
      Searching value key blob
        (search value (quoted key) 0 ((quoted key).reverse ++ before.reverse) after)
        ((utf8 before).length + (utf8 (quoted key)).length) := by
  have size : (utf8 before).length + (utf8 (quoted key)).length =
    (utf8 (before ++ quoted key)).length := by
    rw [utf8_append, List.length_append]
  exact ⟨⟨_, split, size⟩, _, after, split, size, by rw [List.reverse_append]⟩

section

variable {α : Type} {value : String → Nat → Checked (Option α)} {value' : List Char → Option α}
  (mirrors : Mirrors value value') {blob : String} (small : (asBytes blob).length < 2 ^ 63)
include mirrors small

theorem searchTurn_ok {key : List Char} {found : Option α} {start : Nat}
    (searching : Searching value' key blob found start) :
    Bytes.searchTurn value blob (String.ofList (quoted key)) start = .ok (.done found) ∨
      ∃ stop, Bytes.searchTurn value blob (String.ofList (quoted key)) start = .ok (.next stop) ∧
        Searching value' key blob found stop ∧
        (asBytes blob).length - stop < (asBytes blob).length - start := by
  obtain ⟨front, rest, split, rfl, searched⟩ := searching
  have needle : strFind (String.ofList rest) (String.ofList (quoted key)) =
      (textBefore (quoted key) rest).map fun u => (utf8 u).length := by
    rw [strFind, asBytes_ofList, asBytes_ofList]
    exact findBytes_text (by decide) _ _
  rw [search_before] at searched
  unfold Bytes.searchTurn
  simp only [str_back split, ok_bind, needle]
  cases before : textBefore (quoted key) rest with
  | none =>
    rw [before] at searched
    rw [← searched]
    exact .inl rfl
  | some u =>
    obtain ⟨after, rfl⟩ := textBefore_split before
    have longer : 0 < (utf8 (quoted key)).length := by
      rw [quoted, List.cons_append, utf8_cons, encode_ascii (by decide)]
      exact Nat.succ_pos _
    have prior : blob.toList = (front ++ u) ++ (quoted key ++ after) := by
      rw [split, List.append_assoc]
    have passed : blob.toList = (front ++ u ++ quoted key) ++ after := by
      rw [split]
      simp only [List.append_assoc]
    obtain ⟨behind, onward⟩ := searching_onward value' passed
    have whole := behind.length
    have start : (utf8 front).length + (utf8 u).length = (utf8 (front ++ u)).length := by
      rw [utf8_append, List.length_append]
    rw [before] at searched
    dsimp only at searched
    rw [List.drop_left, ← List.reverse_append, search_key, counted] at searched
    simp only [Option.map_some]
    rw [start, usize_ok (by omega), ok_bind, asBytes_ofList, usize_ok (by omega), ok_bind,
      str_front prior, ok_bind, prevOk_eq]
    cases boundary : prevOk (front ++ u).reverse with
    | false =>
      rw [boundary, if_neg Bool.false_ne_true] at searched
      subst searched
      exact .inr ⟨_, rfl, onward, by omega⟩
    | true =>
      rw [boundary, if_pos rfl] at searched
      have colon := afterColon_ok small behind
      rw [Bool.not_true, if_neg Bool.false_ne_true]
      cases counts : afterColon after with
      | none =>
        rw [counts] at searched colon
        subst searched
        rw [colon]
        exact .inr ⟨_, rfl, onward, by omega⟩
      | some text =>
        rw [counts] at searched colon
        subst searched
        obtain ⟨j, next, here⟩ := colon
        rw [next, ok_bind]
        dsimp only
        rw [mirrors blob j text small here]
        exact .inl rfl

theorem find_ok (key : String) : Bytes.find value blob key = .ok (find value' blob key) := by
  apply loop_ok (Searching value' key.toList blob (find value' blob key))
    (fun start => (asBytes blob).length - start)
  · intro start searching
    exact searchTurn_ok mirrors small searching
  · exact ⟨[], blob.toList, rfl, rfl, rfl⟩
  · omega

end

theorem escapes_ok {bytes : List UInt8} {j : Nat} (small : j + 1 < 2 ^ 64) (b : UInt8) :
    Bytes.escapes bytes j b = .ok (b == 0x5c && decide (j + 1 < bytes.length)) := by
  rw [Bytes.escapes, usize_ok small]
  cases b == 0x5c with
  | false => rfl
  | true => rfl

def Unescaping (bytes : List UInt8) (read : Option String) : Nat × String → Prop
  | (j, out) => (unescape (bytes.drop j)).map (fun cs => out ++ String.ofList cs) = read

theorem push_ofList (out : String) (c : Char) (cs : List Char) :
    out.push c ++ String.ofList cs = out ++ String.ofList (c :: cs) := by
  apply String.toList_injective
  simp [String.toList_append, String.toList_push]

theorem unescapeTurn_ok {bytes : List UInt8} (small : bytes.length < 2 ^ 63) {j : Nat}
    {out : String} {read : Option String} (reading : Unescaping bytes read (j, out)) :
    Bytes.unescapeTurn bytes (j, out) = .ok (.done read) ∨
      ∃ next, Bytes.unescapeTurn bytes (j, out) = .ok (.next next) ∧ Unescaping bytes read next ∧
        bytes.length - next.1 < bytes.length - j := by
  rw [Unescaping] at reading
  rw [Bytes.unescapeTurn]
  by_cases inside : j < bytes.length
  · have here := List.getElem?_eq_getElem inside
    rw [List.drop_eq_getElem_cons inside] at reading
    rw [if_pos inside, index_ok here, ok_bind, escapes_ok (by omega), ok_bind,
      usize_ok (show j + 1 < 2 ^ 64 by omega), usize_ok (show j + 2 < 2 ^ 64 by omega)]
    generalize bytes[j] = b at reading
    by_cases slash : b = 0x5c
    · subst slash
      by_cases more : j + 1 < bytes.length
      · right
        rw [List.drop_eq_getElem_cons more, unescape, Option.map_map] at reading
        rw [decide_eq_true more, ok_bind, index_ok (List.getElem?_eq_getElem more)]
        refine ⟨_, rfl, ?_, by dsimp only; omega⟩
        simp only [Unescaping, push_ofList]
        exact reading
      · right
        rw [List.drop_eq_nil_of_le (Nat.not_lt.mp more)] at reading
        rw [decide_eq_false more]
        refine ⟨_, rfl, ?_, by dsimp only; omega⟩
        rw [Unescaping, List.drop_eq_nil_of_le (Nat.not_lt.mp more)]
        exact reading
    · rw [beq_eq_false_iff_ne.mpr slash, Bool.false_and, if_neg Bool.false_ne_true]
      by_cases quoted : b = 0x22
      · subst quoted
        left
        rw [← reading]
        simp [unescape]
      · right
        rw [unescape_cons quoted slash, Option.map_map] at reading
        rw [beq_eq_false_iff_ne.mpr quoted]
        refine ⟨_, rfl, ?_, by dsimp only; omega⟩
        simp only [Unescaping, push_ofList]
        exact reading
  · rw [List.drop_eq_nil_of_le (Nat.not_lt.mp inside)] at reading
    rw [if_neg inside, ← reading]
    exact .inl rfl

theorem rawString_split {rest raw : List Char} (read : rawString rest = some raw) :
    ∃ tail, rest = raw ++ quote :: tail := by
  fun_induction rawString rest generalizing raw with
  | case1 => cases read
  | case2 => cases read
  | case3 c rest ih =>
    obtain ⟨raw, later, rfl⟩ := Option.map_eq_some_iff.mp read
    obtain ⟨tail, rfl⟩ := ih later
    exact ⟨tail, rfl⟩
  | case4 rest =>
    obtain rfl := Option.some.inj read
    exact ⟨rest, rfl⟩
  | case5 c rest _ _ _ ih =>
    obtain ⟨raw, later, rfl⟩ := Option.map_eq_some_iff.mp read
    obtain ⟨tail, rfl⟩ := ih later
    exact ⟨tail, rfl⟩

section

variable {blob : String} (small : (asBytes blob).length < 2 ^ 63)
include small

def quoteAt (vstart : Nat) (text : List Char) : Option Nat :=
  (rawString text).map fun raw => vstart + (utf8 raw).length

/-- What the loop for the closing quote has passed over, and the text behind the character that the
cursor may be inside. -/
def Closing (blob : String) (text : List Char) (j : Nat) : Prop :=
  ∃ raw rest, text = raw ++ rest ∧ Near blob j rest ∧
    rawString text = (rawString rest).map (raw ++ ·)

omit small in
theorem Closing.plain {text : List Char} {j : Nat} {raw rest : List Char} {c : Char}
    (split : text = raw ++ c :: rest)
    (read : rawString text = (rawString (c :: rest)).map (raw ++ ·)) (notQuote : c ≠ quote)
    (notSlash : c ≠ backslash) (near : Near blob j rest) : Closing blob text j := by
  refine ⟨raw ++ [c], rest, by rw [split, List.append_assoc, List.singleton_append], near, ?_⟩
  rw [read, rawString_plain notQuote notSlash, Option.map_map]
  apply congrArg (fun f => Option.map f (rawString rest))
  funext more
  rw [Function.comp_apply, List.append_assoc, List.singleton_append]

omit small in
theorem Closing.escape {text : List Char} {j : Nat} {raw cs : List Char}
    (split : text = raw ++ backslash :: cs)
    (read : rawString text = (rawString (backslash :: cs)).map (raw ++ ·))
    (behind : (asBytes blob).drop (j + 1) = utf8 cs) : Closing blob text (j + 2) := by
  cases cs with
  | nil =>
    refine ⟨raw ++ [backslash], [], split.trans (List.append_cons raw backslash []),
      near_between ?_, read⟩
    rw [show j + 2 = j + 1 + 1 from rfl, ← List.drop_drop, behind]
    rfl
  | cons d ds =>
    refine ⟨raw ++ [backslash, d], ds, ?_, near_first behind, ?_⟩
    · rw [split, List.append_assoc]
      rfl
    · rw [read]
      change (rawString ('\x5c' :: d :: ds)).map _ = _
      rw [rawString, Option.map_map]
      apply congrArg (fun f => Option.map f (rawString ds))
      funext more
      rw [Function.comp_apply, List.append_assoc]
      rfl

omit small in
theorem Closing.wide {text : List Char} {j : Nat} {b : UInt8} (closing : Closing blob text j)
    (here : (asBytes blob)[j]? = some b) (high : 128 ≤ b.toNat) : Closing blob text (j + 1) := by
  obtain ⟨raw, rest, split, near, read⟩ := closing
  rcases near.wide here high with within | ⟨c, cs, rfl, wide, first⟩
  · exact ⟨raw, rest, split, within, read⟩
  · exact Closing.plain split read (char_ne wide (by decide)) (char_ne wide (by decide)) first

theorem closingTurn_ok {text : List Char} {vstart j : Nat} (cursor : At blob vstart text)
    (closing : Closing blob text j) :
    Bytes.closingTurn (asBytes blob) j = .ok (.done (quoteAt vstart text)) ∨
      ∃ next, Bytes.closingTurn (asBytes blob) j = .ok (.next next) ∧ Closing blob text next ∧
        (asBytes blob).length - next < (asBytes blob).length - j := by
  rw [Bytes.closingTurn]
  by_cases inside : j < (asBytes blob).length
  · have here := List.getElem?_eq_getElem inside
    rw [if_pos inside, index_ok here, ok_bind, ok_bind, usize_ok (show j + 1 < 2 ^ 64 by omega),
      usize_ok (show j + 2 < 2 ^ 64 by omega)]
    generalize (asBytes blob)[j] = b at here
    by_cases low : b.toNat < 128
    · obtain ⟨raw, rest, split, near, read⟩ := closing
      obtain ⟨cs, rfl, bytes, behind⟩ := near.ascii here low
      by_cases slash : b = 0x5c
      · subst slash
        exact .inr ⟨_, rfl, Closing.escape split read behind, by omega⟩
      · by_cases quoted : b = 0x22
        · subst quoted
          left
          have place : j = vstart + (utf8 raw).length :=
            At.behind (split ▸ cursor) bytes (Nat.le_of_lt inside)
          have found : rawString text = some (raw ++ []) := read
          rw [quoteAt, found, List.append_nil, Option.map_some, ← place]
          rfl
        · right
          have notSlash : (b == 0x5c) = (Char.ofNat b.toNat == backslash) :=
            encode_is (encode_byte low) backslash (by decide)
          have notQuote : (b == 0x22) = (Char.ofNat b.toNat == quote) :=
            encode_is (encode_byte low) quote (by decide)
          rw [beq_eq_false_iff_ne.mpr slash, eq_comm, beq_eq_false_iff_ne] at notSlash
          rw [beq_eq_false_iff_ne.mpr quoted, eq_comm, beq_eq_false_iff_ne] at notQuote
          rw [beq_eq_false_iff_ne.mpr slash, beq_eq_false_iff_ne.mpr quoted]
          exact ⟨_, rfl, Closing.plain split read notQuote notSlash (near_between behind), by omega⟩
    · have high := Nat.not_lt.mp low
      right
      rw [beq_eq_false_iff_ne.mpr (byte_ne high (by decide)),
        beq_eq_false_iff_ne.mpr (byte_ne high (by decide))]
      exact ⟨_, rfl, closing.wide here high, by omega⟩
  · obtain ⟨raw, rest, split, near, read⟩ := closing
    obtain rfl := near.over (Nat.not_lt.mp inside)
    rw [if_neg inside, quoteAt, read]
    exact .inl rfl

theorem closing_ok {text : List Char} {vstart : Nat} (cursor : At blob vstart text) :
    Bytes.closingQuote blob vstart = .ok (quoteAt vstart text) := by
  apply loop_ok (Closing blob text) (fun j => (asBytes blob).length - j)
  · intro j closing
    exact closingTurn_ok small cursor closing
  · refine ⟨[], text, rfl, cursor.near, ?_⟩
    cases rawString text with
    | none => rfl
    | some raw => rfl
  · omega

def isBare (c : Char) : Bool := c != ',' && c != '\x7d'

def Bare (blob : String) (text : List Char) (j : Nat) : Prop :=
  j ≤ (asBytes blob).length ∧ ∃ u rest, text = u ++ rest ∧ Near blob j rest ∧
    text.takeWhile isBare = u ++ rest.takeWhile isBare

omit small in
theorem Bare.more {text u rest : List Char} {c : Char} {j : Nat} (split : text = u ++ c :: rest)
    (taken : text.takeWhile isBare = u ++ (c :: rest).takeWhile isBare) (more : isBare c = true)
    (near : Near blob j rest) (inside : j ≤ (asBytes blob).length) : Bare blob text j := by
  refine ⟨inside, u ++ [c], rest, ?_, near, ?_⟩
  · rw [split, List.append_assoc, List.singleton_append]
  · rw [taken, List.takeWhile_cons_of_pos more, List.append_assoc, List.singleton_append]

omit small in
theorem Bare.wide {text : List Char} {j : Nat} {b : UInt8} (bare : Bare blob text j)
    (here : (asBytes blob)[j]? = some b) (high : 128 ≤ b.toNat)
    (inside : j < (asBytes blob).length) : Bare blob text (j + 1) := by
  obtain ⟨-, u, rest, split, near, taken⟩ := bare
  rcases near.wide here high with within | ⟨c, cs, rfl, wide, first⟩
  · exact ⟨inside, u, rest, split, within, taken⟩
  · have more : isBare c = true := by
      rw [isBare, Bool.and_eq_true, bne_iff_ne, bne_iff_ne]
      exact ⟨char_ne wide (by decide), char_ne wide (by decide)⟩
    exact Bare.more split taken more first inside

theorem bareTurn_ok {text : List Char}
    {i j : Nat} (cursor : At blob i text) (bare : Bare blob text j) :
    Bytes.bareTurn (asBytes blob) j = .ok (.done (i + (utf8 (text.takeWhile isBare)).length)) ∨
      ∃ next, Bytes.bareTurn (asBytes blob) j = .ok (.next next) ∧ Bare blob text next ∧
        (asBytes blob).length - next < (asBytes blob).length - j := by
  rw [Bytes.bareTurn]
  by_cases inside : j < (asBytes blob).length
  · have here := List.getElem?_eq_getElem inside
    rw [if_pos inside, index_ok here, ok_bind, ok_bind, usize_ok (show j + 1 < 2 ^ 64 by omega)]
    generalize (asBytes blob)[j] = b at here
    by_cases low : b.toNat < 128
    · obtain ⟨most, u, rest, split, near, taken⟩ := bare
      obtain ⟨cs, rfl, bytes, behind⟩ := near.ascii here low
      have comma : (b == 0x2c) = (Char.ofNat b.toNat == ',') :=
        encode_is (encode_byte low) ',' (by decide)
      have brace : (b == 0x7d) = (Char.ofNat b.toNat == '\x7d') :=
        encode_is (encode_byte low) '\x7d' (by decide)
      have same : (b != 0x2c && b != 0x7d) = isBare (Char.ofNat b.toNat) := by
        rw [bne, bne, comma, brace]
        rfl
      rw [same]
      cases more : isBare (Char.ofNat b.toNat) with
      | false =>
        left
        have place : j = i + (utf8 u).length := At.behind (split ▸ cursor) bytes most
        rw [taken, List.takeWhile_cons_of_neg (by rw [more]; exact Bool.false_ne_true),
          List.append_nil, ← place]
        rfl
      | true => exact .inr ⟨_,
          rfl, Bare.more split taken more (near_between behind) inside, by omega⟩
    · have high := Nat.not_lt.mp low
      right
      rw [bne_iff_ne.mpr (byte_ne high (by decide)), bne_iff_ne.mpr (byte_ne high (by decide))]
      exact ⟨_, rfl, bare.wide here high inside, by omega⟩
  · obtain ⟨most, u, rest, split, near, taken⟩ := bare
    obtain rfl := near.over (Nat.not_lt.mp inside)
    rw [List.append_nil] at split
    subst split
    have whole := cursor.length
    have last : i + (utf8 (text.takeWhile isBare)).length = j := by
      rw [taken, List.takeWhile_nil, List.append_nil]
      omega
    rw [if_neg inside, last]
    exact .inl rfl

theorem bare_ok {text : List Char} {i : Nat} (cursor : At blob i text) :
    loop (Bytes.bareTurn (asBytes blob)) ((asBytes blob).length + 1) i =
      .ok (i + (utf8 (text.takeWhile isBare)).length) := by
  apply loop_ok (Bare blob text) (fun j => (asBytes blob).length - j)
  · intro j bare
    exact bareTurn_ok small cursor bare
  · exact ⟨by have := cursor.length; omega, [], text, rfl, cursor.near, rfl⟩
  · omega

end

theorem mirrors_string {read : String → Nat → Checked (Option String)}
    {read' : List Char → Option (List Char)}
    (reads : Mirrors read fun text => (read' text).map String.ofList) :
    Mirrors (Bytes.stringValue read) (stringValue read') := by
  intro blob i text small cursor
  rw [Bytes.stringValue]
  cases text with
  | nil =>
    rw [if_pos (Nat.le_of_eq cursor.over.symm)]
    rfl
  | cons c cs =>
    have inside := cursor.inside
    obtain ⟨b, bs, encoded, byte⟩ := cursor.index
    have opens : (b == 0x22) = (c == quote) := encode_is encoded quote (by decide)
    rw [if_neg (Nat.not_le.mpr inside), byte, ok_bind, bne, opens, usize_ok (by omega), ok_bind]
    by_cases same : c = quote
    · subst same
      exact reads blob (i + 1) cs small (cursor.next (by decide))
    · rw [beq_eq_false_iff_ne.mpr same, stringValue]
      · rfl
      · intro rest opened
        exact same (List.cons.inj opened).1

theorem mirrors_hook : Mirrors Bytes.hookValue hookValue := by
  apply mirrors_string
  intro blob start text small cursor
  dsimp only
  rw [asBytes_ofList]
  apply loop_ok (Unescaping (asBytes blob) _) (fun s => (asBytes blob).length - s.1)
  · rintro ⟨j, out⟩ reading
    exact unescapeTurn_ok small reading
  · rw [Unescaping, cursor.drop]
    apply congrArg (fun f => Option.map f (unescape (utf8 text)))
    funext read
    exact String.empty_append
  · dsimp only
    omega

theorem mirrors_status : Mirrors Bytes.statusValue statusValue := by
  apply mirrors_string
  intro blob vstart text small cursor
  dsimp only
  rw [Bytes.rawString, closing_ok small cursor, ok_bind, quoteAt]
  cases read : rawString text with
  | none => rfl
  | some raw =>
    obtain ⟨tail, rfl⟩ := rawString_split read
    rw [Option.map_some, Option.map_some]
    dsimp only
    rw [cursor.slice]
    rfl

theorem quoted_slice {line : String} {i : Nat} {raw tail : List Char}
    (cursor : At line i (quote :: (raw ++ quote :: tail))) :
    i + 1 + (utf8 raw).length + 1 ≤ (asBytes line).length ∧
      Checked.str line i (i + 1 + (utf8 raw).length + 1) =
        .ok (String.ofList (quote :: raw ++ [quote])) := by
  have whole : At line i ((quote :: raw ++ [quote]) ++ tail) := by
    rw [List.append_assoc]
    exact cursor
  have size : i + (utf8 (quote :: raw ++ [quote])).length = i + 1 + (utf8 raw).length + 1 := by
    simp only [List.cons_append, utf8_cons, utf8_append, utf8_nil,
      encode_ascii (show quote.toNat < 128 by decide),
      List.nil_append, List.length_append, List.length_cons, List.length_nil]
    omega
  have last := whole.skip.length
  have slice := whole.slice
  rw [size] at slice last
  exact ⟨by omega, slice⟩

theorem mirrors_token : Mirrors Bytes.token token := by
  intro line i text small cursor
  rw [Bytes.token]
  cases text with
  | nil =>
    rw [if_pos (Nat.le_of_eq cursor.over.symm)]
    rfl
  | cons c cs =>
    have inside := cursor.inside
    obtain ⟨b, bs, encoded, byte⟩ := cursor.index
    have opens : (b == 0x22) = (c == quote) := encode_is encoded quote (by decide)
    rw [if_neg (Nat.not_le.mpr inside), byte, ok_bind, opens,
      usize_ok (show i + 1 < 2 ^ 64 by omega), ok_bind]
    by_cases same : c = quote
    · subst same
      have behind := cursor.next (by decide)
      rw [beq_self_eq_true, if_pos rfl, closing_ok small behind, ok_bind, quoteAt]
      change _ = Except.ok ((rawString cs).map fun raw => String.ofList (quote :: raw ++ [quote]))
      cases read : rawString cs with
      | none => rfl
      | some raw =>
        obtain ⟨tail, rfl⟩ := rawString_split read
        obtain ⟨last, slice⟩ := quoted_slice cursor
        rw [Option.map_some, Option.map_some]
        dsimp only
        rw [usize_ok (by omega), ok_bind, slice]
        rfl
    · have split := List.takeWhile_append_dropWhile (p := isBare) (l := c :: cs)
      have part : At line i ((c :: cs).takeWhile isBare ++ (c :: cs).dropWhile isBare) := by
        rw [split]
        exact cursor
      rw [beq_eq_false_iff_ne.mpr same, if_neg Bool.false_ne_true, bare_ok small cursor, ok_bind,
        part.slice, token]
      · rfl
      · exact List.cons_ne_nil _ _
      · intro rest opened
        exact same (List.cons.inj opened).1

/-- The scanners of stdin and of session logs stop on every text, for every key: no index is out of
bounds, no slice parts a character, and the result is what the scanners over characters find. -/
theorem scanners_never_panic (text : Str) (key : String) :
    Bytes.skimString text.val key = .ok (skimString text.val key) ∧
      Bytes.skimSession text.val = .ok (skimSession text.val) ∧
      Bytes.valueForKey text.val key = .ok (valueForKey text.val key) := by
  refine ⟨?_, ?_, ?_⟩
  · exact find_ok mirrors_hook text.property key
  · exact find_ok mirrors_status text.property "session_id"
  · exact find_ok mirrors_token text.property key

/-- The two bytes behind the backslash part the character, and the loop goes on from inside it. -/
example : Bytes.skimSession "\x7b\"session_id\":\"\\é\"" = .ok (some "\\é") := by decide +kernel

end Spnr.Scan
