import Spnr.Lib.Json
import Std.Data.String.ToNat

/-! A reader for compact JSON texts. It takes every text of the grammar back to
the one value the text denotes. -/
namespace Json

def readLiteral : List Char → Option (List Char × List Char)
  | [] => none
  | c :: cs =>
    if c = quote then some ([], cs)
    else if c = backslash then
      match cs with
      | 'u' :: h₁ :: h₂ :: h₃ :: h₄ :: rest =>
        match hexFour h₁ h₂ h₃ h₄ with
        | some n =>
          if n.isValidChar then (readLiteral rest).map fun r => (Char.ofNat n :: r.1, r.2) else none
        | none => none
      | e :: rest =>
        match shortEscape e with
        | some d => (readLiteral rest).map fun r => (d :: r.1, r.2)
        | none => none
      | [] => none
    else if Plain c then (readLiteral cs).map fun r => (c :: r.1, r.2)
    else none

theorem backslash_ne_quote : backslash ≠ quote := by decide

theorem readLiteral_text {cs ds : List Char} (literal : Literal cs ds) (rest : List Char) :
    readLiteral (ds ++ quote :: rest) = some (cs, rest) := by
  induction literal with
  | nil =>
    rw [readLiteral.eq_def]
    rfl
  | @plain c cs ds plain _ ih =>
    rw [List.cons_append, readLiteral.eq_def]
    simp [plain, plain.2.1, plain.2.2, ih]
  | @short c e cs ds escape _ ih =>
    have notU : e ≠ 'u' := by
      rintro rfl
      cases escape
    rw [List.cons_append, List.cons_append, readLiteral.eq_def]
    simp [backslash_ne_quote, notU, escape, ih]
  | @code c h₁ h₂ h₃ h₄ cs ds hex _ ih =>
    have valid : c.toNat.isValidChar := c.valid
    simp only [List.cons_append]
    rw [readLiteral.eq_def]
    simp [backslash_ne_quote, hex, valid, ih, Char.ofNat_toNat]

def readNat (cs : List Char) : Option (Nat × List Char) :=
  (String.ofList (cs.takeWhile Char.isDigit)).toNat?.map fun n => (n, cs.dropWhile Char.isDigit)

def Stops (rest : List Char) : Prop := ∀ c ∈ rest.head?, c.isDigit = false

theorem digits_repr (n : Nat) : ∀ c ∈ n.repr.toList, c.isDigit := by
  intro c mem
  exact Nat.isDigit_of_mem_toDigits (b := 10) (by decide) (by decide) (by simpa using mem)

theorem readNat_repr (n : Nat) {rest : List Char} (stops : Stops rest) :
    readNat (n.repr.toList ++ rest) = some (n, rest) := by
  have take : (n.repr.toList ++ rest).takeWhile Char.isDigit = n.repr.toList := by
    rw [List.takeWhile_append_of_pos (digits_repr n)]
    cases rest with
    | nil => simp
    | cons c rest =>
      have stop : c.isDigit = false := stops c rfl
      simp [stop]
  have drop : (n.repr.toList ++ rest).dropWhile Char.isDigit = rest := by
    rw [List.dropWhile_append_of_pos (digits_repr n)]
    cases rest with
    | nil => rfl
    | cons c rest =>
      have stop : c.isDigit = false := stops c rfl
      simp [stop]
  rw [readNat, take, drop, String.ofList_toList, Nat.toNat?_repr]
  rfl

def readWord (word : List Char) (v : Json) (cs : List Char) : Option (Json × List Char) :=
  if word <+: cs then some (v, cs.drop word.length) else none

theorem readWord_append (word : List Char) (v : Json) (rest : List Char) :
    readWord word v (word ++ rest) = some (v, rest) := by simp [readWord]

mutual

def readValue : Nat → List Char → Option (Json × List Char)
  | 0, _ => none
  | _, [] => none
  | fuel + 1, c :: cs =>
    if c = 'n' then readWord ['u', 'l', 'l'] .null cs
    else if c = 't' then readWord ['r', 'u', 'e'] (.bool true) cs
    else if c = 'f' then readWord ['a', 'l', 's', 'e'] (.bool false) cs
    else if c = quote then (readLiteral cs).map fun r => (.str (String.ofList r.1), r.2)
    else if c = '[' then
      if cs.head? = some ']' then some (.arr [], cs.tail)
      else (readItems fuel cs).map fun r => (.arr r.1, r.2)
    else if c = '\x7b' then
      if cs.head? = some '\x7d' then some (.obj [], cs.tail)
      else (readMembers fuel cs).map fun r => (.obj r.1, r.2)
    else if c = '-' then (readNat cs).map fun r => (.int (-r.1), r.2)
    else (readNat (c :: cs)).map fun r => (.int r.1, r.2)

def readItems : Nat → List Char → Option (List Json × List Char)
  | 0, _ => none
  | fuel + 1, cs =>
    match readValue fuel cs with
    | some (v, ',' :: rest) => (readItems fuel rest).map fun r => (v :: r.1, r.2)
    | some (v, ']' :: rest) => some ([v], rest)
    | _ => none

def readMembers : Nat → List Char → Option (List (String × Json) × List Char)
  | fuel + 1, '\x22' :: cs =>
    match readLiteral cs with
    | some (k, ':' :: rest) =>
      match readValue fuel rest with
      | some (v, ',' :: rest) =>
        (readMembers fuel rest).map fun r => ((String.ofList k, v) :: r.1, r.2)
      | some (v, '\x7d' :: rest) => some ([(String.ofList k, v)], rest)
      | _ => none
    | _ => none
  | _, _ => none

end

theorem repr_head (n : Nat) : ∃ c cs, n.repr.toList = c :: cs ∧ c.isDigit = true := by
  cases text : n.repr.toList with
  | nil => exact absurd text (by simp [Nat.toDigits_ne_nil])
  | cons c cs => exact ⟨c, cs, rfl, digits_repr n c (text ▸ List.mem_cons_self)⟩

theorem negSucc_text (n : Nat) :
    (toString (Int.negSucc n)).toList = '-' :: (n + 1).repr.toList := by
  change ("-" ++ (n + 1).repr).toList = _
  rw [String.toList_append]
  rfl

theorem readValue_int (n : Int) (fuel : Nat) {rest : List Char} (stops : Stops rest) :
    readValue (fuel + 1) ((toString n).toList ++ rest) = some (.int n, rest) := by
  cases n with
  | ofNat n =>
    obtain ⟨c, cs, text, digit⟩ := repr_head n
    have read := readNat_repr n stops
    have shown : (toString (Int.ofNat n)).toList = n.repr.toList := rfl
    rw [text, List.cons_append] at read
    rw [shown, text, List.cons_append, readValue, read]
    have special (d : Char) (other : d.isDigit = false) : c ≠ d := by
      rintro rfl
      rw [digit] at other
      cases other
    rw [if_neg (special _ (by decide)), if_neg (special _ (by decide)),
      if_neg (special _ (by decide)),
      if_neg (special _ (by decide)), if_neg (special _ (by decide)),
        if_neg (special _ (by decide)),
      if_neg (special _ (by decide))]
    rfl
  | negSucc n =>
    have read := readNat_repr (n + 1) stops
    rw [negSucc_text, List.cons_append, readValue, read]
    rfl

theorem Text.head {v : Json} {cs : List Char} (text : Text v cs) :
    ∃ c cs', cs = c :: cs' ∧ c ≠ ']' := by
  cases text with
  | null => exact ⟨_, _, rfl, by decide⟩
  | true => exact ⟨_, _, rfl, by decide⟩
  | false => exact ⟨_, _, rfl, by decide⟩
  | str _ => exact ⟨_, _, rfl, by decide⟩
  | arr _ => exact ⟨_, _, rfl, by decide⟩
  | obj _ => exact ⟨_, _, rfl, by decide⟩
  | int n =>
    cases n with
    | ofNat n =>
      obtain ⟨c, cs, text, digit⟩ := repr_head n
      refine ⟨c, cs, text, ?_⟩
      rintro rfl
      cases digit
    | negSucc n => exact ⟨'-', (n + 1).repr.toList, by simp [Int.repr, toString], by decide⟩

theorem Items.head {v : Json} {vs : List Json} {ds : List Char} (items : Items (v :: vs) ds) :
    ∃ c cs', ds = c :: cs' ∧ c ≠ ']' := by
  cases items with
  | one text => exact text.head
  | cons text _ =>
    obtain ⟨c, cs', rfl, other⟩ := text.head
    exact ⟨c, _, rfl, other⟩

theorem Members.head {m : String × Json} {ms : List (String × Json)} {ds : List Char}
    (members : Members (m :: ms) ds) : ∃ cs', ds = quote :: cs' := by
  cases members with
  | one _ _ => exact ⟨_, rfl⟩
  | cons _ _ _ => exact ⟨_, rfl⟩

/-! The reader takes back every text that is shorter than its fuel. -/

def ReadsValues (fuel : Nat) : Prop :=
  ∀ {v : Json} {cs : List Char} (rest : List Char), Text v cs → cs.length < fuel → Stops rest →
    readValue fuel (cs ++ rest) = some (v, rest)

def ReadsItems (fuel : Nat) : Prop :=
  ∀ {v : Json} {vs : List Json} {ds : List Char} (rest : List Char), Items (v :: vs) ds →
    ds.length + 1 < fuel → readItems fuel (ds ++ ']' :: rest) = some (v :: vs, rest)

def ReadsMembers (fuel : Nat) : Prop :=
  ∀ {m : String × Json} {ms : List (String × Json)} {ds : List Char} (rest : List Char),
    Members (m :: ms) ds → ds.length + 1 < fuel →
      readMembers fuel (ds ++ '\x7d' :: rest) = some (m :: ms, rest)

theorem readsValues_succ {fuel : Nat} (readsItems : ReadsItems fuel)
    (readsMembers : ReadsMembers fuel) : ReadsValues (fuel + 1) := by
  intro v cs rest text enough stops
  cases text with
  | null => exact readWord_append ['u', 'l', 'l'] .null rest
  | true => exact readWord_append ['r', 'u', 'e'] (.bool true) rest
  | false => exact readWord_append ['a', 'l', 's', 'e'] (.bool false) rest
  | int n => exact readValue_int n fuel stops
  | str literal =>
    have content := readLiteral_text literal rest
    simp only [List.cons_append, List.append_assoc, List.nil_append]
    rw [readValue, if_neg (by decide), if_neg (by decide), if_neg (by decide), if_pos rfl, content]
    simp
  | @arr vs ds items =>
    cases vs with
    | nil =>
      cases items
      rfl
    | cons v vs =>
      simp only [List.length_append, List.length_cons, List.length_nil] at enough
      have inner := readsItems rest items (by omega)
      obtain ⟨c, cs', shape, other⟩ := items.head
      have opens : (ds ++ ']' :: rest).head? ≠ some ']' := by
        rw [shape]
        simpa using other
      simp only [List.cons_append, List.append_assoc, List.nil_append]
      rw [readValue, if_neg (by decide), if_neg (by decide), if_neg (by decide), if_neg (by decide),
        if_pos rfl, if_neg opens, inner]
      rfl
  | @obj ms ds members =>
    cases ms with
    | nil =>
      cases members
      rfl
    | cons m ms =>
      simp only [List.length_append, List.length_cons, List.length_nil] at enough
      have inner := readsMembers rest members (by omega)
      obtain ⟨cs', shape⟩ := members.head
      have opens : (ds ++ '\x7d' :: rest).head? ≠ some '\x7d' := by
        rw [shape, List.cons_append, List.head?_cons]
        decide
      simp only [List.cons_append, List.append_assoc, List.nil_append]
      rw [readValue, if_neg (by decide), if_neg (by decide), if_neg (by decide), if_neg (by decide),
        if_neg (by decide), if_pos rfl, if_neg opens, inner]
      rfl

theorem readsItems_succ {fuel : Nat} (readsValues : ReadsValues fuel)
    (readsItems : ReadsItems fuel) : ReadsItems (fuel + 1) := by
  intro v vs ds rest items enough
  cases items with
  | one text =>
    have value := readsValues (']' :: rest) text (by omega) (by simp [Stops])
    rw [readItems, value]
    rfl
  | @cons _ w vs cs ds text items =>
    simp only [List.length_append, List.length_cons] at enough
    have value := readsValues (',' :: (ds ++ ']' :: rest)) text (by omega) (by simp [Stops])
    have others := readsItems rest items (by omega)
    rw [List.append_assoc, List.cons_append, readItems, value]
    simp only [others]
    rfl

theorem readsMembers_succ {fuel : Nat} (readsValues : ReadsValues fuel)
    (readsMembers : ReadsMembers fuel) : ReadsMembers (fuel + 1) := by
  intro m ms ds rest members enough
  cases members with
  | @one k v ks cs key text =>
    simp only [List.length_append, List.length_cons] at enough
    have name := readLiteral_text key (':' :: (cs ++ '\x7d' :: rest))
    have value := readsValues ('\x7d' :: rest) text (by omega) (by simp [Stops])
    simp only [List.cons_append, List.append_assoc]
    rw [readMembers, name]
    simp only [value, String.ofList_toList]
  | @cons k v m ms ks cs ds key text members =>
    simp only [List.length_append, List.length_cons] at enough
    have name := readLiteral_text key (':' :: (cs ++ ',' :: (ds ++ '\x7d' :: rest)))
    have value := readsValues (',' :: (ds ++ '\x7d' :: rest)) text (by omega) (by simp [Stops])
    have others := readsMembers rest members (by omega)
    simp only [List.cons_append, List.append_assoc]
    rw [readMembers, name]
    simp only [value, others, String.ofList_toList]
    rfl

theorem reads (fuel : Nat) : ReadsValues fuel ∧ ReadsItems fuel ∧ ReadsMembers fuel := by
  induction fuel with
  | zero =>
    refine ⟨?_, ?_, ?_⟩
    · intro v cs rest text enough
      omega
    · intro v vs ds rest items enough
      omega
    · intro m ms ds rest members enough
      omega
  | succ fuel ih =>
    obtain ⟨readsValues, readsItems, readsMembers⟩ := ih
    exact ⟨readsValues_succ readsItems readsMembers, readsItems_succ readsValues readsItems,
      readsMembers_succ readsValues readsMembers⟩

def read (text : String) : Option Json :=
  match readValue (text.toList.length + 1) text.toList with
  | some (v, []) => some v
  | _ => none

theorem read_text {v : Json} {text : String} (h : Text v text.toList) : read text = some v := by
  have whole := (reads _).1 [] h (Nat.lt_succ_self _) (by simp [Stops])
  rw [List.append_nil] at whole
  rw [read, whole]

end Json
