import Spnr.Scan.Values

/-! The content firewall: what the strings of a text say has no influence on the scanners,
but for the values of the members they look for. -/
namespace Spnr.Scan

open Json

/-- A member that one of the keys asks for. -/
def Requested (keys : List String) (name : Option Name) : Prop :=
  ∃ key ∈ keys, named key.toList name = true

mutual

/-- The same value but for the contents of strings outside the members asked for. -/
inductive Twin (keys : List String) : Tree → Tree → Prop where
  | atom (token : List Char) : Twin keys (.atom token) (.atom token)
  | str (raw raw' : List Char) : Twin keys (.str raw) (.str raw')
  | empty (b : Bracket) (blank : List Char) : Twin keys (.empty b blank) (.empty b blank)
  | group (b : Bracket) {es es' : Entries} : Twins keys es es' →
      Twin keys (.group b es) (.group b es')

inductive Twins (keys : List String) : Entries → Entries → Prop where
  | one (before : List Char) (name : Option Name) {v v' : Tree} (after : List Char) :
      (Requested keys name → v = v') → Twin keys v v' →
        Twins keys (.one before name v after) (.one before name v' after)
  | more (before : List Char) (name : Option Name) {v v' : Tree} (after : List Char)
      {es es' : Entries} : (Requested keys name → v = v') → Twin keys v v' → Twins keys es es' →
      Twins keys (.more before name v after es) (.more before name v' after es')

end

structure Twin.Texts (keys : List String) (o o' : ObjectText) : Prop where
  before : o.before = o'.before
  tree : Twin keys o.tree o'.tree
  after : o.after = o'.after

variable {keys : List String} {key : String}

mutual

theorem Twin.refl (keys : List String) (t : Tree) : Twin keys t t := by
  cases t with
  | atom token => exact .atom token
  | str raw => exact .str raw raw
  | empty b blank => exact .empty b blank
  | group b es => exact .group b (Twins.refl keys es)

theorem Twins.refl (keys : List String) (es : Entries) : Twins keys es es := by
  cases es with
  | one before name v after => exact .one before name after (fun _ => rfl) (Twin.refl keys v)
  | more before name v after es =>
    exact .more before name after (fun _ => rfl) (Twin.refl keys v) (Twins.refl keys es)

end

theorem first_entry (mem : key ∈ keys) {name : Option Name} {v v' : Tree}
    (same : Requested keys name → v = v') (inner : first key.toList v = first key.toList v') :
    (if named key.toList name then some v else first key.toList v) =
      if named key.toList name then some v' else first key.toList v' := by
  cases hit : named key.toList name with
  | true => rw [same ⟨key, mem, hit⟩]
  | false => exact inner

mutual

theorem first_twin (mem : key ∈ keys) {t t' : Tree} (twin : Twin keys t t') :
    first key.toList t = first key.toList t' := by
  cases twin with
  | atom _ => rfl
  | str _ _ => rfl
  | empty _ _ => rfl
  | group _ twins => exact first_twins mem twins

theorem first_twins (mem : key ∈ keys) {es es' : Entries} (twins : Twins keys es es') :
    firstOf key.toList es = firstOf key.toList es' := by
  cases twins with
  | one _ name _ same twin => exact first_entry mem same (first_twin mem twin)
  | more _ name _ same twin twins =>
    rw [firstOf, firstOf, first_twins mem twins]
    cases hit : named key.toList name with
    | true => rw [same ⟨key, mem, hit⟩]
    | false => rw [if_neg Bool.false_ne_true, if_neg Bool.false_ne_true, first_twin mem twin]

end

/-- Nothing that stands in a string of a text, outside the members asked for, changes what
a scanner makes of it. -/
theorem firewall :
    (∀ o o' : ObjectText, Twin.Texts ["hook_event_name", "session_id"] o o' →
      extract o.text = extract o'.text) ∧
    (∀ o o' : ObjectText, Twin.Texts ["session_id"] o o' → skimSession o.text =
      skimSession o'.text) ∧
    ∀ (data data' : String) (os os' : List ObjectText), lines data = os.map (·.text) →
    lines data' = os'.map (·.text) →
      List.Forall₂ (Twin.Texts ["timestamp", "type"]) os os' →
      parseTimings data = parseTimings data' := by
  constructor
  · intro o o' twin
    have event := first_twin List.mem_cons_self twin.tree
    have session := first_twin (List.mem_cons_of_mem _ List.mem_cons_self) twin.tree
    rw [extract, extract, skimString_text word_event, skimString_text word_event,
      skimString_text word_session, skimString_text word_session, event, session]
  constructor
  · intro o o' twin
    rw [skimSession_text, skimSession_text, first_twin List.mem_cons_self twin.tree]
  · intro data data' os os' split split' twins
    rw [parseTimings, parseTimings, split, split']
    clear split split'
    induction twins with
    | nil => rfl
    | @cons o o' os os' twin _ ih =>
      have timestamp := first_twin List.mem_cons_self twin.tree
      have type := first_twin (List.mem_cons_of_mem _ List.mem_cons_self) twin.tree
      rw [List.map_cons, List.map_cons, List.filterMap_cons, List.filterMap_cons, ih, timing_text,
        timing_text, timestamp, type]

theorem prompted_twin {prompt prompt' : List Char} (content : Raw prompt) (content' : Raw prompt')
    (other : ¬ Requested keys (Name.tight "prompt".toList)) :
    Twin.Texts keys (prompted content) (prompted content') := by
  constructor
  · rfl
  · apply Twin.group
    apply Twins.more
    · intro requested
      exact absurd requested other
    · exact .str prompt prompt'
    · exact Twins.refl keys _
  · rfl

theorem fake :
    Raw (backslash :: quote :: 't' :: 'y' :: 'p' :: 'e' :: backslash :: quote :: ':' :: ['0']) :=
  .short (by decide) (.plain (by decide) (.plain (by decide) (.plain (by decide) (.plain (by decide)
    (.short (by decide) (raw_plain (by decide)))))))

theorem firewall_prompt :
    extract (prompted hi).text = extract (prompted fake).text ∧
    skimSession (prompted hi).text = skimSession (prompted fake).text ∧
    parseTimings (prompted hi).text = parseTimings (prompted fake).text := by
  have other (keys : List String)
    (decided : (keys.any fun key => named key.toList (Name.tight "prompt".toList)) = false) :
      ¬ Requested keys (Name.tight "prompt".toList) := by
    rintro ⟨key, mem, hit⟩
    rw [List.any_eq_false] at decided
    exact decided key mem hit
  constructor
  · exact firewall.1 _ _ (prompted_twin hi fake (other _ (by decide)))
  constructor
  · exact firewall.2.1 _ _ (prompted_twin hi fake (other _ (by decide)))
  · exact firewall.2.2 _ _ [prompted hi] [prompted fake] (prompted_line hi (by decide))
      (prompted_line fake (by decide)) (.cons (prompted_twin hi fake (other _ (by decide))) .nil)

end Spnr.Scan
