import Spnr.Scan.Values

/-! `spnr-hook` and `spnr-status` take the same session id from a text. -/
namespace Spnr.Scan

open Json RustStd

def wide (c : Char) : Bool := 128 ≤ c.toNat

theorem latin_wide {c : Char} (high : wide c = true) : 2 ≤ (latin c).countP wide := by
  obtain ⟨bytes, several⟩ := encode_wide (of_decide_eq_true high)
  have all : (latin c).countP wide = (latin c).length := by
    rw [List.countP_eq_length]
    intro d mem
    obtain ⟨b, inside, rfl⟩ := List.mem_map.mp mem
    have valid : b.toNat.isValidChar := .inl (Nat.lt_of_lt_of_le b.toNat_lt (by decide))
    have same : (Char.ofNat b.toNat).toNat = b.toNat := by
      rw [Char.ofNat, dif_pos valid]
      rfl
    rw [wide, same]
    exact decide_eq_true (bytes b inside)
  rw [all, latin, List.length_map]
  exact several

theorem wide_double {raw : List Char} (content : Paired raw) :
    2 * raw.countP wide ≤ (hookContent raw).countP wide := by
  induction content with
  | nil => exact Nat.zero_le _
  | @plain c cs _ notSlash _ ih =>
    rw [hookContent_plain notSlash, List.countP_cons, List.countP_append]
    split
    · rename_i high
      have more := latin_wide high
      omega
    · omega
  | @pair e cs ascii _ ih =>
    have low : wide e = false := by simp [wide, ascii]
    have slash : wide backslash = false := by decide
    change _ ≤ (escaped (UInt8.ofNat e.toNat) :: hookContent cs).countP wide
    rw [List.countP_cons, List.countP_cons, List.countP_cons, low, slash]
    simp only [Bool.false_eq_true, if_false]
    omega

theorem escape_shorter {raw : List Char} (content : Paired raw) (ascii : ∀ c ∈ raw, c.toNat < 128) :
    (hookContent raw).length ≤ raw.length ∧
    (backslash ∈ raw → (hookContent raw).length < raw.length) := by
  induction content with
  | nil => exact ⟨Nat.le_refl _, by rintro (_ | _)⟩
  | @plain c cs _ notSlash _ ih =>
    obtain ⟨most, less⟩ := ih fun d mem => ascii d (List.mem_cons_of_mem _ mem)
    rw [hookContent_plain notSlash, latin_ascii (ascii c List.mem_cons_self), List.singleton_append,
      List.length_cons, List.length_cons]
    constructor
    · omega
    · intro mem
      have inside : backslash ∈ cs := (List.mem_cons.mp mem).resolve_left notSlash.symm
      have := less inside
      omega
  | @pair e cs _ _ ih =>
    obtain ⟨most, -⟩ :=
      ih fun d mem => ascii d (List.mem_cons_of_mem _ (List.mem_cons_of_mem _ mem))
    change (escaped (UInt8.ofNat e.toNat) :: hookContent cs).length ≤ _ ∧
      (_ → (escaped (UInt8.ofNat e.toNat) :: hookContent cs).length < _)
    simp only [List.length_cons]
    constructor
    · omega
    · intro _
      omega

theorem hookContent_iff {raw : List Char} (content : Paired raw) : hookContent raw = raw ↔
    ∀ c ∈ raw, Simple c := by
  constructor
  · intro same c mem
    have twice := wide_double content
    rw [same] at twice
    have none_ : raw.countP wide = 0 := by omega
    have ascii (d : Char) (inside : d ∈ raw) : d.toNat < 128 := by
      have low := List.countP_eq_zero.mp none_ d inside
      simpa [wide] using low
    constructor
    · rintro rfl
      have less := (escape_shorter content ascii).2 mem
      rw [same] at less
      exact absurd less (Nat.lt_irrefl _)
    · exact ascii c mem
  · exact hookContent_simple

/-- The session ids of the two agree when the first member called `session_id` has no
escape and nothing outside ASCII in its string, and only then. -/
theorem session_agrees (t : JsonText) :
    (∀ a b : String, skimString t.text "session_id" = some a → skimSession t.text =
      some b → a = b) ↔
      ∀ raw : List Char, first "session_id".toList t.tree = some (.str raw) →
      ∀ c ∈ raw, Simple c := by
  rw [skimString_text word_session, skimSession_text]
  cases found : first "session_id".toList t.tree with
  | none => simp
  | some v =>
    cases v with
    | str raw =>
      have valid : (Tree.str raw).Valid := first_valid t.valid found
      rw [Tree.Valid] at valid
      have same := hookContent_iff (raw_paired valid)
      constructor
      · rintro agree _ ⟨rfl⟩
        apply same.mp
        exact String.ofList_injective (agree _ _ rfl rfl)
      · rintro simple _ _ ⟨rfl⟩ ⟨rfl⟩
        rw [same.mpr (simple raw rfl)]
        rfl
    | atom _ => simp [stringResult]
    | empty _ _ => simp [stringResult]
    | group _ _ => simp [stringResult]

def session {raw : List Char} (content : Raw raw) : JsonText where
  before := []
  tree := .group .curly (.one [] (Name.tight "session_id".toList) (.str raw) [])
  after := []
  before_blank := blanks_nil
  valid := ⟨blanks_nil, Name.tight_valid (raw_plain (by decide)), content, blanks_nil⟩
  after_blank := blanks_nil

theorem session_first {raw : List Char} (content : Raw raw) :
    first "session_id".toList (session content).tree = some (.str raw) := by
  rfl

theorem slashed : Raw ['a', backslash, '/', 'b'] :=
  .plain (by decide) (.short (by decide) (raw_plain (by decide)))

theorem accented : Raw ['é'] := raw_plain (by decide)

theorem skim_session {raw : List Char} (content : Raw raw) :
    skimString (session content).text "session_id" = some (String.ofList (hookContent raw)) ∧
    skimSession (session content).text = some (String.ofList raw) := by
  rw [skimString_text word_session, skimSession_text, session_first]
  exact ⟨rfl, rfl⟩

/-- An escape and a letter outside ASCII, which the two read in different ways. -/
theorem session_differs :
    skimString (session slashed).text "session_id" = some "a/b" ∧
    skimSession (session slashed).text = some "a\\/b" ∧
    skimString (session accented).text "session_id" = some "Ã©" ∧
    skimSession (session accented).text = some "é" ∧
    ¬ ∀ (t : JsonText) (a b : String),
      skimString t.text "session_id" = some a → skimSession t.text = some b → a = b := by
  have slash : hookContent ['a', backslash, '/', 'b'] = ['a', '/', 'b'] := by decide
  have accent : hookContent ['é'] = ['Ã', '©'] := by decide
  have hook := (skim_session slashed).1
  have status := (skim_session slashed).2
  have hook' := (skim_session accented).1
  rw [slash] at hook
  rw [accent] at hook'
  refine ⟨hook, status, hook', (skim_session accented).2, ?_⟩
  intro agree
  exact absurd (agree _ _ _ hook status) (by decide)

end Spnr.Scan
