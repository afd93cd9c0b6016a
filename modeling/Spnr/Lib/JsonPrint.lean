import Spnr.Lib.Json

/-! Compact texts of flat objects, with the string escapes of RFC 8785. -/
namespace Json

def hexLower (n : Nat) : Char := if n < 10 then Char.ofNat (48 + n) else Char.ofNat (87 + n)

def escapeChar (c : Char) : List Char :=
  if c = quote then [backslash, quote]
  else if c = backslash then [backslash, backslash]
  else if c = '\x08' then [backslash, 'b']
  else if c = '\t' then [backslash, 't']
  else if c = '\n' then [backslash, 'n']
  else if c = '\x0c' then [backslash, 'f']
  else if c = '\r' then [backslash, 'r']
  else if c.toNat < 0x20 then
    [backslash, 'u', '0', '0', hexLower (c.toNat / 16), hexLower (c.toNat % 16)]
  else [c]

def escape (cs : List Char) : List Char := cs.flatMap escapeChar

theorem hexFour_control {n : Nat} (h : n < 0x20) :
    hexFour '0' '0' (hexLower (n / 16)) (hexLower (n % 16)) = some n := by
  revert n
  decide

theorem literal_escapeChar (c : Char) {cs ds : List Char} (literal : Literal cs ds) :
    Literal (c :: cs) (escapeChar c ++ ds) := by
  unfold escapeChar
  split
  · rename_i same
    subst same
    exact .short rfl literal
  split
  · rename_i same
    subst same
    exact .short rfl literal
  split
  · rename_i same
    subst same
    exact .short rfl literal
  split
  · rename_i same
    subst same
    exact .short rfl literal
  split
  · rename_i same
    subst same
    exact .short rfl literal
  split
  · rename_i same
    subst same
    exact .short rfl literal
  split
  · rename_i same
    subst same
    exact .short rfl literal
  split
  · rename_i control
    exact .code (hexFour_control control) literal
  · rename_i notQuote notBackslash _ _ _ _ _ high
    exact .plain ⟨Nat.not_lt.mp high, notQuote, notBackslash⟩ literal

theorem literal_escape (cs : List Char) : Literal cs (escape cs) := by
  induction cs with
  | nil => exact .nil
  | cons c cs ih => exact literal_escapeChar c ih

def atom : Json → List Char
  | .bool true => ['t', 'r', 'u', 'e']
  | .bool false => ['f', 'a', 'l', 's', 'e']
  | .int n => (toString n).toList
  | .str s => quote :: escape s.toList ++ [quote]
  | _ => ['n', 'u', 'l', 'l']

def IsAtom (v : Json) : Prop := (∃ n, v = .int n) ∨ ∃ s, v = .str s

theorem atom_text {v : Json} (isAtom : IsAtom v) : Text v (atom v) := by
  rcases isAtom with ⟨n, rfl⟩ | ⟨s, rfl⟩
  · exact .int n
  · exact .str (literal_escape s.toList)

def flatMembers : List (String × Json) → List Char
  | [] => []
  | [(k, v)] => quote :: escape k.toList ++ quote :: ':' :: atom v
  | (k, v) :: m :: ms =>
    quote :: escape k.toList ++ quote :: ':' :: atom v ++ ',' :: flatMembers (m :: ms)

def flatObject (ms : List (String × Json)) : List Char := '\x7b' :: flatMembers ms ++ ['\x7d']

theorem flatMembers_members (ms : List (String × Json)) (atoms : ∀ m ∈ ms, IsAtom m.2) :
    Members ms (flatMembers ms) := by
  induction ms with
  | nil => exact .nil
  | cons m ms ih =>
    obtain ⟨k, v⟩ := m
    have first := atom_text (atoms (k, v) List.mem_cons_self)
    have others := ih fun m mem => atoms m (List.mem_cons_of_mem _ mem)
    cases ms with
    | nil => exact .one (literal_escape k.toList) first
    | cons m ms => exact .cons (literal_escape k.toList) first others

theorem flatObject_text {ms : List (String × Json)} (atoms : ∀ m ∈ ms, IsAtom m.2) :
    Text (.obj ms) (flatObject ms) := .obj (flatMembers_members ms atoms)

end Json
