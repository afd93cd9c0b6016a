import Spnr.Lib.IndexMap
import Spnr.Lib.JsonPretty
import Spnr.Lib.RustStd

/-! `serde_json` as a parameter: a reader of files and a writer of indented files, and
what the program relies on about them. The reference at the end meets it. -/

namespace Json

/-- `Stored F d v`: a value that the reader of `serde_json` can return, nested at most
`d` deep, with the fractions `F`. -/
inductive Stored (F : UInt64 → Prop) : Nat → Json → Prop where
  | null {d : Nat} : Stored F d .null
  | bool {d : Nat} (b : Bool) : Stored F d (.bool b)
  | int {d : Nat} {n : Int} : -(2 ^ 63) ≤ n → n < 2 ^ 64 → Stored F d (.int n)
  | float {d : Nat} {bits : UInt64} : F bits → Stored F d (.float bits)
  | str {d : Nat} (s : String) : Stored F d (.str s)
  | arr {d : Nat} {vs : List Json} : (∀ v ∈ vs, Stored F d v) → Stored F (d + 1) (.arr vs)
  | obj {d : Nat} {ms : List (String × Json)} :
      IndexMap.Distinct ms → (∀ m ∈ ms, Stored F d m.2) → Stored F (d + 1) (.obj ms)

theorem Stored.mono {F : UInt64 → Prop} {d e : Nat} {v : Json} (stored : Stored F d v)
    (deeper : d ≤ e) : Stored F e v := by
  induction stored generalizing e with
  | null => exact .null
  | bool b => exact .bool b
  | int low high => exact .int low high
  | float fraction => exact .float fraction
  | str s => exact .str s
  | arr _ ih =>
    obtain ⟨e, rfl⟩ : ∃ e', e = e' + 1 := ⟨e - 1, by omega⟩
    exact .arr fun v mem => ih v mem (by omega)
  | obj distinct _ ih =>
    obtain ⟨e, rfl⟩ : ∃ e', e = e' + 1 := ⟨e - 1, by omega⟩
    exact .obj distinct fun m mem => ih m mem (by omega)

/-- `==` on `serde_json::Value`: the members of an object are compared by name. -/
inductive Same : Json → Json → Prop where
  | refl (v : Json) : Same v v
  | arr {vs ws : List Json} : List.Forall₂ Same vs ws → Same (.arr vs) (.arr ws)
  | obj {ms ns : List (String × Json)} :
      (∀ k, Option.Rel Same (ms.lookup k) (ns.lookup k)) → Same (.obj ms) (.obj ns)

theorem Same.members {ms ns : List (String × Json)} (same : Same (.obj ms) (.obj ns)) (k : String) :
    Option.Rel Same (ms.lookup k) (ns.lookup k) := by
  cases same with
  | refl =>
    cases ms.lookup k with
    | none => exact .none
    | some v => exact .some (.refl v)
  | obj members => exact members k

theorem Same.length_eq {vs ws : List Json} (same : Same (.arr vs) (.arr ws)) :
    vs.length = ws.length := by
  cases same with
  | refl => rfl
  | arr items => exact items.length_eq

theorem Stored.members {F : UInt64 → Prop} {d : Nat} {ms : List (String × Json)}
    (stored : Stored F d (.obj ms)) :
    ∃ e, d = e + 1 ∧ IndexMap.Distinct ms ∧ ∀ m ∈ ms, Stored F e m.2 := by
  cases stored with
  | obj distinct values => exact ⟨_, rfl, distinct, values⟩

theorem Stored.items {F : UInt64 → Prop} {d : Nat} {vs : List Json}
    (stored : Stored F d (.arr vs)) : ∃ e, d = e + 1 ∧ ∀ v ∈ vs, Stored F e v := by
  cases stored with
  | arr values => exact ⟨_, rfl, values⟩

theorem Stored.lookup {F : UInt64 → Prop} {d : Nat} {ms : List (String × Json)}
    {k : String} {v : Json}
    (stored : Stored F (d + 1) (.obj ms)) (found : ms.lookup k = some v) : Stored F d v := by
  obtain ⟨e, depth, distinct, values⟩ := stored.members
  obtain rfl : d = e := by omega
  exact values (k, v) ((IndexMap.lookup_eq_some_iff distinct).mp found)

theorem Stored.insert {F : UInt64 → Prop} {d : Nat} {ms : List (String × Json)} {v : Json}
    (stored : Stored F (d + 1) (.obj ms)) (new : Stored F d v) (k : String) :
    Stored F (d + 1) (.obj (IndexMap.insert k v ms)) := by
  obtain ⟨e, depth, distinct, values⟩ := stored.members
  obtain rfl : d = e := by omega
  apply Stored.obj (IndexMap.distinct_insert distinct k v)
  intro m mem
  rcases IndexMap.mem_insert mem with rfl | old
  · exact new
  · exact values m old

theorem Stored.swapRemove {F : UInt64 → Prop} {d : Nat} {ms : List (String × Json)}
    (stored : Stored F d (.obj ms)) (k : String) :
    Stored F d (.obj (IndexMap.swapRemove k ms)) := by
  obtain ⟨e, rfl, distinct, values⟩ := stored.members
  apply Stored.obj (IndexMap.distinct_swapRemove distinct k)
  intro m mem
  exact values m ((IndexMap.mem_swapRemove distinct).mp mem).1

theorem Stored.filter {F : UInt64 → Prop} {d : Nat} {vs : List Json} (stored : Stored F d (.arr vs))
    (p : Json → Bool) : Stored F d (.arr (vs.filter p)) := by
  obtain ⟨e, rfl, values⟩ := stored.items
  exact .arr fun v mem => values v (List.mem_of_mem_filter mem)

theorem compact_items {vs : List Json} (n : Nat)
    (texts : ∀ v ∈ vs, ∀ n, Text v (print .compact n v)) : Items vs (printItems .compact n vs) := by
  induction vs with
  | nil => exact .nil
  | cons v vs ih =>
    have first := texts v List.mem_cons_self n
    have others := ih fun w mem => texts w (List.mem_cons_of_mem _ mem)
    cases vs with
    | nil => exact .one first
    | cons w vs => exact .cons first others

theorem compact_members {ms : List (String × Json)} (n : Nat)
    (texts : ∀ m ∈ ms, ∀ n, Text m.2 (print .compact n m.2)) :
    Members ms (printMembers .compact n ms) := by
  induction ms with
  | nil => exact .nil
  | cons m ms ih =>
    obtain ⟨k, v⟩ := m
    have first := texts (k, v) List.mem_cons_self n
    have others := ih fun w mem => texts w (List.mem_cons_of_mem _ mem)
    cases ms with
    | nil => simpa [printMembers, Layout.compact] using Members.one (literal_escape k.toList) first
    | cons m ms =>
      simpa [printMembers, Layout.compact] using Members.cons (literal_escape k.toList) first others

theorem compact_text {d : Nat} {v : Json} (stored : Stored (fun _ => False) d v) (n : Nat) :
    Text v (print .compact n v) := by
  induction stored generalizing n with
  | null => exact .null
  | bool b => cases b <;> constructor
  | int _ _ => exact .int _
  | float fraction => exact absurd fraction id
  | str s => exact .str (literal_escape s.toList)
  | @arr d vs _ ih =>
    have items := compact_items (n + 1) ih
    cases vs with
    | nil => exact .arr .nil
    | cons v vs => simpa [print, Layout.compact] using Text.arr items
  | @obj d ms _ _ ih =>
    have members := compact_members (n + 1) ih
    cases ms with
    | nil => exact .obj .nil
    | cons m ms => simpa [print, Layout.compact] using Text.obj members

end Json

/-- `serde_json`. What it reads is a stored value; and it reads back a stored value
that it printed, with a line break behind it. -/
structure SerdeJson where
  IsFloat : UInt64 → Prop
  fromSlice : List UInt8 → Except String Json
  toVecPretty : Json → List UInt8
  fromSlice_stored : ∀ bytes v, fromSlice bytes = .ok v → v.Stored IsFloat 127
  fromSlice_toVecPretty : ∀ v : Json, v.Stored IsFloat 127 →
    fromSlice (toVecPretty v ++ [10]) = .ok v

namespace SerdeJson

open Json RustStd

def referenceRead (bytes : List UInt8) : Option Json :=
  (String.fromUTF8? bytes.toByteArray).bind fun s => read (String.ofList (squeeze false s.toList))

def referencePrint (v : Json) : List UInt8 := asBytes (String.ofList (print .pretty 0 v))

def referenceText (v : Json) : String := String.ofList (print .pretty 0 v ++ ['\n'])

theorem referencePrint_text (v : Json) : referencePrint v ++ [10] = asBytes (referenceText v) := by
  rw [referenceText, String.ofList_append, asBytes_append]
  rfl

theorem referenceRead_print {d : Nat} {v : Json} (stored : v.Stored (fun _ => False) d) :
    referenceRead (referencePrint v ++ [10]) = some v := by
  have squeezed : squeeze false (print .pretty 0 v ++ ['\n']) = print .compact 0 v := by
    rw [squeeze_print Layout.pretty_blank]
    exact List.append_nil _
  have text : Text v (String.ofList (print .compact 0 v)).toList := by
    rw [String.toList_ofList]
    exact compact_text stored 0
  rw [referenceRead, referencePrint_text, fromUTF8_asBytes, referenceText, Option.bind_some,
    String.toList_ofList, squeezed]
  exact read_text text

noncomputable def reference : SerdeJson where
  IsFloat := fun _ => False
  fromSlice bytes :=
    open Classical in
    match referenceRead bytes with
    | some v => if v.Stored (fun _ => False) 127 then .ok v else .error "recursion limit exceeded"
    | none => .error "expected value"
  toVecPretty := referencePrint
  fromSlice_stored := by
    intro bytes v read
    split at read
    · split at read
      · rename_i stored
        exact Except.ok.inj read ▸ stored
      · cases read
    · cases read
  fromSlice_toVecPretty := by
    intro v stored
    rw [referenceRead_print stored]
    exact if_pos stored

theorem reference_text {v : Json} (stored : v.Stored (fun _ => False) 127) :
    reference.fromSlice (asBytes (referenceText v)) = .ok v := by
  rw [← referencePrint_text]
  exact reference.fromSlice_toVecPretty v stored

end SerdeJson
