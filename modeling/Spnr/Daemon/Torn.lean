import Spnr.Daemon.Queue

/-! Interrupted appends to the queue file. A reader finds frames by their length
prefixes alone, so what it makes of a file is decided by its bytes: torn pieces do
no harm at the end of the file and hide what is appended after them. -/
namespace Spnr.Spnrd.Queue

abbrev Record := { record : List UInt8 // record.length < 2 ^ 32 }

/-- One call of `append`: it completes, or stops after some bytes of its frame. -/
inductive Call where
  | completes (record : Record)
  | cutOff (record : Record) (written : Fin (frame record.val).length)

def Call.bytes : Call → List UInt8
  | .completes record => frame record.val
  | .cutOff record written => (frame record.val).take written

def Call.apply (file : List UInt8) : Call → List UInt8
  | .completes record => (append file record.val).getD file
  | .cutOff record written => file ++ (frame record.val).take written

def written (calls : List Call) : List UInt8 := calls.foldl Call.apply []

def completed (calls : List Call) : List (List UInt8) :=
  calls.filterMap fun | .completes record => some record.val | .cutOff _ _ => none

/-- No complete frame starts here. -/
def Truncated : List UInt8 → Prop
  | a :: b :: c :: d :: rest => rest.length < fromBeBytes a b c d
  | _ => True

def tornBytes (calls : List Call) : List UInt8 :=
  calls.flatMap fun | .completes _ => [] | .cutOff record written => (frame record.val).take written

/-- Behind the bytes `torn` that interrupted appends have left, every frame that is completed begins
with them and goes on with its own beginning, and in the end no frame starts in what is left. -/
def Harmless : List UInt8 → List Call → Prop
  | torn, [] => Truncated torn
  | torn, .cutOff record written :: calls =>
    Harmless (torn ++ (frame record.val).take written) calls
  | torn, .completes record :: calls =>
    frame record.val <+: torn ++ frame record.val ∧
      Harmless ((torn ++ frame record.val).drop (frame record.val).length) calls

/-- No append completes behind torn bytes, and these never make up a frame. -/
structure NothingBehind (torn : List UInt8) (calls : List Call) : Prop where
  behind : ∀ before record after, calls = before ++ .completes record :: after →
    torn ++ tornBytes before = []
  apart : ∀ before, before <+: calls → Truncated (torn ++ tornBytes before)

/-- The frames come first and in order, and what is left starts no frame. -/
def FramesThenTail (bytes : List UInt8) (records : List (List UInt8)) : Prop :=
  ∃ tail, bytes = records.flatMap frame ++ tail ∧ Truncated tail

theorem Call.apply_eq (file : List UInt8) (call : Call) : call.apply file = file ++ call.bytes := by
  cases call with
  | completes record =>
    rw [apply, append, if_pos record.property]
    rfl
  | cutOff record written => rfl

theorem written_append (before after : List Call) :
    written (before ++ after) = written before ++ after.flatMap Call.bytes := by
  induction after generalizing before with
  | nil => simp
  | cons call after ih =>
    have one : written (before ++ [call]) = written before ++ call.bytes := by
      rw [written, List.foldl_append]
      exact call.apply_eq _
    have rest := ih (before ++ [call])
    rw [List.append_assoc, one] at rest
    rw [List.flatMap_cons, ← List.append_assoc]
    exact rest

theorem written_eq (calls : List Call) : written calls = calls.flatMap Call.bytes :=
  written_append [] calls

@[simp] theorem completed_completes (record : Record) (calls : List Call) :
    completed (.completes record :: calls) = record.val :: completed calls := rfl

@[simp] theorem completed_cutOff (record : Record) (k : Fin (frame record.val).length)
    (calls : List Call) : completed (.cutOff record k :: calls) = completed calls := rfl

theorem completed_small (calls : List Call) : ∀ r ∈ completed calls, r.length < 2 ^ 32 := by
  intro r mem
  obtain ⟨call, -, same⟩ := List.mem_filterMap.mp mem
  cases call with
  | completes record =>
    cases same
    exact record.property
  | cutOff record written => cases same

theorem toBeBytes_fromBeBytes (a b c d : UInt8) :
    toBeBytes (fromBeBytes a b c d) = [a, b, c, d] := by
  have := a.toNat_lt
  have := b.toNat_lt
  have := c.toNat_lt
  have := d.toNat_lt
  simp only [toBeBytes, fromBeBytes, List.cons.injEq, and_true, ← UInt8.toNat_inj,
    UInt8.toNat_ofNat']
  omega

theorem readFrames_spec (fuel : Nat) (bytes : List UInt8) (enough : bytes.length ≤ fuel) :
    FramesThenTail bytes (readFrames fuel bytes) := by
  induction fuel generalizing bytes with
  | zero =>
    have empty : bytes = [] := List.length_eq_zero_iff.mp (by omega)
    subst empty
    exact ⟨[], rfl, trivial⟩
  | succ fuel ih =>
    rcases bytes with _ | ⟨a, _ | ⟨b, _ | ⟨c, _ | ⟨d, rest⟩⟩⟩⟩
    · exact ⟨[], rfl, trivial⟩
    · exact ⟨[a], rfl, trivial⟩
    · exact ⟨[a, b], rfl, trivial⟩
    · exact ⟨[a, b, c], rfl, trivial⟩
    · simp only [List.length_cons] at enough
      simp only [readFrames]
      split
      · rename_i short
        exact ⟨a :: b :: c :: d :: rest, rfl, short⟩
      · rename_i whole
        obtain ⟨tail, split, truncated⟩ := ih (rest.drop (fromBeBytes a b c d)) (by
          rw [List.length_drop]
          omega)
        refine ⟨tail, ?_, truncated⟩
        have length : (rest.take (fromBeBytes a b c d)).length = fromBeBytes a b c d := by
          rw [List.length_take]
          omega
        rw [List.flatMap_cons, frame, length, toBeBytes_fromBeBytes, List.append_assoc,
          List.append_assoc, ← split, List.take_append_drop]
        rfl

theorem not_truncated_frame {record : List UInt8} (small : record.length < 2 ^ 32)
    (rest : List UInt8) : ¬ Truncated (frame record ++ rest) := by
  have length := fromBeBytes_toBeBytes small
  simp only [frame, toBeBytes, List.cons_append, List.nil_append, Truncated, length,
    List.length_append]
  omega

theorem frame_append_inj {r r' : List UInt8} (small : r.length < 2 ^ 32)
    (small' : r'.length < 2 ^ 32)
    {rest rest' : List UInt8} (same : frame r ++ rest = frame r' ++ rest') : r = r' ∧
    rest = rest' := by
  have length := fromBeBytes_toBeBytes small
  have length' := fromBeBytes_toBeBytes small'
  simp only [frame, List.append_assoc] at same
  obtain ⟨prefixes, bodies⟩ := List.append_inj same rfl
  simp only [toBeBytes, List.cons.injEq, and_true] at prefixes
  obtain ⟨a, b, c, d⟩ := prefixes
  rw [a, b, c, d, length'] at length
  exact List.append_inj bodies length.symm

theorem FramesThenTail.maximal {records others : List (List UInt8)} {bytes : List UInt8}
    (small : ∀ r ∈ records, r.length < 2 ^ 32) (smallOthers : ∀ r ∈ others, r.length < 2 ^ 32)
    (frames : FramesThenTail bytes records) (fits : others.flatMap frame <+: bytes) :
    others <+: records := by
  induction others generalizing records bytes with
  | nil => exact List.nil_prefix
  | cons r others ih =>
    obtain ⟨rest, same⟩ := fits
    obtain ⟨tail, rfl, truncated⟩ := frames
    rw [List.flatMap_cons, List.append_assoc] at same
    cases records with
    | nil =>
      rw [List.flatMap_nil, List.nil_append] at same
      rw [← same] at truncated
      exact absurd truncated (not_truncated_frame (smallOthers r List.mem_cons_self) _)
    | cons r' records =>
      rw [List.flatMap_cons, List.append_assoc] at same
      obtain ⟨rfl, behind⟩ :=
        frame_append_inj (smallOthers r List.mem_cons_self) (small r' List.mem_cons_self) same
      rw [List.prefix_cons_inj]
      exact ih (fun r mem => small r (List.mem_cons_of_mem _ mem))
        (fun r mem => smallOthers r (List.mem_cons_of_mem _ mem)) ⟨tail, rfl, truncated⟩
          ⟨rest, behind⟩

theorem FramesThenTail.unique {records records' : List (List UInt8)} {bytes : List UInt8}
    (small : ∀ r ∈ records, r.length < 2 ^ 32) (small' : ∀ r ∈ records', r.length < 2 ^ 32)
    (first : FramesThenTail bytes records) (second : FramesThenTail bytes records') :
    records = records' := by
  have fits {rs : List (List UInt8)} (frames : FramesThenTail bytes rs) :
    rs.flatMap frame <+: bytes := by
    obtain ⟨tail, rfl, -⟩ := frames
    exact List.prefix_append _ _
  have before := second.maximal small' small (fits first)
  have after := first.maximal small small' (fits second)
  exact before.eq_of_length_le after.length_le

theorem fromBeBytes_lt (a b c d : UInt8) : fromBeBytes a b c d < 2 ^ 32 := by
  have := a.toNat_lt
  have := b.toNat_lt
  have := c.toNat_lt
  have := d.toNat_lt
  unfold fromBeBytes
  omega

theorem readFrames_short (fuel : Nat) {bytes : List UInt8} (short : bytes.length < 4) :
    readFrames fuel bytes = [] := by
  cases fuel with
  | zero => rfl
  | succ fuel =>
    rcases bytes with _ | ⟨a, _ | ⟨b, _ | ⟨c, _ | ⟨d, rest⟩⟩⟩⟩
    · rfl
    · rfl
    · rfl
    · rfl
    · simp only [List.length_cons] at short
      omega

theorem readFrames_small (fuel : Nat) (bytes : List UInt8) : ∀ r ∈ readFrames fuel bytes,
    r.length < 2 ^ 32 := by
  induction fuel generalizing bytes with
  | zero => simp [readFrames]
  | succ fuel ih =>
    intro r mem
    rcases bytes with _ | ⟨a, _ | ⟨b, _ | ⟨c, _ | ⟨d, rest⟩⟩⟩⟩
    · cases mem
    · cases mem
    · cases mem
    · cases mem
    · simp only [readFrames] at mem
      split at mem
      · cases mem
      · rcases List.mem_cons.mp mem with rfl | later
        · have := fromBeBytes_lt a b c d
          rw [List.length_take]
          omega
        · exact ih _ r later

theorem readFrames_enough {fuel : Nat} {bytes : List UInt8} (enough : bytes.length ≤ fuel) :
    readFrames fuel bytes = readAll bytes :=
  (readFrames_spec fuel bytes enough).unique (readFrames_small _ _) (readFrames_small _ _)
    (readFrames_spec bytes.length bytes (Nat.le_refl _))

theorem readAll_iff {bytes : List UInt8} {records : List (List UInt8)}
    (small : ∀ r ∈ records, r.length < 2 ^ 32) :
    readAll bytes = records ↔ FramesThenTail bytes records := by
  have found : FramesThenTail bytes (readAll bytes) :=
    readFrames_spec bytes.length bytes (Nat.le_refl _)
  constructor
  · rintro rfl
    exact found
  · intro frames
    exact found.unique (readFrames_small _ _) small frames

theorem framesThenTail_nil {bytes : List UInt8} : FramesThenTail bytes [] ↔ Truncated bytes := by
  constructor
  · rintro ⟨tail, rfl, truncated⟩
    exact truncated
  · intro truncated
    exact ⟨bytes, rfl, truncated⟩

theorem framesThenTail_cons {bytes record : List UInt8} {records : List (List UInt8)} :
    FramesThenTail bytes (record :: records) ↔ ∃ rest, bytes = frame record ++ rest ∧
    FramesThenTail rest records := by
  constructor
  · rintro ⟨tail, rfl, truncated⟩
    exact ⟨records.flatMap frame ++ tail, by rw [List.flatMap_cons,
      List.append_assoc], tail, rfl, truncated⟩
  · rintro ⟨_, rfl, tail, rfl, truncated⟩
    exact ⟨tail, by rw [List.flatMap_cons, List.append_assoc], truncated⟩

theorem frame_behind {torn record rest : List UInt8} {records : List (List UInt8)} :
    FramesThenTail (torn ++ (frame record ++ rest)) (record :: records) ↔
    frame record <+: torn ++ frame record ∧
      FramesThenTail ((torn ++ frame record).drop (frame record).length ++ rest) records := by
  rw [framesThenTail_cons, ← List.append_assoc]
  constructor
  · rintro ⟨left, same, frames⟩
    have fits : frame record <+: torn ++ frame record :=
      List.prefix_of_prefix_length_le ⟨left, same.symm⟩ (List.prefix_append _ _) (by simp)
    obtain ⟨behind, split⟩ := fits
    rw [← split, List.append_assoc] at same
    rw [← split, List.drop_left, List.append_cancel_left same]
    exact ⟨⟨behind, rfl⟩, frames⟩
  · rintro ⟨⟨behind, split⟩, frames⟩
    rw [← split, List.drop_left] at frames
    exact ⟨behind ++ rest, by rw [← split, List.append_assoc], frames⟩

theorem harmless_iff (torn : List UInt8) (calls : List Call) :
    FramesThenTail (torn ++ calls.flatMap Call.bytes) (completed calls) ↔ Harmless torn calls := by
  induction calls generalizing torn with
  | nil =>
    rw [List.flatMap_nil, List.append_nil]
    exact framesThenTail_nil
  | cons call calls ih =>
    cases call with
    | completes record =>
      rw [List.flatMap_cons, completed_completes, Call.bytes, frame_behind, ih, Harmless]
    | cutOff record written =>
      rw [List.flatMap_cons, completed_cutOff, Call.bytes, ← List.append_assoc, ih, Harmless]

theorem readAll_written (calls : List Call) : readAll (written calls) = completed calls ↔
    Harmless [] calls := by
  rw [readAll_iff (completed_small calls), written_eq, ← harmless_iff, List.nil_append]

/-- Without zero bytes, as the text of an envelope is, and short enough for its
prefix to start with one. -/
def TextLike (record : List UInt8) : Prop := record ≠ [] ∧ 0 ∉ record ∧ record.length < 2 ^ 24

theorem frame_zero {record : List UInt8} (text : TextLike record) :
    (frame record)[0]? = some 0 := by
  have short := text.2.2
  have high : record.length / 2 ^ 24 = 0 := Nat.div_eq_of_lt short
  have head : (frame record)[0]? = some (UInt8.ofNat (record.length / 2 ^ 24)) := rfl
  rw [head, high]
  rfl

theorem frame_body {record : List UInt8} (text : TextLike record) {i : Nat} (body : 4 ≤ i) :
    (frame record)[i]? ≠ some 0 := by
  intro zero
  rw [frame, List.getElem?_append_right body] at zero
  exact text.2.1 (List.mem_of_getElem? zero)

theorem frame_length (record : List UInt8) : (frame record).length = record.length + 4 := by
  rw [frame, List.length_append, Nat.add_comm]
  rfl

theorem frame_aperiodic {record : List UInt8} (text : TextLike record) {k : Nat} (some_ : 0 < k)
    (inside : k < record.length + 4)
    (shift : ∀ j, k + j < record.length + 4 → (frame record)[k + j]? = (frame record)[j]?) :
    False := by
  have nonempty : 0 < record.length := List.length_pos_iff.mpr text.1
  have zero := frame_zero text
  have start := shift 0 (by omega)
  rw [Nat.add_zero, zero] at start
  by_cases body : 4 ≤ k
  · exact frame_body text body start
  · have twice (enough : 2 * k < record.length + 4) : (frame record)[2 * k]? = some 0 := by
      rw [Nat.two_mul, shift k (by omega), start]
    rcases (show k = 1 ∨ k = 2 ∨ k = 3 by omega) with rfl | rfl | rfl
    · have fourth : (frame record)[4]? = some 0 := by
        rw [show 4 = 1 + 3 from rfl, shift 3 (by omega), show 3 = 1 + 2 from rfl,
          shift 2 (by omega)]
        exact twice (by omega)
      exact frame_body text (Nat.le_refl 4) fourth
    · exact frame_body text (Nat.le_refl 4) (twice (by omega))
    · -- the last byte of the prefix is zero, so the record is longer than the period
      have low : UInt8.ofNat record.length = 0 := by simpa [frame, toBeBytes] using start
      have multiple : record.length % 256 = 0 := by
        have := congrArg UInt8.toNat low
        simpa using this
      exact frame_body text (show 4 ≤ 2 * 3 by omega) (twice (by omega))

theorem torn_hides {torn record : List UInt8} (text : TextLike record) (truncated : Truncated torn)
    (fits : frame record <+: torn ++ frame record) : torn = [] := by
  by_contra occupied
  have some_ : 0 < torn.length := List.length_pos_iff.mpr occupied
  by_cases inside : torn.length < (frame record).length
  · rw [frame_length] at inside
    refine frame_aperiodic text some_ inside fun j bound => ?_
    obtain ⟨behind, split⟩ := fits
    have here : (torn ++ frame record)[torn.length + j]? =
      (frame record ++ behind)[torn.length + j]? := by rw [split]
    rw [List.getElem?_append_right (by omega),
      List.getElem?_append_left (by rw [frame_length]; omega), Nat.add_sub_cancel_left] at here
    exact here.symm
  · obtain ⟨rest, rfl⟩ : frame record <+: torn :=
      List.prefix_of_prefix_length_le fits (List.prefix_append _ _) (Nat.le_of_not_lt inside)
    have short := text.2.2
    exact not_truncated_frame (by omega) rest truncated

theorem NothingBehind.harmless {torn : List UInt8} {calls : List Call}
    (nothing : NothingBehind torn calls) : Harmless torn calls := by
  induction calls generalizing torn with
  | nil => simpa [Harmless, tornBytes] using nothing.apart [] (List.prefix_refl [])
  | cons call calls ih =>
    cases call with
    | completes record =>
      have none_ : torn = [] := by simpa [tornBytes] using nothing.behind [] record calls rfl
      subst none_
      refine ⟨List.prefix_refl _, ?_⟩
      rw [List.nil_append, List.drop_length]
      refine ih ⟨?_, ?_⟩
      · rintro before next after rfl
        exact nothing.behind (.completes record :: before) next after rfl
      · intro before part
        exact nothing.apart (.completes record :: before) (List.prefix_cons_inj _ |>.mpr part)
    | cutOff record written =>
      refine ih ⟨?_, ?_⟩
      · rintro before next after rfl
        rw [List.append_assoc]
        exact nothing.behind (.cutOff record written :: before) next after rfl
      · intro before part
        rw [List.append_assoc]
        exact nothing.apart (.cutOff record written :: before) (List.prefix_cons_inj _ |>.mpr part)

theorem NothingBehind.part {torn : List UInt8} {calls before : List Call}
    (nothing : NothingBehind torn calls) (part : before <+: calls) : NothingBehind torn before := by
  obtain ⟨rest, rfl⟩ := part
  constructor
  · rintro first record after rfl
    exact nothing.behind first record (after ++ rest) (by rw [List.append_assoc, List.cons_append])
  · intro first prior
    exact nothing.apart first (prior.trans (List.prefix_append _ _))

theorem nothingBehind_of {torn : List UInt8} {calls : List Call}
    (text : ∀ record, .completes record ∈ calls → TextLike record.val)
    (harmless : ∀ before, before <+: calls → Harmless torn before) : NothingBehind torn calls := by
  have truncated : Truncated torn := harmless [] List.nil_prefix
  induction calls generalizing torn with
  | nil =>
    constructor
    · intro before record after split
      simp at split
    · intro before part
      rw [List.prefix_nil.mp part]
      simpa [tornBytes] using truncated
  | cons call calls ih =>
    have later (before : List Call) (part : before <+: calls) : Harmless torn (call :: before) :=
      harmless (call :: before) (List.prefix_cons_inj _ |>.mpr part)
    have others (record : Record) (mem : .completes record ∈ calls) :=
      text record (List.mem_cons_of_mem _ mem)
    have start : Truncated (torn ++ tornBytes []) := by simpa [tornBytes] using truncated
    cases call with
    | completes record =>
      have none_ : torn = [] :=
        torn_hides (text record List.mem_cons_self) truncated (later [] List.nil_prefix).1
      subst none_
      have behind (before : List Call) (part : before <+: calls) : Harmless [] before := by
        have := (later before part).2
        rwa [List.nil_append, List.drop_length] at this
      have rest := ih others behind truncated
      constructor
      · rintro (_ | ⟨first, before⟩) next after split
        · rfl
        · injection split with head split
          subst head
          exact rest.behind before next after split
      · rintro (_ | ⟨first, before⟩) part
        · exact start
        · obtain ⟨rfl, inner⟩ := List.cons_prefix_cons.mp part
          exact rest.apart before inner
    | cutOff record written =>
      have rest := ih others later (later [] List.nil_prefix)
      constructor
      · rintro (_ | ⟨first, before⟩) next after split
        · injection split with head
          cases head
        · injection split with head split
          subst head
          have := rest.behind before next after split
          rwa [List.append_assoc] at this
      · rintro (_ | ⟨first, before⟩) part
        · exact start
        · obtain ⟨rfl, inner⟩ := List.cons_prefix_cons.mp part
          have := rest.apart before inner
          rwa [List.append_assoc] at this

end Spnr.Spnrd.Queue
