import Mathlib.Algebra.Order.Ring.Cast
import Spnr.Portal.Auction

/-! The numbers of new campaigns after a load. The counters in the file are believed even
where the campaigns beside them have gone further. -/
namespace Spnr.Portal

structure Creation where
  input : CreateCampaignInput
  now : Int
  saved : Bool

def Opened.create (p : Opened) (c : Creation) : Opened × Result Campaign :=
  p.createCampaign c.input c.now c.saved

def Opened.creates (p : Opened) (cs : List Creation) : Opened :=
  cs.foldl (fun p c => (p.create c).1) p

/-- After any creates, the next one that succeeds gives an id and a number of its own. -/
def NeverCollides (p : Opened) : Prop :=
  ∀ cs next campaign, ((p.creates cs).create next).2 = .ok campaign →
    ∀ old ∈ (p.creates cs).store.campaigns, old.id ≠ campaign.id ∧ old.seq < campaign.seq

/-- The counters are ahead of the campaigns. -/
structure Ahead (s : Store) : Prop where
  int : ∃ n : Int, s.idCounter = n
  seqs : ∀ c ∈ s.campaigns, c.seq < s.seq
  ids : ∀ c ∈ s.campaigns, ∀ k : Int, s.idCounter < k → c.id ≠ "cmp_" ++ Js.numeral k

theorem create_store (p : Opened) (c : Creation) :
    (∃ error, p.create c = (p, .error error)) ∨
      ∃ campaign : Campaign, campaign.id = "cmp_" ++ Js.numeral (p.store.idCounter + 1) ∧
      campaign.seq = p.store.seq ∧
        (p.create c).2 = .ok campaign ∧ (p.create c).1.store =
          ⟨p.store.campaigns ++ [campaign], p.store.seq + 1, p.store.idCounter + 1,
            p.store.dbPath⟩ := by
  rcases create_cases p c.input c.now c.saved with failed | ⟨campaign, id, seq, ok⟩
  · exact .inl failed
  · refine .inr ⟨campaign, id, seq, ?_, ?_⟩
    · rw [Opened.create, ok]
    · rw [Opened.create, ok]
      exact persist_store _ _

theorem Ahead.create {p : Opened} (ahead : Ahead p.store) (c : Creation) :
    Ahead (p.create c).1.store := by
  rcases create_store p c with ⟨error, failed⟩ | ⟨campaign, id, seq, -, store⟩
  · rw [failed]
    exact ahead
  · obtain ⟨n, counter⟩ := ahead.int
    rw [store]
    refine ⟨⟨n + 1, by rw [counter, Int.cast_add, Int.cast_one]⟩, ?_, ?_⟩
    · intro old mem
      rcases List.mem_append.mp mem with before | new
      · exact (ahead.seqs old before).trans (lt_add_one _)
      · rw [List.mem_singleton.mp new, seq]
        exact lt_add_one _
    · intro old mem k above
      rcases List.mem_append.mp mem with before | new
      · exact ahead.ids old before k ((lt_add_one _).trans above)
      · rw [List.mem_singleton.mp new, id]
        intro same
        have next : p.store.idCounter + 1 = ((n + 1 : Int) : ℚ) := by
          rw [counter, Int.cast_add, Int.cast_one]
        have numerals := Utf16.ofString_injective ((Utf16.append_right_inj _).mp same)
        rw [next] at numerals above
        rw [Js.numeral_int_injective numerals] at above
        exact lt_irrefl _ above

theorem Ahead.creates {p : Opened} (ahead : Ahead p.store) (cs : List Creation) :
    Ahead (p.creates cs).store := by
  induction cs generalizing p with
  | nil => exact ahead
  | cons c cs ih => exact ih (ahead.create c)

theorem Ahead.neverCollides {p : Opened} (ahead : Ahead p.store) : NeverCollides p := by
  intro cs next campaign ok old mem
  have now := ahead.creates cs
  generalize p.creates cs = q at now mem ok
  rcases create_store q next with ⟨error, failed⟩ | ⟨created, id, seq, ok', -⟩
  · rw [failed] at ok
    cases ok
  · obtain rfl := Except.ok.inj (ok'.symm.trans ok)
    obtain ⟨n, counter⟩ := now.int
    have next : q.store.idCounter + 1 = ((n + 1 : Int) : ℚ) := by
      rw [counter, Int.cast_add, Int.cast_one]
    constructor
    · rw [id, next]
      exact now.ids old mem (n + 1) (by rw [← next]; exact lt_add_one _)
    · rw [seq]
      exact now.seqs old mem

def proper : Creation := ⟨⟨.string "acct:a", .string "launch", .number (some 1)⟩, 0, true⟩

theorem create_proper (p : Opened) :
    ∃ campaign : Campaign, campaign.id = "cmp_" ++ Js.numeral (p.store.idCounter + 1) ∧
    campaign.seq = p.store.seq ∧
      (p.create proper).2 = .ok campaign ∧ (p.create proper).1.store =
        ⟨p.store.campaigns ++ [campaign], p.store.seq + 1, p.store.idCounter + 1,
          p.store.dbPath⟩ := by
  rcases create_store p proper with ⟨error, failed⟩ | created
  · have advertiser : Js.trim "acct:a" ≠ "" := by decide
    have name : Js.trim "launch" ≠ "" := by decide
    have floor : ¬ (1 : ℚ) < MIN_PRICE_PER_BLOCK_USD := lt_irrefl 1
    simp only [Opened.create, proper, Opened.createCampaign, Js.string?, Js.finite?,
      Option.getD_some, if_neg advertiser, if_neg name, if_neg floor] at failed
    cases congrArg Prod.snd failed
  · exact created

theorem creates_proper (p : Opened) (m : Nat) :
    (p.creates (List.replicate m proper)).store.idCounter = p.store.idCounter + m ∧
      ∀ c ∈ p.store.campaigns, c ∈ (p.creates (List.replicate m proper)).store.campaigns := by
  induction m generalizing p with
  | zero => exact ⟨by simp [Opened.creates], fun c mem => mem⟩
  | succ m ih =>
    obtain ⟨campaign, -, -, -, store⟩ := create_proper p
    obtain ⟨counter, kept⟩ := ih (p.create proper).1
    rw [store] at counter kept
    constructor
    · rw [List.replicate_succ, Nat.cast_succ, add_comm (m : ℚ) 1, ← add_assoc]
      exact counter
    · exact fun c mem => kept c (List.mem_append_left _ mem)

theorem NeverCollides.ahead {p : Opened} (never : NeverCollides p)
    (int : ∃ n : Int, p.store.idCounter = n) : Ahead p.store := by
  refine ⟨int, ?_, ?_⟩
  · intro c mem
    obtain ⟨campaign, -, seq, ok, -⟩ := create_proper p
    rw [← seq]
    exact (never [] proper campaign ok c mem).2
  · obtain ⟨n, counter⟩ := int
    intro c mem k above same
    rw [counter, Int.cast_lt] at above
    -- so many creates put the counter right below `k`
    obtain ⟨m, rfl⟩ : ∃ m : Nat, k = n + m + 1 := ⟨(k - n - 1).toNat, by omega⟩
    obtain ⟨before, kept⟩ := creates_proper p m
    obtain ⟨campaign, id, -, ok, -⟩ := create_proper (p.creates (List.replicate m proper))
    have next : p.store.idCounter + (m : ℚ) + 1 = ((n + m + 1 : Int) : ℚ) := by
      rw [counter]
      push_cast
      rfl
    rw [before, next] at id
    exact (never _ proper campaign ok c (kept c mem)).1 (same.trans id.symm)

def loadedCampaigns (raw : Js) : List Campaign :=
  (raw.get "campaigns").items.filterMap parseCampaign

/-- A counter that is in the file is ahead of the campaigns that are. -/
structure CountersAhead (raw : Js) : Prop where
  seq : ∀ n, (raw.get "seq").finite? = some n → ∀ c ∈ loadedCampaigns raw, c.seq < n
  idCounter : ∀ n, (raw.get "idCounter").finite? = some n →
    ∀ c ∈ loadedCampaigns raw, ∀ k : Int, n < k → c.id ≠ "cmp_" ++ Js.numeral k

theorem load_text {dbPath : String} (onDisk : dbPath ≠ IN_MEMORY_DB) (raw : Js) :
    load dbPath (.text raw) =
    ⟨loadedCampaigns raw, (raw.get "seq").finite?.getD (maxSeq (loadedCampaigns raw)),
      (raw.get "idCounter").finite?.getD (maxId (loadedCampaigns raw)), dbPath⟩ := by
  rw [load, if_neg onDisk]
  cases raw <;> rfl

theorem foldl_keeps {α β : Type} {f : β → α → β} {P : β → Prop} (up : ∀ m a, P m → P (f m a))
    (l : List α) {m : β} (start : P m) : P (l.foldl f m) := by
  induction l generalizing m with
  | nil => exact start
  | cons a l ih => exact ih (up m a start)

theorem foldl_reaches {α β : Type} {f : β → α → β} {P : β → Prop} (up : ∀ m a, P m → P (f m a))
    {l : List α} {a : α} (mem : a ∈ l) (reaches : ∀ m, P (f m a)) (m : β) : P (l.foldl f m) := by
  obtain ⟨front, rest, rfl⟩ := List.append_of_mem mem
  rw [List.foldl_append, List.foldl_cons]
  exact foldl_keeps up rest (reaches _)

theorem lt_maxSeq {cs : List Campaign} {c : Campaign} (mem : c ∈ cs) : c.seq < maxSeq cs := by
  refine foldl_reaches (P := fun m => c.seq < m) ?_ mem ?_ 0
  · intro m a above
    split
    · rename_i reached
      exact above.trans_le (reached.trans (lt_add_one _).le)
    · exact above
  · intro m
    split
    · exact lt_add_one _
    · rename_i below
      exact lt_of_not_ge below

def maxIdStep (m : ℚ) (c : Campaign) : ℚ :=
  match Js.parseInt (withoutPrefix c.id) with
  | some n => if m ≤ n then n else m
  | none => m

theorem maxId_eq (cs : List Campaign) : maxId cs = cs.foldl maxIdStep 0 := rfl

theorem le_maxIdStep (m : ℚ) (c : Campaign) : m ≤ maxIdStep m c := by
  unfold maxIdStep
  split
  · split
    · assumption
    · exact le_rfl
  · exact le_rfl

theorem withoutPrefix_append (s : Utf16) : withoutPrefix ("cmp_" ++ s) = s := by
  have found : (Utf16.ofString "cmp_").units.isPrefixOf
    (Utf16.ofString "cmp_" ++ s).units = true := by
    rw [List.isPrefixOf_iff_prefix]
    exact List.prefix_append _ _
  rw [withoutPrefix, if_pos found]
  rfl

theorem le_maxId {cs : List Campaign} {c : Campaign} (mem : c ∈ cs) {k : Int}
    (id : c.id = "cmp_" ++ Js.numeral k) : (k : ℚ) ≤ maxId cs := by
  rw [maxId_eq]
  cases k with
  | negSucc k =>
    have start : (0 : ℚ) ≤ cs.foldl maxIdStep 0 :=
      foldl_keeps (P := fun m => (0 : ℚ) ≤ m)
        (fun m a above => above.trans (le_maxIdStep m a)) cs le_rfl
    exact (Int.cast_nonpos.mpr (Int.negSucc_lt_zero k).le).trans start
  | ofNat k =>
    refine foldl_reaches (P := fun m => ((Int.ofNat k : Int) : ℚ) ≤ m)
      (fun m a above => above.trans (le_maxIdStep m a)) mem ?_ 0
    intro m
    have read : Js.parseInt (withoutPrefix c.id) = some (k : ℚ) := by
      rw [id, withoutPrefix_append]
      exact Js.parseInt_numeral k
    unfold maxIdStep
    rw [read]
    dsimp only
    split
    · exact le_rfl
    · rename_i above
      exact (lt_of_not_ge above).le

theorem parseInt_int {s : Utf16} {x : ℚ} (read : Js.parseInt s = some x) : ∃ n : Int, x = n := by
  have natural (n : Nat) (same : some (n : ℚ) = some x) : ∃ k : Int, x = k :=
    ⟨n, (Option.some.inj same).symm.trans (Int.cast_natCast n).symm⟩
  unfold Js.parseInt at read
  dsimp only at read
  split at read
  · obtain ⟨y, some_, rfl⟩ := Option.map_eq_some_iff.mp read
    split at some_
    · cases some_
    · obtain rfl := Option.some.inj some_
      exact ⟨-(_ : Nat), by rw [Int.cast_neg, Int.cast_natCast]⟩
  · split at read
    · cases read
    · exact natural _ read
  · split at read
    · cases read
    · exact natural _ read

theorem maxId_int (cs : List Campaign) : ∃ n : Int, maxId cs = n := by
  rw [maxId_eq]
  refine foldl_keeps (P := fun m => ∃ n : Int, m = (n : ℚ)) ?_ cs ⟨0, Int.cast_zero.symm⟩
  intro m c int
  unfold maxIdStep
  split
  · rename_i read
    split
    · exact parseInt_int read
    · exact int
  · exact int

/-- The ids and numbers of new campaigns are their own exactly when the counters that the file
has are ahead; the ones that `load` derives always are. -/
theorem ids_never_collide {dbPath : String} (onDisk : dbPath ≠ IN_MEMORY_DB) {raw : Js}
    (integer : ∀ n, (raw.get "idCounter").finite? = some n → ∃ k : Int, n = k) :
    NeverCollides ⟨load dbPath (.text raw), .text raw⟩ ↔ CountersAhead raw := by
  rw [load_text onDisk]
  have int : ∃ n : Int, (raw.get "idCounter").finite?.getD (maxId (loadedCampaigns raw)) = n := by
    cases there : (raw.get "idCounter").finite? with
    | none => exact maxId_int _
    | some n => exact integer n there
  constructor
  · intro never
    obtain ⟨-, seqs, ids⟩ := never.ahead int
    constructor
    · intro n there c mem
      simpa [there] using seqs c mem
    · intro n there c mem k above
      exact ids c mem k (by simpa [there] using above)
  · rintro ⟨seq, idCounter⟩
    apply Ahead.neverCollides
    refine ⟨int, ?_, ?_⟩
    · intro c mem
      cases there : (raw.get "seq").finite? with
      | none => simpa [there] using lt_maxSeq mem
      | some n => simpa [there] using seq n there c mem
    · intro c mem k above
      cases there : (raw.get "idCounter").finite? with
      | none =>
        intro id
        have reached : maxId (loadedCampaigns raw) < k := by simpa [there] using above
        exact absurd (le_maxId mem id) (not_le_of_gt reached)
      | some n => exact idCounter n there c mem k (by simpa [there] using above)

/-! A file that was written by hand, or by an older version. -/

def firstCampaign : Js :=
  .object [("id", .string "cmp_1"), ("advertiser", .string "acct:a"), ("name", .string "launch"),
    ("pricePerBlockUsd", .number (some 3)), ("seq", .number (some 0)),
      ("createdAt", .number (some 0)), ("creative", .null)]

def countedFile (seq idCounter : ℚ) : Js :=
  .object [("version", .number (some 1)), ("campaigns", .array [firstCampaign]),
    ("seq", .number (some seq)), ("idCounter", .number (some idCounter))]

def firstLoaded : Campaign := ⟨"cmp_1", "acct:a", "launch", 3, 0, 0, none⟩

theorem counted_campaigns (seq idCounter : ℚ) :
    loadedCampaigns (countedFile seq idCounter) = [firstLoaded] := rfl

theorem first_id : firstLoaded.id = "cmp_" ++ Js.numeral ((1 : Int) : ℚ) := by
  rw [Js.numeral_int]
  rfl

theorem ids_never_collide_ahead : "portal-store.json" ≠ IN_MEMORY_DB ∧
    NeverCollides ⟨load "portal-store.json" (.text (countedFile 1 1)),
      .text (countedFile 1 1)⟩ := by
  have onDisk : "portal-store.json" ≠ IN_MEMORY_DB := by decide
  have counter : ((countedFile 1 1).get "idCounter").finite? = some 1 := rfl
  have seq : ((countedFile 1 1).get "seq").finite? = some 1 := rfl
  refine ⟨onDisk, (ids_never_collide onDisk ?_).mpr ⟨?_, ?_⟩⟩
  · intro n there
    obtain rfl := Option.some.inj (counter.symm.trans there)
    exact ⟨1, Int.cast_one.symm⟩
  · intro n there c mem
    obtain rfl := Option.some.inj (seq.symm.trans there)
    rw [counted_campaigns, List.mem_singleton] at mem
    rw [mem]
    exact zero_lt_one
  · intro n there c mem k above same
    obtain rfl := Option.some.inj (counter.symm.trans there)
    rw [counted_campaigns, List.mem_singleton] at mem
    rw [mem, first_id] at same
    rw [← Js.numeral_int_injective
      (Utf16.ofString_injective ((Utf16.append_right_inj _).mp same))] at above
    exact absurd above (by simp)

/-- The second campaign is the first once more. -/
theorem id_collides : ¬ NeverCollides ⟨load "portal-store.json" (.text (countedFile 0 0)),
    .text (countedFile 0 0)⟩ := by
  intro never
  have loaded := load_text (show "portal-store.json" ≠ IN_MEMORY_DB by decide) (countedFile 0 0)
  rw [loaded] at never
  obtain ⟨campaign, id, -, ok, -⟩ := create_proper
    ⟨⟨[firstLoaded], 0, 0, "portal-store.json"⟩, .text (countedFile 0 0)⟩
  apply (never [] proper campaign ok firstLoaded List.mem_cons_self).1
  rw [id, first_id, Int.cast_one, zero_add]

end Spnr.Portal
