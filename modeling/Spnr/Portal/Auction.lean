import Mathlib.Data.List.Nodup
import Spnr.Lib.Argmax
import Spnr.Portal.Store

/-! The auction over whole runs: creation numbers the campaigns, a reopening changes nothing,
and the winner is the first campaign of the highest price. -/
namespace Spnr.Portal

@[simp] theorem parseCreative_toJs (c : Creative) : parseCreative c.toJs = some c := by
  simp [parseCreative, Creative.toJs, Js.isObject, Js.get, Js.string?, List.lookup_cons]

@[simp] theorem parseCampaign_toJs (c : Campaign) : parseCampaign c.toJs = some c := by
  obtain ⟨id, advertiser, name, price, seq, createdAt, creative⟩ := c
  have back : parseCreative ((creative.map Creative.toJs).getD .null) = creative := by
    cases creative with
    | none => rfl
    | some creative => exact parseCreative_toJs creative
  simp [parseCampaign, Campaign.toJs, Js.isObject, Js.get, Js.string?, Js.finite?,
    List.lookup_cons, back]

theorem toJs_data (c : Campaign) : c.toJs.Data := by
  have creative : ((c.creative.map Creative.toJs).getD .null).Data := by
    cases c.creative with
    | none => exact .null
    | some creative =>
      apply Js.Data.object
      simp [Js.Data.string]
  apply Js.Data.object
  simp [Js.Data.string, Js.Data.number, creative]

theorem persistedState_data (s : Store) : s.persistedState.Data := by
  have campaigns : (Js.array (s.campaigns.map Campaign.toJs)).Data := by
    apply Js.Data.array
    intro v mem
    obtain ⟨c, -, rfl⟩ := List.mem_map.mp mem
    exact toJs_data c
  apply Js.Data.object
  simp [Js.Data.number, campaigns]

theorem load_persisted (s : Store) (onDisk : s.dbPath ≠ IN_MEMORY_DB) :
    load s.dbPath (.text s.persistedState.stringify) = s := by
  rw [Js.stringify_data (persistedState_data s), load, if_neg onDisk]
  have campaigns : (s.campaigns.map Campaign.toJs).filterMap parseCampaign = s.campaigns := by
    rw [List.filterMap_map]
    simp
  simp [Store.persistedState, Js.isObject, Js.get, Js.items, Js.finite?,
    List.lookup_cons, campaigns]

def Campaign.bare (c : Campaign) : Campaign := { c with creative := none }

def Numbered (created : List Campaign) : Prop :=
  ∀ i (c : Campaign), created[i]? = some c → c.id = "cmp_" ++ Js.numeral ((i + 1 : Nat) : ℚ) ∧
    c.seq = (i : ℚ)

theorem Numbered.concat {created : List Campaign} (numbered : Numbered created) {c : Campaign}
    (id : c.id = "cmp_" ++ Js.numeral ((created.length + 1 : Nat) : ℚ))
    (seq : c.seq = (created.length : ℚ)) : Numbered (created ++ [c]) := by
  intro i d found
  rcases Nat.lt_trichotomy i created.length with inside | rfl | outside
  · rw [List.getElem?_append_left inside] at found
    exact numbered i d found
  · rw [List.getElem?_concat_length] at found
    cases found
    exact ⟨id, seq⟩
  · rw [List.getElem?_eq_none (by simp; omega)] at found
    contradiction

theorem Numbered.ids {created : List Campaign} (numbered : Numbered created) :
    (created.map Campaign.id).Nodup := by
  rw [List.Nodup, List.pairwise_map, List.pairwise_iff_getElem]
  intro i j hi hj before same
  rw [(numbered i _ (List.getElem?_eq_getElem hi)).1,
    (numbered j _ (List.getElem?_eq_getElem hj)).1] at same
  have numerals := Utf16.ofString_injective (Utf16.append_right_inj _ |>.mp same)
  have places := Js.numeral_nat_injective numerals
  omega

theorem Numbered.seqs {created : List Campaign} (numbered : Numbered created) :
    created.Pairwise fun a b => a.seq < b.seq := by
  rw [List.pairwise_iff_getElem]
  intro i j hi hj before
  rw [(numbered i _ (List.getElem?_eq_getElem hi)).2,
    (numbered j _ (List.getElem?_eq_getElem hj)).2]
  exact_mod_cast before

theorem persist_store (p : Opened) (saved : Bool) : (p.persist saved).store = p.store := by
  unfold Opened.persist
  split
  · rfl
  · split <;> rfl

theorem create_cases (p : Opened) (input : CreateCampaignInput) (now : Int) (saved : Bool) :
    (∃ error, p.createCampaign input now saved = (p, .error error)) ∨
      ∃ c : Campaign, c.id = "cmp_" ++ Js.numeral (p.store.idCounter + 1) ∧ c.seq = p.store.seq ∧
        p.createCampaign input now saved =
          (Opened.persist { p with store :=
            ⟨p.store.campaigns ++ [c], p.store.seq + 1, p.store.idCounter + 1, p.store.dbPath⟩ } saved,
          .ok c) := by
  unfold Opened.createCampaign
  dsimp only
  split
  · exact .inl ⟨_, rfl⟩
  split
  · exact .inl ⟨_, rfl⟩
  split
  · exact .inl ⟨_, rfl⟩
  split
  · exact .inl ⟨_, rfl⟩
  · exact .inr ⟨_, rfl, rfl, rfl⟩

structure Passes (U : Unicode) (p : Opened) (id : Utf16) (text url : Js) : Prop where
  campaign : ∃ c ∈ p.store.campaigns, c.id = id
  text : ∃ t, text = .string t ∧ lintCreative U t = []
  url : ∃ u, url = .string u ∧ Js.trim u ≠ ""

theorem set_refuses {U : Unicode} {p : Opened} {id : Utf16} {text url : Js} (saved : Bool)
    (fails : ¬ Passes U p id text url) :
    ∃ error, p.setCreative U id text url saved = (p, .error error) := by
  unfold Opened.setCreative
  split
  · exact ⟨_, rfl⟩
  · rename_i existing found
    split
    · exact ⟨_, rfl⟩
    rename_i accepted
    dsimp only
    split
    · exact ⟨_, rfl⟩
    · rename_i nonempty
      refine absurd ⟨?_, ?_, ?_⟩ fails
      · exact ⟨existing, List.mem_of_find?_eq_some found, by simpa using List.find?_some found⟩
      · rw [ne_eq, not_not] at accepted
        cases text with
        | string t => exact ⟨t, rfl, accepted⟩
        | _ => cases accepted
      · cases url with
        | string u => exact ⟨u, rfl, nonempty⟩
        | _ => exact absurd rfl nonempty

theorem set_stores {U : Unicode} {p : Opened} {id t u : Utf16} (saved : Bool)
    (there : ∃ c ∈ p.store.campaigns, c.id = id)
    (accepted : lintCreative U t = []) (nonempty : Js.trim u ≠ "") :
    ∃ existing, existing.id = id ∧ existing ∈ p.store.campaigns ∧
      p.setCreative U id (.string t) (.string u) saved =
        (Opened.persist { p with store := { p.store with campaigns := p.store.campaigns.map fun c =>
            if c.id = id then { existing with creative := some ⟨t, Js.trim u⟩ } else c } } saved,
          .ok { existing with creative := some ⟨t, Js.trim u⟩ }) := by
  cases found : p.store.campaigns.find? (·.id = id) with
  | none =>
    obtain ⟨c, mem, same⟩ := there
    have absent := List.find?_eq_none.mp found c mem
    simp [same] at absent
  | some existing =>
    refine ⟨existing, by simpa using List.find?_some found, List.mem_of_find?_eq_some found, ?_⟩
    have silent : ¬ Opened.lint U (.string t) ≠ [] := not_not.mpr accepted
    unfold Opened.setCreative
    rw [found]
    dsimp only
    rw [if_neg silent]
    exact if_neg nonempty

/-- What every call keeps: the file has the store, and the store has the campaigns that were
created, each numbered by its place. -/
structure Kept (s : Opened × List Campaign) : Prop where
  onDisk : s.1.store.dbPath ≠ IN_MEMORY_DB
  file : load s.1.store.dbPath s.1.file = s.1.store
  campaigns : s.1.store.campaigns.map Campaign.bare = s.2.map Campaign.bare
  numbered : Numbered s.2
  seq : s.1.store.seq = (s.2.length : ℚ)
  idCounter : s.1.store.idCounter = (s.2.length : ℚ)

theorem Kept.ids {s : Opened × List Campaign} (kept : Kept s) :
    (s.1.store.campaigns.map Campaign.id).Nodup := by
  have same := congrArg (List.map Campaign.id) kept.campaigns
  rw [List.map_map, List.map_map] at same
  exact (same : s.1.store.campaigns.map Campaign.id = s.2.map Campaign.id) ▸ kept.numbered.ids

theorem Kept.ordered {s : Opened × List Campaign} (kept : Kept s) :
    s.1.store.campaigns.Pairwise fun a b => a.seq < b.seq := by
  have bare : (s.2.map Campaign.bare).Pairwise fun a b => a.seq < b.seq :=
    List.pairwise_map.mpr kept.numbered.seqs
  rw [← kept.campaigns, List.pairwise_map] at bare
  exact bare

theorem Kept.create {s : Opened × List Campaign} (kept : Kept s) (input : CreateCampaignInput)
    (now : Int) (U : Unicode) : Kept (call U s (.createCampaign input now true)) := by
  obtain ⟨p, created⟩ := s
  rcases create_cases p input now true with ⟨error, h⟩ | ⟨c, id, seq, h⟩
  · simp only [call, h]
    exact kept
  · have onDisk : p.store.dbPath ≠ IN_MEMORY_DB := kept.onDisk
    simp only [call, h, Opened.persist, if_neg onDisk, if_true]
    constructor
    · exact kept.onDisk
    · exact load_persisted _ kept.onDisk
    · rw [List.map_append, List.map_append, kept.campaigns]
    · apply kept.numbered.concat
      · rw [id, kept.idCounter, Nat.cast_add, Nat.cast_one]
      · rw [seq, kept.seq]
    · rw [List.length_append, kept.seq]
      simp
    · rw [List.length_append, kept.idCounter]
      simp

theorem Kept.set {s : Opened × List Campaign} (kept : Kept s) (U : Unicode) (id : Utf16)
    (text url : Js) : Kept (call U s (.setCreative id text url true)) := by
  obtain ⟨p, created⟩ := s
  by_cases passes : Passes U p id text url
  · obtain ⟨there, ⟨t, rfl, accepted⟩, ⟨u, rfl, nonempty⟩⟩ := passes
    obtain ⟨existing, rfl, mem, h⟩ := set_stores true there accepted nonempty
    have onDisk : p.store.dbPath ≠ IN_MEMORY_DB := kept.onDisk
    simp only [call, h, Opened.persist, if_neg onDisk, if_true]
    constructor
    · exact kept.onDisk
    · exact load_persisted _ kept.onDisk
    · rw [← kept.campaigns, List.map_map]
      apply List.map_congr_left
      intro c there
      rw [Function.comp_apply]
      split
      · rename_i same
        rw [List.inj_on_of_nodup_map kept.ids there mem same]
        rfl
      · rfl
    · exact kept.numbered
    · exact kept.seq
    · exact kept.idCounter
  · obtain ⟨error, h⟩ := set_refuses true passes
    simp only [call, h]
    exact kept

theorem Kept.reopen {s : Opened × List Campaign} (kept : Kept s) (U : Unicode) :
    Kept (call U s .reopen) := by
  have same : s.1.reopen = s.1 := by rw [Opened.reopen, kept.file]
  rw [call, same]
  exact kept

theorem kept_run (U : Unicode) {dbPath : String} (onDisk : dbPath ≠ IN_MEMORY_DB)
    {calls : List Call} (saved : ∀ c ∈ calls, c.Saved) : Kept (portalRun U dbPath calls) := by
  induction calls using List.reverseRecOn with
  | nil =>
    rw [portalRun, List.foldl_nil, load, if_neg onDisk]
    constructor
    · exact onDisk
    · exact if_neg onDisk
    · rfl
    · exact fun i c found => nomatch found
    · exact Nat.cast_zero.symm
    · exact Nat.cast_zero.symm
  | append_singleton calls c ih =>
    have kept := ih fun d mem => saved d (List.mem_append_left _ mem)
    have last := saved c (List.mem_append_right _ (List.mem_singleton.mpr rfl))
    rw [portalRun, List.foldl_append, List.foldl_cons, List.foldl_nil, ← portalRun]
    cases c with
    | createCampaign input now ok =>
      obtain rfl : ok = true := last
      exact kept.create input now U
    | setCreative id text url ok =>
      obtain rfl : ok = true := last
      exact kept.set U id text url
    | reopen => exact kept.reopen U

theorem winner_none {s : Store} : auctionWinner s = none ↔ s.campaigns = [] := by
  unfold auctionWinner
  split <;> simp_all

theorem winner_best {s : Store} (ordered : s.campaigns.Pairwise fun a b => a.seq < b.seq)
    {w : Campaign}
    (won : auctionWinner s = some w) :
    Argmax.FirstBest Campaign.pricePerBlockUsd s.campaigns w := by
  unfold auctionWinner at won
  split at won
  · contradiction
  · rename_i c cs campaigns
    cases won
    rw [campaigns] at ordered ⊢
    exact Argmax.foldl_pick c cs ordered

/-- The winner is the earliest created among the campaigns of the highest price. -/
theorem auction_stable (U : Unicode) (dbPath : String) (onDisk : dbPath ≠ IN_MEMORY_DB)
    (calls : List Call) (saved : ∀ c ∈ calls, c.Saved) :
    ∃ store file created, portalRun U dbPath calls = (⟨store, file⟩, created) ∧
      (created.map Campaign.id).Nodup ∧ (created.Pairwise fun a b => a.seq < b.seq) ∧
      store.campaigns.map Campaign.bare = created.map Campaign.bare ∧
      (auctionWinner store = none ↔ created = []) ∧
      ∀ w, auctionWinner store = some w →
        ∃ c, c.bare = w.bare ∧ Argmax.FirstBest Campaign.pricePerBlockUsd created c := by
  have kept := kept_run U onDisk saved
  generalize portalRun U dbPath calls = s at kept
  obtain ⟨⟨store, file⟩, created⟩ := s
  have campaigns : store.campaigns.map Campaign.bare = created.map Campaign.bare := kept.campaigns
  refine ⟨store, file, created, rfl, kept.numbered.ids, kept.numbered.seqs, campaigns, ?_, ?_⟩
  · rw [winner_none, ← List.map_eq_nil_iff (f := Campaign.bare), campaigns, List.map_eq_nil_iff]
  · intro w won
    have best := winner_best kept.ordered won
    have bare := Argmax.FirstBest.image (g := Campaign.bare) (f := Campaign.pricePerBlockUsd) best
    rw [campaigns] at bare
    exact bare.preimage

theorem auction_stable_tie : "portal-store.json" ≠ IN_MEMORY_DB ∧
    ∃ store file created, portalRun ⟨Char.isAlpha, Char.isDigit⟩ "portal-store.json"
        [.createCampaign ⟨.string "acct:a", .string "first", .number (some 7)⟩ 1 true,
          .createCampaign ⟨.string "acct:b", .string "second", .number (some 7)⟩ 2 true, .reopen] =
        (⟨store, file⟩, created) ∧
      ∃ w, auctionWinner store = some w ∧ w.name = "first" := by
  have onDisk : "portal-store.json" ≠ IN_MEMORY_DB := by decide
  obtain ⟨store, file, created, run, -, -, -, none_, best⟩ :=
    auction_stable ⟨Char.isAlpha, Char.isDigit⟩ _ onDisk
    [.createCampaign ⟨.string "acct:a", .string "first", .number (some 7)⟩ 1 true,
      .createCampaign ⟨.string "acct:b", .string "second", .number (some 7)⟩ 2 true, .reopen]
    (by simp [Call.Saved])
  refine ⟨onDisk, store, file, created, run, ?_⟩
  have named : created.map (fun c => (c.name, c.pricePerBlockUsd)) =
      [(("first" : Utf16), 7), (("second" : Utf16), 7)] := by
    have last : created = (portalRun _ _ _).2 := (congrArg Prod.snd run).symm
    rw [last]
    decide +kernel
  obtain ⟨one, two, rfl⟩ :=
    List.length_eq_two.mp ((List.length_map _).symm.trans (congrArg List.length named))
  simp only [List.map_cons, List.map_nil, List.cons.injEq, Prod.mk.injEq, and_true] at named
  obtain ⟨⟨first, price⟩, -, price'⟩ := named
  cases won : auctionWinner store with
  | none => exact absurd (none_.mp won) (List.cons_ne_nil _ _)
  | some w =>
    obtain ⟨c, same, before, after, split, lower, -⟩ := best w won
    refine ⟨w, rfl, ?_⟩
    have own : c.bare.name = w.bare.name := congrArg Campaign.name same
    rcases before with _ | ⟨b, before⟩
    · obtain ⟨rfl, -⟩ := List.cons.inj split
      exact own.symm.trans first
    · -- the second would have to be dearer
      obtain ⟨rfl, rest⟩ := List.cons.inj split
      have less := lower one List.mem_cons_self
      have there : c ∈ [two] := by
        rw [rest]
        exact List.mem_append_right before List.mem_cons_self
      rw [List.mem_singleton.mp there, price, price'] at less
      exact absurd less (lt_irrefl _)

end Spnr.Portal
