import Spnr.Portal.Api
import Spnr.Portal.Auction

/-! The portal as a history. What it answers, after any requests, failed saves, crashes and
restarts, is told by the creations and creatives it accepted, a restart taking back those
that came after the last save. -/
namespace Spnr.Portal

inductive Entry where
  | created (c : Campaign)
  | set (id : Utf16) (creative : Creative)

def Entry.creation? : Entry → Option Campaign
  | created c => some c
  | set _ _ => none

def Entry.creative? (id : Utf16) : Entry → Option Creative
  | created _ => none
  | set id' creative => if id' = id then some creative else none

def creations (h : List Entry) : List Campaign := h.filterMap Entry.creation?

def lastSet (h : List Entry) (id : Utf16) : Option Creative :=
  (h.filterMap (Entry.creative? id)).getLast?

def shown (h : List Entry) : List Campaign :=
  (creations h).map fun c => { c with creative := lastSet h c.id }

def winner (h : List Entry) : Option Campaign :=
  (shown h).find? fun c => (shown h).all fun d => d.pricePerBlockUsd ≤ c.pricePerBlockUsd

structure Memory where
  live : List Entry
  durable : List Entry

namespace Memory

def add (m : Memory) (saved : Bool) : Option Entry → Memory
  | none => m
  | some e => ⟨m.live ++ [e], if saved then m.live ++ [e] else m.durable⟩

def restart (m : Memory) : Memory := ⟨m.durable, m.durable⟩

end Memory

def accepted (U : Unicode) (p : Opened) (now : Int) : Route → Option Entry
  | .postCampaign body => (p.createCampaign (bodyInput body) now true).2.toOption.map .created
  | .postCreative id body =>
    (p.setCreative U id (body.get "text") (body.get "url") true).2.toOption.bind fun c =>
      c.creative.map (.set id)
  | _ => none

def Opened.onDisk (p : Opened) : Bool := p.store.dbPath ≠ IN_MEMORY_DB

def remember (U : Unicode) (p : Opened) (m : Memory) : Event → Memory
  | .answered r now saved => m.add (saved && p.onDisk) (accepted U p now r)
  | .cutShort r now saved => (m.add (saved && p.onDisk) (accepted U p now r)).restart
  | .restarted => m.restart

def live (U : Unicode) (s : Opened × Memory) (e : Event) : Opened × Memory :=
  ((s.1.event U e).1, remember U s.1 s.2 e)

def lives (U : Unicode) (dbPath : String) (events : List Event) : Opened × Memory :=
  events.foldl (live U) (⟨load dbPath .missing, .missing⟩, ⟨[], []⟩)

/-- The creations are numbered by their places, and creatives are given to
campaigns that were created. -/
structure Consistent (h : List Entry) : Prop where
  numbered : Numbered (creations h)
  known : ∀ id creative, .set id creative ∈ h → id ∈ (creations h).map Campaign.id

theorem creations_concat (h : List Entry) (e : Entry) :
    creations (h ++ [e]) = creations h ++ e.creation?.toList := by
  rw [creations, List.filterMap_append, ← creations]
  cases e <;> rfl

theorem lastSet_concat (h : List Entry) (e : Entry) (id : Utf16) :
    lastSet (h ++ [e]) id = (e.creative? id <|> lastSet h id) := by
  rw [lastSet, List.filterMap_append]
  cases said : e.creative? id with
  | none => simp [said, lastSet]
  | some creative => simp [said]

theorem shown_ids (h : List Entry) : (shown h).map Campaign.id = (creations h).map Campaign.id := by
  rw [shown, List.map_map]
  rfl

theorem Consistent.unset {h : List Entry} (consistent : Consistent h) {id : Utf16}
    (unknown : id ∉ (creations h).map Campaign.id) : lastSet h id = none := by
  have none_ : h.filterMap (Entry.creative? id) = [] := by
    rw [List.filterMap_eq_nil_iff]
    intro e mem
    cases e with
    | created c => rfl
    | set id' creative =>
      refine if_neg ?_
      rintro rfl
      exact unknown (consistent.known id' creative mem)
  rw [lastSet, none_]
  rfl

theorem Consistent.created {h : List Entry} (consistent : Consistent h) {c : Campaign}
    (id : c.id = "cmp_" ++ Js.numeral (((creations h).length + 1 : Nat) : ℚ))
    (seq : c.seq = ((creations h).length : ℚ))
    (bare : c.creative = none) : Consistent (h ++ [.created c]) ∧
    shown (h ++ [.created c]) = shown h ++ [c] := by
  have all := creations_concat h (.created c)
  have numbered : Numbered (creations (h ++ [.created c])) := by
    rw [all]
    exact consistent.numbered.concat id seq
  have ids := numbered.ids
  rw [all, List.map_append] at ids
  have fresh : c.id ∉ (creations h).map Campaign.id := fun mem =>
    (List.nodup_append.mp ids).2.2 _ mem c.id (List.mem_singleton.mpr rfl) rfl
  constructor
  · refine ⟨numbered, fun id creative mem => ?_⟩
    rw [all, List.map_append]
    rcases List.mem_append.mp mem with old | new
    · exact List.mem_append_left _ (consistent.known id creative old)
    · cases List.mem_singleton.mp new
  · have last (id : Utf16) : lastSet (h ++ [.created c]) id = lastSet h id :=
      lastSet_concat h (.created c) id
    rw [shown, all, List.map_append, shown]
    simp only [last]
    have own : { c with creative := lastSet h c.id } = c := by
      rw [consistent.unset fresh, ← bare]
    exact congrArg (_ ++ ·) (congrArg (· :: []) own)

theorem Consistent.set {h : List Entry} (consistent : Consistent h) {id : Utf16}
    (known : id ∈ (creations h).map Campaign.id)
    (creative : Creative) : Consistent (h ++ [.set id creative]) ∧ shown (h ++ [.set id creative]) =
      (shown h).map fun c => if c.id = id then { c with creative := some creative } else c := by
  have same : creations (h ++ [.set id creative]) = creations h := by
    rw [creations_concat]
    exact List.append_nil _
  constructor
  · refine ⟨same ▸ consistent.numbered, fun id' creative' mem => ?_⟩
    rw [same]
    rcases List.mem_append.mp mem with old | new
    · exact consistent.known id' creative' old
    · cases List.mem_singleton.mp new
      exact known
  · rw [shown, same, shown, List.map_map]
    apply List.map_congr_left
    intro c _
    rw [lastSet_concat, Function.comp_apply]
    by_cases here : c.id = id
    · rw [if_pos here, Entry.creative?, if_pos here.symm]
      rfl
    · rw [if_neg here, Entry.creative?, if_neg (Ne.symm here)]
      rfl

theorem create_accepted (p : Opened) (input : CreateCampaignInput) (now : Int) :
    (∃ error, ∀ saved, p.createCampaign input now saved = (p, .error error)) ∨
      ∃ c : Campaign, c.id = "cmp_" ++ Js.numeral (p.store.idCounter + 1) ∧ c.seq = p.store.seq ∧
      c.creative = none ∧
        ∀ saved, p.createCampaign input now saved =
          (Opened.persist { p with store :=
            ⟨p.store.campaigns ++ [c], p.store.seq + 1, p.store.idCounter + 1, p.store.dbPath⟩ } saved,
          .ok c) := by
  unfold Opened.createCampaign
  dsimp only
  split
  · exact .inl ⟨_, fun _ => rfl⟩
  split
  · exact .inl ⟨_, fun _ => rfl⟩
  split
  · exact .inl ⟨_, fun _ => rfl⟩
  split
  · exact .inl ⟨_, fun _ => rfl⟩
  · exact .inr ⟨_, rfl, rfl, rfl, fun _ => rfl⟩

theorem set_accepted (U : Unicode) (p : Opened) (id : Utf16) (text url : Js) :
    (∃ error, ∀ saved, p.setCreative U id text url saved = (p, .error error)) ∨
      ∃ existing creative, existing ∈ p.store.campaigns ∧ existing.id = id ∧
        ∀ saved, p.setCreative U id text url saved =
          (Opened.persist
            { p with store := { p.store with campaigns := p.store.campaigns.map fun c =>
              if c.id = id then { existing with creative := some creative } else c } } saved,
            .ok { existing with creative := some creative }) := by
  unfold Opened.setCreative
  cases found : p.store.campaigns.find? (·.id = id) with
  | none => exact .inl ⟨_, fun _ => rfl⟩
  | some existing =>
    dsimp only
    split
    · exact .inl ⟨_, fun _ => rfl⟩
    split
    · exact .inl ⟨_, fun _ => rfl⟩
    · exact .inr ⟨existing, _,
        List.mem_of_find?_eq_some found, by simpa using List.find?_some found, fun _ => rfl⟩

def storeOf (dbPath : String) (h : List Entry) : Store :=
  ⟨shown h, ((creations h).length : ℚ), ((creations h).length : ℚ), dbPath⟩

/-- The store has the live history, and the file the durable one, which the
live one goes on from. -/
structure Replays (dbPath : String) (p : Opened) (m : Memory) : Prop where
  store : p.store = storeOf dbPath m.live
  file : load dbPath p.file = storeOf dbPath m.durable
  live : Consistent m.live
  durable : Consistent m.durable
  goesOn : m.durable <+: m.live
  volatile : dbPath = IN_MEMORY_DB → m.durable = []

variable {dbPath : String} {p : Opened} {m : Memory}

theorem Replays.path (replays : Replays dbPath p m) : p.store.dbPath = dbPath :=
  congrArg Store.dbPath replays.store

theorem Replays.campaigns (replays : Replays dbPath p m) : p.store.campaigns = shown m.live :=
  congrArg Store.campaigns replays.store

theorem Replays.restart (replays : Replays dbPath p m) : Replays dbPath p.reopen m.restart := by
  refine ⟨?_, replays.file, replays.durable, replays.durable, List.prefix_refl _, replays.volatile⟩
  rw [Opened.reopen, replays.path]
  exact replays.file

theorem Replays.persist (replays : Replays dbPath p m) {e : Entry} {store : Store}
    (took : store = storeOf dbPath (m.live ++ [e]))
    (consistent : Consistent (m.live ++ [e])) (saved : Bool) :
    Replays dbPath (Opened.persist { p with store } saved)
      (m.add (saved && p.onDisk) (some e)) := by
  have path : store.dbPath = dbPath := by
    rw [took]
    rfl
  have unsaved : Replays dbPath { p with store } ⟨m.live ++ [e], m.durable⟩ :=
    ⟨took, replays.file, consistent, replays.durable, replays.goesOn.trans (List.prefix_append _ _),
      replays.volatile⟩
  by_cases memory : dbPath = IN_MEMORY_DB
  · have off : (saved && p.onDisk) = false := by simp [Opened.onDisk, replays.path, memory]
    rw [Opened.persist, if_pos (path.trans memory), off]
    exact unsaved
  · rw [Opened.persist, if_neg (path ▸ memory)]
    cases saved with
    | false => exact unsaved
    | true =>
      have on : (true && p.onDisk) = true := by simp [Opened.onDisk, replays.path, memory]
      rw [on]
      refine ⟨took, ?_, consistent, consistent, List.prefix_refl _,
        fun volatile => absurd volatile memory⟩
      have back := load_persisted store (path ▸ memory)
      rw [path] at back
      exact back.trans took

theorem Replays.handle (replays : Replays dbPath p m) (U : Unicode) (now : Int) (saved : Bool)
    (r : Route) :
    Replays dbPath (handle U p now saved r).1 (m.add (saved && p.onDisk) (accepted U p now r)) := by
  cases r with
  | getCampaigns => exact replays
  | getAuction => exact replays
  | postCampaign body =>
    rcases create_accepted p (bodyInput body) now with ⟨error, h⟩ | ⟨c, id, seq, bare, h⟩
    · simp only [Portal.handle, accepted, h]
      exact replays
    · simp only [Portal.handle, accepted, h]
      have count : p.store.idCounter = ((creations m.live).length : ℚ) :=
        congrArg Store.idCounter replays.store
      have number : p.store.seq = ((creations m.live).length : ℚ) :=
        congrArg Store.seq replays.store
      rw [count] at id
      rw [number] at seq
      obtain ⟨consistent, grown⟩ :=
        replays.live.created (by rw [id, Nat.cast_add, Nat.cast_one]) seq bare
      refine replays.persist ?_ consistent saved
      rw [storeOf, grown, creations_concat, replays.campaigns, count, number, replays.path]
      simp [Entry.creation?]
  | postCreative id body =>
    rcases set_accepted U p id (body.get "text") (body.get "url") with ⟨error, h⟩ | ⟨existing,
      creative, mem, rfl, h⟩
    · simp only [Portal.handle, accepted, h]
      exact replays
    · simp only [Portal.handle, accepted, h]
      have known : existing.id ∈ (creations m.live).map Campaign.id := by
        rw [← shown_ids, ← replays.campaigns]
        exact List.mem_map_of_mem mem
      have distinct : (p.store.campaigns.map Campaign.id).Nodup := by
        rw [replays.campaigns, shown_ids]
        exact replays.live.numbered.ids
      obtain ⟨consistent, changed⟩ := replays.live.set known creative
      refine replays.persist ?_ consistent saved
      rw [storeOf, changed, creations_concat, ← replays.campaigns]
      have counters : p.store = ⟨p.store.campaigns, ((creations m.live).length : ℚ),
        ((creations m.live).length : ℚ),
          dbPath⟩ := by
        rw [replays.campaigns]
        exact replays.store
      have changes : (p.store.campaigns.map fun c =>
            if c.id = existing.id then { existing with creative := some creative } else c) =
          p.store.campaigns.map fun c =>
            if c.id = existing.id then { c with creative := some creative } else c := by
        apply List.map_congr_left
        intro c there
        split
        · rename_i same
          rw [List.inj_on_of_nodup_map distinct there mem same]
        · rfl
      rw [changes, counters]
      simp [Entry.creation?]

theorem Replays.event (replays : Replays dbPath p m) (U : Unicode) (e : Event) :
    Replays dbPath (p.event U e).1 (remember U p m e) := by
  cases e with
  | answered r now saved => exact replays.handle U now saved r
  | cutShort r now saved => exact (replays.handle U now saved r).restart
  | restarted => exact replays.restart

theorem consistent_nil : Consistent [] where
  numbered _ _ found := nomatch found
  known _ _ mem := absurd mem List.not_mem_nil

theorem load_missing (dbPath : String) : load dbPath .missing = storeOf dbPath [] := by
  rw [load]
  split <;> simp [Store.empty, storeOf, shown, creations]

theorem lives_replays (U : Unicode) (dbPath : String) (events : List Event) :
    Replays dbPath (lives U dbPath events).1 (lives U dbPath events).2 := by
  have kept (s : Opened × Memory) (replays : Replays dbPath s.1 s.2) :
      Replays dbPath (events.foldl (live U) s).1 (events.foldl (live U) s).2 := by
    induction events generalizing s with
    | nil => exact replays
    | cons e events ih => exact ih _ (replays.event U e)
  exact kept _ ⟨load_missing dbPath, load_missing dbPath, consistent_nil, consistent_nil,
    List.prefix_refl _, fun _ => rfl⟩

theorem toWire_data (c : Campaign) : c.toWire.Data := by
  have creative : ((c.creative.map Creative.toJs).getD .null).Data := by
    cases c.creative with
    | none => exact .null
    | some creative =>
      apply Js.Data.object
      simp [Js.Data.string]
  apply Js.Data.object
  simp [Js.Data.string, Js.Data.number, creative]

theorem Replays.ordered (replays : Replays dbPath p m) : p.store.campaigns.Pairwise fun a b =>
    a.seq < b.seq := by
  rw [replays.campaigns, shown, List.pairwise_map]
  exact replays.live.numbered.seqs

theorem Replays.winner (replays : Replays dbPath p m) : auctionWinner p.store = winner m.live := by
  rw [Portal.winner, ← replays.campaigns]
  cases won : auctionWinner p.store with
  | none => rw [winner_none.mp won, List.find?_nil]
  | some w => exact (winner_best replays.ordered won).find.symm

def Told (h : List Entry) (e : Entry) (response : Response) : Prop :=
  match e with
  | .created c => response = ⟨201, c.toWire⟩
  | .set id _ => ∃ c ∈ shown (h ++ [e]), c.id = id ∧ response = ⟨200, c.toWire⟩

def Route.Posts : Route → Prop
  | .postCampaign _ => True
  | .postCreative _ _ => True
  | _ => False

theorem sent_toWire (status : Nat) (c : Campaign) :
    Response.sent ⟨status, c.toWire⟩ = ⟨status, c.toWire⟩ := by
  rw [Response.sent, Js.stringify_data (toWire_data c)]

theorem refused_status (e : StoreError) : 400 ≤ (refused e).sent.status := by
  cases e <;> simp [refused, Response.sent]

theorem Replays.told (replays : Replays dbPath p m) (U : Unicode) (now : Int) (saved : Bool)
    {r : Route} (posts : r.Posts) : match accepted U p now r with
    | some e => Told m.live e (Portal.handle U p now saved r).2
    | none => 400 ≤ (Portal.handle U p now saved r).2.status := by
  cases r with
  | getCampaigns => cases posts
  | getAuction => cases posts
  | postCampaign body =>
    rcases create_accepted p (bodyInput body) now with ⟨error, h⟩ | ⟨c, -, -, -, h⟩
    · simp only [Portal.handle, accepted, h]
      exact Nat.le_refl _
    · simp only [Portal.handle, accepted, h]
      exact sent_toWire 201 c
  | postCreative id body =>
    rcases set_accepted U p id (body.get "text") (body.get "url") with ⟨error, h⟩ | ⟨existing,
      creative, mem, rfl, h⟩
    · simp only [Portal.handle, accepted, h]
      exact refused_status error
    · simp only [Portal.handle, accepted, h]
      have known : existing.id ∈ (creations m.live).map Campaign.id := by
        rw [← shown_ids, ← replays.campaigns]
        exact List.mem_map_of_mem mem
      rw [replays.campaigns] at mem
      refine ⟨{ existing with creative := some creative }, ?_, rfl, sent_toWire 200 _⟩
      rw [(replays.live.set known creative).2]
      exact List.mem_map.mpr ⟨existing, mem, if_pos rfl⟩

/-- After any requests, saves that fail, crashes and restarts the portal answers from its history:
the list, the auction and what a post adds; numbers are given by place; and a restart goes
back to the last save. -/
theorem portal_replays (U : Unicode) (dbPath : String) (events : List Event) (now : Int)
    (saved : Bool) : let p := (lives U dbPath events).1
    let m := (lives U dbPath events).2
    (handle U p now saved .getCampaigns).2 =
      ⟨200, .object [("campaigns", .array ((shown m.live).map Campaign.toWire))]⟩ ∧
    (handle U p now saved .getAuction).2 =
      ⟨200, .object [("winner", ((winner m.live).map Campaign.toWire).getD .null)]⟩ ∧
    (∀ r : Route, r.Posts → match accepted U p now r with
      | some e => Told m.live e (handle U p now saved r).2
      | none => 400 ≤ (handle U p now saved r).2.status) ∧
    Numbered (creations m.live) ∧ m.durable <+: m.live ∧ (dbPath = IN_MEMORY_DB → m.durable = []) ∧
    (p.event U .restarted).1.store.campaigns = shown m.durable := by
  intro p m
  have replays : Replays dbPath p m := lives_replays U dbPath events
  refine ⟨?_, ?_, fun r posts => replays.told U now saved posts, replays.live.numbered,
    replays.goesOn, replays.volatile, congrArg Store.campaigns replays.restart.store⟩
  · have data : (Js.object [("campaigns", .array ((shown m.live).map Campaign.toWire))]).Data := by
      apply Js.Data.object
      simp only [List.mem_singleton, forall_eq]
      exact .array (List.forall_mem_map.mpr fun c _ => toWire_data c)
    rw [← replays.campaigns] at data ⊢
    exact congrArg (Response.mk 200) (Js.stringify_data data)
  · have data :
      (Js.object [("winner", ((winner m.live).map Campaign.toWire).getD .null)]).Data := by
      apply Js.Data.object
      simp only [List.mem_singleton, forall_eq]
      cases winner m.live with
      | none => exact .null
      | some c => exact toWire_data c
    rw [← replays.winner] at data ⊢
    exact congrArg (Response.mk 200) (Js.stringify_data data)

def lostSave : List Event :=
  let body (name : Utf16) (price : ℚ) : Js :=
    .object [("advertiser", .string "acct:a"), ("name", .string name),
      ("price_per_block_usd", .number (some price))]
  [.answered (.postCampaign (body "first" 7)) 1 true,
    .answered (.postCampaign (body "second" 9)) 2 false, .restarted,
    .answered (.postCampaign (body "third" 8)) 3 true]

theorem portal_replays_lostSave :
    let U : Unicode := ⟨Char.isAlpha, Char.isDigit⟩
    let p := (lives U "portal-store.json" lostSave).1
    (handle U p 4 true .getAuction).2 = ⟨200, .object [("winner", Campaign.toWire
      ⟨"cmp_2", "acct:a", "third", 8, 1, 3, none⟩)]⟩ := by
  intro U p
  obtain ⟨-, auction, -⟩ := portal_replays U "portal-store.json" lostSave 4 true
  have won : winner (lives U "portal-store.json" lostSave).2.live =
    some ⟨"cmp_2", "acct:a", "third", 8, 1, 3, none⟩ := by
    decide +kernel
  rw [won] at auction
  exact auction

end Spnr.Portal
