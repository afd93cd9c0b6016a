import Spnr.Lib.Js
import Spnr.Portal.Lint

/-! The store of the advertiser portal (`server-ts/src/store.ts`): campaigns, their creatives,
the file they are kept in, and the auction. -/
namespace Spnr.Portal

def MIN_PRICE_PER_BLOCK_USD : ℚ := 1
def IN_MEMORY_DB : String := ":memory:"

structure Creative where
  text : Utf16
  url : Utf16
  deriving DecidableEq

structure Campaign where
  id : Utf16
  advertiser : Utf16
  name : Utf16
  pricePerBlockUsd : ℚ
  seq : ℚ
  createdAt : ℚ
  creative : Option Creative
  deriving DecidableEq

structure CreateCampaignInput where
  advertiser : Js
  name : Js
  pricePerBlockUsd : Js

inductive StoreError where
  | validation (message : Utf16)
  | notFound (message : Utf16)
  | lintFailed (message : Utf16) (violations : List String)

abbrev Result (α : Type) := Except StoreError α

structure Store where
  campaigns : List Campaign
  seq : ℚ
  idCounter : ℚ
  dbPath : String

def Store.empty (dbPath : String) : Store := ⟨[], 0, 0, dbPath⟩

def parseCreative (raw : Js) : Option Creative := do
  if !raw.isObject then none
  let text ← (raw.get "text").string?
  let url ← (raw.get "url").string?
  return ⟨text, url⟩

def parseCampaign (raw : Js) : Option Campaign := do
  if !raw.isObject then none
  let id ← (raw.get "id").string?
  let advertiser ← (raw.get "advertiser").string?
  let name ← (raw.get "name").string?
  let pricePerBlockUsd ← (raw.get "pricePerBlockUsd").finite?
  let seq ← (raw.get "seq").finite?
  let createdAt ← (raw.get "createdAt").finite?
  return ⟨id, advertiser, name, pricePerBlockUsd, seq, createdAt,
    parseCreative (raw.get "creative")⟩

def maxSeq (campaigns : List Campaign) : ℚ :=
  campaigns.foldl (fun m c => if m ≤ c.seq then c.seq + 1 else m) 0

def withoutPrefix (id : Utf16) : Utf16 :=
  if (Utf16.ofString "cmp_").units.isPrefixOf id.units then ⟨id.units.drop 4⟩ else id

def maxId (campaigns : List Campaign) : ℚ :=
  campaigns.foldl (fun m c =>
    match Js.parseInt (withoutPrefix c.id) with
    | some n => if m ≤ n then n else m
    | none => m) 0

/-- What `readFileSync` finds: nothing to read, a text that `JSON.parse` refuses,
or the text of a value. -/
inductive File where
  | missing
  | corrupt
  | text (value : Js)

def load (dbPath : String) (file : File) : Store :=
  if dbPath = IN_MEMORY_DB then .empty dbPath
  else
    match file with
    | .missing => .empty dbPath
    | .corrupt => .empty dbPath
    | .text raw =>
      if !raw.isObject then .empty dbPath
      else
        let campaigns := (raw.get "campaigns").items.filterMap parseCampaign
        let persistedSeq := (raw.get "seq").finite?
        let persistedIdCounter := (raw.get "idCounter").finite?
        ⟨campaigns, persistedSeq.getD (maxSeq campaigns),
          persistedIdCounter.getD (maxId campaigns), dbPath⟩

def Creative.toJs (c : Creative) : Js := .object [("text", .string c.text), ("url", .string c.url)]

def Campaign.toJs (c : Campaign) : Js :=
  .object [("id", .string c.id), ("advertiser", .string c.advertiser), ("name", .string c.name),
    ("pricePerBlockUsd", .number (some c.pricePerBlockUsd)), ("seq", .number (some c.seq)),
    ("createdAt", .number (some c.createdAt)),
      ("creative", (c.creative.map Creative.toJs).getD .null)]

def Store.persistedState (s : Store) : Js :=
  .object [("version", .number (some 1)), ("campaigns", .array (s.campaigns.map Campaign.toJs)),
    ("seq", .number (some s.seq)), ("idCounter", .number (some s.idCounter))]

structure Opened where
  store : Store
  file : File

namespace Opened

/-- `saved`: the temporary file was written and renamed; a failure leaves the file as it was. -/
def persist (p : Opened) (saved : Bool) : Opened :=
  if p.store.dbPath = IN_MEMORY_DB then p
  else if saved then { p with file := .text p.store.persistedState.stringify }
  else p

def createCampaign (p : Opened) (input : CreateCampaignInput) (now : Int) (saved : Bool) :
    Opened × Result Campaign :=
  let advertiser := Js.trim (input.advertiser.string?.getD "")
  let name := Js.trim (input.name.string?.getD "")
  if advertiser = "" then (p, .error (.validation "advertiser is required"))
  else if name = "" then (p, .error (.validation "name is required"))
  else
    match input.pricePerBlockUsd.finite? with
    | none => (p, .error (.validation "price_per_block_usd must be a number"))
    | some price =>
      if price < MIN_PRICE_PER_BLOCK_USD then
        (p, .error (.validation
          ("price_per_block_usd must be >= " ++ Js.numeral MIN_PRICE_PER_BLOCK_USD ++
            " (min $1/block)")))
      else
        let idCounter := p.store.idCounter + 1
        let campaign : Campaign :=
          ⟨"cmp_" ++ Js.numeral idCounter, advertiser, name, price, p.store.seq, now, none⟩
        let store : Store :=
          ⟨p.store.campaigns ++ [campaign], p.store.seq + 1, idCounter, p.store.dbPath⟩
        (persist { p with store } saved, .ok campaign)

/-- `lintCreative` on a value that may be no string. -/
def lint (U : Unicode) (text : Js) : List String :=
  match text with
  | .string s => lintCreative U s
  | _ => ["not_a_string"]

def setCreative (U : Unicode) (p : Opened) (id : Utf16) (text url : Js) (saved : Bool) :
    Opened × Result Campaign :=
  match p.store.campaigns.find? (·.id = id) with
  | none => (p, .error (.notFound ("campaign " ++ id ++ " not found")))
  | some existing =>
    if lint U text ≠ [] then (p, .error (.lintFailed "creative failed content lint" (lint U text)))
    else
      let urlStr := Js.trim (url.string?.getD "")
      if urlStr = "" then (p, .error (.validation "url is required"))
      else
        let updated := { existing with creative := some ⟨text.string?.getD "", urlStr⟩ }
        let campaigns := p.store.campaigns.map fun c => if c.id = id then updated else c
        (persist { p with store := { p.store with campaigns } } saved, .ok updated)

def reopen (p : Opened) : Opened := { p with store := load p.store.dbPath p.file }

end Opened

def better (best c : Campaign) : Campaign :=
  if best.pricePerBlockUsd < c.pricePerBlockUsd then c
  else if c.pricePerBlockUsd = best.pricePerBlockUsd ∧ c.seq < best.seq then c
  else best

def auctionWinner (s : Store) : Option Campaign :=
  match s.campaigns with
  | [] => none
  | c :: cs => some (cs.foldl better c)

inductive Call where
  | createCampaign (input : CreateCampaignInput) (now : Int) (saved : Bool)
  | setCreative (id : Utf16) (text url : Js) (saved : Bool)
  | reopen

def Call.Saved : Call → Prop
  | .createCampaign _ _ saved => saved = true
  | .setCreative _ _ _ saved => saved = true
  | .reopen => True

def call (U : Unicode) (s : Opened × List Campaign) : Call → Opened × List Campaign
  | .createCampaign input now saved =>
    match s.1.createCampaign input now saved with
    | (p, .ok campaign) => (p, s.2 ++ [campaign])
    | (p, .error _) => (p, s.2)
  | .setCreative id text url saved => ((s.1.setCreative U id text url saved).1, s.2)
  | .reopen => (s.1.reopen, s.2)

def portalRun (U : Unicode) (dbPath : String) (calls : List Call) : Opened × List Campaign :=
  calls.foldl (call U) (⟨load dbPath .missing, .missing⟩, [])

end Spnr.Portal
