import Spnr.Lib.Crash
import Spnr.Portal.Store

/-! The public routes of the portal (`server-ts/src/app.ts`) over the store, the way a save takes on
disk, and the life of the process: requests answered, requests cut short, restarts. -/
namespace Spnr.Portal

structure Response where
  status : Nat
  body : Js

def Campaign.toWire (c : Campaign) : Js :=
  .object [("id", .string c.id), ("advertiser", .string c.advertiser), ("name", .string c.name),
    ("price_per_block_usd", .number (some c.pricePerBlockUsd)),
    ("creative", (c.creative.map Creative.toJs).getD .null),
      ("created_at", .number (some c.createdAt))]

/-- A request that reached its route, with its parsed body. -/
inductive Route where
  | postCampaign (body : Js)
  | getCampaigns
  | postCreative (id : Utf16) (body : Js)
  | getAuction

def errorBody (message : Utf16) (rest : List (String × Js)) : Js :=
  .object (("error", .string message) :: rest)

def StoreError.message : StoreError → Utf16
  | .validation message => message
  | .notFound message => message
  | .lintFailed message _ => message

def refused : StoreError → Response
  | .notFound message => ⟨404, errorBody message []⟩
  | .lintFailed message violations =>
    ⟨422, errorBody message
      [("violations", .array (violations.map fun v => .string (Utf16.ofString v)))]⟩
  | .validation message => ⟨400, errorBody message []⟩

def bodyInput (body : Js) : CreateCampaignInput :=
  ⟨body.get "advertiser", body.get "name", body.get "price_per_block_usd"⟩

def Response.sent (r : Response) : Response := ⟨r.status, r.body.stringify⟩

def handle (U : Unicode) (p : Opened) (now : Int) (saved : Bool) : Route → Opened × Response
  | .postCampaign body =>
    match p.createCampaign (bodyInput body) now saved with
    | (p, .error e) => (p, Response.sent ⟨400, errorBody e.message []⟩)
    | (p, .ok c) => (p, Response.sent ⟨201, c.toWire⟩)
  | .getCampaigns => (p,
      Response.sent ⟨200, .object [("campaigns", .array (p.store.campaigns.map Campaign.toWire))]⟩)
  | .postCreative id body =>
    match p.setCreative U id (body.get "text") (body.get "url") saved with
    | (p, .error e) => (p, (refused e).sent)
    | (p, .ok c) => (p, Response.sent ⟨200, c.toWire⟩)
  | .getAuction =>
    (p, Response.sent
      ⟨200, .object [("winner", ((auctionWinner p.store).map Campaign.toWire).getD .null)]⟩)

inductive FsCall where
  | writeFileSync
  | renameSync
  | rmSync

structure Disk where
  target : File
  tmp : File

open Crash in
def saveP (state : Js) : Process Disk FsCall Unit :=
  let cleanup : Process Disk FsCall Unit :=
    .call (.atomic .rmSync fun d => { d with tmp := .missing }) (fun _ => .ret ()) fun _ => .ret ()
  .call ⟨.writeFileSync, fun d => { d with tmp := .text state.stringify },
      fun progress d => if progress = 0 then d else { d with tmp := .corrupt }⟩
    (fun _ => .call (.atomic .renameSync fun d => ⟨d.tmp, .missing⟩) (fun _ => .ret ())
      fun _ => cleanup)
    fun _ => cleanup

open Crash.Process in
theorem saveP_target {May : FsCall → Crash.Verdict → Prop} (p : Opened)
    (onDisk : p.store.dbPath ≠ IN_MEMORY_DB) (tmp : File)
    {o : Crash.Outcome Disk Unit} (ends : (saveP p.store.persistedState).Ends May ⟨p.file, tmp⟩ o) :
    ∃ saved, o.state.target = (p.persist saved).file := by
  have kept : p.file = (p.persist false).file := by simp [Opened.persist, onDisk]
  have replaced : File.text p.store.persistedState.stringify = (p.persist true).file := by
    simp [Opened.persist, onDisk]
  let Left (d : Disk) : Prop := ∃ saved, d.target = (p.persist saved).file
  have old (d : Disk) (same : d.target = p.file) : Left d := ⟨false, same.trans kept⟩
  have safe : (saveP p.store.persistedState).Safe May (fun _ => Left) Left ⟨p.file, tmp⟩ := by
    have cleaned (d : Disk) (same : d.target = p.file) :
        Safe May (fun _ => Left) Left
          (.call (.atomic .rmSync fun d => { d with tmp := .missing }) (fun _ => .ret ()) fun _ =>
            .ret ()) d :=
      ⟨fun _ => old _ same, fun _ _ _ => old _ same, fun _ _ => old _ same⟩
    have torn (progress : Nat) :
        (if progress = 0 then (⟨p.file, tmp⟩ : Disk) else ⟨p.file, .corrupt⟩).target = p.file := by
      split <;> rfl
    refine ⟨fun _ => ⟨fun _ => ⟨true, replaced⟩, fun _ _ _ => cleaned _ rfl, fun _ _ => old _ rfl⟩,
      ?_, ?_⟩
    · exact fun _ progress _ => cleaned _ (torn progress)
    · exact fun progress _ => old _ (torn progress)
  have holds := (safe_iff _ _).mp safe o ends
  cases o <;> exact holds

/-- `saved` tells whether the rename of the request's save came about, if there was one. -/
inductive Event where
  | answered (r : Route) (now : Int) (saved : Bool)
  | cutShort (r : Route) (now : Int) (saved : Bool)
  | restarted

def Opened.event (U : Unicode) (p : Opened) : Event → Opened × Option Response
  | .answered r now saved => let (p, response) := handle U p now saved r; (p, some response)
  | .cutShort r now saved => ((handle U p now saved r).1.reopen, none)
  | .restarted => (p.reopen, none)

end Spnr.Portal
