import Spnr.Daemon.Daemon

/-! The events a daemon emits, as a history beside its state. Every field that
`emit_impressions` advances is a function of this history. -/
namespace Spnr.Spnrd

open RustStd

variable {C : Crates}

theorem onStop_le (s : Session) (tsMs : Nat) : (s.onStop tsMs).2 ≤ 60 := Nat.min_le_right _ _

namespace Daemon

/-- A daemon as `main` starts it, off or on the networked path. -/
inductive Started : Daemon C → Prop where
  | offline (key : C.SigningKey) (queue : List UInt8) (statusCache : Option String) :
      Started (Daemon.new C key queue statusCache)
  | online (key : C.SigningKey) (queue : List UInt8) (statusCache : Option String) (server : String)
      (pool : List ServedAd) : Started ((Daemon.new C key queue statusCache).networked server pool)

def stopCount (d : Daemon C) (sessionId : String) (recvMs : UInt64) : Nat :=
  ((d.hookSession sessionId).onStop recvMs.toNat).2

def emits (d : Daemon C) (g : Datagram) : List Event :=
  match g.msg with
  | .hook "Stop" sessionId =>
    if 0 < d.stopCount sessionId g.recvMs then
      [d.impressionEvent sessionId (d.stopCount sessionId g.recvMs) g.recvMs g.ulid]
    else []
  | _ => []

def emitted (d : Daemon C) : List Datagram → List Event
  | [] => []
  | g :: gs => d.emits g ++ (d.handle g).emitted gs

/-- An impression event as the engine's cap leaves it. -/
def Paid (e : Event) : Prop := e.ty = .imp ∧ ∃ n : UInt32, e.n = some n ∧ 1 ≤ n.toNat ∧ n.toNat ≤ 60

def enqueue (queue : List UInt8) (envelope : String) : List UInt8 :=
  (Queue.append queue (asBytes envelope)).getD queue

structure Advances (d d' : Daemon C) (es : List Event) : Prop where
  key : d'.key = d.key
  ctr : d'.ctr = d.ctr + es.length
  prev : d'.prev = headAfter C d.prev es
  chained : Chained C d.ctr d.prev es
  sent : d'.tx = d.tx.map (· ++ es.map (envelope d.key))
  queued : d'.queue = (es.map (envelope d.key)).foldl enqueue d.queue
  total : d'.impressionsTotal = d.impressionsTotal + counted es
  paid : ∀ e ∈ es, Paid e

theorem Advances.still {d d' : Daemon C} (key : d'.key = d.key) (ctr : d'.ctr = d.ctr)
    (prev : d'.prev = d.prev) (sent : d'.tx = d.tx) (queued : d'.queue = d.queue)
    (total : d'.impressionsTotal = d.impressionsTotal) : Advances d d' [] := by
  constructor
  · exact key
  · exact ctr
  · exact prev
  · trivial
  · cases tx : d.tx <;> simp [sent, tx]
  · exact queued
  · exact total
  · simp

theorem Advances.trans {a b c : Daemon C} {es fs : List Event} (first : Advances a b es)
    (second : Advances b c fs) : Advances a c (es ++ fs) := by
  constructor
  · exact second.key.trans first.key
  · rw [second.ctr, first.ctr, List.length_append, Nat.add_assoc]
  · rw [second.prev, first.prev, headAfter_append]
  · have rest := second.chained
    rw [first.ctr, first.prev] at rest
    exact chained_append.mpr ⟨first.chained, rest⟩
  · rw [second.sent, first.sent, first.key]
    cases a.tx <;> simp
  · rw [second.queued, first.queued, first.key, List.map_append, List.foldl_append]
  · rw [second.total, first.total, counted_append, Nat.add_assoc]
  · intro e mem
    rcases List.mem_append.mp mem with before | after
    · exact first.paid e before
    · exact second.paid e after

theorem Advances.after {a b c : Daemon C} {es : List Event} (first : Advances a b [])
    (second : Advances b c es) : Advances a c es := first.trans second

theorem Advances.before {a b c : Daemon C} {es : List Event} (first : Advances a b es)
    (second : Advances b c []) : Advances a c es := by
  simpa using first.trans second

theorem putSession_still (d : Daemon C) (sessionId : String) (sess : Session) :
    Advances d (d.putSession sessionId sess) [] := .still rfl rfl rfl rfl rfl rfl

theorem featuredAd_still (d : Daemon C) : Advances d d.featuredAd.1 [] := by
  unfold featuredAd
  split
  · exact .still rfl rfl rfl rfl rfl rfl
  · split <;> exact .still rfl rfl rfl rfl rfl rfl

theorem writeStatusCache_still (d : Daemon C) : Advances d d.writeStatusCache [] :=
  (featuredAd_still d).before (.still rfl rfl rfl rfl rfl rfl)

theorem emitImpressions_advances (d : Daemon C) (sessionId : String) {n : Nat} (positive : 0 < n)
    (capped : n ≤ 60) (recvMs : UInt64) (ulid : String) :
    Advances d (d.emitImpressions sessionId n recvMs ulid)
    [d.impressionEvent sessionId n recvMs ulid] := by
  -- the cap keeps the narrowing to `u32` exact
  have narrow : (UInt32.ofNat n).toNat = n := by
    rw [UInt32.toNat_ofNat']
    omega
  refine Advances.before ?_ (writeStatusCache_still _)
  constructor
  · rfl
  · rfl
  · rfl
  · exact ⟨rfl, rfl, trivial⟩
  · rfl
  · rfl
  · simp [counted, Event.count, impressionEvent, narrow]
  · intro e mem
    cases List.mem_singleton.mp mem
    exact ⟨rfl, _, rfl, by omega, by omega⟩

theorem handle_advances (d : Daemon C) (g : Datagram) : Advances d (d.handle g) (d.emits g) := by
  obtain ⟨msg, recvMs, ulid⟩ := g
  cases msg with
  | hook eventName sessionId =>
    by_cases stop : eventName = "Stop"
    · subst stop
      have put := putSession_still d sessionId ((d.hookSession sessionId).onStop recvMs.toNat).1
      by_cases counts : 0 < d.stopCount sessionId recvMs
      · have emission := emitImpressions_advances
          (d.putSession sessionId ((d.hookSession sessionId).onStop recvMs.toNat).1)
            sessionId counts
          (onStop_le _ _) recvMs ulid
        simp only [emits, if_pos counts]
        simp only [stopCount] at counts
        simp only [handle, if_pos counts]
        exact put.after emission
      · simp only [emits, if_neg counts]
        simp only [stopCount] at counts
        simp only [handle, if_neg counts]
        exact put
    · have silent : d.emits ⟨.hook eventName sessionId, recvMs, ulid⟩ = [] := by
        simp [emits, stop]
      rw [silent]
      simp only [handle]
      split <;> first | exact .still rfl rfl rfl rfl rfl rfl | contradiction
  | heartbeat sessionId =>
    simp only [handle, emits]
    split
    · exact (putSession_still d sessionId _).after (writeStatusCache_still _)
    · exact writeStatusCache_still d
  | cmd c => cases c <;> exact .still rfl rfl rfl rfl rfl rfl

theorem run_advances (gs : List Datagram) (d : Daemon C) :
    Advances d (d.run gs) (d.emitted gs) := by
  induction gs generalizing d with
  | nil => exact .still rfl rfl rfl rfl rfl rfl
  | cons g gs ih => exact (handle_advances d g).trans (ih (d.handle g))

theorem networked_still (d : Daemon C) (server : String) (pool : List ServedAd) :
    (d.networked server pool).ctr = d.ctr ∧ (d.networked server pool).prev = d.prev ∧
      (d.networked server pool).key = d.key ∧ (d.networked server pool).queue = d.queue ∧
      (d.networked server pool).impressionsTotal = d.impressionsTotal ∧
      (d.networked server pool).tx = some [] := by
  cases pool with
  | nil => exact ⟨rfl, rfl, rfl, rfl, rfl, rfl⟩
  | cons ad pool =>
    have still := writeStatusCache_still { d with
      currentCreative := some ad.id
      server
      ads := (ad :: pool).map fun (ad : ServedAd) => (ad.shortCode, ad.text) }
    exact ⟨still.ctr, still.prev, still.key, still.queued, still.total, rfl⟩

theorem Started.genesis {d : Daemon C} (started : Started d) :
    d.ctr = 0 ∧ d.prev = genesisPrev ∧ d.impressionsTotal = 0 := by
  cases started with
  | offline key queue statusCache => exact ⟨rfl, rfl, rfl⟩
  | online key queue statusCache server pool =>
    obtain ⟨ctr, prev, -, -, total, -⟩ :=
      networked_still (Daemon.new C key queue statusCache) server pool
    exact ⟨ctr, prev, total⟩

theorem Started.chained {d : Daemon C} (started : Started d) (gs : List Datagram) :
    Chained C 0 genesisPrev (d.emitted gs) := by
  obtain ⟨ctr, prev, -⟩ := started.genesis
  have chained := (run_advances gs d).chained
  rwa [ctr, prev] at chained

theorem emits_ids (d : Daemon C) (g : Datagram) : ((d.emits g).map Event.id).Sublist [g.ulid] := by
  unfold emits
  split
  · split
    · exact List.Sublist.refl _
    · exact List.nil_sublist _
  · exact List.nil_sublist _

theorem emitted_ids (gs : List Datagram) (d : Daemon C) :
    ((d.emitted gs).map Event.id).Sublist (gs.map Datagram.ulid) := by
  induction gs generalizing d with
  | nil => exact List.Sublist.refl _
  | cons g gs ih =>
    rw [emitted, List.map_append, List.map_cons]
    exact (emits_ids d g).append (ih (d.handle g))

end Daemon

end Spnr.Spnrd
