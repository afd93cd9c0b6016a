import Spnr.Daemon.Creatives
import Spnr.Daemon.Emitted

/-! The line in the status cache over a whole run: the ads of the pool take turns, one for each
write, and the number on the line is what the daemon has counted. -/
namespace Spnr.Spnrd

open RustStd

namespace Daemon

variable {C : Crates}

/-- The datagram makes the daemon write the status cache. -/
def writes (d : Daemon C) (g : Datagram) : Bool :=
  match g.msg with
  | .heartbeat _ => true
  | .hook "Stop" sid => 0 < ((d.hookSession sid).onStop g.recvMs.toNat).2
  | _ => false

def written (d : Daemon C) : List Datagram → Nat
  | [] => 0
  | g :: gs => (if d.writes g then 1 else 0) + (d.handle g).written gs

structure SameLine (d d' : Daemon C) : Prop where
  ads : d'.ads = d.ads
  server : d'.server = d.server
  featured : d'.featured = d.featured

theorem handle_writes (d : Daemon C) (g : Datagram) :
    (d.writes g = true → ∃ x : Daemon C, SameLine d x ∧ d.handle g = x.writeStatusCache) ∧
      (d.writes g = false → SameLine d (d.handle g) ∧ (d.handle g).statusCache = d.statusCache ∧
        (d.handle g).impressionsTotal = d.impressionsTotal) := by
  obtain ⟨msg, recvMs, ulid⟩ := g
  cases msg with
  | hook eventName sid =>
    by_cases stop : eventName = "Stop"
    · subst stop
      simp only [writes, decide_eq_true_eq, decide_eq_false_iff_not]
      constructor
      · intro counts
        simp only [handle, if_pos counts]
        refine ⟨_, ?_, rfl⟩
        exact ⟨rfl, rfl, rfl⟩
      · intro none
        simp only [handle, if_neg none]
        exact ⟨⟨rfl, rfl, rfl⟩, rfl, rfl⟩
    · have silent : d.writes ⟨.hook eventName sid, recvMs, ulid⟩ = false := by simp [writes, stop]
      rw [silent]
      refine ⟨by rintro ⟨⟩, fun _ => ?_⟩
      simp only [handle]
      split <;> first | exact ⟨⟨rfl, rfl, rfl⟩, rfl, rfl⟩ | contradiction
  | heartbeat sid =>
    refine ⟨fun _ => ?_, (by rintro ⟨⟩)⟩
    simp only [handle]
    split
    · refine ⟨_, ?_, rfl⟩
      exact ⟨rfl, rfl, rfl⟩
    · exact ⟨d, ⟨rfl, rfl, rfl⟩, rfl⟩
  | cmd c =>
    refine ⟨by rintro ⟨⟩, fun _ => ?_⟩
    cases c <;> exact ⟨⟨rfl, rfl, rfl⟩, rfl, rfl⟩

def link (server : String) (ad : ServedAd) : String × String :=
  (trimEndMatches server '/' ++ "/c/" ++ ad.shortCode, ad.text)

/-- After `k` further writes it is the turn of the ad with the number `k`, as
far as the index counts. -/
structure Turn (server : String) (pool : List ServedAd) (k : Nat) (d : Daemon C) : Prop where
  ads : d.ads = pool.map fun ad => (ad.shortCode, ad.text)
  host : d.server = server
  featured : d.featured.toNat = (k + 1) % 2 ^ 64
  line : d.statusCache =
    some (statusLine d.impressionsTotal (pool[k % 2 ^ 64 % pool.length]?.map (link server)))

theorem featuredAd_next {d : Daemon C} (online : d.server ≠ "") (some_ : d.ads ≠ []) :
    d.featuredAd.1.featured = d.featured + 1 := by
  have inside : d.featured.toNat % d.ads.length < d.ads.length :=
    Nat.mod_lt _ (List.length_pos_of_ne_nil some_)
  unfold featuredAd
  rw [if_neg (not_or.mpr ⟨online, some_⟩), List.getElem?_eq_getElem inside]

section

variable {server : String} {pool : List ServedAd} (online : server ≠ "") (some_ : pool ≠ [])
include online some_

theorem writeStatusCache_turn {k : Nat} {x : Daemon C}
    (ads : x.ads = pool.map fun ad => (ad.shortCode, ad.text))
    (here : x.server = server) (featured : x.featured.toNat = k % 2 ^ 64) :
    Turn server pool k x.writeStatusCache := by
  obtain ⟨ads', here'⟩ := writeStatusCache_keeps x
  have reachable : x.ads ≠ [] := by
    rw [ads]
    simpa using some_
  refine ⟨ads'.trans ads, here'.trans here, ?_, ?_⟩
  · have next := featuredAd_next (here.symm ▸ online) reachable
    have moved : x.writeStatusCache.featured = x.featured + 1 := next
    rw [moved, UInt64.toNat_add, featured, UInt64.toNat_one, Nat.mod_add_mod]
  · have still : x.writeStatusCache.impressionsTotal = x.impressionsTotal :=
      (writeStatusCache_still x).total
    rw [x.writeStatusCache_line, featuredAd_ad, here, if_neg online, featured, ads, List.length_map,
      List.getElem?_map, Option.map_map, still]
    rfl

theorem Turn.handle {k : Nat} {d : Daemon C} (turn : Turn server pool k d) (g : Datagram) :
    Turn server pool (k + if d.writes g then 1 else 0) (d.handle g) := by
  obtain ⟨written, silent⟩ := d.handle_writes g
  cases writes : d.writes g with
  | true =>
    obtain ⟨x, same, wrote⟩ := written writes
    rw [wrote]
    exact writeStatusCache_turn online some_ (same.ads.trans turn.ads) (same.server.trans turn.host)
      ((congrArg UInt64.toNat same.featured).trans turn.featured)
  | false =>
    obtain ⟨same, cache, total⟩ := silent writes
    refine ⟨same.ads.trans turn.ads, same.server.trans turn.host, ?_, ?_⟩
    · rw [same.featured]
      exact turn.featured
    · rw [cache, total]
      exact turn.line

theorem Turn.run (gs : List Datagram) {k : Nat} {d : Daemon C} (turn : Turn server pool k d) :
    Turn server pool (k + d.written gs) (d.run gs) := by
  induction gs generalizing d k with
  | nil => exact turn
  | cons g gs ih =>
    rw [written, ← Nat.add_assoc]
    exact ih (turn.handle online some_ g)

theorem networked_turn (key : C.SigningKey) (queue : List UInt8)
    (statusCache : Option String) (gs : List Datagram) :
    let d := (Daemon.new C key queue statusCache).networked server pool
    Turn server pool (d.written gs)
      (d.run gs) ∧ (d.run gs).impressionsTotal = counted (d.emitted gs) := by
  intro d
  have start : Turn server pool 0 d := by
    cases pool with
    | nil => exact absurd rfl some_
    | cons ad pool =>
      have turn := writeStatusCache_turn (C := C)
        (k := 0) online some_ (x := { Daemon.new C key queue statusCache with
        currentCreative := some ad.id
        server
        ads := (ad :: pool).map fun (ad : ServedAd) => (ad.shortCode, ad.text) }) rfl rfl rfl
      exact ⟨turn.ads, turn.host, turn.featured, turn.line⟩
  have started : Started d := .online key queue statusCache server pool
  constructor
  · have run := start.run online some_ gs
    rwa [Nat.zero_add] at run
  · have total := (run_advances gs d).total
    rw [started.genesis.2.2, Nat.zero_add] at total
    exact total

/-- At every time the line shows the ad whose turn it is, with its own link, and the number of
impressions that were counted. -/
theorem line_rotates (key : C.SigningKey) (queue : List UInt8) (statusCache : Option String)
    (gs : List Datagram) : let d := (Daemon.new C key queue statusCache).networked server pool
    ∃ ad, pool[d.written gs % 2 ^ 64 % pool.length]? = some ad ∧
      (d.run gs).statusCache =
        some (statusLine (counted (d.emitted gs)) (some (link server ad))) := by
  intro d
  obtain ⟨turn, total⟩ := networked_turn (C := C) online some_ key queue statusCache gs
  have inside : d.written gs % 2 ^ 64 % pool.length < pool.length :=
    Nat.mod_lt _ (List.length_pos_of_ne_nil some_)
  refine ⟨_, List.getElem?_eq_getElem inside, ?_⟩
  rw [turn.line, total, List.getElem?_eq_getElem inside]
  rfl

end

end Daemon

def twoAds : List Daemon.ServedAd :=
  [⟨"cr_1", "CloakPipe →", "https://example.com/cloakpipe", "AbC9"⟩,
    ⟨"cr_2", "ctxgraph →", "https://example.com/ctxgraph", "Kp7T"⟩]

theorem line_rotates_twoAds :
    let d :=
      (Daemon.new Reference.crates (Reference.key 7) [] none).networked "http://localhost:8787/" twoAds
    (d.run [⟨.heartbeat "a", 1, "u0"⟩]).statusCache =
        some (statusLine 0 (some ("http://localhost:8787/c/Kp7T", "ctxgraph →"))) ∧
      (d.run [⟨.heartbeat "a", 1, "u0"⟩, ⟨.heartbeat "b", 2, "u1"⟩]).statusCache =
        some (statusLine 0 (some ("http://localhost:8787/c/AbC9", "CloakPipe →"))) := by
  have online : "http://localhost:8787/" ≠ "" := by decide
  have some_ : twoAds ≠ [] := List.cons_ne_nil _ _
  have rotates := Daemon.line_rotates (C := Reference.crates) online some_ (Reference.key 7) [] none
  constructor
  · obtain ⟨ad, turn, line⟩ := rotates [⟨.heartbeat "a", 1, "u0"⟩]
    cases turn
    exact line
  · obtain ⟨ad, turn, line⟩ := rotates [⟨.heartbeat "a", 1, "u0"⟩, ⟨.heartbeat "b", 2, "u1"⟩]
    cases turn
    exact line

end Spnr.Spnrd
