import Spnr.Cli.Commands
import Spnr.Daemon.Daemon
import Spnr.Portal.Lint
import Spnr.Proto.Reference

/-! The pool that the daemon takes from `/v1/serve`, and where its texts are shown: the
spinner verbs and the line of the status cache. -/
namespace Spnr.Spnrd

open Portal RustStd Serde Settings

/-- The closure `parse` of `serve_creatives`. -/
def served (c : Json) : Option Daemon.ServedAd := do
  let id ← (get c "id").bind asString
  let text ← (get c "text").bind asString
  let url ← (get c "url").bind asString
  let shortCode ← (get c "short_code").bind asString
  return { id, text, url, shortCode }

/-- The pool in the body of the response; there is no body when the request fails. -/
def serveCreatives (J : SerdeJson) (body : Option String) : List Daemon.ServedAd :=
  match body.map fun body => J.fromSlice (asBytes body) with
  | some (.ok v) =>
    let pool := (((get v "creatives").bind asArray).getD []).filterMap served
    if pool.isEmpty then ((get v "creative").bind served).toList else pool
  | _ => []

def verbs (pool : List Daemon.ServedAd) : List String :=
  pool.map fun (ad : Daemon.ServedAd) => ad.text

def statusLine (impressions : Nat) : Option (String × String) → String
  | some (url, text) =>
    osc8 url (if 0 < impressions then s!"spnr ▲{impressions} · " ++ text else "spnr · " ++ text)
  | none => s!"spnr ▲ {impressions} impressions today"

namespace Daemon

variable {C : Crates}

theorem featuredAd_keeps (d : Daemon C) : d.featuredAd.1.ads = d.ads ∧
    d.featuredAd.1.server = d.server := by
  unfold featuredAd
  split
  · exact ⟨rfl, rfl⟩
  · split <;> exact ⟨rfl, rfl⟩

theorem writeStatusCache_keeps (d : Daemon C) :
    d.writeStatusCache.ads = d.ads ∧ d.writeStatusCache.server = d.server := featuredAd_keeps d

theorem writeStatusCache_line (d : Daemon C) :
    d.writeStatusCache.statusCache = some (statusLine d.impressionsTotal d.featuredAd.2) := by
  unfold writeStatusCache statusLine
  rfl

theorem handle_keeps (d : Daemon C) (g : Datagram) :
    (d.handle g).ads = d.ads ∧ (d.handle g).server = d.server := by
  unfold handle
  split
  · split
    · exact ⟨rfl, rfl⟩
    · exact ⟨rfl, rfl⟩
    · exact ⟨rfl, rfl⟩
    · dsimp only
      split
      · exact writeStatusCache_keeps _
      · exact ⟨rfl, rfl⟩
    · exact ⟨rfl, rfl⟩
    · exact ⟨rfl, rfl⟩
  · split
    · exact writeStatusCache_keeps _
    · exact writeStatusCache_keeps _
  · exact ⟨rfl, rfl⟩
  · exact ⟨rfl, rfl⟩
  · exact ⟨rfl, rfl⟩

theorem run_keeps (d : Daemon C) (gs : List Datagram) : (d.run gs).ads = d.ads ∧
    (d.run gs).server = d.server := by
  induction gs generalizing d with
  | nil => exact ⟨rfl, rfl⟩
  | cons g gs ih =>
    obtain ⟨ads, server⟩ := ih (d.handle g)
    obtain ⟨ads', server'⟩ := d.handle_keeps g
    exact ⟨ads.trans ads', server.trans server'⟩

def atIndex (key : C.SigningKey) (queue : List UInt8) (statusCache : Option String)
    (server : String) (pool : List ServedAd) (gs : List Datagram) (index : UInt64) : Daemon C :=
  { ((Daemon.new C key queue statusCache).networked server pool).run gs with featured := index }

theorem networked_keeps (d : Daemon C) (server : String) (ad : ServedAd) (pool : List ServedAd) :
    (d.networked server (ad :: pool)).ads = (ad :: pool).map
      (fun (ad : ServedAd) => (ad.shortCode, ad.text)) ∧
      (d.networked server (ad :: pool)).server = server := writeStatusCache_keeps _

theorem featuredAd_ad (d : Daemon C) :
    d.featuredAd.2 = if d.server = "" then none
      else d.ads[d.featured.toNat % d.ads.length]?.map fun ad =>
        (trimEndMatches d.server '/' ++ "/c/" ++ ad.1, ad.2) := by
  unfold featuredAd
  by_cases offline : d.server = ""
  · rw [if_pos (.inl offline), if_pos offline]
  · rw [if_neg offline]
    by_cases none_ : d.ads = []
    · rw [if_pos (.inr none_), none_]
      rfl
    · rw [if_neg (not_or.mpr ⟨offline, none_⟩)]
      cases d.ads[d.featured.toNat % d.ads.length]? <;> rfl

theorem atIndex_featured (key : C.SigningKey) (queue : List UInt8) (statusCache : Option String)
    (server : String) (pool : List ServedAd) (gs : List Datagram) (index : UInt64) :
    (atIndex key queue statusCache server pool gs index).featuredAd.2 =
      if server = "" then none
      else pool[index.toNat % pool.length]?.map fun ad =>
        (trimEndMatches server '/' ++ "/c/" ++ ad.shortCode, ad.text) := by
  obtain ⟨ads, here⟩ := ((Daemon.new C key queue statusCache).networked server pool).run_keeps gs
  have spot : (atIndex key queue statusCache server pool gs index).featured = index := rfl
  rw [featuredAd_ad, spot]
  cases pool with
  | nil =>
    have none_ : (atIndex key queue statusCache server [] gs index).ads = [] := ads
    rw [none_]
    split <;> split <;> rfl
  | cons ad pool =>
    obtain ⟨pooled, there⟩ := (Daemon.new C key queue statusCache).networked_keeps server ad pool
    have ads' : (atIndex key queue statusCache server (ad :: pool) gs index).ads = _ :=
      ads.trans pooled
    have server' : (atIndex key queue statusCache server (ad :: pool) gs index).server = server :=
      here.trans there
    rw [ads', server', List.length_map, List.getElem?_map, Option.map_map]
    rfl

end Daemon

/-- What the daemon shows is harmless: the verbs have no control characters, the line has only
those of the two OSC 8 sequences and of the configured server, and no shown text
fails the creative rules. -/
structure Harmless (U : Unicode) (server : String) (verbs : List String)
    (ad : Option (String × String)) (line : String) : Prop where
  spinner : ∀ v ∈ verbs, controls v = []
  link : controls line = if ad.isSome then '\x1b' :: controls (trimEndMatches server '/') ++
    ['\x07', '\x1b', '\x07'] else []
  rules : ∀ text, (text ∈ verbs ∨ ∃ url, ad = some (url, text)) → lintCreative U text = []

theorem controls_osc8 (url text : String) :
    controls (osc8 url text) = '\x1b' :: controls url ++ '\x07' :: controls text ++
      ['\x1b', '\x07'] := by
  have first : controls "\x1b]8;;" = ['\x1b'] := by decide
  have bell : controls "\x07" = ['\x07'] := by decide
  have last : controls "\x1b]8;;\x07" = ['\x1b', '\x07'] := by decide
  simp [osc8, first, bell, last]

theorem controls_statusLine (n : Nat) (url text : String) :
    controls (statusLine n (some (url, text))) = '\x1b' :: controls url ++ '\x07' ::
      controls text ++ ['\x1b', '\x07'] := by
  have counted : controls "spnr ▲" = [] := by decide
  have dot : controls " · " = [] := by decide
  have plain : controls "spnr · " = [] := by decide
  rw [statusLine, controls_osc8]
  split
  · have label : controls (s!"spnr ▲{n} · " ++ text) = controls text := by
      change controls ("spnr ▲" ++ toString n ++ " · " ++ text) = _
      simp only [controls_append, counted, dot, controls_nat, List.nil_append]
    rw [label]
  · simp only [controls_append, plain, List.nil_append]

theorem controls_ticker (n : Nat) : controls (statusLine n none) = [] := by
  have ticker : controls "spnr ▲ " = [] := by decide
  have today : controls " impressions today" = [] := by decide
  change controls ("spnr ▲ " ++ toString n ++ " impressions today") = _
  simp only [controls_append, ticker, today, controls_nat, List.nil_append]

theorem featured_source {server : String} {pool : List Daemon.ServedAd} {i : Nat}
    {url text : String} (shown : (if server = "" then none else pool[i]?.map
      fun ad => (trimEndMatches server '/' ++ "/c/" ++ ad.shortCode, ad.text)) = some (url, text)) :
    ∃ ad ∈ pool, server ≠ "" ∧ pool[i]? = some ad ∧
      url = trimEndMatches server '/' ++ "/c/" ++ ad.shortCode ∧ text = ad.text := by
  split at shown
  · cases shown
  · rename_i online
    obtain ⟨ad, found, same⟩ := Option.map_eq_some_iff.mp shown
    injection same with url text
    exact ⟨ad, List.mem_of_getElem? found, online, found, url.symm, text.symm⟩

/-- At every time and every rotation index, what the daemon shows of a served pool is harmless
if and only if every served text passes the lint of the portal and the short code
of the featured ad has no control characters. -/
theorem served_harmless {C : Crates} (U : Unicode) (J : SerdeJson) (key : C.SigningKey)
    (queue : List UInt8)
    (statusCache : Option String) (server : String) (body : Option String) (gs : List Datagram)
    (index : UInt64) : let pool := serveCreatives J body
    let d := Daemon.atIndex key queue statusCache server pool gs index
    (∀ line, d.writeStatusCache.statusCache = some line →
      Harmless U server (verbs pool) d.featuredAd.2 line) ↔ (∀ ad ∈ pool, lintCreative U ad.text = []) ∧
      (server ≠ "" → ∀ ad, pool[index.toNat % pool.length]? = some ad →
        controls ad.shortCode = []) := by
  intro pool d
  have code : controls "/c/" = [] := by decide
  rw [d.writeStatusCache_line, Daemon.atIndex_featured]
  constructor
  · intro all
    have here := all _ rfl
    constructor
    · intro ad mem
      exact here.rules ad.text (.inl (List.mem_map.mpr ⟨ad, mem, rfl⟩))
    · intro online ad found
      have link := here.link
      rw [if_neg online, found, Option.map_some, controls_statusLine, controls_append,
        controls_append, code] at link
      have sizes := congrArg List.length link
      simp only [Option.isSome_some, if_true, List.length_cons, List.length_append,
        List.length_nil] at sizes
      exact List.eq_nil_of_length_eq_zero (by omega)
  · rintro ⟨texts, codes⟩ line written
    obtain rfl := Option.some.inj written
    constructor
    · intro v mem
      obtain ⟨ad, inside, rfl⟩ := List.mem_map.mp mem
      exact controls_of_lint (texts ad inside)
    · generalize shown : (if server = "" then none else _ : Option (String × String)) = ad
      cases ad with
      | none => exact controls_ticker _
      | some ad =>
        obtain ⟨url, text⟩ := ad
        obtain ⟨ad, inside, online, found, rfl, rfl⟩ := featured_source shown
        rw [controls_statusLine, controls_of_lint (texts ad inside), controls_append,
          controls_append, code, codes online ad found]
        simp
    · rintro text (mem | ⟨url, shown⟩)
      · obtain ⟨ad, inside, rfl⟩ := List.mem_map.mp mem
        exact texts ad inside
      · obtain ⟨ad, inside, -, -, -, rfl⟩ := featured_source shown
        exact texts ad inside

def hostileAd : Daemon.ServedAd where
  id := "x"
  text := "\x1b[2J ↗"
  url := "https://x.example"
  shortCode := "AbC9"

def hostile : Json :=
  .obj [("creatives", .arr
    [.obj [("id", .str hostileAd.id), ("text", .str hostileAd.text), ("url", .str hostileAd.url),
    ("short_code", .str hostileAd.shortCode)]])]

theorem stored_hostile : Json.Stored (fun _ => False) 127 hostile := by
  apply Json.Stored.obj (by decide)
  intro m mem
  rw [List.mem_singleton.mp mem]
  apply Json.Stored.arr
  intro v mem
  rw [List.mem_singleton.mp mem]
  apply Json.Stored.obj (by decide)
  intro m mem
  simp only [List.mem_cons, List.not_mem_nil, or_false] at mem
  rcases mem with rfl | rfl | rfl | rfl
  · exact .str _
  · exact .str _
  · exact .str _
  · exact .str _

theorem served_hostileAd : served (.obj [("id", .str hostileAd.id), ("text", .str hostileAd.text),
    ("url", .str hostileAd.url), ("short_code", .str hostileAd.shortCode)]) = some hostileAd := by
  simp [served, Settings.get, List.lookup_cons, asString]

theorem serveCreatives_hostile {J : SerdeJson} {body : String}
    (reads : J.fromSlice (asBytes body) = .ok hostile) :
    serveCreatives J (some body) = [hostileAd] := by
  have list : (Settings.get hostile "creatives").bind asArray =
    some [.obj [("id", .str hostileAd.id),
      ("text", .str hostileAd.text), ("url", .str hostileAd.url),
        ("short_code", .str hostileAd.shortCode)]] := by
    simp [hostile, Settings.get, asArray]
  simp only [serveCreatives, Option.map_some, reads, list, Option.getD_some,
    List.filterMap_cons, served_hostileAd, List.filterMap_nil, List.isEmpty_cons,
      Bool.false_eq_true, if_false]

def ascii : Unicode := ⟨Char.isAlpha, Char.isDigit⟩

/-- The escape sequence reaches both places. -/
theorem escape_shown :
    let server := "http://127.0.0.1:8787"
    let pool := serveCreatives .reference (some (SerdeJson.referenceText hostile))
    let d : Daemon Reference.crates := Daemon.atIndex (Reference.key 7) [] none server pool [] 0
    '\x1b' ∈ controls hostileAd.text ∧ hostileAd.text ∈ verbs pool ∧
      d.featuredAd.2 = some (server ++ "/c/AbC9", hostileAd.text) ∧
      ∃ line, d.writeStatusCache.statusCache = some line ∧
        ¬ Harmless ascii server (verbs pool) d.featuredAd.2 line := by
  intro server pool d
  have escape : '\x1b' ∈ controls hostileAd.text := by decide
  have taken : pool = [hostileAd] :=
    serveCreatives_hostile (SerdeJson.reference_text stored_hostile)
  have shown : hostileAd.text ∈ verbs pool := by
    rw [taken]
    exact List.mem_singleton_self _
  have trimmed : trimEndMatches server '/' = server := by decide
  constructor
  · exact escape
  constructor
  · exact shown
  constructor
  · rw [Daemon.atIndex_featured, taken, trimmed]
    rfl
  · refine ⟨_, d.writeStatusCache_line, ?_⟩
    intro harmless
    rw [harmless.spinner _ shown] at escape
    cases escape

end Spnr.Spnrd
