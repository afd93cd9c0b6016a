import Spnr.Daemon.Turns
import Spnr.EndToEnd.Removed
import Spnr.Server.Clicks

/-! An advertisement on its way from the operator to the reader: served, shown on the status
line of a daemon, and clicked some time later at the server, which may have changed. -/
namespace Spnr.EndToEnd

open RustStd Server Spnrd

variable {C : Crates}

/-- Whatever the operator did before, the daemon shows the served ads in turn; whatever is done
afterwards, the link on the line leads to that ad's own page (or nowhere, where its url cannot
stand in a header) until the ad is removed. -/
theorem ads_click_through {now : Int} {token : Option String} {past : List Request}
    (drawn : Drawn (ServerState.fresh C now token) past) {J : SerdeJson} {body server : String}
    (online : server ≠ "") : let srv := (ServerState.fresh C now token).after past
    srv.mem.creatives ≠ [] → J.fromSlice (asBytes body) = .ok (serve srv.mem).toJson →
    ∀ (key : C.SigningKey) (queue : List UInt8) (statusCache : Option String) (gs : List Datagram)
      (rs : List Request), Drawn srv rs →
      let d := (Daemon.new C key queue statusCache).networked server (serveCreatives J (some body))
      ∃ c, srv.mem.creatives[d.written gs % 2 ^ 64 % srv.mem.creatives.length]? = some c ∧
        (d.run gs).statusCache = some (statusLine (counted (d.emitted gs))
          (some (trimEndMatches server '/' ++ "/c/" ++ c.shortCode, c.text))) ∧
        (click C (srv.after rs).mem c.shortCode).response =
          redirectTo (if c.id ∈ removedIn srv rs then creativeUrl else c.url) ∧
        (click C (srv.after rs).mem c.shortCode).state.clicks =
          (srv.after rs).mem.clicks + if c.id ∈ removedIn srv rs then 0 else 1 := by
  intro srv some_ reads key queue statusCache gs rs later d
  have pooled : Pooled srv := ((fresh_pooled now token).after drawn).1
  have served : serveCreatives J (some body) = srv.mem.creatives.map (adOf ∘ Creative.served) := by
    rw [serveCreatives_toJson reads, if_neg, serve, List.map_map]
    simpa [serve] using some_
  have pool : serveCreatives J (some body) ≠ [] := by
    rw [served]
    simpa using some_
  obtain ⟨turn, total⟩ := Daemon.networked_turn (C := C) online pool key queue statusCache gs
  have inside : d.written gs % 2 ^ 64 % srv.mem.creatives.length < srv.mem.creatives.length :=
    Nat.mod_lt _ (List.length_pos_of_ne_nil some_)
  refine ⟨_, List.getElem?_eq_getElem inside, ?_, pooled.click later (List.getElem_mem inside)⟩
  have here :
    (serveCreatives J (some body))[d.written gs % 2 ^ 64 % (serveCreatives J (some body)).length]? =
      some (adOf srv.mem.creatives[d.written gs % 2 ^ 64 % srv.mem.creatives.length].served) := by
    simp only [served, List.length_map, List.getElem?_map, List.getElem?_eq_getElem inside]
    rfl
  have line := turn.line
  rw [total, here] at line
  exact line

theorem stored_serve (resp : ServeResp) : resp.toJson.Stored (fun _ => False) 127 := by
  have creative (c : ServeCreative) (d : Nat) : c.toJson.Stored (fun _ => False) (d + 1) := by
    apply Json.Stored.obj (by simp [IndexMap.Distinct])
    intro m mem
    simp only [List.mem_cons, List.not_mem_nil, or_false] at mem
    rcases mem with rfl | rfl | rfl | rfl
    · exact .str _
    · exact .str _
    · exact .str _
    · exact .str _
  apply Json.Stored.obj (by simp [IndexMap.Distinct])
  intro m mem
  simp only [List.mem_cons, List.not_mem_nil, or_false] at mem
  rcases mem with rfl | rfl
  · exact creative _ 125
  · apply Json.Stored.arr
    intro v mem
    obtain ⟨c, -, rfl⟩ := List.mem_map.mp mem
    exact creative c 124

theorem serve_reads (resp : ServeResp) :
    SerdeJson.reference.fromSlice (asBytes (SerdeJson.referenceText resp.toJson)) =
      .ok resp.toJson :=
  SerdeJson.reference_text (stored_serve resp)

theorem ads_click_through_second :
    let srv := ServerState.fresh Reference.crates 0 none
    let pool := serveCreatives .reference (some (SerdeJson.referenceText (serve srv.mem).toJson))
    let d := (Daemon.new Reference.crates (Reference.key 7) [] none).networked
      "http://localhost:8787/" pool
    (d.run [⟨.heartbeat "a", 1, "u0"⟩]).statusCache =
        some (statusLine 0
          (some ("http://localhost:8787/c/Kp7T", "ctxgraph — see what your agent sees ↗"))) ∧
      (click Reference.crates (srv.after [.click "Kp7T", .restart 9 none]).mem "Kp7T").response =
        .ok "https://example.com/ctxgraph" := by
  intro srv pool d
  obtain ⟨house, -, -⟩ := fresh_creatives (C := Reference.crates) 0 none
  have some_ : (srv.after []).mem.creatives ≠ [] := by
    intro none
    cases house.symm.trans none
  have drawn : Drawn (ServerState.fresh Reference.crates 0 none) [] := trivial
  have online : "http://localhost:8787/" ≠ "" := by decide
  obtain ⟨c, turn, line, leads, -⟩ :=
    ads_click_through drawn online some_ (serve_reads (serve srv.mem)) (Reference.key 7) [] none
    [⟨.heartbeat "a", 1, "u0"⟩] [.click "Kp7T", .restart 9 none]
      ⟨by rintro c ⟨⟩, by rintro c ⟨⟩, trivial⟩
  have second : (srv.after []).mem.creatives[1]? = some c := by
    have size : (srv.after []).mem.creatives.length = 3 := congrArg List.length house
    rw [size] at turn
    exact turn
  rw [show (srv.after []).mem.creatives = housePool from house] at second
  cases second
  have trimmed : trimEndMatches "http://localhost:8787/" '/' = "http://localhost:8787" := by decide
  have kept : removedIn (srv.after []) [.click "Kp7T", .restart 9 none] = [] := rfl
  rw [trimmed] at line
  rw [kept, if_neg List.not_mem_nil] at leads
  exact ⟨line, leads⟩

end Spnr.EndToEnd
