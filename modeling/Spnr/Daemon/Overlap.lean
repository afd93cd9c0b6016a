import Spnr.Daemon.Sessions
import Spnr.Proto.Reference

/-! What overlapping sessions earn together. Every session counts by itself, so the
wall clock bounds each of them, and the daemon by as many clocks as sessions
wait at the same time. -/
namespace Spnr.Spnrd

open RustStd

variable {C : Crates}

theorem returned_of_not_stop {H : List Tap} {m : Nat} (other : callAt H m ≠ .stop) :
    returned H m = 0 := by
  unfold returned
  cases now : H[m]? with
  | none => rfl
  | some t =>
    have call : t.call ≠ .stop := by simpa [callAt, now] using other
    simp only [Option.map_some, Option.getD_some, Session.apply]
    cases kind : t.call with
    | stop => exact absurd kind call
    | _ => rfl

namespace Daemon

def waiting (d : Daemon C) : Finset String :=
  d.sessions.keys.filter fun sid => (d.sessionOf sid).phase = .waiting

theorem mem_waiting {d : Daemon C} {sid : String} : sid ∈ d.waiting ↔
    (d.sessionOf sid).phase = .waiting := by
  unfold waiting
  rw [Finset.mem_filter, Finmap.mem_keys, ← Finmap.lookup_isSome]
  constructor
  · exact fun h => h.2
  · intro phase
    refine ⟨?_, phase⟩
    cases known : d.sessions.lookup sid with
    | some s => rfl
    | none =>
      simp only [sessionOf, known, Option.getD_none] at phase
      cases phase

def stopIds (gs : List Datagram) : Finset String :=
  (gs.filterMap fun g => match g.msg with | .hook "Stop" sid => some sid | _ => none).toFinset

def clock (gs : List Datagram) (x : Nat) : Nat := (gs[x]?.map fun g => g.recvMs.toNat).getD 0

def Nondecreasing (gs : List Datagram) : Prop :=
  ∀ x y, x ≤ y → y < gs.length → clock gs x ≤ clock gs y

theorem emitted_append (gs hs : List Datagram) (d : Daemon C) :
    d.emitted (gs ++ hs) = d.emitted gs ++ (d.run gs).emitted hs := by
  induction gs generalizing d with
  | nil => rfl
  | cons g gs ih => rw [List.cons_append, emitted, ih, emitted, List.append_assoc]; rfl

theorem taps_call {gs : List Datagram} {m : Nat} {g : Datagram} (d : Daemon C)
    (here : gs[m]? = some g)
    (sid : String) : callAt (d.taps sid gs) m = ((d.run (gs.take m)).tap sid g).call := by
  simp [callAt, taps_get gs d sid here]

theorem returned_of_other {gs : List Datagram} {m : Nat} {g : Datagram} (d : Daemon C)
    (here : gs[m]? = some g) {sid : String}
    (other : g.msg ≠ .hook "Stop" sid) : returned (d.taps sid gs) m = 0 := by
  apply returned_of_not_stop
  rw [taps_call d here]
  exact fun stop => other (tap_stop.mp stop)

theorem Started.emits_count {d : Daemon C} (started : Started d) (gs : List Datagram) {m : Nat}
    {g : Datagram} (here : gs[m]? = some g) :
    counted ((d.run (gs.take m)).emits g) = ∑ sid ∈ stopIds gs, returned (d.taps sid gs) m := by
  by_cases stops : ∃ sid, g.msg = .hook "Stop" sid
  · obtain ⟨sid, stop⟩ := stops
    have known : sid ∈ stopIds gs := by
      simp only [stopIds, List.mem_toFinset, List.mem_filterMap]
      exact ⟨g, List.mem_of_getElem? here, by simp only [stop]⟩
    have silent : ∀ other ∈ stopIds gs, other ≠ sid → returned (d.taps other gs) m = 0 := by
      intro other _ apart
      apply returned_of_other d here
      rw [stop]
      intro same
      cases same
      exact apart rfl
    rw [Finset.sum_eq_single_of_mem sid known silent, ← started.stop_count gs here stop]
    have capped := onStop_le ((d.run (gs.take m)).hookSession sid) g.recvMs.toNat
    change (d.run (gs.take m)).stopCount sid g.recvMs ≤ 60 at capped
    simp only [emits, stop]
    split
    · simp only [counted, impressionEvent, Event.count, List.map_cons, List.map_nil, List.sum_cons,
        List.sum_nil, Option.getD_some, Nat.add_zero, UInt32.toNat_ofNat']
      omega
    · rw [counted_nil]
      omega
  · have none : (d.run (gs.take m)).emits g = [] := by
      unfold emits
      split
      · rename_i sid stop
        exact absurd ⟨sid, stop⟩ stops
      · rfl
    rw [none, counted_nil]
    symm
    apply Finset.sum_eq_zero
    intro sid _
    exact returned_of_other d here fun stop => stops ⟨sid, stop⟩

theorem Started.emitted_count {d : Daemon C} (started : Started d) (gs : List Datagram) (m : Nat)
    (inside : m ≤ gs.length) :
    counted (d.emitted (gs.take m)) = ∑ x ∈ Finset.range m, ∑ sid ∈ stopIds gs,
      returned (d.taps sid gs) x := by
  induction m with
  | zero => rfl
  | succ m ih =>
    have here : gs[m]? = some gs[m] := List.getElem?_eq_getElem (by omega)
    have one := started.emits_count gs here
    rw [List.take_succ_eq_append_getElem (by omega), emitted_append, counted_append, ih (by omega),
      Finset.sum_range_succ, ← one, emitted, emitted, List.append_nil]

theorem taps_clock {gs : List Datagram} (d : Daemon C) (sid : String) {x : Nat}
    (inside : x < gs.length) : tsAt (d.taps sid gs) x = clock gs x := by
  have here : gs[x]? = some gs[x] := List.getElem?_eq_getElem inside
  simp [tsAt, clock, taps_get gs d sid here, here, tap]

theorem emitted_le_clocks {d : Daemon C} (started : Started d) {gs : List Datagram}
    (nondecreasing : Nondecreasing gs) {k : Nat}
    (few : ∀ m ≤ gs.length, (d.run (gs.take m)).waiting.card ≤ k) :
    5000 * counted (d.emitted gs) ≤ k * (clock gs (gs.length - 1) - clock gs 0) := by
  have clocked : Clocked (stopIds gs) (fun sid => d.taps sid gs) gs.length (clock gs) :=
    ⟨fun sid _ => taps_length gs d sid, fun sid _ x inside => taps_clock d sid inside,
      nondecreasing⟩
  have waits (m : Nat) (inside : m ≤ gs.length) :
      (waitingIn (stopIds gs) (fun sid => d.taps sid gs) m).card ≤ k := by
    apply Nat.le_trans (Finset.card_le_card ?_) (few m inside)
    intro sid mem
    have phase := (Finset.mem_filter.mp mem).2
    rw [← started.session_after gs sid m] at phase
    exact mem_waiting.mpr phase
  have paid := clocked.owed_after waits gs.length (le_refl _)
  have count := started.emitted_count gs gs.length (le_refl _)
  rw [List.take_length] at count
  rw [count]
  omega

end Daemon

/-! One turn of six seconds, and the same turn in two sessions at once. -/

def soloTurn : List Datagram :=
  [⟨.hook "UserPromptSubmit" "a", 0, "u0"⟩, ⟨.heartbeat "a", 500, "u1"⟩,
    ⟨.heartbeat "a", 2500, "u2"⟩, ⟨.heartbeat "a", 4500, "u3"⟩, ⟨.hook "Stop" "a", 6000, "u4"⟩]

def twinTurns : List Datagram :=
  [⟨.hook "UserPromptSubmit" "a", 0, "u0"⟩, ⟨.hook "UserPromptSubmit" "b", 0, "u1"⟩,
    ⟨.heartbeat "a", 500, "u2"⟩, ⟨.heartbeat "b", 500, "u3"⟩, ⟨.heartbeat "a", 2500, "u4"⟩,
    ⟨.heartbeat "b", 2500, "u5"⟩, ⟨.heartbeat "a", 4500, "u6"⟩, ⟨.heartbeat "b", 4500, "u7"⟩,
    ⟨.hook "Stop" "a", 6000, "u8"⟩, ⟨.hook "Stop" "b", 6000, "u9"⟩]

def soloDaemon : Daemon Reference.crates := Daemon.new Reference.crates (Reference.key 7) [] none

/-- Both sessions are paid for the same seconds. -/
theorem overlap_pays_twice :
    soloDaemon.Started ∧ Daemon.Nondecreasing twinTurns ∧
      (Daemon.clock twinTurns (twinTurns.length - 1) - Daemon.clock twinTurns 0) / 5000 <
        counted (soloDaemon.emitted twinTurns) := by
  refine ⟨.offline _ _ _, ?_, by decide +kernel⟩
  have ordered : ∀ y < twinTurns.length, ∀ x ≤ y,
    Daemon.clock twinTurns x ≤ Daemon.clock twinTurns y := by decide
  exact fun x y le inside => ordered y inside x le

theorem emitted_le_clocks_solo :
    5000 * counted (soloDaemon.emitted soloTurn) ≤ 1 * (6000 - 0) ∧
    counted (soloDaemon.emitted soloTurn) = 1 := by
  have ordered : ∀ y < soloTurn.length, ∀ x ≤ y,
    Daemon.clock soloTurn x ≤ Daemon.clock soloTurn y := by decide
  have few : ∀ m ≤ soloTurn.length, (soloDaemon.run (soloTurn.take m)).waiting.card ≤ 1 := by
    decide +kernel
  exact ⟨Daemon.emitted_le_clocks (.offline _ _ _) (fun x y le inside => ordered y inside x le) few,
    by decide +kernel⟩

end Spnr.Spnrd
