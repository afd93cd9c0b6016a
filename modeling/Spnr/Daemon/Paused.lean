import Spnr.Daemon.Overlap

/-! Pauses against counted time. The flag is read when a sub-span closes, so what a
pause keeps from being paid is decided by the resume that ends it: a second that
went by during the pause and is still in an open sub-span then will be counted. -/
namespace Spnr.Spnrd

open RustStd

variable {C : Crates}

/-- The second `k` of the sub-span `[i, j]` is among those behind the answer of the stop `n`. -/
def Behind (H : List Tap) (n i j k : Nat) : Prop :=
  ∃ p, Opens H n p ∧ WaitingSpan H p n i j ∧ j ≤ n ∧ k ∈ countedSeconds H p i j

/-- The covered second `k` of the open sub-span ends strictly between the two times. -/
def Session.AtRisk (s : Session) (since resumed k : Nat) : Prop :=
  ∃ o, s.subspanOpenMs = some o ∧ 1 ≤ k ∧ since < o + 1000 * k ∧ o + 1000 * k < resumed ∧
    Covered s.heartbeats (o + 1000 * k)

namespace Daemon

def pausedAfter (d : Daemon C) (gs : List Datagram) (x : Nat) : Bool :=
  (d.run (gs.take (x + 1))).paused

/-- `tick` falls strictly inside a period in which the daemon was paused: from some
message before it on, every message up to it left the daemon paused. -/
def PausedThrough (d : Daemon C) (gs : List Datagram) (tick : Nat) : Prop :=
  ∃ a < gs.length, clock gs a < tick ∧
    ∀ x, a ≤ x → x < gs.length → clock gs x ≤ tick → d.pausedAfter gs x = true

/-- The `r`-th message, if it resumes, ends no pause during which a covered second of
a sub-span that is still open went by. -/
def SafeResume (d : Daemon C) (gs : List Datagram) (r : Nat) : Prop :=
  ∀ g, gs[r]? = some g → g.msg = .cmd .resume →
    ∀ a < r, (∀ x, a ≤ x → x < r → d.pausedAfter gs x = true) →
      ∀ sid s, (d.run (gs.take r)).sessions.lookup sid = some s →
        ∀ k, ¬ s.AtRisk (clock gs a) (clock gs r) k

theorem run_succ {gs : List Datagram} {m : Nat} {g : Datagram} (d : Daemon C)
    (here : gs[m]? = some g) : d.run (gs.take (m + 1)) = (d.run (gs.take m)).handle g := by
  obtain ⟨inside, rfl⟩ := List.getElem?_eq_some_iff.mp here
  rw [List.take_succ_eq_append_getElem inside, run, List.foldl_append]
  rfl

theorem taps_paused {gs : List Datagram} (d : Daemon C) (sid : String) {x : Nat}
    (inside : x < gs.length) : pausedAt (d.taps sid gs) x = d.pausedAfter gs x := by
  have here : gs[x]? = some gs[x] := List.getElem?_eq_getElem inside
  rw [pausedAfter, run_succ d here]
  simp [pausedAt, taps_get gs d sid here, tap]

theorem unpaused_resume {d : Daemon C} {g : Datagram} (before : d.paused = true)
    (after : (d.handle g).paused = false) : g.msg = .cmd .resume := by
  obtain ⟨msg, recvMs, ulid⟩ := g
  cases msg with
  | hook eventName sid =>
    rw [(handle_hook d eventName sid recvMs ulid).1, before] at after
    cases after
  | heartbeat sid =>
    rw [(handle_heartbeat d sid recvMs ulid).1, before] at after
    cases after
  | cmd c =>
    cases c with
    | ping =>
      rw [show (d.handle ⟨.cmd .ping, recvMs, ulid⟩).paused = d.paused from rfl, before] at after
      cases after
    | pause => cases after
    | resume => rfl

theorem first_unpaused {paused : Nat → Bool} {a j : Nat} (up : paused a = true) (le : a ≤ j)
    (down : paused j = false) :
    ∃ r, a < r ∧ r ≤ j ∧ paused r = false ∧ ∀ x, a ≤ x → x < r → paused x = true := by
  have some : ∃ r, a ≤ r ∧ paused r = false := ⟨j, le, down⟩
  obtain ⟨above, low⟩ := Nat.find_spec some
  have apart : a ≠ Nat.find some := by
    intro same
    rw [same, low] at up
    cases up
  refine ⟨Nat.find some, by omega, Nat.find_min' some ⟨le, down⟩, low, ?_⟩
  intro x after before
  have high := Nat.find_min some before
  cases flag : paused x with
  | true => rfl
  | false => exact absurd ⟨after, flag⟩ high

variable {d : Daemon C} {gs : List Datagram}

theorem clock_taps (d : Daemon C) (gs : List Datagram) (sid : String) {x : Nat}
    (inside : x < gs.length) : clock gs x = tsAt (d.taps sid gs) x := (taps_clock d sid inside).symm

theorem Started.open_session (started : Started d) {sid : String} {p i r : Nat}
    (inside : r ≤ gs.length)
    (opens : Opens (d.taps sid gs) r p) (span : Span (d.taps sid gs) p i r) :
    ∃ s, (d.run (gs.take r)).sessions.lookup sid = some s ∧
      s.subspanOpenMs = some (tsAt (d.taps sid gs) i) ∧
      ∀ h, h ∈ s.heartbeats ↔
        ∃ x, p < x ∧ x < r ∧ callAt (d.taps sid gs) x = .heartbeat ∧
        tsAt (d.taps sid gs) x = h := by
  have within : r ≤ (d.taps sid gs).length := by
    rw [taps_length]
    exact inside
  have follows := (after_agrees (d.taps sid gs) r within).inside p opens
  have session := started.session_after gs sid r
  have opened : (Session.after ((d.taps sid gs).take r)).subspanOpenMs =
    some (tsAt (d.taps sid gs) i) := by
    rcases follows.phase with ⟨-, i', span', opened⟩ | ⟨-, -, tool⟩
    · rw [span.unique span']
      exact opened
    · exact absurd tool span.not_inTool
  rw [← session] at opened
  cases known : (d.run (gs.take r)).sessions.lookup sid with
  | none =>
    rw [Daemon.sessionOf, known] at opened
    cases opened
  | some s =>
    rw [Daemon.sessionOf, known, Option.getD_some] at session opened
    exact ⟨s, rfl, opened, fun h => by rw [session]; exact follows.beats h⟩

theorem Started.counted_at_risk (started : Started d) (nondecreasing : Nondecreasing gs)
    {sid : String}
    {n i j k : Nat} (inside : n < gs.length) (behind : Behind (d.taps sid gs) n i j k)
    (paused : d.PausedThrough gs (tsAt (d.taps sid gs) i + 1000 * k)) :
    ∃ r < gs.length, ¬ d.SafeResume gs r := by
  obtain ⟨p, ⟨-, prompt, noneAfter⟩, ⟨⟨after, start, begun, quiet⟩, -⟩, closed, awake, positive,
    fits, beats⟩ :=
    behind
  obtain ⟨a, early, since, through⟩ := paused
  have up := through a (le_refl a) early since.le
  have closing := clock_taps d gs sid (show j < gs.length by omega)
  have le : a ≤ j := by
    by_contra later
    have := nondecreasing j a (by omega) early
    omega
  rw [taps_paused d sid (by omega)] at awake
  obtain ⟨r, afterPause, beforeClose, low, high⟩ := first_unpaused up le awake
  have resumed : tsAt (d.taps sid gs) i + 1000 * k < clock gs r := by
    by_contra soon
    rw [through r (by omega) (by omega) (by omega)] at low
    cases low
  have opening := clock_taps d gs sid (show i < gs.length by omega)
  have within : i < r := by
    by_contra late
    have := nondecreasing r i (by omega) (by omega)
    omega
  have here : gs[r]? = some gs[r] := List.getElem?_eq_getElem (by omega)
  have before : (d.run (gs.take r)).paused = true := by
    have last := high (r - 1) (by omega) (by omega)
    rwa [pausedAfter, Nat.sub_add_cancel (by omega)] at last
  rw [pausedAfter, run_succ d here] at low
  have message := unpaused_resume before low
  have opens : Opens (d.taps sid gs) r p :=
    ⟨by omega, prompt, fun x above below => noneAfter x above (by omega)⟩
  have span : Span (d.taps sid gs) p i r :=
    ⟨after, within, begun, fun x above below => quiet x above (by omega)⟩
  obtain ⟨s, known, opened, heartbeats⟩ := started.open_session (by omega) opens span
  refine ⟨r, by omega, fun safe => ?_⟩
  apply safe gs[r] here message a afterPause high sid s known k
  refine ⟨tsAt (d.taps sid gs) i, opened, positive, since, resumed, ?_⟩
  obtain ⟨x, late, soon, beat, at_, close⟩ := beats
  have received := clock_taps d gs sid (show x < gs.length by omega)
  have earlier : x < r := by
    by_contra afterwards
    have := nondecreasing r x (by omega) (by omega)
    omega
  exact ⟨tsAt (d.taps sid gs) x, (heartbeats _).mpr ⟨x, late, earlier, beat, rfl⟩, at_, close⟩

/-- Every event pays for the countable seconds of the interval its stop closed; if every
resume is safe, none of them went by while the daemon was paused. -/
theorem paused_never_earns (started : Started d) (nondecreasing : Nondecreasing gs)
    (safe : ∀ r < gs.length, d.SafeResume gs r) {n : Nat} {g : Datagram} (here : gs[n]? = some g) :
    ∀ e ∈ (d.run (gs.take n)).emits g, ∃ sid p, g.msg = .hook "Stop" sid ∧
    Opens (d.taps sid gs) n p ∧
      e.count = min 60 (countable (d.taps sid gs) p n / 5) ∧
      ∀ i j k, Behind (d.taps sid gs) n i j k →
      ¬ d.PausedThrough gs (tsAt (d.taps sid gs) i + 1000 * k) := by
  intro e emitted
  have inside : n < gs.length := (List.getElem?_eq_some_iff.mp here).1
  unfold emits at emitted
  split at emitted
  · rename_i sid stop
    have answer := started.stop_count gs here stop
    have called : callAt (d.taps sid gs) n = .stop := by
      rw [taps_call d here]
      exact tap_stop.mpr stop
    obtain ⟨pays, nothing⟩ := stop_returned called
    split at emitted
    · rename_i earned
      rw [List.mem_singleton] at emitted
      have opened : ∃ p, Opens (d.taps sid gs) n p := by
        by_contra none
        rw [answer, nothing (fun p opens => none ⟨p, opens⟩)] at earned
        cases earned
      obtain ⟨p, opens⟩ := opened
      refine ⟨sid, p, stop, opens, ?_, ?_⟩
      · have exact_ := pays p opens
        rw [answer, exact_] at emitted
        rw [emitted]
        simp only [impressionEvent, Event.count, Option.getD_some, UInt32.toNat_ofNat']
        omega
      · intro i j k behind paused
        obtain ⟨r, early, unsafe_⟩ := started.counted_at_risk nondecreasing inside behind paused
        exact unsafe_ (safe r early)
    · cases emitted
  · cases emitted

end Daemon

/-! A turn with a pause while a tool runs, and one with a pause in the middle of the wait. -/

def toolPause : List Datagram :=
  [⟨.hook "UserPromptSubmit" "a", 0, "u0"⟩, ⟨.heartbeat "a", 500, "u1"⟩,
    ⟨.heartbeat "a", 2500, "u2"⟩,
    ⟨.heartbeat "a", 4500, "u3"⟩, ⟨.hook "PreToolUse" "a", 5500, "u4"⟩, ⟨.cmd .pause, 6000, "u5"⟩,
    ⟨.cmd .resume, 9000, "u6"⟩, ⟨.hook "PostToolUse" "a", 9500, "u7"⟩,
      ⟨.hook "Stop" "a", 9900, "u8"⟩]

def waitPause : List Datagram :=
  [⟨.hook "UserPromptSubmit" "a", 0, "u0"⟩, ⟨.heartbeat "a", 500, "u1"⟩,
    ⟨.heartbeat "a", 2500, "u2"⟩,
    ⟨.cmd .pause, 2600, "u3"⟩, ⟨.heartbeat "a", 4500, "u4"⟩, ⟨.cmd .resume, 5500, "u5"⟩,
    ⟨.hook "Stop" "a", 6000, "u6"⟩]

/-- The third second is paid although the daemon was paused from `2600` to `5500`. -/
theorem paused_second_paid :
    soloDaemon.Started ∧ Daemon.Nondecreasing waitPause ∧
      (∃ e ∈ (soloDaemon.run (waitPause.take 6)).emits ⟨.hook "Stop" "a", 6000, "u6"⟩,
        e.count = 1) ∧
      Behind (soloDaemon.taps "a" waitPause) 6 0 6 3 ∧
      soloDaemon.PausedThrough waitPause (tsAt (soloDaemon.taps "a" waitPause) 0 + 1000 * 3) := by
  have ordered : ∀ y < waitPause.length, ∀ x ≤ y,
    Daemon.clock waitPause x ≤ Daemon.clock waitPause y := by decide
  have quiet : ∀ x < 6, 0 < x → callAt (soloDaemon.taps "a" waitPause) x ≠ .preTool := by
    decide +kernel
  have flag : ∀ x < waitPause.length, 3 ≤ x → Daemon.clock waitPause x ≤ 3000 →
      soloDaemon.pausedAfter waitPause x = true := by decide +kernel
  have opens : Opens (soloDaemon.taps "a" waitPause) 6 0 := by decide +kernel
  have span : Span (soloDaemon.taps "a" waitPause) 0 0 6 :=
    ⟨le_refl 0, by decide, .inl rfl, fun x above below => quiet x below above⟩
  have covers : HeartbeatCovers (soloDaemon.taps "a" waitPause) 0 6
      (tsAt (soloDaemon.taps "a" waitPause) 0 + 1000 * 3) :=
    ⟨2, by decide, by decide, by decide +kernel, by decide +kernel, by decide +kernel⟩
  refine ⟨.offline _ _ _, fun x y le inside => ordered y inside x le, by decide +kernel, ?_, ?_⟩
  · exact ⟨0, opens, ⟨span, .inr rfl⟩,
      le_refl 6, by decide +kernel, by decide, by decide +kernel, covers⟩
  · exact ⟨3, by decide, by decide +kernel, fun x after inside soon => flag x inside after soon⟩

theorem paused_never_earns_toolPause :
    (soloDaemon.run (toolPause.take 8)).emits ⟨.hook "Stop" "a", 9900, "u8"⟩ ≠ [] ∧
      ∀ e ∈ (soloDaemon.run (toolPause.take 8)).emits ⟨.hook "Stop" "a", 9900, "u8"⟩, ∃ sid p,
        Opens (soloDaemon.taps sid toolPause) 8 p ∧
        e.count = min 60 (countable (soloDaemon.taps sid toolPause) p 8 / 5) := by
  have ordered : ∀ y < toolPause.length, ∀ x ≤ y,
    Daemon.clock toolPause x ≤ Daemon.clock toolPause y := by decide
  have resumes : ∀ r < toolPause.length, r ≠ 6 →
    (toolPause[r]?.map Datagram.msg) ≠ some (.cmd .resume) := by decide
  have closed : ∀ sid ∈ (soloDaemon.run (toolPause.take 6)).sessions.keys,
      ((soloDaemon.run (toolPause.take 6)).sessionOf sid).subspanOpenMs = none := by decide +kernel
  have safe : ∀ r < toolPause.length, soloDaemon.SafeResume toolPause r := by
    intro r inside g here resume a _ _ sid s known k risk
    by_cases at_ : r = 6
    · subst at_
      have none := closed sid (Finmap.mem_keys.mpr (Finmap.mem_of_lookup_eq_some known))
      obtain ⟨o, opened, -⟩ := risk
      rw [Daemon.sessionOf, known, Option.getD_some, opened] at none
      cases none
    · apply resumes r inside at_
      rw [here, Option.map_some, resume]
  refine ⟨by decide +kernel, fun e emitted => ?_⟩
  obtain ⟨sid, p, -, opens, count, -⟩ := Daemon.paused_never_earns (.offline _ _ _)
    (fun x y le inside => ordered y inside x le) safe rfl e emitted
  exact ⟨sid, p, opens, count⟩

end Spnr.Spnrd
