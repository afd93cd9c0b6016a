import Spnr.Daemon.Emitted
import Spnr.Daemon.Rule

/-! Each session of the daemon as a history of its own. A datagram is a call of one
session and an idle moment of every other, so the histories share the run's
indices and its clock. -/
namespace Spnr.Spnrd

open RustStd

variable {C : Crates}

def hookCall (eventName : String) : Call :=
  match eventName with
  | "UserPromptSubmit" => .prompt
  | "PreToolUse" => .preTool
  | "PostToolUse" => .postTool
  | "Stop" => .stop
  | "SessionEnd" => .reset
  | _ => .idle

namespace Daemon

/-- What a datagram is to one session; a heartbeat of an unknown session is dropped. -/
def tap (d : Daemon C) (sid : String) (g : Datagram) : Tap where
  call := match g.msg with
    | .hook eventName sessionId => if sessionId = sid then hookCall eventName else .idle
    | .heartbeat sessionId =>
      if sessionId = sid ∧ (d.sessions.lookup sid).isSome then .heartbeat else .idle
    | .cmd _ => .idle
  ts := g.recvMs.toNat
  paused := (d.handle g).paused

def taps (d : Daemon C) (sid : String) : List Datagram → List Tap
  | [] => []
  | g :: gs => d.tap sid g :: (d.handle g).taps sid gs

theorem tap_stop {d : Daemon C} {sid : String} {g : Datagram} : (d.tap sid g).call = .stop ↔
    g.msg = .hook "Stop" sid := by
  constructor
  · intro stop
    obtain ⟨msg, recvMs, ulid⟩ := g
    cases msg with
    | hook eventName sessionId =>
      simp only [tap] at stop
      split at stop
      · rename_i own
        unfold hookCall at stop
        split at stop <;> cases stop
        rw [own]
      · cases stop
    | heartbeat sessionId =>
      simp only [tap] at stop
      split at stop <;> cases stop
    | cmd c => cases stop
  · intro stop
    simp [tap, stop, hookCall]

/-- The session of an id; one that is not in the map is as good as new. -/
def sessionOf (d : Daemon C) (sid : String) : Session :=
  (d.sessions.lookup sid).getD ((default : Session).setPaused d.paused)

def Flagged (d : Daemon C) : Prop := ∀ sid s, d.sessions.lookup sid = some s → s.paused = d.paused

theorem featuredAd_sessions (d : Daemon C) :
    d.featuredAd.1.sessions = d.sessions ∧ d.featuredAd.1.paused = d.paused := by
  unfold featuredAd
  split
  · exact ⟨rfl, rfl⟩
  · split <;> exact ⟨rfl, rfl⟩

theorem writeStatusCache_sessions (d : Daemon C) :
    d.writeStatusCache.sessions = d.sessions ∧ d.writeStatusCache.paused = d.paused :=
  featuredAd_sessions d

theorem emitImpressions_sessions (d : Daemon C) (sid : String) (n : Nat) (recvMs : UInt64)
    (ulid : String) : (d.emitImpressions sid n recvMs ulid).sessions = d.sessions ∧
      (d.emitImpressions sid n recvMs ulid).paused = d.paused :=
  writeStatusCache_sessions _

theorem handle_hook (d : Daemon C) (eventName sid : String) (recvMs : UInt64) (ulid : String) :
    (d.handle ⟨.hook eventName sid, recvMs, ulid⟩).paused = d.paused ∧
      (d.handle ⟨.hook eventName sid, recvMs, ulid⟩).sessions =
        if hookCall eventName = .reset then d.sessions.erase sid
        else d.sessions.insert sid
          ((d.hookSession sid).apply ⟨hookCall eventName, recvMs.toNat, d.paused⟩).1 := by
  by_cases prompt : eventName = "UserPromptSubmit"
  · subst prompt
    exact ⟨rfl, rfl⟩
  by_cases pre : eventName = "PreToolUse"
  · subst pre
    exact ⟨rfl, rfl⟩
  by_cases post : eventName = "PostToolUse"
  · subst post
    exact ⟨rfl, rfl⟩
  by_cases stop : eventName = "Stop"
  · subst stop
    simp only [handle]
    split
    · obtain ⟨sessions, paused⟩ := emitImpressions_sessions
        (d.putSession sid ((d.hookSession sid).onStop recvMs.toNat).1) sid
        ((d.hookSession sid).onStop recvMs.toNat).2 recvMs ulid
      rw [sessions, paused]
      exact ⟨rfl, rfl⟩
    · exact ⟨rfl, rfl⟩
  by_cases ended : eventName = "SessionEnd"
  · subst ended
    exact ⟨rfl, rfl⟩
  have idle : hookCall eventName = .idle := by simp [hookCall]
  have handled : d.handle ⟨.hook eventName sid, recvMs, ulid⟩ = d.putSession sid
    (d.hookSession sid) := by
    simp [handle]
  rw [handled, idle]
  exact ⟨rfl, rfl⟩

theorem handle_heartbeat (d : Daemon C) (sid : String) (recvMs : UInt64) (ulid : String) :
    (d.handle ⟨.heartbeat sid, recvMs, ulid⟩).paused = d.paused ∧
      (d.handle ⟨.heartbeat sid, recvMs, ulid⟩).sessions =
        match d.sessions.lookup sid with
        | some s => d.sessions.insert sid (s.onHeartbeat recvMs.toNat)
        | none => d.sessions := by
  cases known : d.sessions.lookup sid with
  | some s =>
    obtain ⟨sessions, paused⟩ :=
      writeStatusCache_sessions (d.putSession sid (s.onHeartbeat recvMs.toNat))
    simp only [handle, known]
    exact ⟨paused, sessions⟩
  | none =>
    obtain ⟨sessions, paused⟩ := writeStatusCache_sessions d
    simp only [handle, known]
    exact ⟨paused, sessions⟩

theorem hookSession_eq (d : Daemon C) (sid : String) :
    d.hookSession sid = (d.sessionOf sid).setPaused d.paused := by
  unfold hookSession sessionOf
  cases d.sessions.lookup sid <;> rfl

theorem Flagged.sessionOf {d : Daemon C} (flagged : Flagged d) (sid : String) :
    (d.sessionOf sid).setPaused d.paused = d.sessionOf sid := by
  unfold Daemon.sessionOf
  cases known : d.sessions.lookup sid with
  | none => rfl
  | some s =>
    have flag := flagged sid s known
    simp only [Option.getD_some, Session.setPaused, ← flag]

theorem apply_setPaused (s : Session) (t : Tap) : (s.setPaused t.paused).apply t = s.apply t := by
  unfold Session.apply
  cases t.call <;> rfl

theorem apply_paused (s : Session) (t : Tap) : (s.apply t).1.paused = t.paused := by
  unfold Session.apply
  cases t.call with
  | preTool =>
    simp only [Session.onPreTool, Session.closeSubspan]
    split
    · split <;> rfl
    · rfl
  | postTool =>
    simp only [Session.onPostTool]
    split <;> rfl
  | stop =>
    simp only [Session.onStop, Session.resetInterval, Session.closeSubspan]
    split
    · split <;> rfl
    · rfl
  | _ => rfl

theorem handle_sessionOf {d : Daemon C} (flagged : Flagged d) (sid : String) (g : Datagram) :
    (d.handle g).sessionOf sid = ((d.sessionOf sid).apply (d.tap sid g)).1 := by
  obtain ⟨msg, recvMs, ulid⟩ := g
  cases msg with
  | hook eventName sessionId =>
    obtain ⟨paused, sessions⟩ := handle_hook d eventName sessionId recvMs ulid
    have applied :=
      apply_setPaused (d.sessionOf sessionId) ⟨hookCall eventName, recvMs.toNat, d.paused⟩
    rw [hookSession_eq, applied] at sessions
    simp only [sessionOf, tap, paused, sessions]
    by_cases same : sessionId = sid
    · subst same
      split
      · rename_i reset
        simp [reset, Session.apply]
      · simp
    · have still := flagged.sessionOf sid
      simp only [sessionOf] at still
      simp only [if_neg same, Session.apply, still]
      split <;> simp [Ne.symm same]
  | heartbeat sessionId =>
    obtain ⟨paused, sessions⟩ := handle_heartbeat d sessionId recvMs ulid
    have still := flagged.sessionOf sid
    simp only [sessionOf] at still
    simp only [sessionOf, tap, paused, sessions]
    by_cases same : sessionId = sid
    · subst same
      cases known : d.sessions.lookup sessionId with
      | none =>
        simp only [known] at still ⊢
        simp [Session.apply, Session.setPaused]
      | some s =>
        rw [known] at still
        simp only [Option.getD_some] at still
        simp [Session.apply, still]
    · simp only [same, false_and, if_false, Session.apply, still]
      cases known : d.sessions.lookup sessionId with
      | none => rfl
      | some s => simp [Ne.symm same]
  | cmd c =>
    have still := flagged.sessionOf sid
    simp only [sessionOf] at still
    cases c with
    | ping => simp only [sessionOf, tap, handle, Session.apply, still]
    | pause =>
      simp only [sessionOf, tap, handle, setPaused, Session.apply, HashMap.lookup_filterMap]
      cases d.sessions.lookup sid <;> rfl
    | resume =>
      simp only [sessionOf, tap, handle, setPaused, Session.apply, HashMap.lookup_filterMap]
      cases d.sessions.lookup sid <;> rfl

theorem handle_flagged {d : Daemon C} (flagged : Flagged d) (g : Datagram) :
    Flagged (d.handle g) := by
  intro sid s known
  have applied := handle_sessionOf flagged sid g
  rw [sessionOf, known, Option.getD_some] at applied
  rw [applied, apply_paused]
  rfl

theorem Started.quiet {d : Daemon C} (started : Started d) : d.sessions = ∅ ∧ d.paused = false := by
  cases started with
  | offline key queue statusCache => exact ⟨rfl, rfl⟩
  | online key queue statusCache server pool =>
    cases pool with
    | nil => exact ⟨rfl, rfl⟩
    | cons ad pool => exact writeStatusCache_sessions _

theorem Started.flagged {d : Daemon C} (started : Started d) : Flagged d := by
  intro sid s known
  rw [started.quiet.1] at known
  cases known

theorem Started.sessionOf {d : Daemon C} (started : Started d) (sid : String) :
    d.sessionOf sid = default := by
  simp only [Daemon.sessionOf, started.quiet.1, started.quiet.2]
  rfl

theorem run_sessionOf (gs : List Datagram) {d : Daemon C} (flagged : Flagged d) (sid : String) :
    Flagged (d.run gs) ∧
      (d.run gs).sessionOf sid = (d.taps sid gs).foldl (fun s t => (s.apply t).1)
        (d.sessionOf sid) := by
  induction gs generalizing d with
  | nil => exact ⟨flagged, rfl⟩
  | cons g gs ih =>
    obtain ⟨flagged', rest⟩ := ih (handle_flagged flagged g)
    rw [handle_sessionOf flagged sid g] at rest
    exact ⟨flagged', rest⟩

theorem taps_length (gs : List Datagram) (d : Daemon C) (sid : String) :
    (d.taps sid gs).length = gs.length := by
  induction gs generalizing d with
  | nil => rfl
  | cons g gs ih => rw [taps, List.length_cons, ih, List.length_cons]

theorem taps_take (m : Nat) (gs : List Datagram) (d : Daemon C) (sid : String) :
    (d.taps sid gs).take m = d.taps sid (gs.take m) := by
  induction gs generalizing d m with
  | nil => simp [taps]
  | cons g gs ih =>
    cases m with
    | zero => rfl
    | succ m => rw [taps, List.take_succ_cons, ih, List.take_succ_cons, taps]

theorem taps_get {m : Nat} {g : Datagram} (gs : List Datagram) (d : Daemon C) (sid : String)
    (here : gs[m]? = some g) : (d.taps sid gs)[m]? = some ((d.run (gs.take m)).tap sid g) := by
  induction gs generalizing d m with
  | nil => cases here
  | cons first gs ih =>
    cases m with
    | zero =>
      cases here
      rfl
    | succ m => exact ih (d.handle first) here

theorem Started.session_after {d : Daemon C} (started : Started d) (gs : List Datagram)
    (sid : String) (m : Nat) :
    (d.run (gs.take m)).sessionOf sid = Session.after ((d.taps sid gs).take m) := by
  rw [taps_take, (run_sessionOf (gs.take m) started.flagged sid).2, started.sessionOf]
  rfl

theorem Started.stop_count {d : Daemon C} (started : Started d) (gs : List Datagram) {m : Nat}
    {g : Datagram} (here : gs[m]? = some g) {sid : String} (stop : g.msg = .hook "Stop" sid) :
    (d.run (gs.take m)).stopCount sid g.recvMs = returned (d.taps sid gs) m := by
  have flagged := (run_sessionOf (gs.take m) started.flagged sid).1
  have call : ((d.run (gs.take m)).tap sid g).call = .stop := tap_stop.mpr stop
  have before := started.session_after gs sid m
  rw [returned, taps_get gs d sid here, ← before]
  simp only [Option.map_some, Option.getD_some, Session.apply, call, stopCount, hookSession_eq]
  have flag : ((d.run (gs.take m)).tap sid g).paused = (d.run (gs.take m)).paused := by
    obtain ⟨msg, recvMs, ulid⟩ := g
    cases stop
    exact (handle_hook _ "Stop" sid recvMs ulid).1
  rw [flag]
  rfl

end Daemon

end Spnr.Spnrd
