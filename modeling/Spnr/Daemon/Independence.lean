import Spnr.Daemon.Sessions

/-! What the datagrams of other sessions can change in the events of one session: nothing
but the counter, the link to the event before and the id. -/
namespace Spnr.Spnrd

variable {C : Crates}

def SocketMsg.session : SocketMsg → Option String
  | .hook _ sessionId => some sessionId
  | .heartbeat sessionId => some sessionId
  | .cmd _ => none

/-- A datagram that names the session, or a Pause or a Resume. -/
def relevant (sid : String) (g : Datagram) : Bool :=
  match g.msg with
  | .cmd .pause | .cmd .resume => true
  | msg => msg.session = some sid

def received (g : Datagram) : SocketMsg × UInt64 := (g.msg, g.recvMs)

def mark (e : Event) : Option UInt32 × Int64 × String := (e.n, e.t, e.session)

def unstamped (e : Event) : Event := { e with ctr := 0, prev := "", id := "" }

namespace Daemon

/-- The events emitted for one session: those of the datagrams that name it. -/
def emittedFor (d : Daemon C) (sid : String) : List Datagram → List Event
  | [] => []
  | g :: gs => (if g.msg.session = some sid then d.emits g else []) ++
      (d.handle g).emittedFor sid gs

/-- Two daemons that treat the session alike. -/
structure Agrees (sid : String) (d d' : Daemon C) : Prop where
  session : d.sessions.lookup sid = d'.sessions.lookup sid
  paused : d.paused = d'.paused
  salt : d.salt = d'.salt
  creative : d.currentCreative = d'.currentCreative

theorem agrees_self (sid : String) (d : Daemon C) : Agrees sid d d := ⟨rfl, rfl, rfl, rfl⟩

theorem Agrees.trans {sid : String} {d d' d'' : Daemon C} (h : Agrees sid d d')
    (h' : Agrees sid d' d'') : Agrees sid d d'' :=
  ⟨h.session.trans h'.session, h.paused.trans h'.paused, h.salt.trans h'.salt,
    h.creative.trans h'.creative⟩

theorem writeStatusCache_config (d : Daemon C) :
    d.writeStatusCache.salt = d.salt ∧ d.writeStatusCache.currentCreative = d.currentCreative := by
  have featured : d.featuredAd.1.salt = d.salt ∧
    d.featuredAd.1.currentCreative = d.currentCreative := by
    unfold featuredAd
    split
    · exact ⟨rfl, rfl⟩
    · split <;> exact ⟨rfl, rfl⟩
  exact featured

theorem handle_config (d : Daemon C) (g : Datagram) :
    (d.handle g).salt = d.salt ∧ (d.handle g).currentCreative = d.currentCreative := by
  unfold handle
  split
  · split
    · exact ⟨rfl, rfl⟩
    · exact ⟨rfl, rfl⟩
    · exact ⟨rfl, rfl⟩
    · dsimp only
      split
      · exact writeStatusCache_config _
      · exact ⟨rfl, rfl⟩
    · exact ⟨rfl, rfl⟩
    · exact ⟨rfl, rfl⟩
  · split <;> exact writeStatusCache_config _
  · exact ⟨rfl, rfl⟩
  · exact ⟨rfl, rfl⟩
  · exact ⟨rfl, rfl⟩

theorem handle_irrelevant (d : Daemon C) {sid : String} {g : Datagram}
    (other : relevant sid g = false) : Agrees sid (d.handle g) d := by
  obtain ⟨msg, recvMs, ulid⟩ := g
  obtain ⟨salt, creative⟩ := handle_config d ⟨msg, recvMs, ulid⟩
  cases msg with
  | hook eventName sessionId =>
    have apart : sid ≠ sessionId := by
      rintro rfl
      simp [relevant, SocketMsg.session] at other
    obtain ⟨paused, sessions⟩ := handle_hook d eventName sessionId recvMs ulid
    refine ⟨?_, paused, salt, creative⟩
    rw [sessions]
    split <;> simp [apart]
  | heartbeat sessionId =>
    have apart : sid ≠ sessionId := by
      rintro rfl
      simp [relevant, SocketMsg.session] at other
    obtain ⟨paused, sessions⟩ := handle_heartbeat d sessionId recvMs ulid
    refine ⟨?_, paused, salt, creative⟩
    rw [sessions]
    split
    · simp [apart]
    · rfl
  | cmd c =>
    cases c with
    | ping => exact agrees_self sid d
    | pause => cases other
    | resume => cases other

theorem Agrees.handle {sid : String} {d d' : Daemon C} (agrees : Agrees sid d d') {g g' : Datagram}
    (named : relevant sid g = true) (same : received g = received g') :
    Agrees sid (d.handle g) (d'.handle g') := by
  obtain ⟨msg, recvMs, ulid⟩ := g
  obtain ⟨msg', recvMs', ulid'⟩ := g'
  obtain ⟨rfl, rfl⟩ := Prod.mk.inj same
  obtain ⟨salt, creative⟩ := handle_config d ⟨msg, recvMs, ulid⟩
  obtain ⟨salt', creative'⟩ := handle_config d' ⟨msg, recvMs, ulid'⟩
  have salts := salt.trans (agrees.salt.trans salt'.symm)
  have creatives := creative.trans (agrees.creative.trans creative'.symm)
  cases msg with
  | hook eventName sessionId =>
    obtain rfl : sessionId = sid := by simpa [relevant, SocketMsg.session] using named
    obtain ⟨paused, sessions⟩ := handle_hook d eventName sessionId recvMs ulid
    obtain ⟨paused', sessions'⟩ := handle_hook d' eventName sessionId recvMs ulid'
    refine ⟨?_, paused.trans (agrees.paused.trans paused'.symm), salts, creatives⟩
    rw [sessions, sessions', hookSession, hookSession, agrees.session, agrees.paused]
    split <;> simp
  | heartbeat sessionId =>
    obtain rfl : sessionId = sid := by simpa [relevant, SocketMsg.session] using named
    obtain ⟨paused, sessions⟩ := handle_heartbeat d sessionId recvMs ulid
    obtain ⟨paused', sessions'⟩ := handle_heartbeat d' sessionId recvMs ulid'
    refine ⟨?_, paused.trans (agrees.paused.trans paused'.symm), salts, creatives⟩
    rw [sessions, sessions', agrees.session]
    cases known : d'.sessions.lookup sessionId with
    | none => exact agrees.session
    | some s => simp
  | cmd c =>
    cases c with
    | ping => cases named
    | pause => exact ⟨by simp [Daemon.handle, setPaused, agrees.session], rfl, salts, creatives⟩
    | resume => exact ⟨by simp [Daemon.handle, setPaused, agrees.session], rfl, salts, creatives⟩

theorem Agrees.emits {sid : String} {d d' : Daemon C} (agrees : Agrees sid d d') {g g' : Datagram}
    (named : relevant sid g = true) (same : received g = received g') :
    (d.emits g).map unstamped = (d'.emits g').map unstamped := by
  obtain ⟨msg, recvMs, ulid⟩ := g
  obtain ⟨msg', recvMs', ulid'⟩ := g'
  obtain ⟨rfl, rfl⟩ := Prod.mk.inj same
  cases msg with
  | hook eventName sessionId =>
    obtain rfl : sessionId = sid := by simpa [relevant, SocketMsg.session] using named
    by_cases stop : eventName = "Stop"
    · subst stop
      have count : d.stopCount sessionId recvMs = d'.stopCount sessionId recvMs := by
        rw [stopCount, stopCount, hookSession, hookSession, agrees.session, agrees.paused]
      simp only [Daemon.emits, count]
      split
      · simp [unstamped, impressionEvent, fingerprint, agrees.salt, agrees.creative]
      · rfl
    · simp [Daemon.emits, stop]
  | heartbeat sessionId => rfl
  | cmd c => rfl

theorem emits_relevant (d : Daemon C) {sid : String} {g : Datagram}
    (named : relevant sid g = true) :
    (if g.msg.session = some sid then d.emits g else []) = d.emits g := by
  split
  · rfl
  · rename_i unnamed
    obtain ⟨msg, recvMs, ulid⟩ := g
    cases msg with
    | cmd c => rfl
    | _ => exact absurd (by simpa [relevant, SocketMsg.session] using named) unnamed

theorem emittedFor_filter {sid : String} {d d' : Daemon C} (agrees : Agrees sid d d')
    (gs : List Datagram) :
    (d.emittedFor sid gs).map unstamped =
      (d'.emitted (gs.filter (relevant sid))).map unstamped := by
  induction gs generalizing d d' with
  | nil => rfl
  | cons g gs ih =>
    cases named : relevant sid g with
    | true =>
      rw [List.filter_cons_of_pos named, emittedFor, emitted, emits_relevant d named,
        List.map_append, List.map_append, agrees.emits named rfl, ih (agrees.handle named rfl)]
    | false =>
      have unnamed : ¬ g.msg.session = some sid := by
        intro same
        unfold relevant at named
        split at named
        · cases named
        · cases named
        · simp [same] at named
      rw [List.filter_cons_of_neg (by simp [named]), emittedFor, if_neg unnamed, List.nil_append]
      exact ih ((handle_irrelevant d named).trans agrees)

theorem emitted_received {sid : String} {d d' : Daemon C} (agrees : Agrees sid d d')
    {gs gs' : List Datagram}
    (named : ∀ g ∈ gs, relevant sid g = true) (same : gs.map received = gs'.map received) :
    (d.emitted gs).map unstamped = (d'.emitted gs').map unstamped := by
  induction gs generalizing d d' gs' with
  | nil =>
    rw [List.map_eq_nil_iff.mp same.symm]
    rfl
  | cons g gs ih =>
    cases gs' with
    | nil => cases same
    | cons g' gs' =>
      obtain ⟨first, rest⟩ := List.cons.inj same
      have here := named g List.mem_cons_self
      rw [emitted, emitted, List.map_append, List.map_append, agrees.emits here first,
        ih (agrees.handle here first) (fun g mem => named g (List.mem_cons_of_mem _ mem)) rest]

/-- Other sessions do not influence what a session counts. -/
theorem sessions_independent (d : Daemon C) (sid : String) (gs : List Datagram) :
    (d.emittedFor sid gs).map mark = (d.emitted (gs.filter (relevant sid))).map mark ∧
      ∀ gs', (gs.filter (relevant sid)).map received = (gs'.filter (relevant sid)).map received →
        (d.emittedFor sid gs).map unstamped = (d.emittedFor sid gs').map unstamped := by
  have agrees := agrees_self sid d
  constructor
  · have events := congrArg (List.map mark) (emittedFor_filter agrees gs)
    rw [List.map_map, List.map_map] at events
    exact events
  · intro gs' same
    have named : ∀ g ∈ gs.filter (relevant sid), relevant sid g = true :=
      fun g mem => (List.mem_filter.mp mem).2
    rw [emittedFor_filter agrees gs, emittedFor_filter agrees gs']
    exact emitted_received agrees named same

end Daemon

end Spnr.Spnrd
