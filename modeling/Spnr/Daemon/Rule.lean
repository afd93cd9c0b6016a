import Mathlib.Algebra.BigOperators.Ring.Finset
import Mathlib.Algebra.Order.BigOperators.Group.Finset
import Spnr.Daemon.Engine

/-! What the engine is for, said over the history of calls: which spans of time were
waiting, which of their seconds a heartbeat covers, and what a stop pays for them.
The engine reaches the same number call by call. -/
namespace Spnr.Spnrd

/-- `reset` is the removal of the session, `idle` a message that is none of its business. -/
inductive Call where
  | prompt | preTool | postTool | stop | heartbeat | reset | idle
  deriving DecidableEq, Repr

/-- One call with its receipt time and the pause flag the session carries after it. -/
structure Tap where
  call : Call
  ts : Nat
  paused : Bool

def Session.apply (s : Session) (t : Tap) : Session × Nat :=
  match t.call with
  | .prompt => ((s.setPaused t.paused).onPromptSubmit t.ts, 0)
  | .preTool => ((s.setPaused t.paused).onPreTool t.ts, 0)
  | .postTool => ((s.setPaused t.paused).onPostTool t.ts, 0)
  | .stop => (s.setPaused t.paused).onStop t.ts
  | .heartbeat => ((s.setPaused t.paused).onHeartbeat t.ts, 0)
  | .reset => ((default : Session).setPaused t.paused, 0)
  | .idle => (s.setPaused t.paused, 0)

def Session.after (H : List Tap) : Session := H.foldl (fun s t => (s.apply t).1) default

def callAt (H : List Tap) (x : Nat) : Call := (H[x]?.map Tap.call).getD .idle
def tsAt (H : List Tap) (x : Nat) : Nat := (H[x]?.map Tap.ts).getD 0
def pausedAt (H : List Tap) (x : Nat) : Bool := (H[x]?.map Tap.paused).getD false

def returned (H : List Tap) (n : Nat) : Nat :=
  (H[n]?.map fun t => ((Session.after (H.take n)).apply t).2).getD 0

/-- `p` is the latest prompt before `n`, and nothing has ended its interval. -/
def Opens (H : List Tap) (n p : Nat) : Prop :=
  p < n ∧ callAt H p = .prompt ∧
    ∀ x, p < x → x < n → callAt H x ≠ .prompt ∧ callAt H x ≠ .stop ∧ callAt H x ≠ .reset

instance (H : List Tap) (n p : Nat) : Decidable (Opens H n p) :=
  decidable_of_iff (p < n ∧ callAt H p = .prompt ∧
      ∀ x < n, p < x → callAt H x ≠ .prompt ∧ callAt H x ≠ .stop ∧ callAt H x ≠ .reset)
    ⟨fun ⟨before, prompt, none_⟩ => ⟨before, prompt, fun x above below => none_ x below above⟩,
      fun ⟨before, prompt, none_⟩ => ⟨before, prompt, fun x below above => none_ x above below⟩⟩

def InTool (H : List Tap) (p m : Nat) : Prop :=
  ∃ x, p < x ∧ x < m ∧ callAt H x = .preTool ∧ ∀ y, x < y → y < m → callAt H y ≠ .postTool

def SpanStart (H : List Tap) (p i : Nat) : Prop :=
  i = p ∨ callAt H i = .postTool ∧ InTool H p i

def Span (H : List Tap) (p i j : Nat) : Prop :=
  p ≤ i ∧ i < j ∧ SpanStart H p i ∧ ∀ x, i < x → x < j → callAt H x ≠ .preTool

/-- A waiting sub-span of the interval that `p` opens and the stop `n` closes. -/
def WaitingSpan (H : List Tap) (p n i j : Nat) : Prop :=
  Span H p i j ∧ (callAt H j = .preTool ∨ j = n)

def HeartbeatCovers (H : List Tap) (p j tick : Nat) : Prop :=
  ∃ x, p < x ∧ x < j ∧ callAt H x = .heartbeat ∧ tsAt H x ≤ tick ∧ tick ≤ tsAt H x + 2000

def coveredSeconds (H : List Tap) (p i j : Nat) : Set Nat :=
  {k | 1 ≤ k ∧ tsAt H i + 1000 * k ≤ tsAt H j ∧ HeartbeatCovers H p j (tsAt H i + 1000 * k)}

open Classical in
noncomputable def waited (H : List Tap) (p n : Nat) : Nat :=
  ∑ j ∈ Finset.range (n + 1), ∑ i ∈ Finset.range j,
    if WaitingSpan H p n i j then (coveredSeconds H p i j).ncard else 0

/-- A sub-span that closes during a pause counts for nothing. -/
def countedSeconds (H : List Tap) (p i j : Nat) : Set Nat :=
  {k | pausedAt H j = false ∧ k ∈ coveredSeconds H p i j}

open Classical in
noncomputable def countable (H : List Tap) (p n : Nat) : Nat :=
  ∑ j ∈ Finset.range (n + 1), ∑ i ∈ Finset.range j,
    if WaitingSpan H p n i j then (countedSeconds H p i j).ncard else 0

open Classical in
noncomputable def closing (H : List Tap) (p j : Nat) : Nat :=
  ∑ i ∈ Finset.range j, if Span H p i j then (countedSeconds H p i j).ncard else 0

open Classical in
noncomputable def closedBefore (H : List Tap) (p m : Nat) : Nat :=
  ∑ j ∈ Finset.range m, if callAt H j = .preTool then closing H p j else 0

theorem countable_eq (H : List Tap) (p n : Nat) :
    countable H p n = closedBefore H p n + closing H p n := by
  classical
  unfold countable closedBefore closing
  rw [Finset.sum_range_succ]
  congr 1
  · refine Finset.sum_congr rfl fun j mem => ?_
    have before : j ≠ n := (Finset.mem_range.mp mem).ne
    by_cases pre : callAt H j = .preTool
    · simp [WaitingSpan, pre]
    · simp [WaitingSpan, pre, before]
  · refine Finset.sum_congr rfl fun i _ => ?_
    simp [WaitingSpan]

theorem closedBefore_succ (H : List Tap) (p m : Nat) :
    closedBefore H p (m + 1) =
      closedBefore H p m + if callAt H m = .preTool then closing H p m else 0 := by
  classical
  unfold closedBefore
  rw [Finset.sum_range_succ]

variable {H : List Tap} {p m n i : Nat}

theorem Span.not_inTool (span : Span H p i m) : ¬ InTool H p m := by
  obtain ⟨after, inside, start, quiet⟩ := span
  rintro ⟨x, late, before, pre, noPost⟩
  rcases Nat.lt_trichotomy i x with lt | rfl | gt
  · exact quiet x lt before pre
  · rcases start with rfl | ⟨post, -⟩
    · omega
    · rw [pre] at post
      cases post
  · rcases start with rfl | ⟨post, -⟩
    · omega
    · exact noPost i gt inside post

theorem Span.unique {i' : Nat} (span : Span H p i m) (span' : Span H p i' m) : i = i' := by
  -- the later start would need a running tool while the earlier span is waiting
  have earlier {a b : Nat} (first : Span H p a m) (second : Span H p b m) (lt : a < b) : False := by
    obtain ⟨after, -, begun, quiet⟩ := first
    obtain ⟨-, inside, start, -⟩ := second
    rcases start with rfl | ⟨-, tool⟩
    · omega
    · have still : Span H p a b :=
        ⟨after, lt, begun, fun x above below => quiet x above (by omega)⟩
      exact still.not_inTool tool
  rcases Nat.lt_trichotomy i i' with lt | same | gt
  · exact absurd (earlier span span' lt) id
  · exact same
  · exact absurd (earlier span' span gt) id

theorem closing_span (span : Span H p i m) :
    closing H p m = (countedSeconds H p i m).ncard := by
  classical
  unfold closing
  rw [Finset.sum_eq_single i]
  · rw [if_pos span]
  · intro i' _ other
    rw [if_neg]
    intro span'
    exact other (span'.unique span)
  · intro absent
    exact absurd (Finset.mem_range.mpr span.2.1) absent

theorem closing_tool (tool : InTool H p m) : closing H p m = 0 := by
  classical
  unfold closing
  refine Finset.sum_eq_zero fun i _ => ?_
  rw [if_neg]
  intro span
  exact span.not_inTool tool

/-- The state of an open interval after `m` calls. -/
structure Follows (H : List Tap) (p m : Nat) (s : Session) : Prop where
  beats : ∀ h, h ∈ s.heartbeats ↔
    ∃ x, p < x ∧ x < m ∧ callAt H x = .heartbeat ∧ tsAt H x = h
  counted : s.countableSeconds = closedBefore H p m
  phase : (s.phase = .waiting ∧ ∃ i, Span H p i m ∧ s.subspanOpenMs = some (tsAt H i)) ∨
    (s.phase = .toolRunning ∧ s.subspanOpenMs = none ∧ InTool H p m)

/-- The state between intervals. -/
structure Rests (s : Session) : Prop where
  phase : s.phase = .idle
  subspan : s.subspanOpenMs = none
  counted : s.countableSeconds = 0

structure Agrees (H : List Tap) (m : Nat) (s : Session) : Prop where
  attested : s.ttyAttested = true
  inside : ∀ p, Opens H m p → Follows H p m s
  outside : (∀ p, ¬ Opens H m p) → Rests s

theorem callAt_lt {c : Call} (h : callAt H m = c) (real : c ≠ .idle) : m < H.length := by
  by_contra out
  rw [callAt, List.getElem?_eq_none (by omega)] at h
  exact real h.symm

theorem opens_succ (prompt : callAt H m ≠ .prompt) (stop : callAt H m ≠ .stop)
    (reset : callAt H m ≠ .reset) : Opens H (m + 1) p ↔ Opens H m p := by
  constructor
  · rintro ⟨lt, prompted, none⟩
    have before : p ≠ m := by
      rintro rfl
      exact prompt prompted
    exact ⟨by omega, prompted, fun x above below => none x above (by omega)⟩
  · rintro ⟨lt, prompted, none⟩
    refine ⟨by omega, prompted, fun x above below => ?_⟩
    rcases Nat.lt_or_ge x m with inside | last
    · exact none x above inside
    · have same : x = m := by omega
      subst same
      exact ⟨prompt, stop, reset⟩

theorem opens_prompt (prompt : callAt H m = .prompt) : Opens H (m + 1) p ↔ p = m := by
  constructor
  · rintro ⟨lt, -, none⟩
    by_contra other
    exact (none m (by omega) (by omega)).1 prompt
  · rintro rfl
    exact ⟨by omega, prompt, fun x above below => by omega⟩

theorem not_opens_end (ended : callAt H m = .stop ∨ callAt H m = .reset) : ¬ Opens H (m + 1) p := by
  rintro ⟨lt, prompted, none⟩
  have before : p ≠ m := by
    rintro rfl
    rcases ended with stop | reset
    · rw [stop] at prompted
      cases prompted
    · rw [reset] at prompted
      cases prompted
  have quiet := none m (by omega) (by omega)
  rcases ended with stop | reset
  · exact quiet.2.1 stop
  · exact quiet.2.2 reset

theorem span_succ (pre : callAt H m ≠ .preTool) (span : Span H p i m) : Span H p i (m + 1) := by
  obtain ⟨after, inside, start, quiet⟩ := span
  refine ⟨after, by omega, start, fun x above below => ?_⟩
  rcases Nat.lt_or_ge x m with before | last
  · exact quiet x above before
  · have same : x = m := by omega
    exact same ▸ pre

theorem inTool_succ (post : callAt H m ≠ .postTool) (tool : InTool H p m) : InTool H p (m + 1) := by
  obtain ⟨x, late, before, pre, noPost⟩ := tool
  refine ⟨x, late, by omega, pre, fun y above below => ?_⟩
  rcases Nat.lt_or_ge y m with inside | last
  · exact noPost y above inside
  · have same : y = m := by omega
    exact same ▸ post

theorem Follows.closeSubspan {s : Session} (follows : Follows H p m s)
    (attested : s.ttyAttested = true)
    {t : Tap} (now : H[m]? = some t) (span : Span H p i m)
    (opened : s.subspanOpenMs = some (tsAt H i)) :
    ((s.setPaused t.paused).closeSubspan t.ts).countableSeconds = closedBefore H p m +
      closing H p m := by
  have ts : tsAt H m = t.ts := by simp [tsAt, now]
  have paused : pausedAt H m = t.paused := by simp [pausedAt, now]
  have covered (tick : Nat) : Covered s.heartbeats tick ↔ HeartbeatCovers H p m tick := by
    constructor
    · rintro ⟨h, mem, before, close⟩
      obtain ⟨x, late, early, beat, same⟩ := (follows.beats h).mp mem
      exact ⟨x, late, early, beat, by omega, by omega⟩
    · rintro ⟨x, late, early, beat, before, close⟩
      exact ⟨tsAt H x, (follows.beats _).mpr ⟨x, late, early, beat, rfl⟩, before, close⟩
  have brings : (if t.paused then 0 else (seconds (tsAt H i) t.ts s.heartbeats).ncard) =
      (countedSeconds H p i m).ncard := by
    cases held : t.paused with
    | true => simp [countedSeconds, paused, held]
    | false => simp [countedSeconds, coveredSeconds, seconds, paused, held, ts, covered]
  rw [closing_span span, ← brings, ← follows.counted, ← countableSecondsIn_eq]
  simp only [Session.closeSubspan, Session.setPaused, opened, attested]

theorem closedBefore_start (H : List Tap) (p : Nat) : closedBefore H p (p + 1) = 0 := by
  classical
  unfold closedBefore
  refine Finset.sum_eq_zero fun j mem => ?_
  have early := Finset.mem_range.mp mem
  have none : closing H p j = 0 := by
    unfold closing
    refine Finset.sum_eq_zero fun i _ => ?_
    rw [if_neg]
    rintro ⟨after, inside, -⟩
    omega
  rw [none, ite_self]

theorem beats_succ {s : Session} (follows : Follows H p m s)
    (quiet : callAt H m ≠ .heartbeat) (h : Nat) :
    h ∈ s.heartbeats ↔ ∃ x, p < x ∧ x < m + 1 ∧ callAt H x = .heartbeat ∧ tsAt H x = h := by
  rw [follows.beats]
  constructor
  · rintro ⟨x, late, early, beat, same⟩
    exact ⟨x, late, by omega, beat, same⟩
  · rintro ⟨x, late, early, beat, same⟩
    have before : x ≠ m := by
      rintro rfl
      exact quiet beat
    exact ⟨x, late, by omega, beat, same⟩

theorem Follows.keep {s s' : Session} (follows : Follows H p m s)
    (pre : callAt H m = .preTool → s.phase = .toolRunning)
    (post : callAt H m = .postTool → s.phase = .waiting)
    (phase : s'.phase = s.phase) (subspan : s'.subspanOpenMs = s.subspanOpenMs)
    (counted : s'.countableSeconds = s.countableSeconds)
    (beats : ∀ h, h ∈ s'.heartbeats ↔
      ∃ x, p < x ∧ x < m + 1 ∧ callAt H x = .heartbeat ∧ tsAt H x = h) :
        Follows H p (m + 1) s' := by
  refine ⟨beats, ?_, ?_⟩
  · rw [counted, follows.counted, closedBefore_succ]
    split
    · rename_i called
      rcases follows.phase with ⟨waiting, -⟩ | ⟨-, -, tool⟩
      · rw [pre called] at waiting
        cases waiting
      · rw [closing_tool tool, Nat.add_zero]
    · rfl
  · rw [phase, subspan]
    rcases follows.phase with ⟨waiting, i, span, opened⟩ | ⟨running, none, tool⟩
    · have notPre : callAt H m ≠ .preTool := by
        intro called
        rw [pre called] at waiting
        cases waiting
      exact .inl ⟨waiting, i, span_succ notPre span, opened⟩
    · have notPost : callAt H m ≠ .postTool := by
        intro called
        rw [post called] at running
        cases running
      exact .inr ⟨running, none, inTool_succ notPost tool⟩

/-! One lemma for each call. -/

theorem prompt_agrees {s : Session} (agrees : Agrees H m s) {t : Tap} (now : H[m]? = some t)
    (prompt : callAt H m = .prompt) :
    Agrees H (m + 1) ((s.setPaused t.paused).onPromptSubmit t.ts) := by
  have ts : tsAt H m = t.ts := by simp [tsAt, now]
  refine ⟨agrees.attested, ?_, ?_⟩
  · intro p opens
    obtain rfl := (opens_prompt prompt).mp opens
    refine ⟨fun h => ?_, (closedBefore_start H p).symm, .inl ⟨rfl, p, ?_, congrArg some ts.symm⟩⟩
    · simp only [Session.onPromptSubmit, Session.resetInterval, List.not_mem_nil, false_iff]
      rintro ⟨x, late, early, -⟩
      omega
    · exact ⟨le_refl p, by omega, .inl rfl, fun x above below => by omega⟩
  · intro none
    exact absurd ((opens_prompt prompt).mpr rfl) (none m)

theorem preTool_agrees {s : Session} (agrees : Agrees H m s) {t : Tap} (now : H[m]? = some t)
    (pre : callAt H m = .preTool) : Agrees H (m + 1) ((s.setPaused t.paused).onPreTool t.ts) := by
  have same (p : Nat) : Opens H (m + 1) p ↔ Opens H m p :=
    opens_succ (by simp [pre]) (by simp [pre]) (by simp [pre])
  refine ⟨?_, ?_, ?_⟩
  · unfold Session.onPreTool Session.closeSubspan
    split
    · split <;> exact agrees.attested
    · exact agrees.attested
  · intro p opens
    have follows := agrees.inside p ((same p).mp opens)
    rcases follows.phase with ⟨waiting, i, span, opened⟩ | ⟨running, -, -⟩
    · have added := follows.closeSubspan agrees.attested now span opened
      have shape : (s.setPaused t.paused).onPreTool t.ts =
          { (s.setPaused t.paused).closeSubspan t.ts with phase := .toolRunning } :=
        if_pos waiting
      rw [shape]
      refine ⟨fun h => ?_, ?_, .inr ⟨rfl, ?_, m, ?_⟩⟩
      · rw [← beats_succ follows (by simp [pre]) h]
        simp [Session.closeSubspan, Session.setPaused, opened]
      · rw [closedBefore_succ, if_pos pre]
        exact added
      · simp [Session.closeSubspan, Session.setPaused, opened]
      · exact ⟨((same p).mp opens).1, by omega, pre, fun y above below => by omega⟩
    · have shape : (s.setPaused t.paused).onPreTool t.ts = s.setPaused t.paused :=
        if_neg (by simp [Session.setPaused, running])
      rw [shape]
      have beats := beats_succ follows (by simp [pre])
      exact follows.keep (fun _ => running) (by simp [pre]) rfl rfl rfl beats
  · intro none
    have rests := agrees.outside fun p opens => none p ((same p).mpr opens)
    have shape : (s.setPaused t.paused).onPreTool t.ts = s.setPaused t.paused :=
      if_neg (by simp [Session.setPaused, rests.phase])
    rw [shape]
    exact ⟨rests.phase, rests.subspan, rests.counted⟩

theorem postTool_agrees {s : Session} (agrees : Agrees H m s) {t : Tap} (now : H[m]? = some t)
    (post : callAt H m = .postTool) :
    Agrees H (m + 1) ((s.setPaused t.paused).onPostTool t.ts) := by
  have ts : tsAt H m = t.ts := by simp [tsAt, now]
  have same (p : Nat) : Opens H (m + 1) p ↔ Opens H m p :=
    opens_succ (by simp [post]) (by simp [post]) (by simp [post])
  refine ⟨?_, ?_, ?_⟩
  · unfold Session.onPostTool
    split <;> exact agrees.attested
  · intro p opens
    have follows := agrees.inside p ((same p).mp opens)
    rcases follows.phase with ⟨waiting, -⟩ | ⟨running, -, tool⟩
    · have shape : (s.setPaused t.paused).onPostTool t.ts = s.setPaused t.paused :=
        if_neg (by simp [Session.setPaused, waiting])
      rw [shape]
      have beats := beats_succ follows (by simp [post])
      exact follows.keep (by simp [post]) (fun _ => waiting) rfl rfl rfl beats
    · have shape : (s.setPaused t.paused).onPostTool t.ts =
          { s.setPaused t.paused with phase := .waiting, subspanOpenMs := some t.ts } :=
            if_pos running
      rw [shape]
      have inside := ((same p).mp opens).1
      have beats := beats_succ follows (by simp [post])
      refine ⟨beats, ?_, .inl ⟨rfl, m, ?_, congrArg some ts.symm⟩⟩
      · rw [closedBefore_succ, if_neg (by simp [post]), Nat.add_zero]
        exact follows.counted
      · exact ⟨inside.le, by omega, .inr ⟨post, tool⟩, fun x above below => by omega⟩
  · intro none
    have rests := agrees.outside fun p opens => none p ((same p).mpr opens)
    have shape : (s.setPaused t.paused).onPostTool t.ts = s.setPaused t.paused :=
      if_neg (by simp [Session.setPaused, rests.phase])
    rw [shape]
    exact ⟨rests.phase, rests.subspan, rests.counted⟩

theorem heartbeat_agrees {s : Session} (agrees : Agrees H m s) {t : Tap} (now : H[m]? = some t)
    (beat : callAt H m = .heartbeat) :
    Agrees H (m + 1) ((s.setPaused t.paused).onHeartbeat t.ts) := by
  have ts : tsAt H m = t.ts := by simp [tsAt, now]
  have same (p : Nat) : Opens H (m + 1) p ↔ Opens H m p :=
    opens_succ (by simp [beat]) (by simp [beat]) (by simp [beat])
  refine ⟨agrees.attested, ?_, ?_⟩
  · intro p opens
    have inside := (same p).mp opens
    have follows := agrees.inside p inside
    refine follows.keep (by simp [beat]) (by simp [beat]) rfl rfl rfl fun h => ?_
    simp only [Session.onHeartbeat, Session.setPaused, List.mem_append, List.mem_singleton]
    constructor
    · rintro (old | rfl)
      · obtain ⟨x, late, early, beat', eq⟩ := (follows.beats h).mp old
        exact ⟨x, late, by omega, beat', eq⟩
      · exact ⟨m, inside.1, by omega, beat, ts⟩
    · rintro ⟨x, late, early, beat', eq⟩
      rcases Nat.lt_or_ge x m with before | last
      · exact .inl ((follows.beats h).mpr ⟨x, late, before, beat', eq⟩)
      · obtain rfl : x = m := by omega
        exact .inr (eq.symm.trans ts)
  · intro none
    have rests := agrees.outside fun p opens => none p ((same p).mpr opens)
    exact ⟨rests.phase, rests.subspan, rests.counted⟩

theorem idle_agrees {s : Session} (agrees : Agrees H m s) (idle : callAt H m = .idle)
    (paused : Bool) : Agrees H (m + 1) (s.setPaused paused) := by
  have same (p : Nat) : Opens H (m + 1) p ↔ Opens H m p :=
    opens_succ (by simp [idle]) (by simp [idle]) (by simp [idle])
  refine ⟨agrees.attested, ?_, ?_⟩
  · intro p opens
    have follows := agrees.inside p ((same p).mp opens)
    have beats := beats_succ follows (by simp [idle])
    exact follows.keep (by simp [idle]) (by simp [idle]) rfl rfl rfl beats
  · intro none
    have rests := agrees.outside fun p opens => none p ((same p).mpr opens)
    exact ⟨rests.phase, rests.subspan, rests.counted⟩

theorem end_agrees {s : Session} (ended : callAt H m = .stop ∨ callAt H m = .reset)
    (attested : s.ttyAttested = true) (rests : Rests s) : Agrees H (m + 1) s :=
  ⟨attested, fun _ opens => absurd opens (not_opens_end ended), fun _ => rests⟩

theorem Agrees.step {s : Session} (agrees : Agrees H m s) {t : Tap} (now : H[m]? = some t) :
    Agrees H (m + 1) (s.apply t).1 := by
  have call : callAt H m = t.call := by simp [callAt, now]
  unfold Session.apply
  cases kind : t.call with
  | prompt => exact prompt_agrees agrees now (call.trans kind)
  | preTool => exact preTool_agrees agrees now (call.trans kind)
  | postTool => exact postTool_agrees agrees now (call.trans kind)
  | heartbeat => exact heartbeat_agrees agrees now (call.trans kind)
  | idle => exact idle_agrees agrees (call.trans kind) t.paused
  | reset => exact end_agrees (.inr (call.trans kind)) rfl ⟨rfl, rfl, rfl⟩
  | stop =>
    refine end_agrees (.inl (call.trans kind)) ?_ ⟨rfl, rfl, rfl⟩
    simp only [Session.onStop, Session.resetInterval, Session.closeSubspan]
    split
    · split <;> exact agrees.attested
    · exact agrees.attested

theorem after_agrees (H : List Tap) (m : Nat) (inside : m ≤ H.length) :
    Agrees H m (Session.after (H.take m)) := by
  induction m with
  | zero =>
    exact ⟨rfl, fun p opens => absurd opens.1 (by omega), fun _ => ⟨rfl, rfl, rfl⟩⟩
  | succ m ih =>
    have before := ih (by omega)
    have now : H[m]? = some H[m] := List.getElem?_eq_getElem (by omega)
    have step := before.step now
    rw [Session.after] at step
    rw [Session.after, List.take_succ_eq_append_getElem (by omega), List.foldl_append]
    exact step

theorem stop_returned (stop : callAt H n = .stop) :
    (∀ p, Opens H n p → returned H n = min 60 (countable H p n / 5)) ∧
      ((∀ p, ¬ Opens H n p) → returned H n = 0) := by
  have inside := callAt_lt stop (by decide)
  have agrees := after_agrees H n inside.le
  have now : H[n]? = some H[n] := List.getElem?_eq_getElem inside
  have call : H[n].call = .stop := by simpa [callAt, now] using stop
  have pays :
    returned H n = (((Session.after (H.take n)).setPaused H[n].paused).onStop H[n].ts).2 := by
    simp [returned, now, Session.apply, call]
  rw [pays]
  constructor
  · intro p opens
    have follows := agrees.inside p opens
    rw [countable_eq, Nat.min_comm]
    rcases follows.phase with ⟨waiting, i, span, opened⟩ | ⟨running, -, tool⟩
    · rw [← follows.closeSubspan agrees.attested now span opened]
      have closes : ((Session.after (H.take n)).setPaused H[n].paused).phase = .waiting := waiting
      simp only [Session.onStop]
      rw [if_pos closes]
      rfl
    · rw [closing_tool tool, Nat.add_zero, ← follows.counted]
      simp only [Session.onStop]
      rw [if_neg (by simp [Session.setPaused, running])]
      rfl
  · intro none
    have rests := agrees.outside none
    have shape : (if ((Session.after (H.take n)).setPaused H[n].paused).phase = .waiting
        then ((Session.after (H.take n)).setPaused H[n].paused).closeSubspan H[n].ts
        else (Session.after (H.take n)).setPaused H[n].paused).countableSeconds = 0 := by
      rw [if_neg (by simp [Session.setPaused, rests.phase])]
      exact rests.counted
    simp only [Session.onStop, shape]
    rfl

theorem WaitingSpan.no_tool {j : Nat} (span : WaitingSpan H p n i j) (late : i < m)
    (early : m ≤ j) : ¬ InTool H p m := by
  obtain ⟨⟨after, -, start, quiet⟩, -⟩ := span
  have part : Span H p i m := ⟨after, late, start, fun x above below => quiet x above (by omega)⟩
  exact part.not_inTool

/-- What a session could still be paid for if it were stopped now, in milliseconds. -/
def Session.owed (s : Session) (now : Nat) : Nat :=
  1000 * s.countableSeconds + (s.subspanOpenMs.map (now - ·)).getD 0

theorem Session.owed_later (s : Session) {before now : Nat} (later : before ≤ now) :
    s.owed now ≤ s.owed before + if s.subspanOpenMs.isSome then now - before else 0 := by
  unfold Session.owed
  cases s.subspanOpenMs with
  | none => simp
  | some o =>
    simp only [Option.map_some, Option.getD_some, Option.isSome_some, if_true]
    omega

theorem Session.owed_close (s : Session) (ts : Nat) :
    1000 * (s.closeSubspan ts).countableSeconds ≤ s.owed ts ∧
    (s.closeSubspan ts).subspanOpenMs = none := by
  unfold Session.closeSubspan Session.owed
  cases opened : s.subspanOpenMs with
  | none => simp [opened]
  | some o =>
    have added := countableSecondsIn_le o ts s.heartbeats s.paused s.ttyAttested
    simp only [Option.map_some, Option.getD_some, and_true]
    omega

theorem Session.owed_apply (s : Session) (t : Tap) :
    5000 * (s.apply t).2 + (s.apply t).1.owed t.ts ≤ s.owed t.ts := by
  have held : (s.setPaused t.paused).owed t.ts = s.owed t.ts := rfl
  obtain ⟨closed, none⟩ := (s.setPaused t.paused).owed_close t.ts
  have least : 1000 * s.countableSeconds ≤ s.owed t.ts := Nat.le_add_right _ _
  unfold Session.apply
  cases t.call with
  | prompt => simp [Session.onPromptSubmit, Session.resetInterval, Session.owed]
  | preTool =>
    simp only [Session.onPreTool]
    split
    · refine Nat.le_trans (Nat.le_of_eq ?_) closed
      simp only [Session.owed, none, Option.map_none, Option.getD_none]
      omega
    · omega
  | postTool =>
    simp only [Session.onPostTool]
    split
    · simp only [Session.owed, Option.map_some, Option.getD_some, Nat.sub_self, Session.setPaused]
      omega
    · omega
  | stop =>
    have final : 1000 * (if (s.setPaused t.paused).phase = .waiting
        then (s.setPaused t.paused).closeSubspan t.ts
        else s.setPaused t.paused).countableSeconds ≤ s.owed t.ts := by
      split
      · omega
      · exact least
    simp only [Session.onStop, Session.resetInterval, Session.owed, impressionSeconds,
      Option.map_none, Option.getD_none] at final ⊢
    omega
  | heartbeat => exact Nat.le_of_eq (Nat.zero_add _)
  | reset => exact Nat.zero_le _
  | idle => exact Nat.le_of_eq (Nat.zero_add _)

theorem open_waiting (inside : m ≤ H.length)
    (opened : (Session.after (H.take m)).subspanOpenMs.isSome) :
    (Session.after (H.take m)).phase = .waiting := by
  have agrees := after_agrees H m inside
  by_cases interval : ∃ p, Opens H m p
  · obtain ⟨p, opens⟩ := interval
    rcases (agrees.inside p opens).phase with ⟨waiting, -⟩ | ⟨-, none, -⟩
    · exact waiting
    · rw [none] at opened
      cases opened
  · have rests := agrees.outside fun p opens => interval ⟨p, opens⟩
    rw [rests.subspan] at opened
    cases opened

theorem after_succ (inside : m < H.length) :
    Session.after (H.take (m + 1)) = ((Session.after (H.take m)).apply H[m]).1 ∧
      returned H m = ((Session.after (H.take m)).apply H[m]).2 := by
  constructor
  · rw [Session.after, List.take_succ_eq_append_getElem inside, List.foldl_append]
    rfl
  · simp [returned, List.getElem?_eq_getElem inside]

/-- Sessions of one daemon: their histories have one length and one clock. -/
structure Clocked {ι : Type*} (U : Finset ι) (H : ι → List Tap) (len : Nat)
    (clock : Nat → Nat) : Prop where
  length : ∀ i ∈ U, (H i).length = len
  ts : ∀ i ∈ U, ∀ x < len, tsAt (H i) x = clock x
  nondecreasing : ∀ x y, x ≤ y → y < len → clock x ≤ clock y

open Classical in
noncomputable def waitingIn {ι : Type*} (U : Finset ι) (H : ι → List Tap) (m : Nat) : Finset ι :=
  U.filter fun i => (Session.after ((H i).take m)).phase = .waiting

section Family

variable {ι : Type*} {U : Finset ι} {F : ι → List Tap} {len k : Nat} {clock : Nat → Nat}

theorem Clocked.owed_later (clocked : Clocked U F len clock) (inside : m < len)
    (few : (waitingIn U F m).card ≤ k) :
    ∑ i ∈ U, (Session.after ((F i).take m)).owed (clock m) ≤
      ∑ i ∈ U, (Session.after ((F i).take m)).owed (clock (m - 1)) +
        k * (clock m - clock (m - 1)) := by
  classical
  have later := clocked.nondecreasing (m - 1) m (by omega) inside
  calc ∑ i ∈ U, (Session.after ((F i).take m)).owed (clock m)
      ≤ ∑ i ∈ U, ((Session.after ((F i).take m)).owed (clock (m - 1)) +
          if i ∈ waitingIn U F m then clock m - clock (m - 1) else 0) := by
        apply Finset.sum_le_sum
        intro i mem
        have grows := (Session.after ((F i).take m)).owed_later later
        have waits := open_waiting (H := F i) (m := m) (by rw [clocked.length i mem]; omega)
        split at grows
        · rename_i opened
          have waiting : i ∈ waitingIn U F m := Finset.mem_filter.mpr ⟨mem, waits opened⟩
          rw [if_pos waiting]
          exact grows
        · omega
    _ = ∑ i ∈ U, (Session.after ((F i).take m)).owed (clock (m - 1)) +
          (waitingIn U F m).card * (clock m - clock (m - 1)) := by
        have among : U ∩ waitingIn U F m = waitingIn U F m :=
          Finset.inter_eq_right.mpr (Finset.filter_subset _ _)
        rw [Finset.sum_add_distrib, Finset.sum_ite_mem, among, Finset.sum_const]
        rfl
    _ ≤ _ := Nat.add_le_add_left (Nat.mul_le_mul_right _ few) _

theorem Clocked.owed_step (clocked : Clocked U F len clock) (inside : m < len) :
    5000 * ∑ i ∈ U, returned (F i) m + ∑ i ∈ U,
      (Session.after ((F i).take (m + 1))).owed (clock m) ≤
      ∑ i ∈ U, (Session.after ((F i).take m)).owed (clock m) := by
  rw [Finset.mul_sum, ← Finset.sum_add_distrib]
  apply Finset.sum_le_sum
  intro i mem
  have within : m < (F i).length := by
    rw [clocked.length i mem]
    exact inside
  have ts : (F i)[m].ts = clock m := by
    rw [← clocked.ts i mem m inside]
    simp [tsAt, List.getElem?_eq_getElem within]
  obtain ⟨next, pays⟩ := after_succ within
  have step := (Session.after ((F i).take m)).owed_apply (F i)[m]
  rw [next, pays, ← ts]
  exact step

theorem Clocked.owed_after (clocked : Clocked U F len clock)
    (few : ∀ m ≤ len, (waitingIn U F m).card ≤ k) (m : Nat) (inside : m ≤ len) :
    5000 * ∑ n ∈ Finset.range m, ∑ i ∈ U, returned (F i) n +
        ∑ i ∈ U, (Session.after ((F i).take m)).owed (clock (m - 1)) ≤
          k * (clock (m - 1) - clock 0) := by
  induction m with
  | zero =>
    have nothing : ∑ i ∈ U, (Session.after ((F i).take 0)).owed (clock (0 - 1)) = 0 :=
      Finset.sum_eq_zero fun i _ => rfl
    rw [nothing, Finset.range_zero, Finset.sum_empty]
    omega
  | succ m ih =>
    have before := ih (by omega)
    have elapsed := clocked.owed_later inside (few m (by omega))
    have step := clocked.owed_step inside
    have start := clocked.nondecreasing 0 (m - 1) (by omega) (by omega)
    have later := clocked.nondecreasing (m - 1) m (by omega) inside
    have clocks : k * (clock (m - 1) - clock 0) + k * (clock m - clock (m - 1)) =
      k * (clock m - clock 0) := by
      rw [← Nat.mul_add]
      congr 1
      omega
    rw [Finset.sum_range_succ, Nat.mul_add, Nat.add_sub_cancel]
    omega

end Family

def Nondecreasing (H : List Tap) : Prop := ∀ x y, x ≤ y → y < H.length → tsAt H x ≤ tsAt H y

theorem returned_le_clock (nondecreasing : Nondecreasing H) :
    5000 * ∑ n ∈ Finset.range H.length, returned H n ≤ tsAt H (H.length - 1) - tsAt H 0 := by
  have alone : Clocked {()} (fun _ => H) H.length (tsAt H) :=
    ⟨fun _ _ => rfl, fun _ _ _ _ => rfl, nondecreasing⟩
  have one (m : Nat) : (waitingIn {()} (fun _ => H) m).card ≤ 1 := Finset.card_filter_le _ _
  have paid := alone.owed_after (fun m _ => one m) H.length (le_refl _)
  simp only [Finset.sum_singleton] at paid
  omega

theorem countable_unpaused (unpaused : ∀ t ∈ H, t.paused = false) (p n : Nat) :
    countable H p n = waited H p n := by
  have awake (j : Nat) : pausedAt H j = false := by
    unfold pausedAt
    cases call : H[j]? with
    | none => rfl
    | some t => exact unpaused t (List.mem_of_getElem? call)
  have same (i j : Nat) : countedSeconds H p i j = coveredSeconds H p i j := by
    ext k
    simp [countedSeconds, awake]
  simp only [countable, waited, same]

theorem engine_refines_rule (H : List Tap) (unpaused : ∀ t ∈ H, t.paused = false) :
    (∀ n, callAt H n = .stop →
      (∀ p, Opens H n p → returned H n = min 60 (waited H p n / 5) ∧
        ∀ i j m, WaitingSpan H p n i j → i < m → m ≤ j → ¬ InTool H p m) ∧
      ((∀ p, ¬ Opens H n p) → returned H n = 0)) ∧
    (Nondecreasing H →
      5000 * ∑ n ∈ Finset.range H.length, returned H n ≤ tsAt H (H.length - 1) - tsAt H 0) := by
  refine ⟨fun n stop => ?_, returned_le_clock⟩
  obtain ⟨opened, closed⟩ := stop_returned stop
  refine ⟨fun p opens => ⟨?_, fun i j m span => span.no_tool⟩, closed⟩
  rw [← countable_unpaused unpaused]
  exact opened p opens

def toolTurn : List Tap :=
  [⟨.prompt, 0, false⟩, ⟨.heartbeat, 0, false⟩, ⟨.heartbeat, 2000, false⟩,
    ⟨.heartbeat, 4000, false⟩,
    ⟨.preTool, 5000, false⟩, ⟨.postTool, 65000, false⟩, ⟨.heartbeat, 66000, false⟩,
    ⟨.heartbeat, 68000, false⟩, ⟨.stop, 70000, false⟩]

theorem engine_refines_rule_toolTurn :
    returned toolTurn 8 = min 60 (waited toolTurn 0 8 / 5) ∧ returned toolTurn 8 = 2 := by
  have prompted : Opens toolTurn 8 0 := by decide
  have rule := engine_refines_rule toolTurn (by decide)
  exact ⟨((rule.1 8 (by decide)).1 0 prompted).1, by decide⟩

end Spnr.Spnrd
