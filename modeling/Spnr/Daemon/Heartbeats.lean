import Spnr.Daemon.Gate
import Spnr.Daemon.Overlap

/-! Heartbeats come by datagram and may be lost. What a loss costs: no stop ever counts
more for it, and all stops together at most one impression less for each lost heartbeat. -/
namespace Spnr.Spnrd

variable {C : Crates}

/-- The second run receives what the first does, less `lost` heartbeats. -/
inductive Loses : List Datagram → List Datagram → Nat → Prop where
  | nil : Loses [] [] 0
  | keep (g : Datagram) {gs gs' : List Datagram} {lost : Nat} : Loses gs gs' lost →
      Loses (g :: gs) (g :: gs') lost
  | lose {sid : String} {g : Datagram} (heartbeat : g.msg = .heartbeat sid) {gs gs' : List Datagram}
      {lost : Nat} :
    Loses gs gs' lost → Loses (g :: gs) gs' (lost + 1)

def missed (openMs closeMs : Nat) (heartbeats heartbeats' : List Nat) : Set Nat :=
  (fun k => openMs + 1000 * k) '' (coveredTicks openMs closeMs heartbeats gateWindowMs \
    coveredTicks openMs closeMs heartbeats' gateWindowMs)

theorem mem_missed {openMs closeMs t : Nat} {heartbeats heartbeats' : List Nat}
    (mem : t ∈ missed openMs closeMs heartbeats heartbeats') :
    (∃ k, 1 ≤ k ∧ k ≤ (closeMs - openMs) / 1000 ∧ t = openMs + 1000 * k) ∧
      ∃ h ∈ heartbeats, h ∉ heartbeats' ∧ h ≤ t ∧ t ≤ h + 2000 := by
  obtain ⟨k, ⟨⟨positive, inside, within⟩, missing⟩, rfl⟩ := mem
  obtain ⟨h, there, before, close⟩ := (within_covered _ _).mp within
  refine ⟨⟨k, positive, inside, rfl⟩, h, there, ?_, before, close⟩
  intro also
  exact missing ⟨positive, inside, (within_covered _ _).mpr ⟨h, also, before, close⟩⟩

theorem countableSecondsIn_fewer (openMs closeMs : Nat) (paused attested : Bool)
    {heartbeats heartbeats' : List Nat} (fewer : heartbeats' ⊆ heartbeats) :
    countableSecondsIn openMs closeMs heartbeats' gateWindowMs paused attested ≤
        countableSecondsIn openMs closeMs heartbeats gateWindowMs paused attested ∧
      countableSecondsIn openMs closeMs heartbeats gateWindowMs paused attested ≤
        countableSecondsIn openMs closeMs heartbeats' gateWindowMs paused attested +
          (missed openMs closeMs heartbeats heartbeats').ncard := by
  by_cases silent : paused ∨ ¬ attested
  · have none (hs : List Nat) : countableSecondsIn openMs closeMs hs gateWindowMs paused
      attested = 0 := by
      unfold countableSecondsIn
      rw [if_pos]
      exact silent.imp id Or.inl
    rw [none, none]
    exact ⟨Nat.le_refl 0, Nat.zero_le _⟩
  · obtain ⟨rfl, rfl⟩ : paused = false ∧ attested = true := by simpa using silent
    have finite (hs : List Nat) := coveredTicks_finite openMs closeMs gateWindowMs hs
    have scaled : Function.Injective fun k => openMs + 1000 * k := by
      intro a b same
      dsimp only at same
      omega
    rw [countableSecondsIn_ticks, countableSecondsIn_ticks, missed,
      Set.ncard_image_of_injective _ scaled]
    constructor
    · apply Set.ncard_le_ncard
      · exact coveredTicks_mono _ _ _ fewer
      · exact finite heartbeats
    · rw [Nat.add_comm]
      exact Set.ncard_le_ncard_sdiff_add_ncard _ _ (finite heartbeats')

/-- The second session has lost heartbeats of the first. -/
structure Fewer (s s' : Session) : Prop where
  phase : s'.phase = s.phase
  opened : s'.subspanOpenMs = s.subspanOpenMs
  paused : s'.paused = s.paused
  attested : s'.ttyAttested = s.ttyAttested
  beats : s'.heartbeats ⊆ s.heartbeats
  counted : s'.countableSeconds ≤ s.countableSeconds

/-- The seconds at the times `ticks` are all that the second session lacks, for heartbeats at the
times `lost`. -/
structure Charged (lost : List Nat) (now : Nat) (ticks : Set Nat) (s s' : Session) : Prop where
  beats : ∀ h ∈ s.heartbeats, h ∈ s'.heartbeats ∨ h ∈ lost
  finite : ticks.Finite
  counted : s.countableSeconds ≤ s'.countableSeconds + ticks.ncard
  spread : ∀ a ∈ ticks, ∀ b ∈ ticks, a < b → a + 1000 ≤ b
  covered : ∀ t ∈ ticks, ∃ h ∈ lost, h ≤ t ∧ t ≤ h + 2000
  past : ∀ t ∈ ticks, t ≤ now
  opened : ∀ o, s.subspanOpenMs = some o → o ≤ now ∧ ∀ t ∈ ticks, t ≤ o

theorem ticks_near {ticks : Set Nat} (spread : ∀ a ∈ ticks, ∀ b ∈ ticks, a < b → a + 1000 ≤ b)
    (h : Nat) : (ticks ∩ {t | h ≤ t ∧ t ≤ h + 2000}).ncard ≤ 3 := by
  have place : ∀ t ∈ ticks ∩ {t | h ≤ t ∧ t ≤ h + 2000},
    (t - h) / 1000 ∈ (Finset.range 3 : Set Nat) := by
    rintro t ⟨-, after, before⟩
    rw [Finset.mem_coe, Finset.mem_range]
    omega
  have apart : Set.InjOn (fun t => (t - h) / 1000) (ticks ∩ {t | h ≤ t ∧ t ≤ h + 2000}) := by
    rintro a ⟨memA, afterA, -⟩ b ⟨memB, afterB, -⟩ same
    dsimp only at same
    rcases Nat.lt_trichotomy a b with lt | eq | gt
    · have gap := spread a memA b memB lt
      omega
    · exact eq
    · have gap := spread b memB a memA gt
      omega
  have few := Set.ncard_le_ncard_of_injOn _ place apart (Finset.finite_toSet _)
  rwa [Set.ncard_coe_finset, Finset.card_range] at few

theorem Charged.more {lost : List Nat} {now : Nat} {ticks : Set Nat} {s s' : Session}
    (charged : Charged lost now ticks s s') (h : Nat) : Charged (h :: lost) now ticks s s' := by
  refine ⟨fun g mem => (charged.beats g mem).imp id (List.mem_cons_of_mem _), charged.finite,
    charged.counted, charged.spread, fun t mem => ?_, charged.past, charged.opened⟩
  obtain ⟨g, there, within⟩ := charged.covered t mem
  exact ⟨g, List.mem_cons_of_mem _ there, within⟩

theorem Charged.few {lost : List Nat} {ticks : Set Nat} (finite : ticks.Finite)
    (spread : ∀ a ∈ ticks, ∀ b ∈ ticks, a < b → a + 1000 ≤ b)
    (covered : ∀ t ∈ ticks, ∃ h ∈ lost, h ≤ t ∧ t ≤ h + 2000) : ticks.ncard ≤ 3 * lost.length := by
  induction lost generalizing ticks with
  | nil =>
    have none : ticks = ∅ := by
      rw [Set.eq_empty_iff_forall_notMem]
      intro t mem
      obtain ⟨h, absent, -⟩ := covered t mem
      cases absent
    rw [none, Set.ncard_empty]
    exact Nat.zero_le _
  | cons h rest ih =>
    have near := ticks_near spread h
    have others : (ticks \ {t | h ≤ t ∧ t ≤ h + 2000}).ncard ≤ 3 * rest.length :=
      ih (finite.subset Set.sdiff_subset)
      (fun a memA b memB => spread a memA.1 b memB.1) (by
        rintro t ⟨mem, far⟩
        obtain ⟨g, there, within⟩ := covered t mem
        rcases List.mem_cons.mp there with rfl | later
        · exact absurd within far
        · exact ⟨g, later, within⟩)
    have split := Set.ncard_inter_add_ncard_sdiff_eq_ncard ticks {t | h ≤ t ∧ t ≤ h + 2000} finite
    rw [List.length_cons]
    omega

theorem Fewer.setPaused {s s' : Session} (fewer : Fewer s s') (paused : Bool) :
    Fewer (s.setPaused paused) (s'.setPaused paused) :=
  ⟨fewer.phase, fewer.opened, rfl, fewer.attested, fewer.beats, fewer.counted⟩

theorem Fewer.closeSubspan {s s' : Session} (fewer : Fewer s s') (ts : Nat) :
    Fewer (s.closeSubspan ts) (s'.closeSubspan ts) := by
  unfold Session.closeSubspan
  rw [fewer.opened]
  cases s.subspanOpenMs with
  | none => exact fewer
  | some o =>
    refine ⟨fewer.phase, rfl, fewer.paused, fewer.attested, fewer.beats, ?_⟩
    have span := (countableSecondsIn_fewer o ts s.paused s.ttyAttested fewer.beats).1
    dsimp only
    rw [fewer.paused, fewer.attested]
    exact Nat.add_le_add fewer.counted span

theorem Fewer.resetInterval {s s' : Session} (fewer : Fewer s s') :
    Fewer s.resetInterval s'.resetInterval :=
  ⟨rfl, rfl, fewer.paused, fewer.attested, List.Subset.refl _, Nat.le_refl _⟩

theorem fewer_self (s : Session) : Fewer s s :=
  ⟨rfl, rfl, rfl, rfl, List.Subset.refl _, Nat.le_refl _⟩

theorem Fewer.apply {s s' : Session} (fewer : Fewer s s') (t : Tap) :
    Fewer (s.apply t).1 (s'.apply t).1 ∧ (s'.apply t).2 ≤ (s.apply t).2 := by
  have held := fewer.setPaused t.paused
  have closed := held.closeSubspan t.ts
  unfold Session.apply
  cases t.call with
  | prompt => exact ⟨⟨rfl, rfl, held.paused, held.attested, List.Subset.refl _, Nat.le_refl _⟩,
      Nat.le_refl 0⟩
  | preTool =>
    refine ⟨?_, Nat.le_refl 0⟩
    simp only [Session.onPreTool, held.phase]
    split
    · exact ⟨rfl, closed.opened, closed.paused, closed.attested, closed.beats, closed.counted⟩
    · exact held
  | postTool =>
    refine ⟨?_, Nat.le_refl 0⟩
    simp only [Session.onPostTool, held.phase]
    split
    · exact ⟨rfl, rfl, held.paused, held.attested, held.beats, held.counted⟩
    · exact held
  | stop =>
    simp only [Session.onStop, held.phase]
    split
    · exact ⟨closed.resetInterval, min_le_min_right _ (Nat.div_le_div_right closed.counted)⟩
    · exact ⟨held.resetInterval, min_le_min_right _ (Nat.div_le_div_right held.counted)⟩
  | heartbeat =>
    refine ⟨⟨held.phase, held.opened, held.paused, held.attested, ?_, held.counted⟩, Nat.le_refl 0⟩
    intro h mem
    exact List.mem_append.mpr ((List.mem_append.mp mem).imp (fun old => held.beats old) id)
  | reset => exact ⟨(fewer_self default).setPaused t.paused, Nat.le_refl 0⟩
  | idle => exact ⟨held, Nat.le_refl 0⟩

variable {lost : List Nat} {now : Nat} {ticks : Set Nat} {s s' : Session}

theorem Charged.fresh (now : Nat) {s s' : Session} (beats : s.heartbeats ⊆ s'.heartbeats)
    (counted : s.countableSeconds ≤ s'.countableSeconds)
    (opened : ∀ o, s.subspanOpenMs = some o → o ≤ now) : Charged lost now ∅ s s' := by
  refine ⟨fun h mem => .inl (beats mem), Set.finite_empty, by rwa [Set.ncard_empty], ?_, ?_, ?_, ?_⟩
  · exact fun a absent => absurd absent (Set.notMem_empty a)
  · exact fun t absent => absurd absent (Set.notMem_empty t)
  · exact fun t absent => absurd absent (Set.notMem_empty t)
  · exact fun o here => ⟨opened o here, fun t absent => absurd absent (Set.notMem_empty t)⟩

theorem Charged.keep (charged : Charged lost now ticks s s') {later : Nat} (le : now ≤ later)
    {v v' : Session}
    (beats : ∀ h ∈ v.heartbeats, h ∈ s.heartbeats ∨ h ∈ v'.heartbeats)
    (heard : s'.heartbeats ⊆ v'.heartbeats)
    (counted : v.countableSeconds = s.countableSeconds)
    (counted' : v'.countableSeconds = s'.countableSeconds)
    (opened : v.subspanOpenMs = s.subspanOpenMs ∨ v.subspanOpenMs = none ∨
      v.subspanOpenMs = some later) :
    Charged lost later ticks v v' := by
  refine ⟨fun h mem => ?_, charged.finite, ?_, charged.spread, charged.covered, fun t mem => ?_,
    fun o here => ?_⟩
  · rcases beats h mem with old | also
    · exact (charged.beats h old).imp (fun mem => heard mem) id
    · exact .inl also
  · rw [counted, counted']
    exact charged.counted
  · exact Nat.le_trans (charged.past t mem) le
  · rcases opened with same | none | now'
    · obtain ⟨before, all⟩ := charged.opened o (same ▸ here)
      exact ⟨Nat.le_trans before le, all⟩
    · rw [none] at here
      cases here
    · rw [now'] at here
      cases here
      exact ⟨Nat.le_refl _, fun t mem => Nat.le_trans (charged.past t mem) le⟩

theorem Charged.closeSubspan (charged : Charged lost now ticks s s') (fewer : Fewer s s') {ts : Nat}
    (le : now ≤ ts) :
    ∃ ticks', Charged lost ts ticks' (s.closeSubspan ts) (s'.closeSubspan ts) := by
  unfold Session.closeSubspan
  rw [fewer.opened]
  cases opened : s.subspanOpenMs with
  | none =>
    exact ⟨ticks, charged.keep le (fun h mem => .inl mem) (List.Subset.refl _) rfl rfl (.inl rfl)⟩
  | some o =>
    obtain ⟨before, all⟩ := charged.opened o opened
    have span := (countableSecondsIn_fewer o ts s.paused s.ttyAttested fewer.beats).2
    have finite : (missed o ts s.heartbeats s'.heartbeats).Finite :=
      ((coveredTicks_finite o ts gateWindowMs s.heartbeats).subset Set.sdiff_subset).image _
    refine ⟨ticks ∪ missed o ts s.heartbeats s'.heartbeats, charged.beats,
      charged.finite.union finite, ?_, ?_, ?_, ?_, ?_⟩
    · have apart : Disjoint ticks (missed o ts s.heartbeats s'.heartbeats) := by
        rw [Set.disjoint_left]
        intro t old new
        obtain ⟨⟨k, positive, -, rfl⟩, -⟩ := mem_missed new
        have past := all _ old
        omega
      have counted := charged.counted
      dsimp only
      rw [Set.ncard_union_eq apart charged.finite finite, fewer.paused, fewer.attested]
      omega
    · rintro a (oldA | newA) b (oldB | newB) lt
      · exact charged.spread a oldA b oldB lt
      · obtain ⟨⟨k, positive, -, rfl⟩, -⟩ := mem_missed newB
        have past := all a oldA
        omega
      · obtain ⟨⟨k, positive, -, rfl⟩, -⟩ := mem_missed newA
        have past := all b oldB
        omega
      · obtain ⟨⟨k, -, -, rfl⟩, -⟩ := mem_missed newA
        obtain ⟨⟨l, -, -, rfl⟩, -⟩ := mem_missed newB
        omega
    · rintro t (old | new)
      · exact charged.covered t old
      · obtain ⟨-, h, mem, missing, within⟩ := mem_missed new
        rcases charged.beats h mem with there | gone
        · exact absurd there missing
        · exact ⟨h, gone, within⟩
    · rintro t (old | new)
      · exact Nat.le_trans (charged.past t old) le
      · obtain ⟨⟨k, -, inside, rfl⟩, -⟩ := mem_missed new
        omega
    · intro o' none
      cases none

theorem Charged.stop (charged : Charged lost now ticks s s') :
    min (s.countableSeconds / impressionSeconds) maxImpressionsPerInterval ≤
      min (s'.countableSeconds / impressionSeconds) maxImpressionsPerInterval + lost.length := by
  have few := Charged.few charged.finite charged.spread charged.covered
  have counted := charged.counted
  simp only [impressionSeconds, maxImpressionsPerInterval]
  omega

theorem Charged.apply (charged : Charged lost now ticks s s') (fewer : Fewer s s') (t : Tap)
    (le : now ≤ t.ts) :
    (t.call ≠ .stop → ∃ ticks', Charged lost t.ts ticks' (s.apply t).1 (s'.apply t).1 ∧
      (s.apply t).2 = 0) ∧
      (t.call = .stop → (∃ ticks', Charged [] t.ts ticks' (s.apply t).1 (s'.apply t).1) ∧
        (s.apply t).2 ≤ (s'.apply t).2 + lost.length) := by
  have held : Charged lost t.ts ticks (s.setPaused t.paused) (s'.setPaused t.paused) :=
    charged.keep le (fun h mem => .inl mem) (List.Subset.refl _) rfl rfl (.inl rfl)
  have fewer' := fewer.setPaused t.paused
  obtain ⟨ticks', closed⟩ := held.closeSubspan fewer' (Nat.le_refl t.ts)
  unfold Session.apply
  cases called : t.call with
  | prompt =>
    refine ⟨fun _ => ⟨∅, .fresh _ (List.Subset.refl _) (Nat.le_refl _) ?_, rfl⟩, (by rintro ⟨⟩)⟩
    intro o here
    cases here
    exact Nat.le_refl _
  | preTool =>
    refine ⟨fun _ => ?_, (by rintro ⟨⟩)⟩
    simp only [Session.onPreTool, fewer'.phase]
    split
    · exact ⟨ticks', closed.keep (Nat.le_refl _) (fun h mem => .inl mem) (List.Subset.refl _)
        rfl rfl (.inl rfl), trivial⟩
    · exact ⟨ticks, held, trivial⟩
  | postTool =>
    refine ⟨fun _ => ?_, (by rintro ⟨⟩)⟩
    simp only [Session.onPostTool, fewer'.phase]
    split
    · refine ⟨ticks, held.keep (Nat.le_refl _) (fun h mem => .inl mem) (List.Subset.refl _)
        rfl rfl ?_, trivial⟩
      exact .inr (.inr rfl)
    · exact ⟨ticks, held, trivial⟩
  | stop =>
    refine ⟨fun other => absurd rfl other, fun _ => ?_⟩
    simp only [Session.onStop, fewer'.phase]
    split
    · exact ⟨⟨∅, .fresh _ (List.Subset.refl _) (Nat.le_refl _) (by rintro _ ⟨⟩)⟩, closed.stop⟩
    · exact ⟨⟨∅, .fresh _ (List.Subset.refl _) (Nat.le_refl _) (by rintro _ ⟨⟩)⟩, held.stop⟩
  | heartbeat =>
    refine ⟨fun _ => ⟨ticks, held.keep (Nat.le_refl _) ?_ (List.subset_append_left _ _)
      rfl rfl (.inl rfl), rfl⟩, (by rintro ⟨⟩)⟩
    intro h mem
    rcases List.mem_append.mp mem with old | new
    · exact .inl old
    · exact .inr (List.mem_append_right _ new)
  | reset => exact ⟨fun _ => ⟨∅, .fresh _ (List.Subset.refl _) (Nat.le_refl _) (by rintro _ ⟨⟩),
      rfl⟩, (by rintro ⟨⟩)⟩
  | idle => exact ⟨fun _ => ⟨ticks, held, rfl⟩, (by rintro ⟨⟩)⟩

theorem Fewer.lose (fewer : Fewer s s') (ts : Nat) : Fewer (s.onHeartbeat ts) s' :=
  ⟨fewer.phase, fewer.opened, fewer.paused, fewer.attested,
    fun _ mem => List.mem_append_left _ (fewer.beats mem), fewer.counted⟩

theorem Charged.lose (charged : Charged lost now ticks s s') {ts : Nat} (le : now ≤ ts) :
    Charged (ts :: lost) ts ticks (s.onHeartbeat ts) s' := by
  refine ⟨fun h mem => ?_, charged.finite, charged.counted, charged.spread, ?_, ?_, ?_⟩
  · rcases List.mem_append.mp mem with old | new
    · exact (charged.beats h old).imp id (List.mem_cons_of_mem _)
    · cases List.mem_singleton.mp new
      exact .inr List.mem_cons_self
  · intro t mem
    obtain ⟨h, there, within⟩ := charged.covered t mem
    exact ⟨h, List.mem_cons_of_mem _ there, within⟩
  · exact fun t mem => Nat.le_trans (charged.past t mem) le
  · intro o here
    obtain ⟨before, all⟩ := charged.opened o here
    exact ⟨Nat.le_trans before le, all⟩

namespace Daemon

def pays (d : Daemon C) (g : Datagram) : List Nat :=
  match g.msg with
  | .hook "Stop" sid => [d.stopCount sid g.recvMs]
  | _ => []

def stops (d : Daemon C) : List Datagram → List Nat
  | [] => []
  | g :: gs => d.pays g ++ (d.handle g).stops gs

theorem pays_other {d : Daemon C} {g : Datagram} (other : ∀ sid, g.msg ≠ .hook "Stop" sid) :
    d.pays g = [] := by
  unfold pays
  split
  · rename_i sid stop
    exact absurd stop (other sid)
  · rfl

theorem emits_pays (d : Daemon C) (g : Datagram) : counted (d.emits g) = (d.pays g).sum := by
  by_cases stop : ∃ sid, g.msg = .hook "Stop" sid
  · obtain ⟨sid, stop⟩ := stop
    have capped : d.stopCount sid g.recvMs ≤ 60 := onStop_le _ _
    simp only [emits, pays, stop, List.sum_singleton]
    split
    · simp only [counted, impressionEvent, Event.count, List.map_cons, List.map_nil, List.sum_cons,
        List.sum_nil, Option.getD_some, Nat.add_zero, UInt32.toNat_ofNat']
      omega
    · rw [counted_nil]
      omega
  · rw [not_exists] at stop
    have silent : d.emits g = [] := by
      unfold emits
      split
      · rename_i sid named
        exact absurd named (stop sid)
      · rfl
    rw [silent, pays_other stop]
    rfl

theorem emitted_stops (gs : List Datagram) (d : Daemon C) :
    counted (d.emitted gs) = (d.stops gs).sum := by
  induction gs generalizing d with
  | nil => rfl
  | cons g gs ih => rw [emitted, counted_append, stops, List.sum_append, emits_pays, ih]

theorem pays_apply {d : Daemon C} (flagged : Flagged d) {g : Datagram} {sid : String}
    (stop : g.msg = .hook "Stop" sid) : d.pays g = [((d.sessionOf sid).apply (d.tap sid g)).2] := by
  have still := flagged.sessionOf sid
  obtain ⟨msg, recvMs, ulid⟩ := g
  cases stop
  have flag : (d.tap sid ⟨.hook "Stop" sid, recvMs, ulid⟩).paused = d.paused :=
    (handle_hook d "Stop" sid recvMs ulid).1
  have call : (d.tap sid ⟨.hook "Stop" sid, recvMs, ulid⟩).call = .stop := tap_stop.mpr rfl
  simp only [pays, stopCount, hookSession_eq, Session.apply, call, flag]
  rfl

/-- The second daemon has missed heartbeats of the first. -/
structure Trails (d d' : Daemon C) : Prop where
  known : ∀ sid, (d'.sessions.lookup sid).isSome = (d.sessions.lookup sid).isSome
  paused : d'.paused = d.paused
  flagged : Flagged d
  flagged' : Flagged d'
  sessions : ∀ sid, Fewer (d.sessionOf sid) (d'.sessionOf sid)

theorem Trails.tap {d d' : Daemon C} (trails : Trails d d') (sid : String) (g : Datagram) :
    d'.tap sid g = d.tap sid g := by
  have paused : (d'.handle g).paused = (d.handle g).paused := by
    obtain ⟨msg, recvMs, ulid⟩ := g
    cases msg with
    | hook eventName sessionId => rw [(handle_hook ..).1, (handle_hook ..).1, trails.paused]
    | heartbeat sessionId => rw [(handle_heartbeat ..).1, (handle_heartbeat ..).1, trails.paused]
    | cmd c => cases c <;> first | rfl | exact trails.paused
  simp only [Daemon.tap, paused, trails.known]

theorem handle_known {d : Daemon C} (sid : String) (g : Datagram) :
    ((d.handle g).sessions.lookup sid).isSome =
      match g.msg with
      | .hook eventName sessionId =>
        if sessionId = sid then decide
          (hookCall eventName ≠ .reset) else (d.sessions.lookup sid).isSome
      | _ => (d.sessions.lookup sid).isSome := by
  obtain ⟨msg, recvMs, ulid⟩ := g
  cases msg with
  | hook eventName sessionId =>
    rw [(handle_hook d eventName sessionId recvMs ulid).2]
    by_cases same : sessionId = sid
    · subst same
      split <;> simp [*]
    · split <;> simp [same, Ne.symm same]
  | heartbeat sessionId =>
    rw [(handle_heartbeat d sessionId recvMs ulid).2]
    dsimp only
    cases known : d.sessions.lookup sessionId with
    | none => rfl
    | some s =>
      by_cases same : sessionId = sid
      · subst same
        simp [known]
      · simp [Ne.symm same]
  | cmd c =>
    cases c with
    | ping => rfl
    | pause =>
      simp only [handle, setPaused, HashMap.lookup_filterMap]
      cases d.sessions.lookup sid <;> rfl
    | resume =>
      simp only [handle, setPaused, HashMap.lookup_filterMap]
      cases d.sessions.lookup sid <;> rfl

theorem Trails.handle {d d' : Daemon C} (trails : Trails d d') (g : Datagram) :
    Trails (d.handle g) (d'.handle g) ∧ List.Forall₂ (· ≤ ·) (d'.pays g) (d.pays g) := by
  have applied (sid : String) := (trails.sessions sid).apply (d.tap sid g)
  refine ⟨⟨fun sid => ?_, ?_, handle_flagged trails.flagged g, handle_flagged trails.flagged' g,
    fun sid => ?_⟩, ?_⟩
  · rw [handle_known, handle_known]
    split
    · rw [trails.known]
    · exact trails.known sid
  · have same := congrArg Tap.paused (trails.tap "" g)
    exact same
  · rw [handle_sessionOf trails.flagged, handle_sessionOf trails.flagged', trails.tap]
    exact (applied sid).1
  · by_cases stop : ∃ sid, g.msg = .hook "Stop" sid
    · obtain ⟨sid, stop⟩ := stop
      rw [pays_apply trails.flagged stop, pays_apply trails.flagged' stop, trails.tap]
      exact .cons (applied sid).2 .nil
    · rw [not_exists] at stop
      rw [pays_other stop, pays_other stop]
      exact .nil

theorem heartbeat_sessionOf (d : Daemon C) {g : Datagram} {sid : String}
    (heartbeat : g.msg = .heartbeat sid) (other : String) :
    (d.handle g).sessionOf other = d.sessionOf other ∨
      other = sid ∧
      (d.handle g).sessionOf other = (d.sessionOf other).onHeartbeat g.recvMs.toNat := by
  obtain ⟨msg, recvMs, ulid⟩ := g
  cases heartbeat
  obtain ⟨paused, sessions⟩ := handle_heartbeat d sid recvMs ulid
  simp only [sessionOf]
  rw [paused, sessions]
  cases known : d.sessions.lookup sid with
  | none => exact .inl rfl
  | some s =>
    simp only [HashMap.lookup_insert]
    split
    · rename_i same
      rw [same, known]
      exact .inr ⟨rfl, rfl⟩
    · exact .inl rfl

theorem Trails.lose {d d' : Daemon C} (trails : Trails d d') {g : Datagram} {sid : String}
    (heartbeat : g.msg = .heartbeat sid) : Trails (d.handle g) d' := by
  refine ⟨fun other => ?_, ?_, handle_flagged trails.flagged g, trails.flagged', fun other => ?_⟩
  · rw [handle_known, heartbeat]
    exact trails.known other
  · obtain ⟨msg, recvMs, ulid⟩ := g
    cases heartbeat
    rw [(handle_heartbeat d sid recvMs ulid).1]
    exact trails.paused
  · rcases heartbeat_sessionOf d heartbeat other with same | ⟨-, heard⟩
    · rw [same]
      exact trails.sessions other
    · rw [heard]
      exact (trails.sessions other).lose _

def lostOf (sid : String) (pending : List (String × Nat)) : List Nat :=
  (pending.filter (·.1 = sid)).map Prod.snd

/-- `pending` are the losses that no stop has settled. -/
def Owes (pending : List (String × Nat)) (now : Nat) (d d' : Daemon C) : Prop :=
  ∀ sid, ∃ ticks, Charged (lostOf sid pending) now ticks (d.sessionOf sid) (d'.sessionOf sid)

theorem lostOf_settled {sid other : String} (apart : other ≠ sid) (pending : List (String × Nat)) :
    lostOf other (pending.filter (·.1 ≠ sid)) = lostOf other pending := by
  rw [lostOf, lostOf, List.filter_filter]
  congr 1
  apply List.filter_congr
  intro p _
  by_cases named : p.1 = other <;> simp [named, apart]

theorem lostOf_own (sid : String) (pending : List (String × Nat)) :
    lostOf sid (pending.filter (·.1 ≠ sid)) = [] ∧
      (pending.filter (·.1 ≠ sid)).length + (lostOf sid pending).length = pending.length := by
  constructor
  · rw [lostOf, List.filter_filter, List.map_eq_nil_iff, List.filter_eq_nil_iff]
    simp
  · rw [lostOf, List.length_map]
    induction pending with
    | nil => rfl
    | cons p pending ih =>
      by_cases named : p.1 = sid <;> simp [named] <;> simp at ih <;> omega

theorem Owes.handle {pending : List (String × Nat)} {now : Nat} {d d' : Daemon C}
    (owes : Owes pending now d d')
    (trails : Trails d d') {g : Datagram} (le : now ≤ g.recvMs.toNat) :
    ∃ pending', Owes pending' g.recvMs.toNat (d.handle g) (d'.handle g) ∧
      (d.pays g).sum + pending'.length ≤ (d'.pays g).sum + pending.length := by
  have after (sid : String) : (d.handle g).sessionOf sid =
    ((d.sessionOf sid).apply (d.tap sid g)).1 ∧
      (d'.handle g).sessionOf sid = ((d'.sessionOf sid).apply (d.tap sid g)).1 := by
    rw [handle_sessionOf trails.flagged, handle_sessionOf trails.flagged', trails.tap]
    exact ⟨rfl, rfl⟩
  have quiet (sid : String) (other : g.msg ≠ .hook "Stop" sid) :
      ∃ ticks, Charged (lostOf sid pending) g.recvMs.toNat ticks ((d.handle g).sessionOf sid)
        ((d'.handle g).sessionOf sid) := by
    obtain ⟨ticks, charged⟩ := owes sid
    obtain ⟨ticks', next, -⟩ :=
      (charged.apply (trails.sessions sid) (d.tap sid g) le).1 fun stop => other (tap_stop.mp stop)
    rw [(after sid).1, (after sid).2]
    exact ⟨ticks', next⟩
  by_cases stop : ∃ sid, g.msg = .hook "Stop" sid
  · obtain ⟨sid, stop⟩ := stop
    obtain ⟨none, split⟩ := lostOf_own sid pending
    obtain ⟨ticks, charged⟩ := owes sid
    obtain ⟨settled, paid⟩ :=
      (charged.apply (trails.sessions sid) (d.tap sid g) le).2 (tap_stop.mpr stop)
    refine ⟨pending.filter (·.1 ≠ sid), fun other => ?_, ?_⟩
    · by_cases same : other = sid
      · subst same
        rw [none, (after other).1, (after other).2]
        exact settled
      · rw [lostOf_settled same]
        apply quiet
        rw [stop]
        intro named
        cases named
        exact same rfl
    · rw [pays_apply trails.flagged stop, pays_apply trails.flagged' stop, trails.tap,
        List.sum_singleton, List.sum_singleton]
      omega
  · rw [not_exists] at stop
    refine ⟨pending, fun sid => quiet sid (stop sid), ?_⟩
    rw [pays_other stop, pays_other stop]

theorem Owes.lose {pending : List (String × Nat)} {now : Nat} {d d' : Daemon C}
    (owes : Owes pending now d d')
    {g : Datagram} {sid : String} (heartbeat : g.msg = .heartbeat sid) (le : now ≤ g.recvMs.toNat) :
    Owes ((sid, g.recvMs.toNat) :: pending) g.recvMs.toNat (d.handle g) d' := by
  intro other
  obtain ⟨ticks, charged⟩ := owes other
  have still : Charged (lostOf other pending) g.recvMs.toNat ticks (d.sessionOf other)
    (d'.sessionOf other) :=
    charged.keep le (fun h mem => .inl mem) (List.Subset.refl _) rfl rfl (.inl rfl)
  by_cases own : other = sid
  · have lost : lostOf other ((sid, g.recvMs.toNat) :: pending) =
      g.recvMs.toNat :: lostOf other pending := by
      simp [lostOf, own]
    rw [lost]
    rcases heartbeat_sessionOf d heartbeat other with same | ⟨-, heard⟩
    · rw [same]
      exact ⟨ticks, still.more _⟩
    · rw [heard]
      exact ⟨ticks, charged.lose le⟩
  · have lost : lostOf other ((sid, g.recvMs.toNat) :: pending) = lostOf other pending := by
      simp [lostOf, Ne.symm own]
    rw [lost]
    rcases heartbeat_sessionOf d heartbeat other with same | ⟨named, -⟩
    · rw [same]
      exact ⟨ticks, still⟩
    · exact absurd named own

theorem Trails.run {gs gs' : List Datagram} {lost : Nat} (loses : Loses gs gs' lost)
    {d d' : Daemon C} (trails : Trails d d') :
    List.Forall₂ (· ≤ ·) (d'.stops gs') (d.stops gs) := by
  induction loses generalizing d d' with
  | nil => exact .nil
  | keep g _ ih =>
    obtain ⟨next, pays⟩ := trails.handle g
    exact List.rel_append pays (ih next)
  | lose heartbeat _ ih =>
    rw [stops, pays_other (by simp [heartbeat])]
    exact ih (trails.lose heartbeat)

theorem Nondecreasing.tail {g : Datagram} {gs : List Datagram} (ordered : Nondecreasing (g :: gs)) :
    (∀ g' ∈ gs, g.recvMs.toNat ≤ g'.recvMs.toNat) ∧ Nondecreasing gs := by
  constructor
  · intro g' mem
    obtain ⟨x, inside, rfl⟩ := List.getElem_of_mem mem
    simpa [clock, List.getElem?_eq_getElem inside] using ordered 0 (x + 1) (Nat.zero_le _)
      (Nat.succ_lt_succ inside)
  · intro x y le inside
    simpa [clock] using ordered (x + 1) (y + 1) (Nat.succ_le_succ le) (Nat.succ_lt_succ inside)

theorem Owes.run {gs gs' : List Datagram} {lost : Nat} (loses : Loses gs gs' lost)
    (ordered : Nondecreasing gs)
    {pending : List (String × Nat)} {now : Nat} (later : ∀ g ∈ gs, now ≤ g.recvMs.toNat)
    {d d' : Daemon C} (trails : Trails d d') (owes : Owes pending now d d') :
    (d.stops gs).sum ≤ (d'.stops gs').sum + pending.length + lost := by
  induction loses generalizing d d' pending now with
  | nil => exact Nat.zero_le _
  | keep g _ ih =>
    obtain ⟨after, rest⟩ := ordered.tail
    obtain ⟨pending', next, paid⟩ := owes.handle trails (later g List.mem_cons_self)
    have all := ih rest after (trails.handle g).1 next
    rw [stops, stops, List.sum_append, List.sum_append]
    omega
  | lose heartbeat _ ih =>
    obtain ⟨after, rest⟩ := ordered.tail
    have all :=
      ih rest after (trails.lose heartbeat) (owes.lose heartbeat (later _ List.mem_cons_self))
    rw [List.length_cons] at all
    rw [stops, pays_other (by simp [heartbeat]), List.nil_append]
    omega

/-- Losing heartbeats makes no stop count more, and all stops together count at most one impression
less for each. -/
theorem heartbeats_lost {d : Daemon C} (started : Started d) {gs gs' : List Datagram} {lost : Nat}
    (loses : Loses gs gs' lost) :
    List.Forall₂ (· ≤ ·) (d.stops gs') (d.stops gs) ∧
    counted (d.emitted gs') ≤ counted (d.emitted gs) ∧
      (Nondecreasing gs → counted (d.emitted gs) ≤ counted (d.emitted gs') + lost) := by
  have same : Trails d d :=
    ⟨fun _ => rfl, rfl, started.flagged, started.flagged, fun sid => fewer_self _⟩
  have each := same.run loses
  refine ⟨each, ?_, fun ordered => ?_⟩
  · rw [emitted_stops, emitted_stops]
    exact List.Forall₂.sum_le_sum each
  · have owes : Owes [] 0 d d := by
      intro sid
      refine ⟨∅, .fresh 0 (List.Subset.refl _) (Nat.le_refl _) fun o here => ?_⟩
      rw [started.sessionOf] at here
      cases here
    have all := owes.run loses ordered (fun _ _ => Nat.zero_le _) same
    rw [emitted_stops, emitted_stops]
    exact all

end Daemon

theorem heartbeats_lost_solo : counted (soloDaemon.emitted (soloTurn.eraseIdx 2)) = 0 ∧
    counted (soloDaemon.emitted soloTurn) ≤
      counted (soloDaemon.emitted (soloTurn.eraseIdx 2)) + 1 := by
  have ordered : ∀ y < soloTurn.length, ∀ x ≤ y,
    Daemon.clock soloTurn x ≤ Daemon.clock soloTurn y := by decide
  have loses : Loses soloTurn (soloTurn.eraseIdx 2) 1 :=
    .keep _ (.keep _ (.lose rfl (.keep _ (.keep _ .nil))))
  obtain ⟨-, -, cost⟩ := Daemon.heartbeats_lost (.offline _ _ _) loses
  exact ⟨by decide +kernel, cost fun x y le inside => ordered y inside x le⟩

end Spnr.Spnrd
