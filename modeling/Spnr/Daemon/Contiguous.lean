import Spnr.Daemon.Rule
import Spnr.Lib.RunLengths

/-! Impressions as five seconds in a row. The engine adds the seconds of an interval up
before it divides, so that what is left of one run counts for the next. -/
namespace Spnr.Spnrd

open RunLengths

section

variable (H : List Tap) (p n i j : Nat)

instance (tick : Nat) : Decidable (HeartbeatCovers H p j tick) :=
  decidable_of_iff (∃ x < j, p < x ∧ callAt H x = .heartbeat ∧ tsAt H x ≤ tick ∧
    tick ≤ tsAt H x + 2000)
    ⟨fun ⟨x, early, late, covers⟩ => ⟨x, late, early, covers⟩,
      fun ⟨x, late, early, covers⟩ => ⟨x, early, late, covers⟩⟩

instance : Decidable (InTool H p i) :=
  decidable_of_iff (∃ x < i, p < x ∧ callAt H x = .preTool ∧ ∀ y < i,
    x < y → callAt H y ≠ .postTool)
    ⟨fun ⟨x, early, late, pre, running⟩ =>
      ⟨x, late, early, pre, fun y above below => running y below above⟩,
      fun ⟨x, late, early, pre, running⟩ =>
        ⟨x, early, late, pre, fun y below above => running y above below⟩⟩

instance : Decidable (SpanStart H p i) :=
  inferInstanceAs (Decidable (i = p ∨ callAt H i = .postTool ∧ InTool H p i))

instance : Decidable (Span H p i j) :=
  decidable_of_iff (p ≤ i ∧ i < j ∧ SpanStart H p i ∧ ∀ x < j, i < x → callAt H x ≠ .preTool)
    ⟨fun ⟨after, inside, start, quiet⟩ =>
      ⟨after, inside, start, fun x above below => quiet x below above⟩,
      fun ⟨after, inside, start, quiet⟩ =>
        ⟨after, inside, start, fun x below above => quiet x above below⟩⟩

instance : Decidable (WaitingSpan H p n i j) :=
  inferInstanceAs (Decidable (Span H p i j ∧ (callAt H j = .preTool ∨ j = n)))

/-- The whole seconds of the span from `i` to `j`, each with whether it is countable. -/
def ticks : List Bool :=
  (List.range' 1 ((tsAt H j - tsAt H i) / 1000)).map fun k =>
    decide (HeartbeatCovers H p j (tsAt H i + 1000 * k))

def overSpans (f : List Bool → Nat) : Nat :=
  ∑ j ∈ Finset.range (n + 1), ∑ i ∈ Finset.range j,
    if WaitingSpan H p n i j then f (ticks H p i j) else 0

/-- Five seconds of one run at a time; what is left of a run is dropped. -/
def contiguous : Nat := overSpans H p n fun flags => ((runs flags).map (· / 5)).sum

def leftover : Nat := overSpans H p n fun flags => ((runs flags).map (· % 5)).sum

end

variable {H : List Tap} {p n i j : Nat}

theorem count_ticks : (ticks H p i j).count true = (coveredSeconds H p i j).ncard := by
  have listed : coveredSeconds H p i j =
    ((List.range' 1 ((tsAt H j - tsAt H i) / 1000)).filter fun k =>
      decide (HeartbeatCovers H p j (tsAt H i + 1000 * k))).toFinset := by
    ext k
    rw [List.coe_toFinset, Set.mem_ofPred_eq, List.mem_filter, List.mem_range'_1, decide_eq_true_eq,
      coveredSeconds, Set.mem_ofPred_eq]
    constructor
    · rintro ⟨positive, inside, covered⟩
      exact ⟨⟨positive, by omega⟩, covered⟩
    · rintro ⟨⟨positive, inside⟩, covered⟩
      exact ⟨positive, by omega, covered⟩
  have nodup : (List.range' 1 ((tsAt H j - tsAt H i) / 1000)).Nodup := List.nodup_range'
  have once := nodup.filter fun k => decide (HeartbeatCovers H p j (tsAt H i + 1000 * k))
  rw [listed, Set.ncard_coe_finset, List.toFinset_card_of_nodup once, ticks, List.count_eq_countP,
    List.countP_map, List.countP_eq_length_filter]
  congr 2
  funext k
  simp

theorem waited_overSpans : waited H p n = overSpans H p n fun flags => (runs flags).sum := by
  classical
  unfold waited overSpans
  refine Finset.sum_congr rfl fun j _ => Finset.sum_congr rfl fun i _ => ?_
  dsimp only
  rw [sum_runs, count_ticks]
  congr

theorem waited_split : waited H p n = 5 * contiguous H p n + leftover H p n := by
  rw [waited_overSpans]
  unfold contiguous leftover overSpans
  rw [Finset.mul_sum, ← Finset.sum_add_distrib]
  refine Finset.sum_congr rfl fun j _ => ?_
  rw [Finset.mul_sum, ← Finset.sum_add_distrib]
  refine Finset.sum_congr rfl fun i _ => ?_
  split
  · exact sum_div_mod 5 _
  · rfl

/-- A stop pays for runs of five seconds only exactly when what is left of the runs comes to
less than five seconds, or the runs alone reach the cap. -/
theorem stop_contiguous (H : List Tap) (unpaused : ∀ t ∈ H, t.paused = false) {n : Nat}
    (stop : callAt H n = .stop) :
    (∀ p, Opens H n p →
      (returned H n ≤ contiguous H p n ↔ leftover H p n < 5 ∨ 60 ≤ contiguous H p n)) ∧
      ((∀ p, ¬ Opens H n p) → returned H n = 0) := by
  obtain ⟨opened, closed⟩ := stop_returned stop
  refine ⟨fun p opens => ?_, closed⟩
  rw [opened p opens, countable_unpaused unpaused, waited_split]
  omega

theorem stop_contiguous_toolTurn :
    returned toolTurn 8 ≤ contiguous toolTurn 0 8 ↔ leftover toolTurn 0 8 < 5 ∨
    60 ≤ contiguous toolTurn 0 8 := by
  have prompted : Opens toolTurn 8 0 := by decide
  exact (stop_contiguous toolTurn (by decide) (by decide)).1 0 prompted

def sparse : List Tap :=
  [⟨.prompt, 0, false⟩, ⟨.heartbeat, 0, false⟩, ⟨.heartbeat, 4000, false⟩, ⟨.stop, 6000, false⟩]

theorem sparse_pays : Nondecreasing sparse ∧ Opens sparse 3 0 ∧ (∀ t ∈ sparse, t.paused = false) ∧
    callAt sparse 3 = .stop ∧ contiguous sparse 0 3 = 0 ∧ returned sparse 3 = 1 := by
  have ordered : ∀ y < sparse.length, ∀ x ≤ y, tsAt sparse x ≤ tsAt sparse y := by decide
  exact ⟨fun x y below inside => ordered y inside x below, by decide⟩

end Spnr.Spnrd
