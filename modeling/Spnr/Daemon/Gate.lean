import Mathlib.Algebra.Order.BigOperators.Group.Finset
import Mathlib.Data.Finset.Max
import Mathlib.Order.Interval.Finset.Nat
import Spnr.Daemon.Engine
import Spnr.Lib.Checked

/-! The liveness gate on machine words (`countable_seconds_in`). The loop looks at the most recent
heartbeat before each tick alone; what it counts are the ticks that any heartbeat covers. -/
namespace Spnr.Spnrd

open RustStd Checked

theorem card_near {s : Finset Nat} {w : Nat} (near : ∀ x ∈ s, ∀ y ∈ s, y ≤ x + w) :
    s.card ≤ w + 1 := by
  rcases s.eq_empty_or_nonempty with rfl | some_
  · exact Nat.zero_le _
  · have inside : s ⊆ Finset.Icc (s.min' some_) (s.min' some_ + w) := by
      intro x mem
      rw [Finset.mem_Icc]
      exact ⟨s.min'_le x mem, near _ (s.min'_mem some_) x mem⟩
    have few := Finset.card_le_card inside
    rw [Nat.card_Icc] at few
    omega

section

variable (openMs closeMs : Nat) (gate : Nat)

theorem coveredTicks_finite (heartbeats : List Nat) :
    (coveredTicks openMs closeMs heartbeats gate).Finite := by
  rw [coveredTicks_eq]
  exact Finset.finite_toSet _

theorem coveredTicks_mono {heartbeats more : List Nat} (there : heartbeats ⊆ more) :
    coveredTicks openMs closeMs heartbeats gate ⊆ coveredTicks openMs closeMs more gate := by
  rintro k ⟨positive, inside, h, mem, covers⟩
  exact ⟨positive, inside, h, there mem, covers⟩

theorem coveredTicks_le (heartbeats : List Nat) :
    (coveredTicks openMs closeMs heartbeats gate).ncard ≤ (closeMs - openMs) / 1000 := by
  have inside : coveredTicks openMs closeMs heartbeats gate ⊆
    ↑(Finset.Icc 1 ((closeMs - openMs) / 1000)) := by
    rintro k ⟨positive, inside, -⟩
    exact Finset.mem_coe.mpr (Finset.mem_Icc.mpr ⟨positive, inside⟩)
  have few := Set.ncard_le_ncard inside (Finset.finite_toSet _)
  rw [Set.ncard_coe_finset, Nat.card_Icc] at few
  omega

theorem coveredTicks_few (heartbeats : List Nat) :
    (coveredTicks openMs closeMs heartbeats gate).ncard ≤ heartbeats.toFinset.card *
      (gate / 1000 + 1) := by
  let covered (h : Nat) : Finset Nat :=
    (Finset.Icc 1 ((closeMs - openMs) / 1000)).filter fun k => h ≤ openMs + 1000 * k ∧
      openMs + 1000 * k - h ≤ gate
  have each : ∀ h ∈ heartbeats.toFinset, (covered h).card ≤ gate / 1000 + 1 := by
    intro h _
    apply card_near
    intro x here y there
    have first := (Finset.mem_filter.mp here).2
    have second := (Finset.mem_filter.mp there).2
    omega
  have all : coveredTicks openMs closeMs heartbeats gate ⊆
    ↑(heartbeats.toFinset.biUnion covered) := by
    rintro k ⟨positive, inside, h, mem, covers⟩
    rw [Finset.mem_coe, Finset.mem_biUnion]
    exact ⟨h, List.mem_toFinset.mpr mem,
      Finset.mem_filter.mpr ⟨Finset.mem_Icc.mpr ⟨positive, inside⟩, covers⟩⟩
  calc (coveredTicks openMs closeMs heartbeats gate).ncard
      ≤ (heartbeats.toFinset.biUnion covered).card := by
        rw [← Set.ncard_coe_finset]
        exact Set.ncard_le_ncard all (Finset.finite_toSet _)
    _ ≤ heartbeats.toFinset.card * (gate / 1000 + 1) := Finset.card_biUnion_le_card_mul _ _ _ each

end

namespace U64

/-- One turn of `for k in 1..=whole`. -/
def countSecond (openMs : UInt64) (heartbeats : List UInt64) (gateWindowMs count k : UInt64) :
    Checked UInt64 := do
  let offset ← u64 (k.toNat * 1000)
  let tick ← u64 (openMs.toNat + offset.toNat)
  match (heartbeats.filter (· ≤ tick)).max? with
  | some h =>
    let age ← u64 (tick.toNat - h.toNat)
    if age ≤ gateWindowMs then u64 (count.toNat + 1) else return count
  | none => return count

def countableSecondsIn (openMs closeMs : UInt64) (heartbeats : List UInt64) (gateWindowMs : UInt64)
    (paused ttyAttested : Bool) : Checked UInt64 :=
  if paused ∨ ¬ ttyAttested ∨ closeMs ≤ openMs then return 0
  else do
    let span ← u64 (closeMs.toNat - openMs.toNat)
    let whole := span / 1000
    ((List.range' 1 whole.toNat).map UInt64.ofNat).foldlM
      (countSecond openMs heartbeats gateWindowMs) 0

end U64

theorem toNat_word {n : Nat} (small : n < 2 ^ 64) : (UInt64.ofNat n).toNat = n :=
  UInt64.toNat_ofNat_of_lt' small

theorem word_ok {x : Int} {n : Nat} (same : x = n) (small : n < 2 ^ 64) :
    u64 x = .ok (UInt64.ofNat n) := by
  rw [u64, if_pos (by omega), same, Int.toNat_natCast]

instance lawfulMax_word : Std.LawfulOrderMax UInt64 := by
  apply Std.LawfulOrderMax.of_max_le_iff
  · intro a b c
    change (if a ≤ b then b else a) ≤ c ↔ a ≤ c ∧ b ≤ c
    simp only [UInt64.le_iff_toNat_le]
    split <;> omega
  · intro a b
    change (if a ≤ b then b else a) = a ∨ (if a ≤ b then b else a) = b
    split
    · exact .inr rfl
    · exact .inl rfl

theorem recent_words (heartbeats : List UInt64) (tick : UInt64) :
    ((heartbeats.map UInt64.toNat).filter (· ≤ tick.toNat)).max? =
      (heartbeats.filter (· ≤ tick)).max?.map UInt64.toNat := by
  have listed : (heartbeats.map UInt64.toNat).filter (· ≤ tick.toNat) =
      (heartbeats.filter (· ≤ tick)).map UInt64.toNat := by
    rw [List.filter_map]
    apply congrArg (List.map UInt64.toNat)
    apply List.filter_congr
    intro h _
    rw [Function.comp_apply, decide_eq_decide, UInt64.le_iff_toNat_le]
  rw [listed]
  cases recent : (heartbeats.filter (· ≤ tick)).max? with
  | none =>
    rw [List.max?_eq_none_iff] at recent
    rw [recent]
    rfl
  | some h =>
    obtain ⟨mem, top⟩ := List.max?_eq_some_iff.mp recent
    refine List.max?_eq_some_iff.mpr ⟨List.mem_map_of_mem mem, ?_⟩
    rintro _ other
    obtain ⟨h', mem', rfl⟩ := List.mem_map.mp other
    exact UInt64.le_iff_toNat_le.mp (top h' mem')

section

variable (openMs closeMs gate : UInt64) (heartbeats : List UInt64)

theorem countSecond_ok {count k : Nat} (inside : openMs.toNat + k * 1000 < 2 ^ 64)
    (room : count + 1 < 2 ^ 64) :
    U64.countSecond openMs heartbeats gate (UInt64.ofNat count) (UInt64.ofNat k) =
      .ok (UInt64.ofNat
        (if fresh (heartbeats.map UInt64.toNat) gate.toNat (openMs.toNat + k * 1000) then count + 1
        else count)) := by
  have offset : u64 ((UInt64.ofNat k).toNat * 1000) = .ok (UInt64.ofNat (k * 1000)) := by
    apply word_ok
    · rw [toNat_word (by omega)]
      rfl
    · omega
  have tick : u64 (openMs.toNat + (UInt64.ofNat (k * 1000)).toNat) =
    .ok (UInt64.ofNat (openMs.toNat + k * 1000)) := by
    apply word_ok
    · rw [toNat_word (by omega)]
      rfl
    · exact inside
  have value := toNat_word inside
  have recent := recent_words heartbeats (UInt64.ofNat (openMs.toNat + k * 1000))
  rw [value] at recent
  rw [U64.countSecond, offset, ok_bind, tick, ok_bind, fresh, recent]
  cases found : (heartbeats.filter (· ≤ UInt64.ofNat (openMs.toNat + k * 1000))).max? with
  | none => rfl
  | some h =>
    have before : h.toNat ≤ openMs.toNat + k * 1000 := by
      have kept := (List.mem_filter.mp (List.max?_eq_some_iff.mp found).1).2
      rw [decide_eq_true_eq, UInt64.le_iff_toNat_le, value] at kept
      exact kept
    have age : u64 ((UInt64.ofNat (openMs.toNat + k * 1000)).toNat - h.toNat) =
        .ok (UInt64.ofNat (openMs.toNat + k * 1000 - h.toNat)) := by
      apply word_ok
      · rw [value]
        omega
      · omega
    have up : u64 ((UInt64.ofNat count).toNat + 1) = .ok (UInt64.ofNat (count + 1)) := by
      apply word_ok
      · rw [toNat_word (by omega)]
        rfl
      · exact room
    simp only [age, ok_bind, up, UInt64.le_iff_toNat_le, Option.map_some, decide_eq_true_eq,
      toNat_word (show openMs.toNat + k * 1000 - h.toNat < 2 ^ 64 by omega)]
    split
    · rfl
    · rfl

theorem seconds_ok (ks : List Nat) (inside : ∀ k ∈ ks, openMs.toNat + k * 1000 < 2 ^ 64)
    {count : Nat} (room : count + ks.length < 2 ^ 64) :
    (ks.map UInt64.ofNat).foldlM (U64.countSecond openMs heartbeats gate) (UInt64.ofNat count) =
      .ok (UInt64.ofNat (ks.foldl (fun count k =>
        if fresh (heartbeats.map UInt64.toNat) gate.toNat (openMs.toNat + k * 1000) then count +
          1 else count) count)) := by
  induction ks generalizing count with
  | nil => rfl
  | cons k ks ih =>
    rw [List.length_cons] at room
    rw [List.map_cons, List.foldlM_cons,
      countSecond_ok openMs gate heartbeats (inside k List.mem_cons_self) (by omega),
      ok_bind, List.foldl_cons]
    apply ih
    · exact fun k mem => inside k (List.mem_cons_of_mem _ mem)
    · split <;> omega

theorem countableSecondsIn_words (paused attested : Bool) :
    U64.countableSecondsIn openMs closeMs heartbeats gate paused attested =
      .ok (UInt64.ofNat
        (countableSecondsIn openMs.toNat closeMs.toNat (heartbeats.map UInt64.toNat) gate.toNat
        paused attested)) := by
  have words := closeMs.toNat_lt
  rw [U64.countableSecondsIn, countableSecondsIn]
  simp only [UInt64.le_iff_toNat_le]
  split
  · rfl
  · rename_i counts
    have order : openMs.toNat < closeMs.toNat := by
      simp only [not_or, Nat.not_le] at counts
      exact counts.2.2
    have span : u64 (closeMs.toNat - openMs.toNat) =
      .ok (UInt64.ofNat (closeMs.toNat - openMs.toNat)) := by
      apply word_ok
      · omega
      · omega
    have whole : (UInt64.ofNat (closeMs.toNat - openMs.toNat) / 1000).toNat =
      (closeMs.toNat - openMs.toNat) / 1000 := by
      rw [UInt64.toNat_div, toNat_word (by omega)]
      rfl
    have inside : ∀ k ∈ List.range' 1 ((closeMs.toNat - openMs.toNat) / 1000),
      openMs.toNat + k * 1000 < 2 ^ 64 := by
      intro k mem
      have last := (List.mem_range'_1.mp mem).2
      omega
    have room : 0 + (List.range' 1 ((closeMs.toNat - openMs.toNat) / 1000)).length < 2 ^ 64 := by
      rw [List.length_range']
      omega
    rw [span, ok_bind, whole]
    exact seconds_ok openMs gate heartbeats _ inside room

theorem running_ok :
    ∃ n, U64.countableSecondsIn openMs closeMs heartbeats gate false true = .ok n ∧
      n.toNat = (coveredTicks openMs.toNat closeMs.toNat (heartbeats.map UInt64.toNat)
        gate.toNat).ncard := by
  have few := coveredTicks_le openMs.toNat closeMs.toNat gate.toNat (heartbeats.map UInt64.toNat)
  have words := closeMs.toNat_lt
  refine ⟨_, countableSecondsIn_words openMs closeMs gate heartbeats false true, ?_⟩
  rw [countableSecondsIn_ticks]
  apply toNat_word
  omega

end

/-- The liveness gate counts exactly the covered ticks, on words; it goes by which heartbeats there
are, more of them never count less, and each is good for one gate of ticks. -/
theorem liveness_gate (openMs closeMs gate : UInt64) (heartbeats : List UInt64) :
    ∃ n, U64.countableSecondsIn openMs closeMs heartbeats gate false true = .ok n ∧
      n.toNat =
        (coveredTicks openMs.toNat closeMs.toNat (heartbeats.map UInt64.toNat) gate.toNat).ncard ∧
      (∀ others : List UInt64, (∀ h, h ∈ others ↔ h ∈ heartbeats) →
        U64.countableSecondsIn openMs closeMs others gate false true = .ok n) ∧
      (∀ more : List UInt64, heartbeats ⊆ more →
        ∃ m, U64.countableSecondsIn openMs closeMs more gate false true = .ok m ∧ n ≤ m) ∧
      n.toNat ≤ heartbeats.toFinset.card * (gate.toNat / 1000 + 1) := by
  obtain ⟨n, counted, exact_⟩ := running_ok openMs closeMs gate heartbeats
  have compare {more : List UInt64} (there : heartbeats ⊆ more) :
      ∃ m, U64.countableSecondsIn openMs closeMs more gate false true = .ok m ∧ n ≤ m := by
    obtain ⟨m, found, size⟩ := running_ok openMs closeMs gate more
    refine ⟨m, found, ?_⟩
    rw [UInt64.le_iff_toNat_le, exact_, size]
    apply Set.ncard_le_ncard
    · exact coveredTicks_mono _ _ _ (List.map_subset _ there)
    · exact coveredTicks_finite _ _ _ _
  refine ⟨n, counted, exact_, ?_, fun more there => compare there, ?_⟩
  · intro others same
    obtain ⟨m, found, size⟩ := running_ok openMs closeMs gate others
    have ticks : coveredTicks openMs.toNat closeMs.toNat (others.map UInt64.toNat) gate.toNat =
        coveredTicks openMs.toNat closeMs.toNat (heartbeats.map UInt64.toNat) gate.toNat := by
      apply Set.Subset.antisymm
      · exact coveredTicks_mono _ _ _ (List.map_subset _ fun h mem => (same h).mp mem)
      · exact coveredTicks_mono _ _ _ (List.map_subset _ fun h mem => (same h).mpr mem)
    rw [ticks, ← exact_] at size
    rw [found, UInt64.toNat_inj.mp size]
  · have image : (heartbeats.map UInt64.toNat).toFinset =
      heartbeats.toFinset.image UInt64.toNat := by
      ext h
      simp only [List.mem_toFinset, List.mem_map, Finset.mem_image]
    have distinct : (heartbeats.map UInt64.toNat).toFinset.card ≤ heartbeats.toFinset.card := by
      rw [image]
      exact Finset.card_image_le
    rw [exact_]
    exact (coveredTicks_few _ _ _ _).trans (Nat.mul_le_mul_right _ distinct)

end Spnr.Spnrd
