import Mathlib.Data.List.MinMax
import Mathlib.Data.Set.Card

/-! The impression engine of `spnrd/src/engine.rs`. Times are unix milliseconds;
no expression of the engine leaves the range of its operands, and the counter
moves one second at a time, so both are natural numbers. -/
namespace Spnr.Spnrd

def gateWindowMs : Nat := 2000
def impressionSeconds : Nat := 5
def maxImpressionsPerInterval : Nat := 60

inductive Phase where
  | idle | waiting | toolRunning
  deriving DecidableEq, Repr

structure Session where
  phase : Phase
  subspanOpenMs : Option Nat
  countableSeconds : Nat
  heartbeats : List Nat
  paused : Bool
  ttyAttested : Bool
  deriving DecidableEq

instance : Inhabited Session := ⟨⟨.idle, none, 0, [], false, true⟩⟩

def fresh (heartbeats : List Nat) (gateWindowMs tick : Nat) : Bool :=
  match (heartbeats.filter (· ≤ tick)).max? with
  | some h => tick - h ≤ gateWindowMs
  | none => false

def countableSecondsIn (openMs closeMs : Nat) (heartbeats : List Nat) (gateWindowMs : Nat)
    (paused ttyAttested : Bool) : Nat :=
  if paused ∨ ¬ ttyAttested ∨ closeMs ≤ openMs then 0
  else
    let whole := (closeMs - openMs) / 1000
    (List.range' 1 whole).foldl (fun count k =>
      if fresh heartbeats gateWindowMs (openMs + k * 1000) then count + 1 else count) 0

namespace Session

def setPaused (s : Session) (paused : Bool) : Session := { s with paused }

def setTtyAttested (s : Session) (attested : Bool) : Session := { s with ttyAttested := attested }

def onHeartbeat (s : Session) (tsMs : Nat) : Session :=
  { s with heartbeats := s.heartbeats ++ [tsMs] }

def resetInterval (s : Session) : Session :=
  { s with phase := .idle, subspanOpenMs := none, countableSeconds := 0, heartbeats := [] }

def closeSubspan (s : Session) (closeMs : Nat) : Session :=
  match s.subspanOpenMs with
  | some openMs =>
    { s with
      subspanOpenMs := none
      countableSeconds := s.countableSeconds +
        countableSecondsIn openMs closeMs s.heartbeats gateWindowMs s.paused s.ttyAttested }
  | none => s

def onPromptSubmit (s : Session) (tsMs : Nat) : Session :=
  { s.resetInterval with phase := .waiting, subspanOpenMs := some tsMs }

def onPreTool (s : Session) (tsMs : Nat) : Session :=
  if s.phase = .waiting then { s.closeSubspan tsMs with phase := .toolRunning } else s

def onPostTool (s : Session) (tsMs : Nat) : Session :=
  if s.phase = .toolRunning then { s with phase := .waiting, subspanOpenMs := some tsMs } else s

def onStop (s : Session) (tsMs : Nat) : Session × Nat :=
  let s := if s.phase = .waiting then s.closeSubspan tsMs else s
  (s.resetInterval, min (s.countableSeconds / impressionSeconds) maxImpressionsPerInterval)

end Session

/-- Some heartbeat came at most `gate` before `tick`, and none of the future counts. -/
def Within (heartbeats : List Nat) (gate tick : Nat) : Prop :=
  ∃ h ∈ heartbeats, h ≤ tick ∧ tick - h ≤ gate

theorem fresh_within (heartbeats : List Nat) (gate tick : Nat) :
    fresh heartbeats gate tick = true ↔ Within heartbeats gate tick := by
  unfold fresh Within
  cases recent : (heartbeats.filter (· ≤ tick)).max? with
  | none =>
    rw [List.max?_eq_none_iff, List.filter_eq_nil_iff] at recent
    constructor
    · intro h
      cases h
    · rintro ⟨h, mem, before, -⟩
      exact absurd (by simpa using before) (recent h mem)
  | some h =>
    obtain ⟨mem, top⟩ := List.max?_eq_some_iff.mp recent
    have kept := List.mem_filter.mp mem
    have before : h ≤ tick := by simpa using kept.2
    simp only [decide_eq_true_eq]
    constructor
    · intro close
      exact ⟨h, kept.1, before, close⟩
    · rintro ⟨h', mem', before', close⟩
      have most : h' ≤ h := top h' (List.mem_filter.mpr ⟨mem', by simpa using before'⟩)
      omega

def Covered (heartbeats : List Nat) (tick : Nat) : Prop :=
  ∃ h ∈ heartbeats, h ≤ tick ∧ tick ≤ h + 2000

theorem within_covered (heartbeats : List Nat) (tick : Nat) :
    Within heartbeats gateWindowMs tick ↔ Covered heartbeats tick := by
  apply exists_congr
  intro h
  rw [gateWindowMs, Nat.sub_le_iff_le_add']

def seconds (openMs closeMs : Nat) (heartbeats : List Nat) : Set Nat :=
  {k | 1 ≤ k ∧ openMs + 1000 * k ≤ closeMs ∧ Covered heartbeats (openMs + 1000 * k)}

theorem fold_count (p : Nat → Bool) (ks : List Nat) (n : Nat) :
    ks.foldl (fun count k => if p k then count + 1 else count) n = n + (ks.filter p).length := by
  induction ks generalizing n with
  | nil => rfl
  | cons k ks ih =>
    rw [List.foldl_cons, ih, List.filter_cons]
    split
    · simp only [List.length_cons]
      omega
    · rfl

def coveredTicks (openMs closeMs : Nat) (heartbeats : List Nat) (gate : Nat) : Set Nat :=
  {k | 1 ≤ k ∧ k ≤ (closeMs - openMs) / 1000 ∧ Within heartbeats gate (openMs + 1000 * k)}

theorem coveredTicks_eq (openMs closeMs : Nat) (heartbeats : List Nat) (gate : Nat) :
    coveredTicks openMs closeMs heartbeats gate =
      ((List.range' 1 ((closeMs - openMs) / 1000)).filter fun k =>
        fresh heartbeats gate (openMs + k * 1000)).toFinset := by
  ext k
  rw [List.coe_toFinset, Set.mem_ofPred_eq, List.mem_filter, List.mem_range'_1, fresh_within,
    coveredTicks, Set.mem_ofPred_eq, Nat.mul_comm k 1000, and_assoc]
  apply and_congr_right
  intro _
  apply and_congr_left
  intro _
  omega

theorem seconds_covered (openMs closeMs : Nat) (heartbeats : List Nat) :
    seconds openMs closeMs heartbeats = coveredTicks openMs closeMs heartbeats gateWindowMs := by
  ext k
  rw [seconds, coveredTicks, Set.mem_ofPred_eq, Set.mem_ofPred_eq, within_covered]
  constructor
  · rintro ⟨positive, inside, covered⟩
    exact ⟨positive, by omega, covered⟩
  · rintro ⟨positive, inside, covered⟩
    exact ⟨positive, by omega, covered⟩

theorem countableSecondsIn_ticks (openMs closeMs : Nat) (heartbeats : List Nat) (gate : Nat) :
    countableSecondsIn openMs closeMs heartbeats gate false true =
      (coveredTicks openMs closeMs heartbeats gate).ncard := by
  rw [coveredTicks_eq, Set.ncard_coe_finset,
    List.toFinset_card_of_nodup ((List.nodup_range' ..).filter _), countableSecondsIn]
  by_cases empty : closeMs ≤ openMs
  · have none : closeMs - openMs = 0 := by omega
    rw [none]
    simp [empty]
  · rw [fold_count]
    simp [empty]

theorem countableSecondsIn_eq (openMs closeMs : Nat) (heartbeats : List Nat) (paused : Bool) :
    countableSecondsIn openMs closeMs heartbeats gateWindowMs paused true =
      if paused then 0 else (seconds openMs closeMs heartbeats).ncard := by
  cases paused with
  | true => simp [countableSecondsIn]
  | false =>
    rw [countableSecondsIn_ticks, seconds_covered]
    rfl

theorem countableSecondsIn_le (openMs closeMs : Nat) (heartbeats : List Nat)
    (paused attested : Bool) :
    1000 * countableSecondsIn openMs closeMs heartbeats gateWindowMs paused attested ≤
      closeMs - openMs := by
  unfold countableSecondsIn
  split
  · omega
  · have few := List.length_filter_le (fun k => fresh heartbeats gateWindowMs (openMs + k * 1000))
      (List.range' 1 ((closeMs - openMs) / 1000))
    rw [List.length_range'] at few
    simp only [fold_count]
    omega

end Spnr.Spnrd
