import Mathlib.Logic.Function.Basic
import Spnr.Lib.Run

/-! Writers that share one value. Each reads it, computes a new value from what it read,
and later puts the new value in place in one step; nothing keeps two writers apart. -/
namespace Replace

open Transition

variable {V W ι : Type} [DecidableEq ι]

/-- The shared value, what each writer between its two steps has read and is about to
write, and the writers that have written, in order. -/
structure State (V W ι : Type) where
  value : V
  pending : ι → Option (V × V)
  log : List W

def State.initial (v : V) : State V W ι := ⟨v, fun _ => none, []⟩

inductive Step (ι : Type) where
  | read (i : ι)
  | replace (i : ι)
  deriving DecidableEq

section

variable (change : W → V → Option V) (writer : ι → W)

/-- A writer that computes no new value from what it reads has nothing to put in place. -/
def step (s : State V W ι) : Step ι → State V W ι
  | .read i =>
    { s with pending := Function.update s.pending i ((change (writer i) s.value).map fun new =>
      (s.value, new)) }
  | .replace i =>
    match s.pending i with
    | none => s
    | some (_, new) => ⟨new, Function.update s.pending i none, s.log ++ [writer i]⟩

def run (s : State V W ι) (steps : List (Step ι)) : State V W ι := steps.foldl
    (step change writer) s

def Unstale (s : State V W ι) : Step ι → Prop
  | .read _ => True
  | .replace i => ∀ seen new, s.pending i = some (seen, new) → seen = s.value

def Changes (v : V) (w : W) (v' : V) : Prop := change w v = some v'

/-- What is pending was computed from what was read, and the log explains the value. -/
structure Explained (v : V) (s : State V W ι) : Prop where
  pending : ∀ i seen new, s.pending i = some (seen, new) → change (writer i) seen = some new
  serial : Run (Changes change) v s.log s.value

end

variable {change : W → V → Option V} {writer : ι → W}

theorem Explained.step {v : V} {s : State V W ι} (explained :
    Explained change writer v s) {a : Step ι}
    (unstale : Unstale s a) : Explained change writer v (step change writer s a) := by
  cases a with
  | read i =>
    refine ⟨fun j seen new found => ?_, explained.serial⟩
    by_cases own : j = i
    · subst own
      simp only [Replace.step, Function.update_self] at found
      obtain ⟨new', computed, same⟩ := Option.map_eq_some_iff.mp found
      cases same
      exact computed
    · simp only [Replace.step, Function.update_of_ne own] at found
      exact explained.pending j seen new found
  | replace i =>
    cases waiting : s.pending i with
    | none =>
      simp only [Replace.step, waiting]
      exact explained
    | some entry =>
      simp only [Replace.step, waiting]
      obtain ⟨seen, new⟩ := entry
      have current : seen = s.value := unstale seen new waiting
      have computed := explained.pending i seen new waiting
      rw [current] at computed
      refine ⟨fun j seen' new' found => ?_, explained.serial.append (.cons computed (.nil new))⟩
      by_cases own : j = i
      · subst own
        simp only [Function.update_self] at found
        cases found
      · simp only [Function.update_of_ne own] at found
        exact explained.pending j seen' new' found

end Replace
