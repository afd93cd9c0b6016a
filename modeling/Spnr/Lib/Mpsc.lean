import Mathlib.Data.List.Flatten
import Spnr.Lib.Run

/-! An unbounded channel and one consumer that hands its messages on in batches: it
waits for a first message, takes whatever else is there, hands the batch on and waits
again. The sends fall anywhere between these steps. -/
namespace Mpsc

open Transition

variable {α : Type}

inductive Consumer (α : Type) where
  | waiting
  | draining (batch : List α)
  | handing
  deriving DecidableEq

def Consumer.held : Consumer α → List α
  | .draining batch => batch
  | _ => []

/-- The messages nobody has received, the consumer, and the batches it has handed on. -/
structure Pipe (α : Type) where
  channel : List α
  consumer : Consumer α
  handed : List (List α)

inductive Op (α : Type) where
  | send (xs : List α)
  | recv
  | tryRecv
  | empty
  | done

inductive Step : Pipe α → Op α → Pipe α → Prop where
  | send (p : Pipe α) (xs : List α) : Step p (.send xs) { p with channel := p.channel ++ xs }
  | recv {x : α} {rest : List α} {handed : List (List α)} :
      Step ⟨x :: rest, .waiting, handed⟩ .recv ⟨rest, .draining [x], handed⟩
  | tryRecv {x : α} {rest batch : List α} {handed : List (List α)} :
      Step ⟨x :: rest, .draining batch, handed⟩ .tryRecv ⟨rest, .draining (batch ++ [x]), handed⟩
  | empty {batch : List α} {handed : List (List α)} :
      Step ⟨[], .draining batch, handed⟩ .empty ⟨[], .handing, handed ++ [batch]⟩
  | done {channel : List α} {handed : List (List α)} :
      Step ⟨channel, .handing, handed⟩ .done ⟨channel, .waiting, handed⟩

def Op.sent : Op α → List α
  | .send xs => xs
  | _ => []

def Pipe.all (p : Pipe α) : List α := p.handed.flatten ++ p.consumer.held ++ p.channel

/-- No batch is empty, nor is what the consumer holds while it drains. -/
structure Pipe.Full (p : Pipe α) : Prop where
  handed : ∀ batch ∈ p.handed, batch ≠ []
  held : ∀ batch, p.consumer = .draining batch → batch ≠ []

theorem Step.all {p q : Pipe α} {op : Op α} (step : Step p op q) : q.all = p.all ++ op.sent := by
  cases step <;> simp [Pipe.all, Consumer.held, Op.sent]

theorem Step.full {p q : Pipe α} {op : Op α} (step : Step p op q) (full : p.Full) : q.Full := by
  obtain ⟨handed, held⟩ := full
  cases step with
  | send xs => exact ⟨handed, held⟩
  | recv =>
    refine ⟨handed, ?_⟩
    rintro batch ⟨⟩
    exact List.cons_ne_nil _ _
  | tryRecv =>
    refine ⟨handed, ?_⟩
    rintro batch ⟨⟩
    exact List.append_ne_nil_of_right_ne_nil _ (List.cons_ne_nil _ _)
  | empty =>
    refine ⟨?_, nofun⟩
    intro batch mem
    rcases List.mem_append.mp mem with old | new
    · exact handed batch old
    · rw [List.mem_singleton.mp new]
      exact held _ rfl
  | done => exact ⟨handed, nofun⟩

theorem Step.handed {p q : Pipe α} {op : Op α} (step : Step p op q) : p.handed <+: q.handed := by
  cases step with
  | empty => exact List.prefix_append _ _
  | _ => exact List.prefix_rfl

theorem drain (channel batch : List α) (handed : List (List α)) :
    ∃ ops, (∀ op ∈ ops, op.sent = []) ∧
      Run Step ⟨channel, .draining batch, handed⟩ ops
        ⟨[], .waiting, handed ++ [batch ++ channel]⟩ := by
  induction channel generalizing batch with
  | nil =>
    refine ⟨[.empty, .done], by simp [Op.sent], .cons .empty (.cons .done ?_)⟩
    rw [List.append_nil]
    exact .nil _
  | cons x rest ih =>
    obtain ⟨ops, silent, run⟩ := ih (batch ++ [x])
    rw [List.append_assoc] at run
    exact ⟨.tryRecv :: ops, List.forall_mem_cons.mpr ⟨rfl, silent⟩, .cons .tryRecv run⟩

theorem settles (p : Pipe α) :
    ∃ ops more, (∀ op ∈ ops, op.sent = []) ∧
    (∀ batch ∈ more, batch = p.consumer.held ++ p.channel) ∧
      Run Step p ops ⟨[], .waiting, p.handed ++ more⟩ := by
  have fromWaiting (channel : List α) (handed : List (List α)) :
      ∃ ops more, (∀ op ∈ ops, op.sent = []) ∧ (∀ batch ∈ more, batch = channel) ∧
        Run Step ⟨channel, .waiting, handed⟩ ops ⟨[], .waiting, handed ++ more⟩ := by
    cases channel with
    | nil => exact ⟨[], [], nofun, nofun, by rw [List.append_nil]; exact .nil _⟩
    | cons x rest =>
      obtain ⟨ops, silent, run⟩ := drain rest [x] handed
      exact ⟨.recv :: ops, [[x] ++ rest], List.forall_mem_cons.mpr ⟨rfl, silent⟩,
        fun _ => List.mem_singleton.mp, .cons .recv run⟩
  obtain ⟨channel, consumer, handed⟩ := p
  cases consumer with
  | waiting => exact fromWaiting channel handed
  | draining batch =>
    obtain ⟨ops, silent, run⟩ := drain channel batch handed
    exact ⟨ops, [batch ++ channel], silent, fun _ => List.mem_singleton.mp, run⟩
  | handing =>
    obtain ⟨ops, more, silent, whole, run⟩ := fromWaiting channel handed
    exact ⟨.done :: ops, more, List.forall_mem_cons.mpr ⟨rfl, silent⟩, whole, .cons .done run⟩

end Mpsc
