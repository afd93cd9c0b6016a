import Spnr.Cli.Audit
import Spnr.EndToEnd.Interleaving
import Spnr.Lib.Utf8

/-! `spnr audit` beside what the machine sends. The CLI reads the queue file and nothing else;
the flush task sends what came over its channel and nothing else. They are the same records. -/
namespace Spnr.Cli

open RustStd

def auditRecords (queue : List UInt8) : List String := (readQueue queue).map fromUtf8Lossy

end Spnr.Cli

namespace Spnr.EndToEnd

open RustStd Transition Spnrd

variable {C : Crates}

def fits (envelope : String) : Bool := (asBytes envelope).length < 2 ^ 32

/-- The queue file is that of the start and the frames of everything that
was sent on the channel. -/
structure Audited (before : List (List UInt8)) (s : System C) : Prop where
  queue : s.daemon.queue = (before ++ (s.pipe.all.filter fits).map asBytes).flatMap Queue.frame
  networked : s.daemon.tx.isSome = true

theorem enqueue_frames (records : List (List UInt8)) (envelopes : List String) :
    envelopes.foldl Daemon.enqueue (records.flatMap Queue.frame) =
      (records ++ (envelopes.filter fits).map asBytes).flatMap Queue.frame := by
  induction envelopes generalizing records with
  | nil => rw [List.foldl_nil, List.filter_nil, List.map_nil, List.append_nil]
  | cons envelope rest ih =>
    have one : Daemon.enqueue (records.flatMap Queue.frame) envelope =
        (records ++ ([envelope].filter fits).map asBytes).flatMap Queue.frame := by
      unfold Daemon.enqueue Queue.append
      by_cases small : (asBytes envelope).length < 2 ^ 32
      · have kept : [envelope].filter fits = [envelope] :=
          List.filter_cons_of_pos (decide_eq_true small)
        rw [if_pos small, kept, List.flatMap_append, List.map_singleton, List.flatMap_singleton]
        rfl
      · have dropped : [envelope].filter fits = [] :=
          List.filter_cons_of_neg fun fitting => small (of_decide_eq_true fitting)
        rw [if_neg small, dropped, List.map_nil, List.append_nil]
        rfl
    rw [List.foldl_cons, one, ih, List.append_assoc, ← List.map_append, ← List.filter_append,
      List.singleton_append]

theorem Audited.step {before : List (List UInt8)} {s s' : System C} {t : Turn}
    (audited : Audited before s) (step : System.Step s t s') : Audited before s' := by
  obtain ⟨queue, networked⟩ := audited
  cases step with
  | datagram g =>
    have advances := Daemon.handle_advances s.daemon g
    obtain ⟨sent, tx⟩ := Option.isSome_iff_exists.mp networked
    constructor
    · have queued := advances.queued
      rw [queue, enqueue_frames, ← sends_eq tx] at queued
      refine queued.trans (congrArg (List.flatMap Queue.frame) ?_)
      simp [Mpsc.Pipe.all]
    · rw [advances.sent, Option.isSome_map]
      exact networked
  | flush silent step =>
    have all := step.all
    rw [silent, List.append_nil] at all
    constructor
    · dsimp only
      rw [all]
      exact queue
    · exact networked
  | arrive => exact ⟨queue, networked⟩
  | refused => exact ⟨queue, networked⟩
  | other => exact ⟨queue, networked⟩

/-- Whatever the interleaving, the audit shows what the queue held at the start and then exactly
the envelopes that were posted, are being posted or wait for it, in the order of their making. -/
theorem audit_shows_sent {d : Daemon C} {old : List (List UInt8)}
    (small : ∀ r ∈ old, r.length < 2 ^ 32)
    (queue : d.queue = old.flatMap Queue.frame) (networked : d.tx = some [])
    {srv : Server.ServerState C.VerifyingKey}
    {ts : List Turn} {s : System C} (run : Run System.Step (System.start d srv) ts s) :
    Cli.auditRecords s.daemon.queue = old.map fromUtf8Lossy ++
      (s.pipe.handed.flatten ++ s.pipe.consumer.held ++ s.pipe.channel).filter fits := by
  have start : Audited old (System.start d srv) := by
    refine ⟨?_, by rw [System.start, networked]; rfl⟩
    rw [System.start, queue]
    simp [Mpsc.Pipe.all, Mpsc.Consumer.held]
  have audited : Audited old s :=
    run.invariant (Audited old) (fun _ _ _ kept step => kept.step step) start
  have all : ∀ r ∈ old ++ (s.pipe.all.filter fits).map asBytes, r.length < 2 ^ 32 := by
    intro r mem
    rcases List.mem_append.mp mem with early | new
    · exact small r early
    · obtain ⟨envelope, there, rfl⟩ := List.mem_map.mp new
      exact of_decide_eq_true (List.mem_filter.mp there).2
  have texts : (fromUtf8Lossy ∘ asBytes) = id := funext fromUtf8Lossy_asBytes
  rw [Cli.auditRecords, Cli.readQueue_eq, audited.queue, Queue.readAll_frames _ all,
    List.map_append, List.map_map, texts, List.map_id]
  rfl

theorem audit_shows_sent_busyTurns :
    ∃ s, Run System.Step (System.start pairedDaemon pairedServer) busyTurns s ∧
    threeEnvelopes.length = 3 ∧
      Cli.auditRecords s.daemon.queue = threeEnvelopes := by
  obtain ⟨srv, run⟩ := busyTurns_run
  have none_ : ∀ r ∈ ([] : List (List UInt8)), r.length < 2 ^ 32 := by simp
  have shown := audit_shows_sent none_ rfl rfl run
  have small : threeEnvelopes.filter fits = threeEnvelopes :=
    List.filter_eq_self.mpr fun env mem =>
      decide_eq_true ((threeEnvelopes_short env mem).trans (by decide))
  have whole : (threeEnvelopes.map ([·])).flatten = threeEnvelopes := by
    rw [← List.flatMap_def]
    exact List.flatMap_singleton' _
  simp only [Mpsc.Consumer.held, List.append_nil, whole, small, List.map_nil,
    List.nil_append] at shown
  exact ⟨_, run, by decide +kernel, shown⟩

end Spnr.EndToEnd
