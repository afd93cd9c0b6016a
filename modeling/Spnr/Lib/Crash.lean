/-! Processes that change a state which outlives them, by calls that can fail or be the last
thing the process does. A process is safe when it ends in a good state and dies in a
tolerable one; the rules for both follow the shape of the process. -/
namespace Crash

/-- A call by its name, with what it does when it succeeds and what it leaves
when it stops on the way. -/
structure Call (S N : Type) where
  name : N
  effect : S → S
  torn : Nat → S → S

variable {S N R T : Type}

def Call.atomic (name : N) (effect : S → S) : Call S N := ⟨name, effect, fun _ => id⟩

/-- The state a call is made in is what its successor reads. -/
inductive Process (S N R : Type) where
  | ret (r : R)
  | call (c : Call S N) (next : S → Process S N R) (failed : String → Process S N R)

inductive Verdict where
  | succeeds
  | fails (text : String) (progress : Nat)
  | dies (progress : Nat)

inductive Outcome (S R : Type) where
  | ended (s : S) (r : R)
  | died (s : S)

def Outcome.state : Outcome S R → S
  | ended s _ => s
  | died s => s

namespace Process

def bind : Process S N R → (R → Process S N T) → Process S N T
  | ret r, f => f r
  | call c next failed, f => call c (fun s => (next s).bind f) fun text => (failed text).bind f

def calm : Process S N R → S → S × R
  | ret r, s => (s, r)
  | call c next _, s => (next s).calm (c.effect s)

@[simp] theorem calm_bind (p : Process S N R) (f : R → Process S N T) (s : S) :
    (p.bind f).calm s = (f (p.calm s).2).calm (p.calm s).1 := by
  induction p generalizing s with
  | ret r => rfl
  | call c next failed ih _ => exact ih s (c.effect s)

/-- The runs of a process in an environment that gives each call a verdict it may give. -/
inductive Ends (May : N → Verdict → Prop) : Process S N R → S → Outcome S R → Prop where
  | ret (r : R) (s : S) : Ends May (.ret r) s (.ended s r)
  | succeeds {c : Call S N} {next : S → Process S N R} {failed : String → Process S N R} {s : S}
      {o : Outcome S R} :
      May c.name .succeeds → Ends May (next s) (c.effect s) o → Ends May (.call c next failed) s o
  | fails {c : Call S N} {next : S → Process S N R} {failed : String → Process S N R} {s : S}
      {o : Outcome S R} {text : String} {progress : Nat} : May c.name (.fails text progress) →
      Ends May (failed text) (c.torn progress s) o → Ends May (.call c next failed) s o
  | dies {c : Call S N} {next : S → Process S N R} {failed : String → Process S N R} {s : S}
      {progress : Nat} :
      May c.name (.dies progress) → Ends May (.call c next failed) s (.died (c.torn progress s))

/-- It ends with `Good` and dies with `Left`, whatever the environment does of what it may. -/
def Safe (May : N → Verdict → Prop) (Good : R → S → Prop) (Left : S → Prop) :
    Process S N R → S → Prop
  | ret r, s => Good r s
  | call c next failed, s =>
    (May c.name .succeeds → (next s).Safe May Good Left (c.effect s)) ∧
      (∀ text progress, May c.name (.fails text progress) → (failed text).Safe May Good Left
        (c.torn progress s)) ∧
      ∀ progress, May c.name (.dies progress) → Left (c.torn progress s)

variable {May : N → Verdict → Prop} {Good Good' : R → S → Prop} {Left Left' : S → Prop}

def Holds (Good : R → S → Prop) (Left : S → Prop) : Outcome S R → Prop
  | .ended s r => Good r s
  | .died s => Left s

theorem safe_iff (p : Process S N R) (s : S) : p.Safe May Good Left s ↔ ∀ o, p.Ends May s o →
    Holds Good Left o := by
  induction p generalizing s with
  | ret r =>
    constructor
    · rintro good o (_ | _)
      exact good
    · exact fun all => all _ (.ret r s)
  | call c next failed ihNext ihFailed =>
    constructor
    · rintro ⟨on, off, dead⟩ o ends
      cases ends with
      | succeeds may rest => exact (ihNext s _).mp (on may) o rest
      | fails may rest => exact (ihFailed _ _).mp (off _ _ may) o rest
      | dies may => exact dead _ may
    · intro all
      refine ⟨fun may => ?_, fun text progress may => ?_, fun progress may => all _ (.dies may)⟩
      · exact (ihNext s _).mpr fun o rest => all o (.succeeds may rest)
      · exact (ihFailed text _).mpr fun o rest => all o (.fails may rest)

theorem Safe.mono {p : Process S N R} {s : S} (safe : p.Safe May Good Left s)
    (good : ∀ r s, Good r s → Good' r s)
    (left : ∀ s, Left s → Left' s) : p.Safe May Good' Left' s := by
  rw [safe_iff] at safe ⊢
  intro o ends
  have holds := safe o ends
  cases o with
  | ended s r => exact good r s holds
  | died s => exact left s holds

@[simp] theorem safe_bind {Good : T → S → Prop} (p : Process S N R)
    (f : R → Process S N T) (s : S) :
    (p.bind f).Safe May Good Left s ↔
    p.Safe May (fun r s => (f r).Safe May Good Left s) Left s := by
  induction p generalizing s with
  | ret r => rfl
  | call c next failed ihNext ihFailed => simp only [bind, Safe, ihNext, ihFailed]

theorem Safe.bind {Good' : T → S → Prop} {p : Process S N R} {f : R → Process S N T} {s : S}
    (first : p.Safe May Good Left s) (second : ∀ r s, Good r s → (f r).Safe May Good' Left s) :
    (p.bind f).Safe May Good' Left s := by
  rw [safe_bind]
  exact first.mono second fun _ => id

end Process

end Crash
