import Lifecycle.Readiness.Wait

/-!
# A wait by itself

A single wait run to its end on a clock that jumps to the next instant at which
something can happen. A cancellation that is set for an instant comes before
everything else in that instant.

The clock is bounded by the deadline, and between two checks it moves unless the
interval is zero, so the number of turns is bounded; `turns` is such a bound.
-/

namespace Lifecycle.Poll

structure Task (E : Type) where
  interval : Duration
  timeout : Duration
  check : Nat → Check E
  cancelled : Bool
  /-- The instant at which the wait is cancelled from outside. -/
  cancelAt : Option Nat

structure State (E : Type) where
  now : Nat
  cancelled : Bool
  /-- The instants at which checks were started. -/
  started : Array Nat
  wait : Wait E

structure Report (E : Type) where
  outcome : Outcome E
  started : List Nat
  ended : Nat
  cancelled : Bool
  deriving DecidableEq

variable {E : Type}

def State.start (t : Task E) (now : Nat) : State E :=
  ⟨now, t.cancelled, #[], .begin t.interval t.timeout now⟩

def State.fire (s : State E) (t : Task E) : State E :=
  { s with cancelled := s.cancelled || t.cancelAt.any (· ≤ s.now) }

def State.report (s : State E) (o : Outcome E) : Report E :=
  ⟨o, s.started.toList, s.now, s.cancelled⟩

/-- The next instant at which something can happen; a cancellation is noticed at once. -/
def State.next (s : State E) (t : Task E) : Nat :=
  if s.cancelled then s.now
  else
    let later := t.cancelAt.toList.filter (s.now < ·)
    ((s.wait.wakes ++ later).min?).getD s.now

/-- Looks at the wait once; if it goes on, the clock has moved to the next instant. -/
def State.step (s : State E) (t : Task E) : Report E ⊕ State E :=
  let s := s.fire t
  let go (s : State E) : Wait.Turn E → Report E ⊕ State E
    | .over o => .inl (s.report o)
    | .ask => .inr s
    | .stay w =>
      let s := { s with wait := w }
      .inr { s with now := s.next t }
  match s.wait.turn s.cancelled s.now with
  | .ask =>
    let check := t.check s.started.size
    let s := { s with cancelled := s.cancelled || check.cancels, started := s.started.push s.now }
    go s (s.wait.answer check s.now s.cancelled s.now)
  | other => go s other

def State.run (t : Task E) : Nat → State E → Option (Report E)
  | 0, _ => none
  | fuel + 1, s =>
    match s.step t with
    | .inl r => some r
    | .inr s => s.run t fuel

/-- More turns do not change how a wait went. -/
theorem State.run_mono {t : Task E} {s : State E} {r : Report E} {n m : Nat} (h : n ≤ m)
    (hr : s.run t n = some r) : s.run t m = some r := by
  induction n generalizing s m with
  | zero => cases hr
  | succ n ih =>
    obtain ⟨m, rfl⟩ : ∃ k, m = k + 1 := ⟨m - 1, by omega⟩
    rw [State.run] at hr ⊢
    split
    · next hs =>
      rw [hs] at hr
      exact hr
    · next hs =>
      rw [hs] at hr
      exact ih (by omega) hr

/-- A bound on the turns of a wait of which at most `instant` checks in a row end at once. -/
def turns (t : Task E) (instant : Nat) : Nat :=
  3 * (t.timeout.ceilMillis + instant + 3)

/-- Runs a wait that begins at the instant zero. -/
def run (t : Task E) (instant : Nat) : Option (Report E) :=
  (State.start t 0).run t (turns t instant)

/-- What is said about a wait that ended without the condition being met. -/
def message? (timeout : Duration) (text : E → String) : Outcome E → Option String
  | .ready => none
  | .timedOut => some ("timed out after " ++ timeout.text)
  | .cancelled => some "cancelled"
  | .failed e => some ("check failed: " ++ text e)

end Lifecycle.Poll
