import Lifecycle.Duration

/-!
# Bounded waits

A wait checks a condition until it holds, until a deadline passes, until a check
fails or until it is cancelled. It is a small machine that is looked at from time
to time: `turn` says what it does at an instant, and only when it wants a check
does it need anything from outside.

Whenever it is looked at, a cancellation comes first, then the deadline, then the
check. A check that is answered in the very turn in which it was started is not
preceded by a second look, so an answer that is there at once wins over a
cancellation that the check itself brought about. After an answer of "not yet" the
wait rests for one interval, but never beyond the deadline.
-/

namespace Lifecycle

inductive Finding (E : Type) where
  | ready
  | notYet
  | failed (e : E)
  deriving DecidableEq

/-- How one check goes: it may cancel its own wait, it takes its time, and it finds something. -/
structure Check (E : Type) where
  cancels : Bool
  /-- The milliseconds it takes; a check without a duration never ends. -/
  duration : Option Nat
  finding : Finding E
  deriving DecidableEq

/-- Whether a check that was started at an instant has ended at another. -/
def Check.endsBy {E : Type} (c : Check E) (since now : Nat) : Bool :=
  c.duration.any fun d => since + d ≤ now

inductive Outcome (E : Type) where
  | ready
  | timedOut
  | cancelled
  | failed (e : E)
  deriving DecidableEq

inductive Phase (E : Type) where
  | due
  /-- A check was asked for and has not been started yet. -/
  | asked
  | inFlight (check : Check E) (since : Nat)
  /-- The last check found nothing; the next one is to start at `wake`. -/
  | resting (wake : Nat)
  deriving DecidableEq

/-- A wait for a condition, with instants and lengths in milliseconds. -/
structure Wait (E : Type) where
  interval : Nat
  deadline : Nat
  phase : Phase E
  deriving DecidableEq

namespace Wait

variable {E : Type}

def begin (interval timeout : Duration) (now : Nat) : Wait E :=
  ⟨interval.ceilMillis, now + timeout.ceilMillis, .due⟩

/-- What a wait does when it is looked at. -/
inductive Turn (E : Type) where
  | over (o : Outcome E)
  /-- A check is to be started now. -/
  | ask
  | stay (w : Wait E)
  deriving DecidableEq

/-- Rests after a check that found nothing. -/
def rest (w : Wait E) (cancelled : Bool) (now : Nat) : Turn E :=
  if w.deadline ≤ now then .over .timedOut
  else if cancelled then .over .cancelled
  else .stay { w with phase := .resting (min (now + w.interval) w.deadline) }

/-- Looks at a running check, without regard to the deadline. -/
def answer (w : Wait E) (check : Check E) (since : Nat) (cancelled : Bool) (now : Nat) : Turn E :=
  if check.endsBy since now then
    match check.finding with
    | .ready => .over .ready
    | .failed e => .over (.failed e)
    | .notYet => w.rest cancelled now
  else .stay { w with phase := .inFlight check since }

def turn (w : Wait E) (cancelled : Bool) (now : Nat) : Turn E :=
  match w.phase with
  | .resting wake =>
    if cancelled then .over .cancelled
    else if now < wake then .stay w
    else if w.deadline ≤ now then .over .timedOut
    else .ask
  | .due | .asked =>
    if cancelled then .over .cancelled
    else if w.deadline ≤ now then .over .timedOut
    else .ask
  | .inFlight check since =>
    if cancelled then .over .cancelled
    else if w.deadline ≤ now then .over .timedOut
    else w.answer check since cancelled now

/-- A cancellation comes before everything else. -/
theorem turn_of_cancelled (w : Wait E) (now : Nat) : w.turn true now = .over .cancelled := by
  unfold turn
  split <;> rfl

/-- A check is started neither after a cancellation nor at the deadline. -/
theorem lt_deadline_of_turn_eq_ask {w : Wait E} {cancelled : Bool} {now : Nat}
    (h : w.turn cancelled now = .ask) : cancelled = false ∧ now < w.deadline := by
  cases cancelled with
  | true =>
    rw [turn_of_cancelled] at h
    cases h
  | false =>
    refine ⟨rfl, Nat.lt_of_not_le fun hd => ?_⟩
    unfold turn at h
    split at h
    · simp only [Bool.false_eq_true, if_false, if_pos hd] at h
      split at h <;> cases h
    all_goals
      simp only [Bool.false_eq_true, if_false, if_pos hd] at h
      cases h

/-- What a running check has found, if a look at an instant takes notice of it. -/
def findingAt? (w : Wait E) (cancelled : Bool) (now : Nat) : Option (Finding E) :=
  match w.phase with
  | .inFlight check since =>
    if ¬ cancelled ∧ now < w.deadline ∧ check.endsBy since now then some check.finding else none
  | _ => none

/-- The next instants at which a wait has something to do, unless it is cancelled before. -/
def wakes (w : Wait E) : List Nat :=
  match w.phase with
  | .due => []
  | .asked => [w.deadline]
  | .inFlight check since => w.deadline :: (check.duration.map (since + ·)).toList
  | .resting wake => [wake]

end Wait

end Lifecycle
