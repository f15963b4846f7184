import Lifecycle.Duration
import Lifecycle.Fault
import Lifecycle.Text.Blank
import Lifecycle.Text.Numeral

/-!
# Readiness policies

How often a schema is asked for, and how long at most. A policy is admitted when
it neither asks in a tight loop nor gives up before it has asked once more: the
interval is positive and not above the timeout.

The two settings of a policy can be given as texts; a text that is not given
leaves its setting at the default.
-/

namespace Lifecycle

structure Policy where
  pollInterval : Duration
  readinessTimeout : Duration
  deriving DecidableEq

namespace Policy

/-- The name of the setting that holds the interval, in milliseconds. -/
def intervalSetting : String := "TRELLIS_READINESS_POLL_INTERVAL_MS"

/-- The name of the setting that holds the timeout, in seconds. -/
def timeoutSetting : String := "TRELLIS_READINESS_TIMEOUT_SECS"

def defaultMillis : Nat := 200

def defaultSecs : Nat := 10

def default : Policy := ⟨.ofMillis defaultMillis, .ofSecs defaultSecs⟩

/-- The policies that are put to use. -/
def Admitted (p : Policy) : Prop :=
  Duration.zero < p.pollInterval ∧ p.pollInterval ≤ p.readinessTimeout

instance (p : Policy) : Decidable p.Admitted := by
  unfold Admitted
  infer_instance

/-- The policy itself if it is admitted. Either way of failing blames the interval. -/
def validate (p : Policy) : Except Fault Policy :=
  if p.pollInterval = .zero then
    .error (.validation "poll interval must be greater than zero" intervalSetting)
  else if p.readinessTimeout < p.pollInterval then
    .error (.validation ("poll interval " ++ p.pollInterval.text ++ " exceeds readiness timeout " ++
      p.readinessTimeout.text) intervalSetting)
  else .ok p

theorem validate_eq_ok_iff {p q : Policy} : p.validate = .ok q ↔ p.Admitted ∧ q = p := by
  have hz : p.pollInterval = .zero ↔ ¬ Duration.zero < p.pollInterval := by
    constructor
    · intro h
      rw [h]
      exact Nat.lt_irrefl _
    · intro h
      have : p.pollInterval.nanos = 0 := Nat.eq_zero_of_not_pos h
      cases hp : p.pollInterval
      simp_all [Duration.zero]
  have ht : p.readinessTimeout < p.pollInterval ↔ ¬ p.pollInterval ≤ p.readinessTimeout :=
    Nat.not_le.symm
  unfold validate Admitted
  split
  · simp_all
  · split
    · simp_all
    · simp_all [eq_comm]

/-- The number that the text of a setting denotes, blanks around it aside. -/
def settingNumber? (raw : String) : Option Nat :=
  Text.unsigned? Text.maxWord (Text.trim raw.toList)

/-- A setting that is not given is at its default; a text that is no number is refused. -/
def readSetting (setting : String) (default : Nat) : Option String → Except Fault Nat
  | none => .ok default
  | some raw =>
    match settingNumber? raw with
    | some n => .ok n
    | none => .error (.validation ("expected a whole number, got '" ++ raw ++ "'") setting)

/-- The policy of two settings, the interval read before the timeout. -/
def ofSettings (interval timeout : Option String) : Except Fault Policy := do
  let i ← readSetting intervalSetting defaultMillis interval
  let t ← readSetting timeoutSetting defaultSecs timeout
  validate ⟨.ofMillis i, .ofSecs t⟩

end Policy

end Lifecycle
