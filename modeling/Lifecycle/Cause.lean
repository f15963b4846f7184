import Lifecycle.Duration
import Lifecycle.Fault

/-!
# Causes of a failed activation

Every target that a call could not activate contributes one cause. The causes of
a call are reported together, one line each, in the order of the targets.
-/

namespace Lifecycle

/-- Why one target was not activated. -/
inductive Cause where
  | probe (gvk : String) (source : Fault)
  /-- The target's schema was not served in time. -/
  | readinessTimeout (gvk : String) (timeout : Duration)
  | cancelled (gvk : String)
  | setup (controller : String) (source : Fault)
  deriving DecidableEq

namespace Cause

def message : Cause → String
  | probe gvk f => "failed to probe availability of '" ++ gvk ++ "': " ++ f.message
  | readinessTimeout gvk t =>
    "failed to wait for resource '" ++ gvk ++ "' to be available: timed out after " ++ t.text
  | cancelled gvk => "activation of '" ++ gvk ++ "' cancelled"
  | setup c f => "failed to setup controller " ++ c ++ ": " ++ f.message

def gvk? : Cause → Option String
  | probe gvk _ | readinessTimeout gvk _ | cancelled gvk => some gvk
  | setup .. => none

def controller? : Cause → Option String
  | setup c _ => some c
  | _ => none

/-- How long was waited, where the wait is the cause. -/
def timeout? : Cause → Option Duration
  | readinessTimeout _ t => some t
  | _ => none

def source? : Cause → Option Fault
  | probe _ f | setup _ f => some f
  | _ => none

end Cause

/-- What a call reports: every cause, one line each. -/
def causesMessage (causes : List Cause) : String :=
  "\n".intercalate (causes.map Cause.message)

end Lifecycle
