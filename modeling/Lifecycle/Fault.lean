/-!
# Faults

What a collaborator of the activation engine can answer instead of doing its
job: a schema query that failed, a controller that could not be registered, or a
setting that makes no sense.
-/

namespace Lifecycle

/-- Why a query, a registration or a setting was refused. -/
inductive Fault where
  | discovery (groupVersion message : String)
  | registration (controller message : String)
  /-- A setting is missing its meaning; `field` is the name of the setting. -/
  | validation (message field : String)
  deriving DecidableEq

namespace Fault

/-- The one line that reports a fault. -/
def message : Fault → String
  | discovery gv m => "discovery error for " ++ gv ++ ": " ++ m
  | registration c m => "registration error for controller " ++ c ++ ": " ++ m
  | validation m _ => "validation error: " ++ m

/-- The setting that a fault blames, if it blames one. -/
def field? : Fault → Option String
  | validation _ f => some f
  | _ => none

end Fault

end Lifecycle
