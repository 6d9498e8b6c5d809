import Snapshots.Text.Quoted
import Snapshots.Timer.Basic

/-! # Refused operations

Why an operation on tasks is refused.
-/

namespace Snapshots

open Text

inductive ValidationError where
  | missingField (name : String)
  | schedule (error : Cron.ScheduleError)
  /-- Clusters are asked for, and only the current one can be reached. -/
  | unsupportedTargets (targets : List String)
  deriving DecidableEq, Repr

def ValidationError.message : ValidationError → String
  | missingField name => "missing required field: " ++ name
  | schedule error => error.message
  | unsupportedTargets targets =>
    "target clusters " ++ quotedList targets ++
      " requested but multi-cluster routing is not supported"

inductive TaskError where
  | validation (error : ValidationError)
  | notFound (id : String)
  | alreadyExists (id : String)
  | scheduling (error : Timer.RegisterError)
  deriving DecidableEq, Repr

def TaskError.message : TaskError → String
  | validation error => "invalid task: " ++ error.message
  | notFound id => "task " ++ id ++ " not found"
  | alreadyExists id => "task " ++ id ++ " already exists"
  | scheduling error => "failed to schedule task: " ++ error.message

end Snapshots
