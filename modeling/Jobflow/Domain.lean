import Jobflow.Js.Value

/-!
# The data model (src/domain)

Optional fields (`x?: T`) are `Option T`. Identifiers are strings, as at run time. Timestamps are
the ISO strings the clock returns. Left out because no modelled code reads them:
`WorkflowInstance.currentTaskId`, and `description`, `allowedTransitions` and `metadata` of a job
definition.
-/

namespace Jobflow

open Js (Value Record Number)

abbrev JobId := String
abbrev WorkflowId := String
abbrev RunId := String
abbrev TaskId := String
abbrev ISODateString := String

/-! ## Enumerations (types.ts:8-35) -/

inductive WorkflowState where
  | draft | pending | running | waiting | completed | failed | cancelled | deadLettered
  deriving DecidableEq, Repr

def WorkflowState.text : WorkflowState → String
  | .draft => "draft"
  | .pending => "pending"
  | .running => "running"
  | .waiting => "waiting"
  | .completed => "completed"
  | .failed => "failed"
  | .cancelled => "cancelled"
  | .deadLettered => "dead_lettered"

inductive TaskStatus where
  | queued | running | succeeded | failed | skipped | retrying
  deriving DecidableEq, Repr

def TaskStatus.text : TaskStatus → String
  | .queued => "queued"
  | .running => "running"
  | .succeeded => "succeeded"
  | .failed => "failed"
  | .skipped => "skipped"
  | .retrying => "retrying"

inductive FailureReason where
  | validation | timeout | handlerError | transitionDenied | constraintViolation | maxRetriesExceeded
  deriving DecidableEq, Repr

/-! ## Errors (errors.ts) -/

/-- What a call can throw: the classes of errors.ts, zod's schema error, or another exception. -/
inductive JobflowError where
  | validationError (message : String) (details : List String)
  | transitionError (message : String)
  | notFoundError (entity id : String)
  | executionError (reason : FailureReason) (message : String)
  | concurrencyError (message : String)
  | zodError
  | exception (e : Js.Exception)
  deriving DecidableEq

/-! ## Job definitions (job-definition.ts, types.ts:37-42) -/

/-- `backoffMultiplier` is a real factor; the other fields are integers. -/
structure RetryPolicy where
  maxAttempts : Int
  initialDelayMs : Int
  backoffMultiplier : Rat
  maxDelayMs : Int
  deriving DecidableEq

structure TaskDefinition where
  id : String
  name : String
  handler : String
  timeoutMs : Number
  optional : Option Bool
  dependsOn : Option (List String)
  deriving DecidableEq

/-- `def.dependsOn ?? []`. -/
def TaskDefinition.dependencies (d : TaskDefinition) : List String := d.dependsOn.getD []

/-- `!d.optional`. -/
def TaskDefinition.required (d : TaskDefinition) : Bool := d.optional ≠ some true

inductive Severity where
  | warn | block
  deriving DecidableEq

structure JobConstraint where
  id : String
  expression : String
  severity : Severity
  deriving DecidableEq

structure JobDefinition where
  id : JobId
  name : String
  version : Int
  tasks : List TaskDefinition
  constraints : List JobConstraint
  retryPolicy : RetryPolicy
  createdAt : ISODateString
  updatedAt : ISODateString
  deriving DecidableEq

/-! ## Runs (task.ts, workflow-instance.ts) -/

structure TaskRun where
  id : TaskId
  runId : RunId
  definitionTaskId : String
  handler : String
  status : TaskStatus
  attempt : Nat
  startedAt : Option ISODateString
  finishedAt : Option ISODateString
  output : Option Record
  errorMessage : Option String

/-- `createTaskRun` (task.ts:16-30). -/
def createTaskRun (id : TaskId) (runId : RunId) (definitionTaskId handler : String) : TaskRun where
  id := id
  runId := runId
  definitionTaskId := definitionTaskId
  handler := handler
  status := .queued
  attempt := 0
  startedAt := none
  finishedAt := none
  output := none
  errorMessage := none

/-- `timestamp`, `fromState` and `toState` are `at`, `from` and `to`, which Lean reserves. -/
structure WorkflowHistoryEntry where
  timestamp : ISODateString
  fromState : WorkflowState
  toState : WorkflowState
  event : String
  actor : String
  note : Option String

structure WorkflowInstance where
  id : WorkflowId
  jobId : JobId
  runId : RunId
  state : WorkflowState
  context : Record
  tasks : List TaskRun
  history : List WorkflowHistoryEntry
  version : Nat
  createdAt : ISODateString
  updatedAt : ISODateString

structure JobRun where
  id : RunId
  jobId : JobId
  workflowId : WorkflowId
  status : WorkflowState
  startedAt : ISODateString
  finishedAt : Option ISODateString
  trigger : String
  input : Record

/-! ## Retry policy (retry-policy.ts) -/

def DEFAULT_RETRY_POLICY : RetryPolicy where
  maxAttempts := 3
  initialDelayMs := 500
  backoffMultiplier := 2
  maxDelayMs := 30000

/-- `computeBackoffDelay`, in exact arithmetic. -/
def computeBackoffDelay (policy : RetryPolicy) (attempt : Nat) : Int :=
  if attempt ≤ 0 then policy.initialDelayMs
  else min ((policy.initialDelayMs : Rat) * policy.backoffMultiplier ^ (attempt - 1)).floor policy.maxDelayMs

def shouldRetry (policy : RetryPolicy) (attempt : Nat) : Bool := (attempt : Int) < policy.maxAttempts

/-! ## Domain events (events.ts) -/

inductive DomainEvent where
  | jobRegistered (jobId : JobId) (timestamp : ISODateString)
  | runStarted (runId : RunId) (jobId : JobId) (timestamp : ISODateString)
  | runCompleted (runId : RunId) (timestamp : ISODateString)
  | workflowTransitioned (runId : RunId) (fromState toState : WorkflowState) (event : String)
      (timestamp : ISODateString)
  | taskStarted (runId : RunId) (taskId : String) (attempt : Nat) (timestamp : ISODateString)
  | taskFinished (runId : RunId) (taskId : String) (success : Bool) (timestamp : ISODateString)
  | taskRetryScheduled (runId : RunId) (taskId : String) (attempt : Nat) (delayMs : Int)
      (timestamp : ISODateString)
  | runFailed (runId : RunId) (reason : FailureReason) (timestamp : ISODateString)
  | runDeadLettered (runId : RunId) (timestamp : ISODateString)

end Jobflow
