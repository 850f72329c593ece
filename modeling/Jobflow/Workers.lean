import Mathlib.Data.List.Infix
import Jobflow.Domain
import Jobflow.Lib.InsertionMap

/-!
# Running one task, and choosing the next (src/workers)

A handler call is split at its `await`: `TaskExecutor.start` and `TaskExecutor.handlerContext` are
what happens before the handler runs, `TaskSimulator.execute` and `TaskExecutor.finish` what happens
once it has answered. What comes from outside (the handler's answer, the random draws, the clock) is
a `SimulatorDraw`.
-/

namespace Jobflow

open Js (Value Record)

/-! ## `RetryHandler` (retry-handler.ts) -/

structure RetryDecision where
  retry : Bool
  delayMs : Int
  nextAttempt : Nat

/-- `RetryHandler.decide` (retry-handler.ts:17-24). -/
def RetryHandler.decide (policy : RetryPolicy) (task : TaskRun) : RetryDecision :=
  let nextAttempt := task.attempt + 1
  if !shouldRetry policy nextAttempt then { retry := false, delayMs := 0, nextAttempt := nextAttempt }
  else { retry := true, delayMs := computeBackoffDelay policy nextAttempt, nextAttempt := nextAttempt }

/-! ## `TaskSimulator` (simulator.ts) -/

/-- `HandlerContext` (handlers/implementations/base.ts:3-8); `priorOutputs` maps task ids to outputs. -/
structure HandlerContext where
  runId : RunId
  taskId : String
  input : Record
  priorOutputs : List (String × Record)

/-- `HandlerResult` (base.ts:10-14), without the metrics nobody reads. -/
structure HandlerResult where
  success : Bool
  output : Record

/-- How the promise of a handler implementation settles; a rejection carries the text that
`err instanceof Error ? err.message : String(err)` makes of it. Values on which `String` itself throws are left out. -/
inductive HandlerOutcome where
  | returns (result : HandlerResult)
  | throws (message : String)

/-- Everything a handler call draws from outside. -/
structure SimulatorDraw where
  outcome : HandlerOutcome
  /-- `Math.random() * 100` in `shouldFail`. -/
  roll : Rat
  /-- `new Date().toISOString()` in `buildOutput`. -/
  processedAt : ISODateString

structure SimulatedResult where
  success : Bool
  output : Record
  errorMessage : Option String

/-- The parts of the container a handler call reads: the registered implementations, and the
simulated failure rate of the engine configuration. -/
structure SimulatorConfig where
  implementations : List String
  failRatePercent : Rat

/-- `text.includes(part)`. -/
def textIncludes (text part : String) : Bool := part.toList <:+: text.toList

/-- `shouldFail` (simulator.ts:65-70). -/
def TaskSimulator.shouldFail (config : SimulatorConfig) (handler : String) (roll : Rat) : Bool :=
  if config.failRatePercent ≤ 0 then false
  else if config.failRatePercent ≤ roll then false
  else textIncludes handler "risky" || textIncludes handler "external"

/-- `buildOutput` (simulator.ts:72-78). -/
def TaskSimulator.buildOutput (handler : String) (input : Record) (processedAt : ISODateString) : Record :=
  [("handler", .string handler), ("processedAt", .string processedAt),
   ("inputKeys", .array none (input.map fun p => .string p.1))]

/-- `String(result.output.error ?? "handler failed")`. -/
def TaskSimulator.failureText (output : Record) : Except Js.Exception String :=
  match (Value.object none output).get "error" with
  | .undefined | .null => .ok "handler failed"
  | v => v.toText

/-- `TaskSimulator.execute` (simulator.ts:18-58): the implementation if there is one, else a simulation. -/
def TaskSimulator.execute (config : SimulatorConfig) (handler : String) (input : Record) (draw : SimulatorDraw) :
    Except String SimulatedResult :=
  if handler ∈ config.implementations then
    match draw.outcome with
    | .throws message => .error message
    | .returns result =>
      if result.success then .ok { success := true, output := result.output, errorMessage := none }
      else match failureText result.output with
        | .ok text => .ok { success := false, output := result.output, errorMessage := some text }
        | .error e => .error e.message
  else if shouldFail config handler draw.roll then
    .ok { success := false, output := [], errorMessage := some ("simulated failure for handler " ++ handler) }
  else .ok { success := true, output := buildOutput handler input draw.processedAt, errorMessage := none }

/-! ## `TaskExecutor` (task-executor.ts) -/

/-- The task run while its handler is in flight (task-executor.ts:29-34). -/
def TaskExecutor.start (taskRun : TaskRun) (now : ISODateString) : TaskRun :=
  { taskRun with status := .running, attempt := taskRun.attempt + 1, startedAt := some now }

/-- The context handed to the handler (task-executor.ts:43-49). -/
def TaskExecutor.handlerContext (taskRun : TaskRun) (input : Record) : HandlerContext :=
  { runId := taskRun.runId, taskId := taskRun.definitionTaskId, input := input, priorOutputs := [] }

structure ExecuteResult where
  task : TaskRun
  retryAfterMs : Option Int

/-- `handleFailure` (task-executor.ts:67-86). -/
def TaskExecutor.handleFailure (task : TaskRun) (policy : RetryPolicy) (message : String) (now : ISODateString) :
    ExecuteResult :=
  let failed := { task with status := .failed, finishedAt := some now, errorMessage := some message }
  let decision := RetryHandler.decide policy failed
  if decision.retry then
    { task := { failed with status := .retrying, errorMessage := some message },
      retryAfterMs := some decision.delayMs }
  else { task := failed, retryAfterMs := none }

/-- What `TaskExecutor.run` makes of the simulator's answer (task-executor.ts:50-64). -/
def TaskExecutor.finish (running : TaskRun) (policy : RetryPolicy) (answer : Except String SimulatedResult)
    (now : ISODateString) : ExecuteResult :=
  match answer with
  | .error message => handleFailure running policy message now
  | .ok result =>
    if !result.success then handleFailure running policy (result.errorMessage.getD "unknown error") now
    else
      { task := { running with status := .succeeded, finishedAt := some now, output := some result.output }
        retryAfterMs := none }

/-! ## `TaskScheduler` (scheduler.ts) -/

/-- `new Map(tasks.map((t) => [t.definitionTaskId, t.status]))`. -/
def TaskScheduler.statusByDef (tasks : List TaskRun) : InsertionMap String TaskStatus :=
  InsertionMap.ofList (tasks.map fun t => (t.definitionTaskId, t.status))

/-- `dependenciesMet` (scheduler.ts:24-32). -/
def TaskScheduler.dependenciesMet (d : TaskDefinition) (status : InsertionMap String TaskStatus) : Bool :=
  d.dependencies.all fun dep => status.get dep = some .succeeded || status.get dep = some .skipped

/-- The test of the loop of `nextRunnable` (scheduler.ts:10-19). -/
def TaskScheduler.runnable (status : InsertionMap String TaskStatus) (d : TaskDefinition) : Bool :=
  let s := status.get d.id
  if s = some .succeeded || s = some .skipped then false
  else if s = some .running || s = some .retrying then false
  else dependenciesMet d status

/-- `nextRunnable` (scheduler.ts:6-22). -/
def TaskScheduler.nextRunnable (tasks : List TaskRun) (definitions : List TaskDefinition) :
    Option TaskDefinition :=
  definitions.find? (runnable (statusByDef tasks))

/-- `allDone` (scheduler.ts:34-41). -/
def TaskScheduler.allDone (tasks : List TaskRun) (definitions : List TaskDefinition) : Bool :=
  (definitions.filter fun d => d.required).all fun d =>
    (statusByDef tasks).get d.id = some .succeeded || (statusByDef tasks).get d.id = some .skipped

end Jobflow
