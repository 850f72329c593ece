import Jobflow.Engine
import Jobflow.Jobs
import Jobflow.Stores

/-!
# Executing a run (src/engine/orchestrator.ts, src/services/execution-service.ts)

`applyTransition` and `executeRun` are cut at their awaits. A suspended call is a value that says at
which await it waits and which local variables it still needs; `resume` runs it up to its next await.
What an awaited store method answers is fixed when the method is called, so it is part of the
suspended call. Between two awaits the clock is read once.
-/

namespace Jobflow

/-- A listener either returns or throws. -/
abbrev DomainEventListener := DomainEvent → Option JobflowError

/-- What the services are constructed with, and what the outside world answers. -/
structure World where
  handlers : List HandlerManifestEntry
  simulator : SimulatorConfig
  /-- The listeners registered with `onEvent`. -/
  listeners : List DomainEventListener
  /-- What a handler call meets, by run, task, attempt number and the calls already made with these
  three. Calls differ in one of the four, so any outcome of any call is possible. -/
  answer : RunId → String → Nat → Nat → SimulatorDraw

/-! ## `WorkflowOrchestrator` -/

/-- The calls `emit` makes (orchestrator.ts:27-31), and the exception that cut them short. -/
def WorkflowOrchestrator.emitFrom : Nat → List DomainEventListener → DomainEvent →
    List (Nat × DomainEvent) × Option JobflowError
  | _, [], _ => ([], none)
  | n, l :: ls, event =>
    match l event with
    | some e => ([(n, event)], some e)
    | none =>
      let rest := emitFrom (n + 1) ls event
      ((n, event) :: rest.1, rest.2)

/-- The awaits of `applyTransition`; `returned` is the caller's own. -/
inductive TransitionStage where
  | workflowSaved
  | runRead (found : Bool)
  | runSaved
  | returned
  deriving DecidableEq

/-- A suspended `applyTransition`. -/
structure TransitionCall where
  fromState : WorkflowState
  event : String
  target : WorkflowState
  next : WorkflowInstance
  stage : TransitionStage

inductive TransitionOutcome where
  | suspended (t : TransitionCall)
  | threw (e : JobflowError)
  | returned (next : WorkflowInstance)

/-- `applyTransition` up to its first await (orchestrator.ts:33-41). -/
def WorkflowOrchestrator.applyTransition (s : Stores) (inst : WorkflowInstance) (event : String)
    (target : WorkflowState) (actor : String) (now : ISODateString) :
    Except JobflowError (Stores × TransitionCall) := do
  TransitionGuard.evaluate inst event target
  let next ← WorkflowStateMachine.transition inst event target actor none now
  .ok (s.saveWorkflow next,
    { fromState := inst.state, event := event, target := target, next := next, stage := .workflowSaved })

/-- The writes to the `JobRun` (orchestrator.ts:44-49). -/
def WorkflowOrchestrator.updateRun (s : Stores) (runId : RunId) (target : WorkflowState) (now : ISODateString) :
    Stores :=
  match s.runs.get runId with
  | none => s
  | some run =>
    s.saveRun { run with
      status := target
      finishedAt := if WorkflowStateMachine.isTerminal target then some now else run.finishedAt }

/-- `emit` and the return (orchestrator.ts:52-68). -/
def WorkflowOrchestrator.announce (world : World) (s : Stores) (t : TransitionCall) (now : ISODateString) :
    Stores × TransitionOutcome :=
  let emitted := emitFrom 0 world.listeners
    (.workflowTransitioned t.next.runId t.fromState t.target t.event now)
  let s := { s with heard := s.heard ++ emitted.1 }
  match emitted.2 with
  | some e => (s, .threw e)
  | none => (s, .suspended { t with stage := .returned })

/-- `applyTransition` from one await to the next. -/
def TransitionCall.resume (world : World) (s : Stores) (t : TransitionCall) (now : ISODateString) :
    Stores × TransitionOutcome :=
  match t.stage with
  | .workflowSaved => (s, .suspended { t with stage := .runRead (s.runs.has t.next.runId) })
  | .runRead true =>
    (WorkflowOrchestrator.updateRun s t.next.runId t.target now, .suspended { t with stage := .runSaved })
  | .runRead false => WorkflowOrchestrator.announce world s t now
  | .runSaved => WorkflowOrchestrator.announce world s t now
  | .returned => (s, .returned t.next)

/-- `EventBus.publish` (event-bus.ts:13-21) as a listener: what a subscriber throws is dropped. -/
def EventBus.publish : List DomainEventListener → DomainEventListener
  | [], _ => none
  | l :: ls, event =>
    match l event with
    | some _ => publish ls event
    | none => publish ls event

/-- The services as `createContainer` wires them (container.ts:98-190): the orchestrator has one
listener, the event bus. -/
def createContainer (handlers : List HandlerManifestEntry) (simulator : SimulatorConfig)
    (subscribers : List DomainEventListener) (answer : RunId → String → Nat → Nat → SimulatorDraw) : World where
  handlers := handlers
  simulator := simulator
  listeners := [EventBus.publish subscribers]
  answer := answer

/-! ## `ExecutionService` -/

/-- The five transitions of `executeRun`. -/
inductive Purpose where
  | start | complete | await | fail | deadLetter
  deriving DecidableEq

/-- The awaits of `executeRun`. -/
inductive ExecPc where
  /-- `await this.runStore.get(runId)`. -/
  | runRead (found : Option JobRun)
  /-- `await this.jobStore.get(run.jobId)`. -/
  | definitionRead (jobId : JobId) (found : Option JobDefinition)
  /-- `await this.workflowStore.getByRunId(runId)`. -/
  | workflowRead (d : JobDefinition) (found : Option WorkflowInstance)
  /-- `await this.orchestrator.startRun(..)` of a workflow that is not pending. -/
  | started (d : JobDefinition) (w : WorkflowInstance)
  /-- `await this.orchestrator.applyTransition(..)`, also inside `startRun`. -/
  | transition (purpose : Purpose) (d : JobDefinition) (t : TransitionCall)
  /-- `await this.taskExecutor.run(..)`: the handler is in flight. -/
  | handler (d : JobDefinition) (w : WorkflowInstance) (nextDef : TaskDefinition) (running : TaskRun)
    (earlier : Nat)
  /-- `workflow = await this.updateTask(workflow, result.task)`. -/
  | taskSaved (d : JobDefinition) (w : WorkflowInstance) (result : ExecuteResult)
  /-- `await this.sleep(result.retryAfterMs)`. -/
  | sleeping (d : JobDefinition) (w : WorkflowInstance) (result : ExecuteResult)
  /-- `workflow = await this.updateTask(workflow, retryTask)`. -/
  | requeued (d : JobDefinition) (w : WorkflowInstance) (result : ExecuteResult)
  /-- `await this.deadLetterStore.push(..)`. -/
  | deadLetterPushed
  /-- An awaited call has thrown. -/
  | rejected (e : JobflowError)
  /-- The promise of `executeRun` has settled. -/
  | settled (result : Except JobflowError Unit)

namespace ExecutionService

def owner : String := "execution-service"

/-- The `finally` block (execution-service.ts:132-135), and the end of the call. -/
def settle (service : Nat) (runId : RunId) (s : Stores) (result : Except JobflowError Unit) : Stores × ExecPc :=
  ((s.deleteLocalLock service runId).release runId owner, .settled result)

/-- `executeRun` up to its first await (execution-service.ts:35-45). A lock held by somebody else
throws before the `try`. -/
def executeRun (service : Nat) (runId : RunId) (s : Stores) : Stores × ExecPc :=
  if s.hasLocalLock service runId then (s, .settled (.ok ()))
  else
    let s := s.addLocalLock service runId
    match s.acquire runId owner with
    | .error e => (s, .settled (.error e))
    | .ok s => (s, .runRead (s.runs.get runId))

/-- Call `applyTransition` and await it. -/
def transition (s : Stores) (purpose : Purpose) (d : JobDefinition) (w : WorkflowInstance) (event : String)
    (target : WorkflowState) (actor : String) (now : ISODateString) : Stores × ExecPc :=
  match WorkflowOrchestrator.applyTransition s w event target actor now with
  | .error e => (s, .rejected e)
  | .ok (s, t) => (s, .transition purpose d t)

/-- `workflow.tasks.reduce((s, t) => s + t.attempt, 0)`. -/
def attempts (w : WorkflowInstance) : Nat := (w.tasks.map (·.attempt)).sum

/-- What follows the loop (execution-service.ts:117-131). -/
def afterLoop (service : Nat) (runId : RunId) (s : Stores) (d : JobDefinition) (w : WorkflowInstance)
    (now : ISODateString) : Stores × ExecPc :=
  if w.state = .failed ∧ d.retryPolicy.maxAttempts * (d.tasks.length : Int) ≤ (attempts w : Int) then
    transition s .deadLetter d w "dead_letter" .deadLettered owner now
  else settle service runId s (.ok ())

/-- Hand a task to the executor (execution-service.ts:88-98, task-executor.ts:29-49). -/
def invoke (runId : RunId) (s : Stores) (d : JobDefinition) (w : WorkflowInstance) (nextDef : TaskDefinition)
    (taskRun : TaskRun) (now : ISODateString) : Stores × ExecPc :=
  let running := TaskExecutor.start taskRun now
  let invocation : Invocation :=
    { runId := runId
      handler := nextDef.handler
      attempt := running.attempt
      context := TaskExecutor.handlerContext taskRun w.context }
  ({ s with invocations := s.invocations ++ [invocation] },
    .handler d w nextDef running (s.timesInvoked runId taskRun.definitionTaskId running.attempt))

/-- The loop from its condition to the next await (execution-service.ts:56-98). -/
def loop (service : Nat) (runId : RunId) (s : Stores) (d : JobDefinition) (w : WorkflowInstance)
    (now : ISODateString) : Stores × ExecPc :=
  if w.state ≠ .running then afterLoop service runId s d w now
  else match TaskScheduler.nextRunnable w.tasks d.tasks with
    | none =>
      if TaskScheduler.allDone w.tasks d.tasks then
        match RuleEngine.apply d
          { context := w.context, taskOutputs := RunContextFactory.taskOutputs w.tasks } with
        | .error e => settle service runId s (.error e)
        | .ok () => transition s .complete d w "complete" .completed owner now
      else transition s .await d w "await" .waiting owner now
    | some nextDef =>
      match w.tasks.find? fun t => t.definitionTaskId = nextDef.id with
      | none => (s, .rejected (.exception (.typeError "Cannot read properties of undefined (reading 'attempt')")))
      | some taskRun => invoke runId s d w nextDef taskRun now

/-- `updateTask` (execution-service.ts:138-149) up to its await: the instance it saves. -/
def updateTask (w : WorkflowInstance) (task : TaskRun) (now : ISODateString) : WorkflowInstance :=
  { w with
    tasks := w.tasks.map fun t => if t.id = task.id then task else t
    updatedAt := now }

/-- The end of the loop body (execution-service.ts:106-114). -/
def afterTask (service : Nat) (runId : RunId) (s : Stores) (d : JobDefinition) (w : WorkflowInstance)
    (result : ExecuteResult) (now : ISODateString) : Stores × ExecPc :=
  if result.task.status = .failed then transition s .fail d w "fail" .failed owner now
  else loop service runId s d w now

/-- What the executor makes of the handler's answer. -/
def answered (world : World) (runId : RunId) (d : JobDefinition) (w : WorkflowInstance) (nextDef : TaskDefinition)
    (running : TaskRun) (earlier : Nat) (now : ISODateString) : ExecuteResult :=
  TaskExecutor.finish running d.retryPolicy
    (TaskSimulator.execute world.simulator nextDef.handler w.context
      (world.answer runId running.definitionTaskId running.attempt earlier)) now

/-- After `applyTransition` has returned the instance `w`. -/
def afterTransition (service : Nat) (runId : RunId) (s : Stores) (purpose : Purpose) (d : JobDefinition)
    (w : WorkflowInstance) (now : ISODateString) : Stores × ExecPc :=
  match purpose with
  | .start => loop service runId s d w now
  | .complete | .await | .fail => afterLoop service runId s d w now
  | .deadLetter =>
    (s.pushDeadLetter
      { runId := runId, reason := .maxRetriesExceeded, workflowId := w.id, timestamp := now },
      .deadLetterPushed)

/-- `executeRun` from one await to the next; `none` once it has settled. -/
def resume (world : World) (service : Nat) (runId : RunId) (s : Stores) (now : ISODateString) :
    ExecPc → Option (Stores × ExecPc)
  | .runRead none => some (settle service runId s (.error (.notFoundError "JobRun" runId)))
  | .runRead (some run) => some (s, .definitionRead run.jobId (s.jobs.get run.jobId))
  | .definitionRead jobId none => some (settle service runId s (.error (.notFoundError "JobDefinition" jobId)))
  | .definitionRead _ (some d) => some (s, .workflowRead d (s.getByRunId runId))
  | .workflowRead _ none => some (settle service runId s (.error (.notFoundError "WorkflowInstance" runId)))
  | .workflowRead d (some w) =>
    -- `startRun` (orchestrator.ts:71-80)
    if w.state = .pending then some (transition s .start d w "start" .running "orchestrator" now)
    else some (s, .started d w)
  | .started d w => some (loop service runId s d w now)
  | .transition purpose d t =>
    match t.resume world s now with
    | (s, .suspended t) => some (s, .transition purpose d t)
    | (s, .threw e) => some (s, .rejected e)
    | (s, .returned w) => some (afterTransition service runId s purpose d w now)
  | .handler d w nextDef running earlier =>
    let result := answered world runId d w nextDef running earlier now
    let updated := updateTask w result.task now
    some (s.saveWorkflow updated, .taskSaved d updated result)
  | .taskSaved d w result =>
    if result.retryAfterMs.isSome then some (s, .sleeping d w result)
    else some (afterTask service runId s d w result now)
  | .sleeping d w result =>
    let updated := updateTask w { result.task with status := .queued } now
    some (s.saveWorkflow updated, .requeued d updated result)
  | .requeued d w result => some (afterTask service runId s d w result now)
  | .deadLetterPushed => some (settle service runId s (.ok ()))
  | .rejected e => some (settle service runId s (.error e))
  | .settled _ => none

end ExecutionService

/-! ## Listeners that never throw -/

def World.Quiet (world : World) : Prop := ∀ l ∈ world.listeners, ∀ event, l event = none

theorem EventBus.publish_none (subscribers : List DomainEventListener) (event : DomainEvent) :
    publish subscribers event = none := by
  induction subscribers with
  | nil => rfl
  | cons l ls ih => cases h : l event <;> simp [publish, h, ih]

theorem createContainer_quiet (handlers : List HandlerManifestEntry) (simulator : SimulatorConfig)
    (subscribers : List DomainEventListener) (answer : RunId → String → Nat → Nat → SimulatorDraw) :
    (createContainer handlers simulator subscribers answer).Quiet := by
  intro l hl event
  rw [List.mem_singleton.1 hl]
  exact EventBus.publish_none subscribers event

/-- The services are wired as `createContainer` wires them. -/
def World.Wired (world : World) : Prop :=
  ∃ handlers simulator subscribers answer, world = createContainer handlers simulator subscribers answer

theorem World.Wired.quiet {world : World} (h : world.Wired) : world.Quiet := by
  obtain ⟨handlers, simulator, subscribers, answer, rfl⟩ := h
  exact createContainer_quiet handlers simulator subscribers answer

theorem WorkflowOrchestrator.emitFrom_quiet {listeners : List DomainEventListener} {event : DomainEvent}
    (h : ∀ l ∈ listeners, l event = none) (n : Nat) : (emitFrom n listeners event).2 = none := by
  induction listeners generalizing n with
  | nil => rfl
  | cons l ls ih =>
    simp only [emitFrom, h l List.mem_cons_self]
    exact ih (fun l' hl' => h l' (List.mem_cons_of_mem _ hl')) (n + 1)

end Jobflow
