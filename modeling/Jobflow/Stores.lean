import Jobflow.Workers

/-!
# The stores and the locks (src/storage/memory, src/engine/run-lock.ts, src/persistence)

Everything the services share between two awaits, as one record. The asynchronous store methods do
their work when they are called, so each is a function on the record here. Workflow instances are
never mutated; the one object that is, the `JobRun` of a run, is only ever reached through the run
store, so `applyTransition`'s writes to it are writes to the store.
-/

namespace Jobflow

open Js (Record)

structure DeadLetterEntry where
  runId : RunId
  reason : FailureReason
  workflowId : WorkflowId
  timestamp : ISODateString

structure RunSnapshot where
  runId : RunId
  version : Nat
  workflow : WorkflowInstance
  capturedAt : ISODateString
  label : Option String

/-- One call of a task's handler, by the execution of run `runId`. -/
structure Invocation where
  runId : RunId
  handler : String
  attempt : Nat
  context : HandlerContext

structure Stores where
  jobs : InsertionMap JobId JobDefinition
  /-- `byId` of the workflow store. -/
  workflows : InsertionMap WorkflowId WorkflowInstance
  /-- `byRunId` of the workflow store. -/
  workflowOfRun : InsertionMap RunId WorkflowId
  runs : InsertionMap RunId JobRun
  deadLetters : List DeadLetterEntry
  /-- `RunLockRegistry.locks`. -/
  runLocks : InsertionMap RunId String
  /-- `localLocks` of every `ExecutionService`, each run id with the number of its service. -/
  localLocks : List (Nat × RunId)
  checkpoints : InsertionMap RunId (List RunSnapshot)
  /-- Every call of an orchestrator listener: the listener's place in the list, and the event. -/
  heard : List (Nat × DomainEvent)
  /-- Every handler call, oldest first. -/
  invocations : List Invocation

namespace Stores

def empty : Stores where
  jobs := .empty
  workflows := .empty
  workflowOfRun := .empty
  runs := .empty
  deadLetters := []
  runLocks := .empty
  localLocks := []
  checkpoints := .empty
  heard := []
  invocations := []

/-- `InMemoryJobStore.save` (job-store.ts:8-10). -/
def saveJob (s : Stores) (definition : JobDefinition) : Stores :=
  { s with jobs := s.jobs.set definition.id definition }

/-- `InMemoryWorkflowStore.save` (workflow-store.ts:9-12). -/
def saveWorkflow (s : Stores) (inst : WorkflowInstance) : Stores :=
  { s with
    workflows := s.workflows.set inst.id inst
    workflowOfRun := s.workflowOfRun.set inst.runId inst.id }

/-- `InMemoryWorkflowStore.getByRunId` (workflow-store.ts:18-21); an empty id is falsy. -/
def getByRunId (s : Stores) (runId : RunId) : Option WorkflowInstance :=
  (s.workflowOfRun.get runId).bind fun wfId => if wfId = "" then none else s.workflows.get wfId

/-- `InMemoryRunStore.save` (run-store.ts:8-10). -/
def saveRun (s : Stores) (run : JobRun) : Stores := { s with runs := s.runs.set run.id run }

/-- `InMemoryDeadLetterStore.push` (dead-letter-store.ts:13-15). -/
def pushDeadLetter (s : Stores) (entry : DeadLetterEntry) : Stores :=
  { s with deadLetters := s.deadLetters ++ [entry] }

/-- `RunLockRegistry.acquire` (run-lock.ts:7-13). -/
def acquire (s : Stores) (runId : RunId) (owner : String) : Except JobflowError Stores :=
  match s.runLocks.get runId with
  | some current =>
    if current ≠ "" ∧ current ≠ owner then
      .error (.concurrencyError ("run " ++ runId ++ " locked by " ++ current))
    else .ok { s with runLocks := s.runLocks.set runId owner }
  | none => .ok { s with runLocks := s.runLocks.set runId owner }

/-- `RunLockRegistry.release` (run-lock.ts:15-19). -/
def release (s : Stores) (runId : RunId) (owner : String) : Stores :=
  if s.runLocks.get runId = some owner then { s with runLocks := s.runLocks.delete runId } else s

/-- `localLocks.has(runId)` of one service. -/
def hasLocalLock (s : Stores) (service : Nat) (runId : RunId) : Bool := (service, runId) ∈ s.localLocks

/-- `localLocks.add(runId)`. -/
def addLocalLock (s : Stores) (service : Nat) (runId : RunId) : Stores :=
  { s with localLocks := (service, runId) :: s.localLocks }

/-- `localLocks.delete(runId)`. -/
def deleteLocalLock (s : Stores) (service : Nat) (runId : RunId) : Stores :=
  { s with localLocks := s.localLocks.filter (· ≠ (service, runId)) }

/-- `CheckpointStore.list` (checkpoint-store.ts:19-21). -/
def listSnapshots (s : Stores) (runId : RunId) : List RunSnapshot := (s.checkpoints.get runId).getD []

/-- `CheckpointStore.save` (checkpoint-store.ts:7-12). -/
def saveSnapshot (s : Stores) (snapshot : RunSnapshot) : Stores :=
  { s with checkpoints := s.checkpoints.set snapshot.runId (s.listSnapshots snapshot.runId ++ [snapshot]) }

/-- `RecoveryService.captureCheckpoint` (recovery-service.ts:29-38). -/
def captureCheckpoint (s : Stores) (runId : RunId) (workflow : WorkflowInstance) (label : Option String)
    (now : ISODateString) : Stores :=
  s.saveSnapshot
    { runId := runId
      version := (s.listSnapshots runId).length + 1
      workflow := workflow
      capturedAt := now
      label := label }

/-- `RecoveryService.restoreToCheckpoint` (recovery-service.ts:15-27), and whether it restored. -/
def restoreToCheckpoint (s : Stores) (runId : RunId) (version : Option Nat) (now : ISODateString) :
    Stores × Bool :=
  let snaps := s.listSnapshots runId
  let target := match version with
    | some v => snaps.find? fun (snap : RunSnapshot) => snap.version = v
    | none => snaps.getLast?
  match target with
  | none => (s, false)
  | some target => (s.saveWorkflow { target.workflow with updatedAt := now }, true)

/-- The calls a handler has had with one run, task and attempt number. -/
def timesInvoked (s : Stores) (runId : RunId) (taskId : String) (attempt : Nat) : Nat :=
  s.invocations.countP fun i => i.runId = runId ∧ i.context.taskId = taskId ∧ i.attempt = attempt

/-! ## What a lookup sees after a save -/

/-- Looking a run up after an instance of its own was saved. -/
theorem getByRunId_saveWorkflow_self (s : Stores) (inst : WorkflowInstance) (h : inst.id ≠ "") :
    (s.saveWorkflow inst).getByRunId inst.runId = some inst := by
  simp [getByRunId, saveWorkflow, h]

/-- Saving an instance of another run, under an id that is not this run's, changes nothing here. -/
theorem getByRunId_saveWorkflow_ne (s : Stores) (inst : WorkflowInstance) {r : RunId} (hr : inst.runId ≠ r)
    (hid : s.workflowOfRun.get r ≠ some inst.id) : (s.saveWorkflow inst).getByRunId r = s.getByRunId r := by
  unfold getByRunId saveWorkflow
  simp only [InsertionMap.get_set_ne _ _ hr]
  cases hw : s.workflowOfRun.get r with
  | none => rfl
  | some wfId =>
    have hne : inst.id ≠ wfId := fun he => hid (by rw [hw, he])
    simp [InsertionMap.get_set_ne _ _ hne]

end Stores

end Jobflow
