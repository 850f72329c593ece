import Jobflow.Execution
import Jobflow.Lib.EventSystem

/-!
# The running system (src/services/workflow-service.ts, src/replay, src/persistence, src/container.ts)

A state is the stores together with every call that has been made. An event starts a call, or
resumes one at the await where it is suspended; which call moves next, what the clock reads and
which identifiers `randomUUID` gives are part of the event. Every interleaving of calls is a list
of events.
-/

namespace Jobflow

open Js (Record)

/-! ## `WorkflowService.createRun` -/

/-- The parts of random UUIDs that one `createRun` uses. -/
structure Uuids where
  run : String
  workflow : String
  tasks : List String

def newRunId (uuid : String) : RunId := "run_" ++ uuid
def newWorkflowId (uuid : String) : WorkflowId := "wf_" ++ uuid
def newTaskId (uuid : String) : TaskId := "task_" ++ uuid

/-- The workflow instance of a new run (workflow-service.ts:31-46). -/
def WorkflowService.newWorkflow (definition : JobDefinition) (jobId : JobId) (input : Record) (uuids : Uuids)
    (now : ISODateString) : WorkflowInstance where
  id := newWorkflowId uuids.workflow
  jobId := jobId
  runId := newRunId uuids.run
  state := .pending
  context := input
  tasks := List.zipWith (fun t uuid => createTaskRun (newTaskId uuid) (newRunId uuids.run) t.id t.handler)
    definition.tasks uuids.tasks
  history := []
  version := 1
  createdAt := now
  updatedAt := now

/-- The `JobRun` of a new run (workflow-service.ts:48-56). -/
def WorkflowService.newRun (jobId : JobId) (trigger : String) (input : Record) (uuids : Uuids)
    (now : ISODateString) :
    JobRun where
  id := newRunId uuids.run
  jobId := jobId
  workflowId := newWorkflowId uuids.workflow
  status := .pending
  startedAt := now
  finishedAt := none
  trigger := trigger
  input := input

/-- `randomUUID` never repeats: no record has one of the new ids. -/
def Uuids.Fresh (uuids : Uuids) (s : Stores) (definition : JobDefinition) : Prop :=
  s.workflowOfRun.get (newRunId uuids.run) = none ∧ s.workflows.get (newWorkflowId uuids.workflow) = none ∧
    uuids.tasks.length = definition.tasks.length ∧ uuids.tasks.Nodup

instance (uuids : Uuids) (s : Stores) (definition : JobDefinition) : Decidable (uuids.Fresh s definition) :=
  decidable_of_iff ((s.workflowOfRun.get (newRunId uuids.run)).isNone = true ∧
      (s.workflows.get (newWorkflowId uuids.workflow)).isNone = true ∧
      uuids.tasks.length = definition.tasks.length ∧ uuids.tasks.Nodup)
    (by simp [Uuids.Fresh])

/-- What an event brings from outside. -/
structure Reply where
  now : ISODateString
  uuids : Uuids

/-- The awaits of `createRun`. -/
inductive CreatePc where
  | definitionRead (found : Option JobDefinition)
  | workflowSaved (run : JobRun)
  | runSaved (run : JobRun)
  | settled (result : Except JobflowError JobRun)

/-- `createRun` from one await to the next (workflow-service.ts:19-62). -/
def WorkflowService.resume (jobId : JobId) (trigger : String) (input : Record) (s : Stores) (reply : Reply) :
    CreatePc → Option (Stores × CreatePc)
  | .definitionRead none => some (s, .settled (.error (.notFoundError "JobDefinition" jobId)))
  | .definitionRead (some definition) =>
    if reply.uuids.Fresh s definition then
      some (s.saveWorkflow (newWorkflow definition jobId input reply.uuids reply.now),
        .workflowSaved (newRun jobId trigger input reply.uuids reply.now))
    else none
  | .workflowSaved run => some (s.saveRun run, .runSaved run)
  | .runSaved run => some (s, .settled (.ok run))
  | .settled _ => none

/-! ## Callers that read a workflow and then do something with it

`getWorkflowByRun` (workflow-service.ts:64-68), and then `applyTransition`, `captureCheckpoint` or
`snapshot` (replayer.ts:29-33) with the instance that was read, however old it is by then. -/

inductive Use where
  | applyTransition (event : String) (target : WorkflowState) (actor : String)
  | captureCheckpoint (label : Option String)
  | snapshot

inductive UsePc where
  | read (found : Option WorkflowInstance)
  | transition (t : TransitionCall)
  | saved
  | settled (result : Except JobflowError Unit)

def Use.resume (world : World) (runId : RunId) (use : Use) (s : Stores) (now : ISODateString) :
    UsePc → Option (Stores × UsePc)
  | .read none => some (s, .settled (.error (.notFoundError "WorkflowInstance" runId)))
  | .read (some w) =>
    match use with
    | .applyTransition event target actor =>
      match WorkflowOrchestrator.applyTransition s w event target actor now with
      | .error e => some (s, .settled (.error e))
      | .ok (s, t) => some (s, .transition t)
    | .captureCheckpoint label => some (s.captureCheckpoint runId w label now, .settled (.ok ()))
    | .snapshot => some (s.saveWorkflow w, .saved)
  | .transition t =>
    match t.resume world s now with
    | (s, .suspended t) => some (s, .transition t)
    | (s, .threw e) => some (s, .settled (.error e))
    | (s, .returned _) => some (s, .settled (.ok ()))
  | .saved => some (s, .settled (.ok ()))
  | .settled _ => none

/-! ## `RunReplayer.replay` (replayer.ts:17-27)

The difference it computes and logs changes nothing; the two instances it compares are its result. -/

inductive ReplayPc where
  | read (found : Option WorkflowInstance)
  /-- `await this.execution.executeRun(runId)`, which is the call with this number. -/
  | executing (before : WorkflowInstance) (call : Nat)
  | readAgain (before : WorkflowInstance) (found : Option WorkflowInstance)
  | settled (result : Except JobflowError (WorkflowInstance × WorkflowInstance))

/-! ## The system -/

inductive Call where
  | execute (service : Nat) (runId : RunId) (pc : ExecPc)
  | create (jobId : JobId) (trigger : String) (input : Record) (pc : CreatePc)
  | use (runId : RunId) (use : Use) (pc : UsePc)
  | replay (service : Nat) (runId : RunId) (pc : ReplayPc)

structure System where
  stores : Stores
  /-- Every call made so far, in the order in which they were made. -/
  calls : List Call

def System.empty : System := ⟨.empty, []⟩

inductive Event where
  | register (input : JobDefinitionInput) (now : ISODateString)
  | createRun (jobId : JobId) (trigger : String) (input : Record)
  | executeRun (service : Nat) (runId : RunId)
  | use (runId : RunId) (use : Use)
  | replay (service : Nat) (runId : RunId)
  | restoreToCheckpoint (runId : RunId) (version : Option Nat) (now : ISODateString)
  | acquire (runId : RunId) (owner : String)
  | release (runId : RunId) (owner : String)
  | resume (call : Nat) (reply : Reply)

namespace System

/-- Make a new call. -/
def spawn (s : System) (stores : Stores) (call : Call) : System := ⟨stores, s.calls ++ [call]⟩

/-- Call number `i` is suspended again, or has settled. -/
def suspend (s : System) (i : Nat) (stores : Stores) (call : Call) : System := ⟨stores, s.calls.set i call⟩

/-- Call `executeRun`. -/
def execute (s : System) (service : Nat) (runId : RunId) : System :=
  let begun := ExecutionService.executeRun service runId s.stores
  s.spawn begun.1 (.execute service runId begun.2)

/-- `replay` from one await to the next. -/
def resumeReplay (s : System) (i : Nat) (service : Nat) (runId : RunId) : ReplayPc → Option System
  | .read none =>
    some (s.suspend i s.stores
      (.replay service runId (.settled (.error (.notFoundError "WorkflowInstance" runId)))))
  | .read (some before) =>
    some ((s.suspend i s.stores (.replay service runId (.executing before s.calls.length))).execute service runId)
  | .executing before call =>
    match s.calls[call]? with
    | some (.execute _ _ (.settled (.error e))) =>
      some (s.suspend i s.stores (.replay service runId (.settled (.error e))))
    | some (.execute _ _ (.settled (.ok ()))) =>
      some (s.suspend i s.stores (.replay service runId (.readAgain before (s.stores.getByRunId runId))))
    | _ => none
  | .readAgain _ none =>
    some (s.suspend i s.stores
      (.replay service runId (.settled (.error (.notFoundError "WorkflowInstance" runId)))))
  | .readAgain before (some after) =>
    some (s.suspend i s.stores (.replay service runId (.settled (.ok (before, after)))))
  | .settled _ => none

/-- Resume call number `i`. -/
def resume (world : World) (s : System) (i : Nat) (reply : Reply) : Option System :=
  match s.calls[i]? with
  | none => none
  | some (.execute service runId pc) =>
    (ExecutionService.resume world service runId s.stores reply.now pc).map fun r =>
      s.suspend i r.1 (.execute service runId r.2)
  | some (.create jobId trigger input pc) =>
    (WorkflowService.resume jobId trigger input s.stores reply pc).map fun r =>
      s.suspend i r.1 (.create jobId trigger input r.2)
  | some (.use runId use pc) =>
    (use.resume world runId s.stores reply.now pc).map fun r => s.suspend i r.1 (.use runId use r.2)
  | some (.replay service runId pc) => s.resumeReplay i service runId pc

def step (world : World) (s : System) : Event → Option System
  | .register input now =>
    match JobService.register world.handlers input now with
    | .ok definition => some { s with stores := s.stores.saveJob definition }
    | .error _ => some s
  | .createRun jobId trigger input =>
    some (s.spawn s.stores (.create jobId trigger input (.definitionRead (s.stores.jobs.get jobId))))
  | .executeRun service runId => some (s.execute service runId)
  | .use runId use => some (s.spawn s.stores (.use runId use (.read (s.stores.getByRunId runId))))
  | .replay service runId => some (s.spawn s.stores (.replay service runId (.read (s.stores.getByRunId runId))))
  | .restoreToCheckpoint runId version now =>
    some { s with stores := (s.stores.restoreToCheckpoint runId version now).1 }
  | .acquire runId owner =>
    match s.stores.acquire runId owner with
    | .ok stores => some { s with stores := stores }
    | .error _ => some s
  | .release runId owner => some { s with stores := s.stores.release runId owner }
  | .resume i reply => s.resume world i reply

end System

/-- Some list of events leads from the empty system to `s`. -/
abbrev System.Reachable (world : World) (s : System) : Prop := EventSystem.Reachable (System.step world) .empty s

end Jobflow
