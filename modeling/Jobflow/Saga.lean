import Mathlib.Data.List.Dedup
import Jobflow.Workers

/-!
# Sagas (src/saga)

A saga runs the forward handlers of its steps in order and, when one of them is missing, fails or throws, the
compensations of the completed steps in reverse. `SagaCoordinator.start` awaits one handler call after the other and
keeps the instance to itself, so a run is a function of what the handlers answer (`SagaWorld`); `calls` records the
handler calls it makes. The map `instances`, which no modelled function reads, is left out.
-/

namespace Jobflow

open Js (Record Number Exception)

/-! ## Data (saga-types.ts) -/

inductive SagaStepStatus where
  | pending | running | completed | failed | compensating | compensated
  deriving DecidableEq

structure SagaStepDefinition where
  id : String
  name : String
  forward : String
  compensate : Option String
  timeoutMs : Number

/-- The compensation a step names: an empty string counts as none (`!stepDef?.compensate`). -/
def SagaStepDefinition.compensation (s : SagaStepDefinition) : Option String := s.compensate.filter (· ≠ "")

structure SagaStepState where
  stepId : String
  status : SagaStepStatus
  attempt : Nat
  output : Option Record
  error : Option String
  startedAt : Option ISODateString
  finishedAt : Option ISODateString

inductive SagaStatus where
  | active | completed | failed | compensated
  deriving DecidableEq

structure SagaInstance where
  id : String
  runId : RunId
  definitionId : String
  steps : List SagaStepState
  status : SagaStatus
  createdAt : ISODateString
  updatedAt : ISODateString

structure SagaDefinition where
  id : String
  name : String
  steps : List SagaStepDefinition

/-! ## Runs -/

/-- What a run draws from outside: the names `handlers.get` knows, how the forward call and the compensation of each
step settle (a run makes at most one of each), and the readings of the clock. -/
structure SagaWorld where
  registered : List String
  forward : Nat → HandlerOutcome
  compensate : Nat → HandlerOutcome
  clock : Nat → ISODateString

inductive SagaPhase where
  | forward | compensate
  deriving DecidableEq

/-- A call of a handler's `execute`: for which step, and with what. -/
structure SagaCall where
  phase : SagaPhase
  step : Nat
  handler : String
  context : HandlerContext
  task : TaskDefinition

/-- A run between two calls. `stack` holds references: the indices of step states. -/
structure SagaState where
  saga : SagaInstance
  stack : List Nat
  priorOutputs : InsertionMap String Record
  readings : Nat
  calls : List SagaCall

def SagaState.setStep (s : SagaState) (i : Nat) (f : SagaStepState → SagaStepState) : SagaState :=
  { s with saga := { s.saga with steps := s.saga.steps.modify i f } }

def SagaState.setStatus (s : SagaState) (status : SagaStatus) : SagaState :=
  { s with saga := { s.saga with status } }

def SagaState.call (s : SagaState) (c : SagaCall) : SagaState := { s with calls := s.calls ++ [c] }

/-- Read the clock. -/
def SagaState.tick (s : SagaState) : SagaState := { s with readings := s.readings + 1 }

/-- `CompensationStack.push` (compensation-stack.ts:6-10). -/
def SagaState.push (s : SagaState) (i : Nat) : SagaState :=
  if (s.saga.steps[i]?.map (·.status)) = some .completed then { s with stack := s.stack ++ [i] } else s

/-- The forward call of the `i`-th step (saga-coordinator.ts:76-87). -/
def SagaCoordinator.forwardCall (runId : RunId) (input : Record) (priorOutputs : InsertionMap String Record) (i : Nat)
    (step : SagaStepDefinition) : SagaCall where
  phase := .forward
  step := i
  handler := step.forward
  context := ⟨runId, step.id, input, priorOutputs.entries⟩
  task := ⟨step.id, step.name, step.forward, step.timeoutMs, none, none⟩

/-- The compensation of the `i`-th step (saga-coordinator.ts:124-136). -/
def SagaCoordinator.compensateCall (runId : RunId) (output : Option Record) (i : Nat) (step : SagaStepDefinition)
    (compensate : String) : SagaCall where
  phase := .compensate
  step := i
  handler := compensate
  context := ⟨runId, step.id, output.getD [], []⟩
  task := ⟨step.id, "compensate-" ++ step.name, compensate, step.timeoutMs, none, none⟩

/-- The body of the loop of `compensate` (saga-coordinator.ts:116-146), for the `i`-th step state. -/
def SagaCoordinator.compensateStep (w : SagaWorld) (d : SagaDefinition) (s : SagaState) (i : Nat) : SagaState :=
  match s.saga.steps[i]? with
  | none => s
  | some completed =>
    match d.steps.find? fun t => t.id = completed.stepId with
    | none => s
    | some stepDef =>
      match stepDef.compensation with
      | none => s
      | some compensate =>
        match s.saga.steps.findIdx? fun t => t.stepId = completed.stepId with
        | none => s
        | some j =>
          if compensate ∉ w.registered then s
          else
            let s := s.setStep j fun t => { t with status := .compensating }
            let s := s.call (compensateCall s.saga.runId completed.output i stepDef compensate)
            match w.compensate i with
            | .throws _ => s
            | .returns _ => s.setStep j fun t => { t with status := .compensated }

/-- `compensate` (saga-coordinator.ts:110-148), with `toCompensateOrder`. -/
def SagaCoordinator.compensate (w : SagaWorld) (d : SagaDefinition) (s : SagaState) : SagaState :=
  (s.stack.reverse.foldl (compensateStep w d) s).setStatus .compensated

/-- `persist` (saga-coordinator.ts:154-158). -/
def SagaCoordinator.persist (w : SagaWorld) (s : SagaState) : SagaState :=
  { s.tick with saga := { s.saga with updatedAt := w.clock s.readings } }

/-- Each of the exits of the loop of `executeForward` for a step that did not get through. -/
def SagaCoordinator.fail (w : SagaWorld) (d : SagaDefinition) (i : Nat) (message : String) (s : SagaState) :
    SagaState :=
  let s := s.setStep i fun t => { t with status := .failed, error := some message }
  persist w (compensate w d (s.setStatus .failed))

/-- `String(result.output?.error ?? "step failed")`. -/
def SagaCoordinator.failureText (output : Record) : Except Exception String :=
  match (Js.Value.object none output).get "error" with
  | .undefined | .null => .ok "step failed"
  | v => v.toText

/-- What a forward call comes to (saga-coordinator.ts:82-105): its output, or the error text of the step. -/
def SagaCoordinator.forwardResult : HandlerOutcome → Except String Record
  | .throws message => .error message
  | .returns result =>
    if result.success then .ok result.output
    else
      match failureText result.output with
      | .ok text => .error text
      | .error e => .error e.message

/-- The start of a round of `executeForward` (saga-coordinator.ts:57-59). -/
def SagaCoordinator.begin (w : SagaWorld) (i : Nat) (s : SagaState) : SagaState :=
  (s.setStep i fun t =>
    { t with status := .running, attempt := t.attempt + 1, startedAt := some (w.clock s.readings) }).tick

/-- A forward call that succeeded (saga-coordinator.ts:95-99). -/
def SagaCoordinator.complete (w : SagaWorld) (i : Nat) (step : SagaStepDefinition) (output : Record)
    (s : SagaState) : SagaState :=
  let s := (s.setStep i fun t =>
    { t with status := .completed, output := some output, finishedAt := some (w.clock s.readings) }).tick
  let s := { s with priorOutputs := s.priorOutputs.set step.id output }
  s.push i

/-- The loop of `executeForward` (saga-coordinator.ts:54-105), from the `i`-th step on. -/
def SagaCoordinator.executeForward (w : SagaWorld) (d : SagaDefinition) (input : Record) :
    List SagaStepDefinition → Nat → SagaState → SagaState
  | [], _, s => persist w (s.setStatus .completed)
  | step :: steps, i, s =>
    let s := begin w i s
    if step.forward ∉ w.registered then fail w d i ("no handler for " ++ step.forward) s
    else
      let s := s.call (forwardCall s.saga.runId input s.priorOutputs i step)
      match forwardResult (w.forward i) with
      | .error message => fail w d i message s
      | .ok output => executeForward w d input steps (i + 1) (complete w i step output s)

/-- The instance that `start` makes (saga-coordinator.ts:29-42). -/
def SagaCoordinator.newInstance (w : SagaWorld) (d : SagaDefinition) (definitionId : String) (runId : RunId) :
    SagaState where
  saga :=
    { id := "saga_" ++ runId
      runId
      definitionId
      steps := d.steps.map fun s => ⟨s.id, .pending, 0, none, none, none, none⟩
      status := .active
      createdAt := w.clock 0
      updatedAt := w.clock 1 }
  stack := []
  priorOutputs := .empty
  readings := 2
  calls := []

/-- `SagaCoordinator.start` (saga-coordinator.ts:25-46). -/
def SagaCoordinator.start (w : SagaWorld) (definitions : InsertionMap String SagaDefinition) (definitionId : String)
    (runId : RunId) (input : Record) : Except Exception SagaState :=
  match definitions.get definitionId with
  | none => .error (.error ("unknown saga definition: " ++ definitionId))
  | some d => .ok (executeForward w d input d.steps 0 (newInstance w d definitionId runId))

end Jobflow
