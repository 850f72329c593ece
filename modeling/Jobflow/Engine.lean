import Jobflow.Validators

/-!
# State machine and guard (src/engine/state-machine.ts, src/engine/transition-guard.ts)
-/

namespace Jobflow

/-- `TransitionGuard.assertAllRequiredTasksSucceeded` (transition-guard.ts:36-45); it looks at every
task of the instance, optional or not. -/
def TransitionGuard.assertAllRequiredTasksSucceeded (tasks : List TaskRun) : Except JobflowError Unit :=
  let incomplete := tasks.filter fun t => t.status ≠ .succeeded ∧ t.status ≠ .skipped
  if incomplete.length ≠ 0 then
    .error (.transitionError
      ("cannot complete workflow: " ++ toString incomplete.length ++ " tasks not succeeded"))
  else .ok ()

/-- `TransitionGuard.evaluate` (transition-guard.ts:14-34). -/
def TransitionGuard.evaluate (inst : WorkflowInstance) (event : String) (target : WorkflowState) :
    Except JobflowError Unit := do
  if event = "complete" ∧ target = .completed then assertAllRequiredTasksSucceeded inst.tasks
  if event = "retry" ∧ target = .running ∧ ¬ inst.tasks.any (fun t => t.status = .failed) then
    .error (.transitionError "retry requires at least one failed task")
  if event = "cancel" ∧ inst.state = .running ∧ inst.tasks.any (fun t => t.status = .running) then
    .error (.transitionError "cannot cancel while tasks are running")

/-- `WorkflowStateMachine.transition` (state-machine.ts:12-37). -/
def WorkflowStateMachine.transition (inst : WorkflowInstance) (event : String) (target : WorkflowState)
    (actor : String) (note : Option String) (now : ISODateString) : Except JobflowError WorkflowInstance := do
  TransitionValidator.assertTransition DEFAULT_TRANSITION_RULES inst.state target event
  let entry : WorkflowHistoryEntry :=
    { timestamp := now, fromState := inst.state, toState := target, event := event, actor := actor, note := note }
  .ok { inst with
    state := target
    history := inst.history ++ [entry]
    version := inst.version + 1
    updatedAt := now }

/-- `WorkflowStateMachine.isTerminal` (state-machine.ts:39-45). -/
def WorkflowStateMachine.isTerminal (state : WorkflowState) : Bool :=
  state = .completed || state = .cancelled || state = .deadLettered

/-! ## What they accept -/

/-- The instance a transition makes. -/
def WorkflowInstance.moved (inst : WorkflowInstance) (event : String) (target : WorkflowState) (actor : String)
    (note : Option String) (now : ISODateString) : WorkflowInstance :=
  { inst with
    state := target
    history := inst.history ++
      [{ timestamp := now, fromState := inst.state, toState := target, event := event, actor := actor,
         note := note }]
    version := inst.version + 1
    updatedAt := now }

section
variable (inst : WorkflowInstance) (event : String) (target : WorkflowState) (actor : String)
  (note : Option String) (now : ISODateString)

@[simp] theorem moved_id : (inst.moved event target actor note now).id = inst.id := rfl
@[simp] theorem moved_jobId : (inst.moved event target actor note now).jobId = inst.jobId := rfl
@[simp] theorem moved_runId : (inst.moved event target actor note now).runId = inst.runId := rfl
@[simp] theorem moved_state : (inst.moved event target actor note now).state = target := rfl
@[simp] theorem moved_context : (inst.moved event target actor note now).context = inst.context := rfl
@[simp] theorem moved_tasks : (inst.moved event target actor note now).tasks = inst.tasks := rfl
@[simp] theorem moved_version : (inst.moved event target actor note now).version = inst.version + 1 := rfl

end

/-- A transition goes through exactly when the rules allow it, and then makes `moved`. -/
theorem WorkflowStateMachine.transition_ok {inst next : WorkflowInstance} {event : String}
    {target : WorkflowState} {actor : String} {note : Option String} {now : ISODateString} :
    transition inst event target actor note now = .ok next ↔
      (⟨inst.state, target, event⟩ : TransitionRule) ∈ DEFAULT_TRANSITION_RULES ∧
        next = inst.moved event target actor note now := by
  simp only [transition, TransitionValidator.assertTransition, ← TransitionValidator.canTransition_iff]
  by_cases h : TransitionValidator.canTransition DEFAULT_TRANSITION_RULES inst.state target event = true
  · simp [h, bind, Except.bind, WorkflowInstance.moved, eq_comm]
  · simp [h, bind, Except.bind]

/-- The check itself lets an instance through when each of its tasks is done with. -/
theorem TransitionGuard.assertAllRequiredTasksSucceeded_ok {tasks : List TaskRun} :
    assertAllRequiredTasksSucceeded tasks = .ok () ↔ ∀ t ∈ tasks, t.status = .succeeded ∨ t.status = .skipped := by
  have hfilter : (tasks.filter fun t => t.status ≠ .succeeded ∧ t.status ≠ .skipped).length = 0 ↔
      ∀ t ∈ tasks, t.status = .succeeded ∨ t.status = .skipped := by
    rw [List.length_eq_zero_iff, List.filter_eq_nil_iff]
    refine forall₂_congr fun t _ => ?_
    simp only [decide_eq_true_eq]
    tauto
  rw [← hfilter]
  unfold assertAllRequiredTasksSucceeded
  by_cases h : (tasks.filter fun t => t.status ≠ .succeeded ∧ t.status ≠ .skipped).length = 0
  · exact ⟨fun _ => h, fun _ => if_neg (not_not.2 h)⟩
  · refine ⟨fun hc => ?_, fun hc => absurd hc h⟩
    rw [if_pos h] at hc
    cases hc

/-- `complete` needs every task of the instance done with; the guard asks nothing else. -/
theorem TransitionGuard.evaluate_complete {inst : WorkflowInstance} :
    evaluate inst "complete" .completed = assertAllRequiredTasksSucceeded inst.tasks := by
  cases h : assertAllRequiredTasksSucceeded inst.tasks <;>
    simp [evaluate, h, bind, Except.bind, pure, Except.pure]

/-- The guard only has a say in `complete`, `retry` and `cancel`. -/
theorem TransitionGuard.evaluate_other {inst : WorkflowInstance} {event : String} {target : WorkflowState}
    (hc : event ≠ "complete") (hr : event ≠ "retry") (hx : event ≠ "cancel") :
    evaluate inst event target = .ok () := by
  simp [evaluate, hc, hr, hx, pure, Except.pure]

end Jobflow
