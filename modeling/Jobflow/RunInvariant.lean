import Jobflow.Progress
import Jobflow.Runs

/-!
# The invariant of an executed run

`RunInv` ties together what the stores hold of a run, the copy the executor works on and the await it is
suspended at: the copy is the stored instance, its tasks are in one of the shapes of `Progress`, the `JobRun`
follows the workflow with the delay of `applyTransition`, and the handler calls made so far are the attempts
the tasks have recorded. `runInv_closed` says that every segment of `executeRun` keeps it.
-/

namespace Jobflow

/-- The attempt numbers of the handler calls of one task, oldest first. -/
def attemptsOf (log : List Invocation) (taskId : String) : List Nat :=
  (log.filter fun i => i.context.taskId = taskId).map (·.attempt)

/-- The calls that the next attempt of the task has had before. -/
def earlierCalls (log : List Invocation) (t : TaskRun) : Nat :=
  log.countP fun i => i.context.taskId = t.definitionTaskId ∧ i.attempt = t.attempt + 1

/-- Some `block` constraint of `d` is violated at the end of `w`. -/
def Blocked (d : JobDefinition) (w : WorkflowInstance) : Prop :=
  ConstraintValidator.blocked d.constraints
    { context := w.context, taskOutputs := RunContextFactory.taskOutputs w.tasks } = true

/-- The threshold of the dead-letter decision is reached. -/
def OverThreshold (d : JobDefinition) (w : WorkflowInstance) : Prop :=
  d.retryPolicy.maxAttempts * (d.tasks.length : Int) ≤ (ExecutionService.attempts w : Int)

/-- What the stores hold of a run whose instance is `w` and whose `JobRun` says `status`; a handler call of task
`flight` has been made that `w` does not know of yet. -/
structure Stored (d : JobDefinition) (rec : RunRecord) (w : WorkflowInstance) (status : WorkflowState)
    (flight : Option String) : Prop where
  workflow : rec.workflow = some w
  run : ∃ run, rec.run = some run ∧ run.jobId = d.id ∧ run.status = status
  log : ∀ t ∈ w.tasks, attemptsOf rec.invocations t.definitionTaskId =
    List.range' 1 (t.attempt + if flight = some t.definitionTaskId then 1 else 0)

/-- What an executed run looks like when no call executes it. -/
inductive Settled (world : World) (d : JobDefinition) (w₀ w : WorkflowInstance) (dl : List DeadLetterEntry) :
    Prop where
  | pending (hs : w.state = .pending) (hw : AtLoop world d w₀ w) (hu : ∀ t ∈ w.tasks, Untouched t) (hdl : dl = [])
  | blocked (hs : w.state = .running) (hw : AllDone world d w₀ w) (hb : Blocked d w) (hdl : dl = [])
  | completed (hs : w.state = .completed) (hw : AllDone world d w₀ w) (hb : ¬ Blocked d w) (hdl : dl = [])
  | failed {done : List String} {c : TaskDefinition} (hs : w.state = .failed)
      (hw : Busy world d w₀ done c .failed (allowedAttempts d.retryPolicy) w) (ht : ¬ OverThreshold d w)
      (hdl : dl = [])
  | deadLettered {done : List String} {c : TaskDefinition} {entry : DeadLetterEntry} (hs : w.state = .deadLettered)
      (hw : Busy world d w₀ done c .failed (allowedAttempts d.retryPolicy) w) (ht : OverThreshold d w)
      (hdl : dl = [entry])

/-- The instance a transition of `executeRun` has saved, and the state it left. -/
inductive Moving (world : World) (d : JobDefinition) (w₀ w : WorkflowInstance) : Purpose → WorkflowState →
    Prop where
  | start (hs : w.state = .running) (hw : AtLoop world d w₀ w) : Moving world d w₀ w .start .pending
  | complete (hs : w.state = .completed) (hw : AllDone world d w₀ w) (hb : ¬ Blocked d w) :
      Moving world d w₀ w .complete .running
  | fail {done : List String} {c : TaskDefinition} (hs : w.state = .failed)
      (hw : Busy world d w₀ done c .failed (allowedAttempts d.retryPolicy) w) : Moving world d w₀ w .fail .running
  | deadLetter {done : List String} {c : TaskDefinition} (hs : w.state = .deadLettered)
      (hw : Busy world d w₀ done c .failed (allowedAttempts d.retryPolicy) w) (ht : OverThreshold d w) :
      Moving world d w₀ w .deadLetter .failed

/-- What the `JobRun` says while `applyTransition` is on its way. -/
def TransitionCall.runStatus (t : TransitionCall) (before : WorkflowState) : WorkflowState :=
  match t.stage with
  | .workflowSaved | .runRead _ => before
  | .runSaved | .returned => t.target

/-- The state of the record and the settled calls of the run. -/
def RestInv (world : World) (d : JobDefinition) (w₀ : WorkflowInstance) (rec : RunRecord) : Prop :=
  ∃ w, Stored d rec w w.state none ∧ Settled world d w₀ w rec.deadLetters

inductive RunInv (world : World) (d : JobDefinition) (w₀ : WorkflowInstance) : Option ExecPc → RunRecord →
    Prop where
  | rest {rec : RunRecord} (h : RestInv world d w₀ rec) : RunInv world d w₀ none rec
  | runRead {rec : RunRecord} (h : RestInv world d w₀ rec) : RunInv world d w₀ (some (.runRead rec.run)) rec
  | definitionRead {rec : RunRecord} (h : RestInv world d w₀ rec) :
      RunInv world d w₀ (some (.definitionRead d.id (some d))) rec
  | workflowRead {rec : RunRecord} (h : RestInv world d w₀ rec) :
      RunInv world d w₀ (some (.workflowRead d rec.workflow)) rec
  | started {rec : RunRecord} {w : WorkflowInstance} (h : Stored d rec w w.state none)
      (hs : Settled world d w₀ w rec.deadLetters) (hne : w.state ≠ .pending) :
      RunInv world d w₀ (some (.started d w)) rec
  | transition {rec : RunRecord} {t : TransitionCall} {purpose : Purpose} {before : WorkflowState}
      (h : Stored d rec t.next (t.runStatus before) none) (hm : Moving world d w₀ t.next purpose before)
      (ht : t.target = t.next.state) (hstage : t.stage ≠ .runRead false) (hdl : rec.deadLetters = []) :
      RunInv world d w₀ (some (.transition purpose d t)) rec
  | handler {rec : RunRecord} {w : WorkflowInstance} {done : List String} {c : TaskDefinition} {t : TaskRun}
      {n : Nat}
      {now : ISODateString} {i : Invocation} (h : Stored d rec w .running (some c.id)) (hs : w.state = .running)
      (hw : Busy world d w₀ done c .queued n w) (hn : n < allowedAttempts d.retryPolicy) (ht : t ∈ w.tasks)
      (htc : t.definitionTaskId = c.id) (hi : rec.invocations.getLast? = some i)
      (hctx : i.context = TaskExecutor.handlerContext t w.context) (hdl : rec.deadLetters = []) :
      RunInv world d w₀ (some (.handler d w c (TaskExecutor.start t now) 0)) rec
  | succeeded {rec : RunRecord} {w : WorkflowInstance} {result : ExecuteResult} (h : Stored d rec w .running none)
      (hs : w.state = .running) (hw : AtLoop world d w₀ w) (hr : result.task.status = .succeeded)
      (ha : result.retryAfterMs = none) (hdl : rec.deadLetters = []) :
      RunInv world d w₀ (some (.taskSaved d w result)) rec
  | exhausted {rec : RunRecord} {w : WorkflowInstance} {result : ExecuteResult} {done : List String}
      {c : TaskDefinition} (h : Stored d rec w .running none) (hs : w.state = .running)
      (hw : Busy world d w₀ done c .failed (allowedAttempts d.retryPolicy) w) (hr : result.task.status = .failed)
      (ha : result.retryAfterMs = none) (hdl : rec.deadLetters = []) :
      RunInv world d w₀ (some (.taskSaved d w result)) rec
  | retrying {rec : RunRecord} {pc : ExecPc} {w : WorkflowInstance} {result : ExecuteResult} {done : List String}
      {c : TaskDefinition} (hpc : pc = .taskSaved d w result ∨ pc = .sleeping d w result)
      (h : Stored d rec w .running none) (hs : w.state = .running)
      (hw : Busy world d w₀ done c .retrying result.task.attempt w)
      (hn : result.task.attempt < allowedAttempts d.retryPolicy) (ht : result.task ∈ w.tasks)
      (htc : result.task.definitionTaskId = c.id) (ha : result.retryAfterMs.isSome = true)
      (hdl : rec.deadLetters = []) : RunInv world d w₀ (some pc) rec
  | requeued {rec : RunRecord} {w : WorkflowInstance} {result : ExecuteResult} (h : Stored d rec w .running none)
      (hs : w.state = .running) (hw : AtLoop world d w₀ w) (hr : result.task.status ≠ .failed)
      (hdl : rec.deadLetters = []) : RunInv world d w₀ (some (.requeued d w result)) rec
  | deadLetterPushed {rec : RunRecord} {w : WorkflowInstance} (h : Stored d rec w .deadLettered none)
      (hs : w.state = .deadLettered) (hset : Settled world d w₀ w rec.deadLetters) :
      RunInv world d w₀ (some .deadLetterPushed) rec

/-! ## The stores after each kind of write -/

section
variable {d : JobDefinition} {s : Stores} {r : RunId} {w w' : WorkflowInstance} {rec : RunRecord}
  {status : WorkflowState} {flight : Option String}

theorem record_saveWorkflow (hc : s.Coherent) (ho : s.Owns r w) :
    (s.saveWorkflow w).record r = { s.record r with workflow := some w } := by
  have hne := (hc.stored r _ ho.2).1
  have := s.getByRunId_saveWorkflow_self w hne
  rw [ho.1] at this
  simp only [Stores.record, this]
  rfl

theorem record_settle (k : Nat) (result : Except JobflowError Unit) :
    (ExecutionService.settle k r s result).1.record r = s.record r := by
  obtain ⟨locks, hl, _⟩ := release_eq (s.deleteLocalLock k r) r ExecutionService.owner
  simp only [ExecutionService.settle, hl]
  rfl

theorem record_updateRun (hc : s.Coherent) {run : JobRun} (hrun : s.runs.get r = some run) (target : WorkflowState)
    (now : ISODateString) : ∃ run', run'.jobId = run.jobId ∧ run'.status = target ∧
      (WorkflowOrchestrator.updateRun s r target now).record r = { s.record r with run := some run' } := by
  let run' : JobRun := { run with
    status := target
    finishedAt := if WorkflowStateMachine.isTerminal target then some now else run.finishedAt }
  refine ⟨run', rfl, rfl, ?_⟩
  simp only [WorkflowOrchestrator.updateRun, hrun]
  exact @record_saveRun_self s r run' (hc.runs r run hrun)

theorem record_invoke {i : Invocation} (hi : i.runId = r) :
    ({ s with invocations := s.invocations ++ [i] } : Stores).record r =
      { s.record r with invocations := (s.record r).invocations ++ [i] } := by
  simp only [Stores.record, List.filter_append, List.filter_cons, hi]
  simp [Stores.getByRunId]

theorem record_pushDeadLetter {entry : DeadLetterEntry} (he : entry.runId = r) :
    (s.pushDeadLetter entry).record r =
      { s.record r with deadLetters := (s.record r).deadLetters ++ [entry] } := by
  simp only [Stores.record, Stores.pushDeadLetter, List.filter_append, List.filter_cons, he]
  simp [Stores.getByRunId]

/-- The record of a run after its instance has been replaced by one with the same attempts. -/
theorem Stored.save (h : Stored d rec w status flight)
    (htasks : w'.tasks.map (fun t => (t.definitionTaskId, t.attempt)) =
      w.tasks.map fun t => (t.definitionTaskId, t.attempt)) :
    Stored d { rec with workflow := some w' } w' status flight := by
  refine ⟨rfl, h.run, fun t ht => ?_⟩
  have hmem : (t.definitionTaskId, t.attempt) ∈ w.tasks.map fun t => (t.definitionTaskId, t.attempt) := by
    rw [← htasks]
    exact List.mem_map_of_mem (f := fun t : TaskRun => (t.definitionTaskId, t.attempt)) ht
  obtain ⟨u, hu, he⟩ := List.mem_map.1 hmem
  obtain ⟨hid, hatt⟩ := Prod.mk.inj he
  have := h.log u hu
  rw [hid, hatt] at this
  exact this

end

/-! ## Shapes survive a transition -/

section
variable {world : World} {d : JobDefinition} {w₀ w : WorkflowInstance} {event : String} {target : WorkflowState}
  {actor : String} {note : Option String} {now : ISODateString} {done : List String} {c : TaskDefinition}
  {status : TaskStatus} {n : Nat}

theorem Later.moved (h : Later w₀ w) : Later w₀ (w.moved event target actor note now) := ⟨h.identity, h.context⟩

theorem Busy.moved (h : Busy world d w₀ done c status n w) :
    Busy world d w₀ done c status n (w.moved event target actor note now) :=
  ⟨h.later.moved, h.scheduled, h.ready, h.finished, h.current, h.failed, h.untouched⟩

theorem AllDone.moved (h : AllDone world d w₀ w) : AllDone world d w₀ (w.moved event target actor note now) :=
  ⟨h.later.moved, h.finished⟩

theorem AtLoop.moved (h : AtLoop world d w₀ w) : AtLoop world d w₀ (w.moved event target actor note now) := by
  cases h with
  | busy h hn => exact .busy h.moved hn
  | allDone h => exact .allDone h.moved

end

/-! ## Every segment keeps the invariant -/

section
variable {world : World} {k : Nat} {d : JobDefinition} {w₀ w : WorkflowInstance} {s : Stores} {now : ISODateString}
  {rec : RunRecord} {done : List String} {c : TaskDefinition} {n : Nat} {t t' : TaskRun}
  {status : WorkflowState} {flight : Option String}

/-- The record after the executor's task has been saved. -/
theorem Stored.updateTask (ha : Accepted d) (hi : Instantiates d w₀) (hl : Later w₀ w)
    (h : Stored d rec w status flight)
    (ht : t ∈ w.tasks) (hid : t'.identity = t.identity)
    (hatt : t'.attempt = t.attempt + if flight = some t.definitionTaskId then 1 else 0)
    (hflight : ∀ id, flight = some id → id = t.definitionTaskId) :
    Stored d { rec with workflow := some (ExecutionService.updateTask w t' now) }
      (ExecutionService.updateTask w t' now) status none := by
  refine ⟨rfl, h.run, fun x hx => ?_⟩
  rcases (updateTask_mem ha hi hl ht hid now x).1 hx with rfl | ⟨hx, hne⟩
  · have hdid : x.definitionTaskId = t.definitionTaskId := congrArg (fun y => y.2.1) hid
    have := h.log t ht
    rw [← hatt, ← hdid] at this
    simpa using this
  · have := h.log x hx
    rwa [if_neg fun he => hne (hflight _ he)] at this

/-- Calling a handler. -/
theorem Stored.invoke (h : Stored d rec w status none) (i : Invocation)
    (hi : ∀ t ∈ w.tasks, t.definitionTaskId = i.context.taskId → i.attempt = t.attempt + 1) :
    Stored d { rec with invocations := rec.invocations ++ [i] } w status (some i.context.taskId) := by
  refine ⟨h.workflow, h.run, fun t ht => ?_⟩
  have hlog := h.log t ht
  simp only [attemptsOf, List.filter_append, List.map_append, if_false, Nat.add_zero, reduceCtorEq] at hlog ⊢
  by_cases he : i.context.taskId = t.definitionTaskId
  · rw [hlog, if_pos (by rw [he])]
    simp [he, hi t ht he.symm, List.range'_concat, Nat.add_comm]
  · rw [hlog, if_neg (by simpa using he)]
    simp [he]

theorem timesInvoked_eq (s : Stores) (r : RunId) (t : TaskRun) :
    s.timesInvoked r t.definitionTaskId (t.attempt + 1) = earlierCalls (s.record r).invocations t := by
  unfold Stores.timesInvoked earlierCalls Stores.record
  rw [List.countP_filter]
  refine List.countP_congr fun i _ => ?_
  simp [and_comm]

/-- When the log has the attempts of the task once each, the next one has not been made. -/
theorem earlierCalls_eq_zero {log : List Invocation} {t : TaskRun}
    (h : attemptsOf log t.definitionTaskId = List.range' 1 t.attempt) : earlierCalls log t = 0 := by
  unfold earlierCalls
  rw [List.countP_eq_zero]
  intro i hi hx
  obtain ⟨htask, hatt⟩ := of_decide_eq_true hx
  have hmem : i.attempt ∈ attemptsOf log t.definitionTaskId :=
    List.mem_map_of_mem (f := (·.attempt)) (List.mem_filter.2 ⟨hi, decide_eq_true htask⟩)
  rw [h, hatt, List.mem_range'_1] at hmem
  omega

/-- The executor has not made this call before. -/
theorem Stored.timesInvoked (h : Stored d (s.record w₀.runId) w status none) (ht : t ∈ w.tasks) :
    s.timesInvoked w₀.runId t.definitionTaskId (t.attempt + 1) = 0 := by
  rw [timesInvoked_eq]
  exact earlierCalls_eq_zero (h.log t ht)

/-- A transition the guard and the rules accept. -/
theorem transition_accepted {purpose : Purpose} {event : String} {target : WorkflowState} {actor : String}
    (hg : TransitionGuard.evaluate w event target = .ok ())
    (hr : (⟨w.state, target, event⟩ : TransitionRule) ∈ DEFAULT_TRANSITION_RULES) :
    ExecutionService.transition s purpose d w event target actor now =
      (s.saveWorkflow (w.moved event target actor none now),
        .transition purpose d ⟨w.state, event, target, w.moved event target actor none now, .workflowSaved⟩) := by
  unfold ExecutionService.transition
  rw [WorkflowOrchestrator.applyTransition_ok.2 ⟨hg, hr, rfl, rfl⟩]

/-- `complete` is refused while a task is not done with. -/
theorem transition_refused {d : JobDefinition} {actor : String}
    (h : ¬ ∀ t ∈ w.tasks, t.status = .succeeded ∨ t.status = .skipped) : ∃ message,
    ExecutionService.transition s .complete d w "complete" .completed actor now =
      (s, .rejected (.transitionError message)) := by
  have hg : ∃ message, TransitionGuard.assertAllRequiredTasksSucceeded w.tasks = .error (.transitionError message) := by
    by_contra hno
    refine h (TransitionGuard.assertAllRequiredTasksSucceeded_ok.1 ?_)
    unfold TransitionGuard.assertAllRequiredTasksSucceeded at hno ⊢
    dsimp only at hno ⊢
    split
    · rename_i hne
      rw [if_pos hne] at hno
      exact absurd ⟨_, rfl⟩ hno
    · rfl
  obtain ⟨message, hg⟩ := hg
  refine ⟨message, ?_⟩
  unfold ExecutionService.transition WorkflowOrchestrator.applyTransition
  rw [TransitionGuard.evaluate_complete, hg]
  rfl

/-- The first segment of a transition of `executeRun`. -/
theorem RunInv.transition_begin (hc : s.Coherent) (ho : s.Owns w₀.runId w)
    (h : Stored d (s.record w₀.runId) w w.state none) (hdl : (s.record w₀.runId).deadLetters = [])
    {purpose : Purpose} {event : String} {target : WorkflowState} {actor : String}
    (hg : TransitionGuard.evaluate w event target = .ok ())
    (hr : (⟨w.state, target, event⟩ : TransitionRule) ∈ DEFAULT_TRANSITION_RULES)
    (hm : Moving world d w₀ (w.moved event target actor none now) purpose w.state) :
    RunInv world d w₀ (ExecutionService.transition s purpose d w event target actor now).2.running
      ((ExecutionService.transition s purpose d w event target actor now).1.record w₀.runId) := by
  rw [transition_accepted hg hr]
  have ho' : s.Owns w₀.runId (w.moved event target actor none now) := (Derived.moved hr).owns ho
  dsimp only [ExecPc.running]
  rw [record_saveWorkflow hc ho']
  exact .transition (h.save rfl) hm rfl (by simp) hdl

/-- After the loop. -/
theorem RunInv.afterLoop (hc : s.Coherent) (ho : s.Owns w₀.runId w)
    (h : Stored d (s.record w₀.runId) w w.state none)
    (hs : (w.state ≠ .failed ∧ Settled world d w₀ w (s.record w₀.runId).deadLetters) ∨
      (w.state = .failed ∧ (s.record w₀.runId).deadLetters = [] ∧
        ∃ done c, Busy world d w₀ done c .failed (allowedAttempts d.retryPolicy) w)) :
    RunInv world d w₀ (ExecutionService.afterLoop k w₀.runId s d w now).2.running
      ((ExecutionService.afterLoop k w₀.runId s d w now).1.record w₀.runId) := by
  have hsettle : ∀ (hset : Settled world d w₀ w (s.record w₀.runId).deadLetters),
      RunInv world d w₀ (ExecutionService.settle k w₀.runId s (.ok ())).2.running
        ((ExecutionService.settle k w₀.runId s (.ok ())).1.record w₀.runId) := fun hset => by
    rw [record_settle]
    exact .rest ⟨w, h, hset⟩
  unfold ExecutionService.afterLoop
  rcases hs with ⟨hne, hset⟩ | ⟨hf, hdl, done, c, hw⟩
  · rw [if_neg fun hx => hne hx.1]
    exact hsettle hset
  · by_cases ht : OverThreshold d w
    · rw [if_pos ⟨hf, ht⟩]
      refine RunInv.transition_begin hc ho h hdl (TransitionGuard.evaluate_other (by decide) (by decide)
        (by decide))
        (by rw [hf]; decide) ?_
      rw [hf]
      exact .deadLetter rfl hw.moved ht
    · rw [if_neg fun hx => ht hx.2]
      exact hsettle (.failed hf hw ht hdl)

/-- The head of the loop. -/
theorem RunInv.loop (ha : Accepted d) (hi : Instantiates d w₀) (hc : s.Coherent) (ho : s.Owns w₀.runId w)
    (h : Stored d (s.record w₀.runId) w .running none) (hs : w.state = .running) (hw : AtLoop world d w₀ w)
    (hdl : (s.record w₀.runId).deadLetters = []) :
    RunInv world d w₀ (ExecutionService.loop k w₀.runId s d w now).2.running
      ((ExecutionService.loop k w₀.runId s d w now).1.record w₀.runId) := by
  unfold ExecutionService.loop
  rw [if_neg (not_not.2 hs)]
  cases hw with
  | @busy done c n hw hn =>
    obtain ⟨t, ht, htc⟩ := hw.exists_taskRun hi
    have hfind : w.tasks.find? (fun t => t.definitionTaskId = c.id) = some t := by
      cases hf : w.tasks.find? fun t => t.definitionTaskId = c.id with
      | none =>
        have := List.find?_eq_none.1 hf t ht
        simp [htc] at this
      | some u =>
        have hu := List.find?_some hf
        simp only [decide_eq_true_eq] at hu
        rw [hw.later.eq_of_definitionTaskId ha hi (List.mem_of_find?_eq_some hf) ht (hu.trans htc.symm)]
    simp only [hw.nextRunnable ha hi, hfind, ExecutionService.invoke, ExecPc.running]
    rw [record_invoke rfl, show (TaskExecutor.start t now).attempt = t.attempt + 1 from rfl, h.timesInvoked ht]
    have hrec := h.invoke
      { runId := w₀.runId
        handler := c.handler
        attempt := t.attempt + 1
        context := TaskExecutor.handlerContext t w.context } fun u hu hid => by
          rw [hw.later.eq_of_definitionTaskId ha hi hu ht hid]
    have hflight : (TaskExecutor.handlerContext t w.context).taskId = c.id := htc
    rw [hflight] at hrec
    exact .handler hrec hs hw hn ht htc List.getLast?_concat rfl hdl
  | allDone hw =>
    have hdone := hw.allDone ha hi
    simp only [hw.nextRunnable ha hi, hdone, if_true]
    cases hr : RuleEngine.apply d
        { context := w.context, taskOutputs := RunContextFactory.taskOutputs w.tasks } with
    | error e =>
      have hb : Blocked d w := by
        unfold Blocked
        by_contra hne
        rw [Bool.not_eq_true, ← RuleEngine.apply_ok, hr] at hne
        cases hne
      dsimp only
      rw [record_settle]
      exact .rest ⟨w, hs ▸ h, .blocked hs hw hb hdl⟩
    | ok _ =>
      have hb : ¬ Blocked d w := by
        unfold Blocked
        rw [RuleEngine.apply_ok.1 hr]
        simp
      have hg : TransitionGuard.evaluate w "complete" .completed = .ok () := by
        rw [TransitionGuard.evaluate_complete, TransitionGuard.assertAllRequiredTasksSucceeded_ok]
        exact fun t ht => .inl (hw.finished t ht).status
      exact RunInv.transition_begin hc ho (hs ▸ h) hdl hg (by rw [hs]; decide)
        (by rw [hs]; exact .complete rfl hw.moved hb)

/-- Entering the loop with an instance read from the store. -/
theorem RunInv.enter (ha : Accepted d) (hi : Instantiates d w₀) (hc : s.Coherent) (ho : s.Owns w₀.runId w)
    (h : Stored d (s.record w₀.runId) w w.state none) (hs : Settled world d w₀ w (s.record w₀.runId).deadLetters)
    (hne : w.state ≠ .pending) :
    RunInv world d w₀ (ExecutionService.loop k w₀.runId s d w now).2.running
      ((ExecutionService.loop k w₀.runId s d w now).1.record w₀.runId) := by
  have hskip : w.state ≠ .running →
      ExecutionService.loop k w₀.runId s d w now = ExecutionService.afterLoop k w₀.runId s d w now := fun hr => by
    rw [ExecutionService.loop, if_pos hr]
  cases hs with
  | pending hp => exact absurd hp hne
  | blocked hr hw _ hdl => exact RunInv.loop ha hi hc ho (hr ▸ h) hr (.allDone hw) hdl
  | completed hr hw hb hdl =>
    rw [hskip (by simp [hr])]
    exact RunInv.afterLoop hc ho h (.inl ⟨by simp [hr], .completed hr hw hb hdl⟩)
  | @failed done c hr hw _ hdl =>
    rw [hskip (by simp [hr])]
    exact RunInv.afterLoop hc ho h (.inr ⟨hr, hdl, done, c, hw⟩)
  | deadLettered hr hw ht hdl =>
    rw [hskip (by simp [hr])]
    exact RunInv.afterLoop hc ho h (.inl ⟨by simp [hr], .deadLettered hr hw ht hdl⟩)

/-- With listeners that do not throw, `emit` only leaves its traces. -/
theorem announce_quiet (hq : world.Quiet) (s : Stores) (t : TransitionCall) (now : ISODateString) :
    ∃ heard, WorkflowOrchestrator.announce world s t now =
      ({ s with heard := heard }, .suspended { t with stage := .returned }) := by
  have : (WorkflowOrchestrator.emitFrom 0 world.listeners
      (.workflowTransitioned t.next.runId t.fromState t.target t.event now)).2 = none :=
    WorkflowOrchestrator.emitFrom_quiet (fun l hl => hq l hl _) 0
  unfold WorkflowOrchestrator.announce
  simp only [this]
  exact ⟨_, rfl⟩

/-- `applyTransition` has returned. -/
theorem RunInv.afterTransition (ha : Accepted d) (hi : Instantiates d w₀) (hc : s.Coherent)
    (ho : s.Owns w₀.runId w)
    {purpose : Purpose} {before : WorkflowState} (hm : Moving world d w₀ w purpose before)
    (h : Stored d (s.record w₀.runId) w w.state none) (hdl : (s.record w₀.runId).deadLetters = []) :
    RunInv world d w₀ (ExecutionService.afterTransition k w₀.runId s purpose d w now).2.running
      ((ExecutionService.afterTransition k w₀.runId s purpose d w now).1.record w₀.runId) := by
  cases hm with
  | start hs hw => exact RunInv.loop ha hi hc ho (hs ▸ h) hs hw hdl
  | complete hs hw hb => exact RunInv.afterLoop hc ho h (.inl ⟨by simp [hs], .completed hs hw hb hdl⟩)
  | fail hs hw => exact RunInv.afterLoop hc ho h (.inr ⟨hs, hdl, _, _, hw⟩)
  | deadLetter hs hw ht =>
    let entry : DeadLetterEntry :=
      { runId := w₀.runId, reason := .maxRetriesExceeded, workflowId := w.id, timestamp := now }
    have hrec : (s.pushDeadLetter entry).record w₀.runId =
        { s.record w₀.runId with deadLetters := [entry] } := by
      rw [record_pushDeadLetter rfl, hdl]
      rfl
    show RunInv world d w₀ (some .deadLetterPushed) ((s.pushDeadLetter entry).record w₀.runId)
    rw [hrec]
    exact .deadLetterPushed (hs ▸ ⟨h.workflow, h.run, h.log⟩) hs (.deadLettered hs hw ht rfl)

/-- A segment of `applyTransition`. -/
theorem RunInv.resume_transition (hq : world.Quiet) (ha : Accepted d) (hi : Instantiates d w₀) (hc : s.Coherent)
    {purpose : Purpose} {before : WorkflowState} {tc : TransitionCall} (ho : s.Owns w₀.runId tc.next)
    (h : Stored d (s.record w₀.runId) tc.next (tc.runStatus before) none)
    (hm : Moving world d w₀ tc.next purpose before) (ht : tc.target = tc.next.state)
    (hstage : tc.stage ≠ .runRead false)
    (hdl : (s.record w₀.runId).deadLetters = []) {x : Stores × ExecPc}
    (hx : ExecutionService.resume world k w₀.runId s now (.transition purpose d tc) = some x) :
    RunInv world d w₀ x.2.running (x.1.record w₀.runId) := by
  obtain ⟨run, hrun, hjob, hstatus⟩ := h.run
  have hrun' : s.runs.get tc.next.runId = some run := ho.1 ▸ hrun
  cases hst : tc.stage with
  | workflowSaved =>
    simp only [ExecutionService.resume, TransitionCall.resume, hst] at hx
    cases hx
    have hhas : s.runs.has tc.next.runId = true := by simp [InsertionMap.has, hrun']
    rw [hhas]
    have hsame : tc.runStatus before = before := by simp [TransitionCall.runStatus, hst]
    exact .transition (hsame ▸ h) hm ht (by simp) hdl
  | runRead found =>
    cases found with
    | false => exact absurd hst hstage
    | true =>
      simp only [ExecutionService.resume, TransitionCall.resume, hst] at hx
      cases hx
      obtain ⟨run', hj, hs', hrec⟩ := record_updateRun hc (ho.1 ▸ hrun') tc.target now
      rw [ho.1]
      dsimp only
      rw [hrec]
      exact .transition ⟨h.workflow, ⟨run', rfl, hj.trans hjob, hs'⟩, h.log⟩ hm ht (by simp) hdl
  | runSaved =>
    obtain ⟨heard, hann⟩ := announce_quiet hq s tc now
    simp only [ExecutionService.resume, TransitionCall.resume, hst, hann] at hx
    cases hx
    have hsame : tc.runStatus before = tc.target := by simp [TransitionCall.runStatus, hst]
    exact .transition (hsame ▸ h) hm ht (by simp) hdl
  | returned =>
    simp only [ExecutionService.resume, TransitionCall.resume, hst] at hx
    obtain rfl := Option.some.inj hx
    have hsame : tc.runStatus before = tc.next.state := by simp [TransitionCall.runStatus, hst, ht]
    exact RunInv.afterTransition ha hi hc ho hm (hsame ▸ h) hdl

/-- The handler has answered. -/
theorem RunInv.resume_handler (ha : Accepted d) (hi : Instantiates d w₀) (hc : s.Coherent) (ho : s.Owns w₀.runId w)
    (h : Stored d (s.record w₀.runId) w .running (some c.id)) (hs : w.state = .running)
    (hw : Busy world d w₀ done c .queued n w) (hn : n < allowedAttempts d.retryPolicy) (ht : t ∈ w.tasks)
    (htc : t.definitionTaskId = c.id) (hdl : (s.record w₀.runId).deadLetters = []) {began : ISODateString}
    {x : Stores × ExecPc} (hx : ExecutionService.resume world k w₀.runId s now
      (.handler d w c (TaskExecutor.start t began) 0) = some x) :
    RunInv world d w₀ x.2.running (x.1.record w₀.runId) := by
  obtain rfl := Option.some.inj hx
  obtain ⟨_, hatt, hout⟩ := hw.current t ht htc
  have hhandler := hw.later.handler_eq ha hi ht (TaskScheduler.ready_mem hw.ready) htc
  -- what the executor answers, and the outcome the world holds for this attempt
  let result := ExecutionService.answered world w₀.runId d w c (TaskExecutor.start t began) 0 now
  have hcases := TaskExecutor.finish_cases world w₀ d.retryPolicy (TaskExecutor.start t began) c.handler now
    (Nat.succ_le_succ (Nat.zero_le _))
  rw [← hw.later.context] at hcases
  have hresult : TaskExecutor.finish (TaskExecutor.start t began) d.retryPolicy
      (TaskSimulator.execute world.simulator c.handler w.context (world.answer w₀.runId
        (TaskExecutor.start t began).definitionTaskId (TaskExecutor.start t began).attempt 0)) now = result := rfl
  simp only [hresult] at hcases
  show RunInv world d w₀ (some (.taskSaved d (ExecutionService.updateTask w result.task now) result))
    ((s.saveWorkflow (ExecutionService.updateTask w result.task now)).record w₀.runId)
  have hown : s.Owns w₀.runId (ExecutionService.updateTask w result.task now) :=
    ⟨ho.1, ho.2⟩
  rw [record_saveWorkflow hc hown]
  have hstored : ∀ (hid : result.task.identity = t.identity) (ha' : result.task.attempt = t.attempt + 1),
      Stored d { s.record w₀.runId with workflow := some (ExecutionService.updateTask w result.task now) }
        (ExecutionService.updateTask w result.task now) .running none := fun hid ha' =>
    h.updateTask ha hi hw.later ht hid (by rw [ha', if_pos (by rw [htc])]) fun id he => by
      rw [htc]
      exact (Option.some.inj he).symm
  have hfailed : ∀ (hno : world.attemptOutput w₀ t.definitionTaskId c.handler (t.attempt + 1) = none), ∀ a, 1 ≤ a →
      a ≤ t.attempt + 1 → world.attemptOutput w₀ c.id c.handler a = none := fun hno a h₁ h₂ => by
    rcases Nat.lt_or_ge a (t.attempt + 1) with hlt | hge
    · exact hw.failed a h₁ (by omega)
    · rw [Nat.le_antisymm h₂ hge, ← htc]
      exact hno
  rcases hcases with ⟨hsome, hret, htask⟩ | ⟨hno, hlt, hret, message, htask⟩ | ⟨hno, hle, hret, message, htask⟩
  · have hid : result.task.identity = t.identity := by
      rw [htask]
      rfl
    refine .succeeded (hstored hid (by rw [htask]; rfl)) hs (hw.finish ha hi ht htc hid now ?_)
      (by rw [htask]) hret hdl
    rw [htask]
    refine ⟨rfl, ⟨Nat.succ_le_succ (Nat.zero_le _), ?_⟩, fun a h₁ h₂ => ?_, ?_, hsome⟩
    · simp only [TaskExecutor.start]
      omega
    · simp only [TaskExecutor.start] at h₂ ⊢
      rw [hhandler, htc]
      exact hw.failed a h₁ (by omega)
    · simp only [TaskExecutor.start]
      rw [hhandler]
  · have hid : result.task.identity = t.identity := by
      rw [htask]
      rfl
    have hatt' : result.task.attempt = t.attempt + 1 := by
      rw [htask]
      rfl
    have hbusy := hw.update ha hi ht htc hid now (by rw [htask]; exact hout)
      (by rw [hatt']; exact hfailed hno)
    rw [show result.task.status = .retrying by rw [htask]] at hbusy
    refine .retrying (.inl rfl) (hstored hid hatt') hs hbusy (by rw [hatt']; exact hlt) ?_ ?_ hret hdl
    · exact (updateTask_mem ha hi hw.later ht hid now _).2 (.inl rfl)
    · exact (congrArg (fun y => y.2.1) hid).trans htc
  · have hid : result.task.identity = t.identity := by
      rw [htask]
      rfl
    have hatt' : result.task.attempt = t.attempt + 1 := by
      rw [htask]
      rfl
    have hbusy := hw.update ha hi ht htc hid now (by rw [htask]; exact hout)
      (by rw [hatt']; exact hfailed hno)
    have hallowed : result.task.attempt = allowedAttempts d.retryPolicy := by
      simp only [TaskExecutor.start] at hle
      omega
    rw [show result.task.status = .failed by rw [htask], hallowed] at hbusy
    exact .exhausted (hstored hid hatt') hs hbusy (by rw [htask]) hret hdl

/-- The task goes back to the queue after its backoff. -/
theorem RunInv.resume_sleeping (ha : Accepted d) (hi : Instantiates d w₀) (hc : s.Coherent)
    (ho : s.Owns w₀.runId w)
    {result : ExecuteResult} (h : Stored d (s.record w₀.runId) w .running none) (hs : w.state = .running)
    (hw : Busy world d w₀ done c .retrying result.task.attempt w)
    (hn : result.task.attempt < allowedAttempts d.retryPolicy) (ht : result.task ∈ w.tasks)
    (htc : result.task.definitionTaskId = c.id) (hdl : (s.record w₀.runId).deadLetters = []) {x : Stores × ExecPc}
    (hx : ExecutionService.resume world k w₀.runId s now (.sleeping d w result) = some x) :
    RunInv world d w₀ x.2.running (x.1.record w₀.runId) := by
  obtain rfl := Option.some.inj hx
  let task : TaskRun := { result.task with status := .queued }
  obtain ⟨hstatus, _, hout⟩ := hw.current result.task ht htc
  have hown : s.Owns w₀.runId (ExecutionService.updateTask w task now) := ⟨ho.1, ho.2⟩
  show RunInv world d w₀ (some (.requeued d (ExecutionService.updateTask w task now) result))
    ((s.saveWorkflow (ExecutionService.updateTask w task now)).record w₀.runId)
  rw [record_saveWorkflow hc hown]
  have hbusy := hw.update ha hi ht htc (show task.identity = result.task.identity from rfl) now hout hw.failed
  exact .requeued (h.updateTask ha hi hw.later ht rfl (by simp [task]) (by simp)) hs (.busy hbusy hn)
    (by simp [hstatus]) hdl

/-- `RunInv` is kept by every segment of `executeRun`. -/
theorem runInv_closed (hq : world.Quiet) (ha : Accepted d) (hi : Instantiates d w₀) :
    Closed world k w₀.runId d (RunInv world d w₀) where
  begin := fun rec h => by
    cases h with
    | rest h => exact .runRead h
  resume := fun s now pc x hc hjobs ho h hx => by
    cases h with
    | runRead h =>
      obtain ⟨w, hst, _⟩ := id h
      obtain ⟨run, hrun, hjob, _⟩ := hst.run
      rw [hrun] at hx
      obtain rfl := Option.some.inj hx
      simp only [ExecPc.running, hjob, hjobs]
      exact .definitionRead h
    | definitionRead h =>
      obtain rfl := Option.some.inj hx
      exact .workflowRead h
    | workflowRead h =>
      obtain ⟨w, hst, hs⟩ := id h
      have hwf := hst.workflow
      rw [hwf] at hx ho
      have how : s.Owns w₀.runId w := ho w (by simp [ExecPc.instances])
      simp only [ExecutionService.resume] at hx
      split at hx
      · rename_i hp
        obtain rfl := Option.some.inj hx
        cases hs with
        | pending _ hw _ hdl =>
          refine RunInv.transition_begin hc how hst hdl (TransitionGuard.evaluate_other (by decide) (by decide)
            (by decide)) (by rw [hp]; decide) ?_
          rw [hp]
          exact .start rfl hw.moved
        | blocked hr | completed hr | failed hr | deadLettered hr =>
          rw [hr] at hp
          cases hp
      · rename_i hp
        obtain rfl := Option.some.inj hx
        exact .started hst hs hp
    | started hst hs hne =>
      obtain rfl := Option.some.inj hx
      exact RunInv.enter ha hi hc (ho _ (by simp [ExecPc.instances])) hst hs hne
    | transition hst hm ht hstage hdl =>
      exact RunInv.resume_transition hq ha hi hc (ho _ (by simp [ExecPc.instances])) hst hm ht hstage hdl hx
    | handler hst hs hw hn ht htc _ _ hdl =>
      exact RunInv.resume_handler ha hi hc (ho _ (by simp [ExecPc.instances])) hst hs hw hn ht htc hdl hx
    | @succeeded _ w result hst hs hw hr hret hdl =>
      simp only [ExecutionService.resume, hret, Option.isSome_none, Bool.false_eq_true, if_false] at hx
      obtain rfl := Option.some.inj hx
      rw [ExecutionService.afterTask, if_neg (by simp [hr])]
      exact RunInv.loop ha hi hc (ho _ (by simp [ExecPc.instances])) hst hs hw hdl
    | @exhausted _ w result done c hst hs hw hr hret hdl =>
      simp only [ExecutionService.resume, hret, Option.isSome_none, Bool.false_eq_true, if_false] at hx
      obtain rfl := Option.some.inj hx
      rw [ExecutionService.afterTask, if_pos hr]
      refine RunInv.transition_begin hc (ho _ (by simp [ExecPc.instances])) (hs ▸ hst) hdl
        (TransitionGuard.evaluate_other (by decide) (by decide) (by decide)) (by rw [hs]; decide) ?_
      rw [hs]
      exact .fail rfl hw.moved
    | retrying hpc hst hs hw hn ht htc hret hdl =>
      rcases hpc with rfl | rfl
      · simp only [ExecutionService.resume, hret, if_true] at hx
        obtain rfl := Option.some.inj hx
        exact .retrying (.inr rfl) hst hs hw hn ht htc hret hdl
      · exact RunInv.resume_sleeping ha hi hc (ho _ (by simp [ExecPc.instances])) hst hs hw hn ht htc hdl hx
    | requeued hst hs hw hr hdl =>
      obtain rfl := Option.some.inj hx
      rw [ExecutionService.afterTask, if_neg hr]
      exact RunInv.loop ha hi hc (ho _ (by simp [ExecPc.instances])) hst hs hw hdl
    | deadLetterPushed hst hs hset =>
      obtain rfl := Option.some.inj hx
      rw [record_settle]
      exact .rest ⟨_, hs ▸ hst, hset⟩

end

end Jobflow
