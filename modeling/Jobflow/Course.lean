import Jobflow.Spent
import Jobflow.Termination

/-!
# The course of an execution

Some results are about a run that `executeRun` takes up in another state than `createRun` has left it in. `Course` is
what is said of the workflow and of the handler calls of such a run at the points of an execution, and `Course.Kept`
asks for one fact about each thing the executor does between two of these points. The reads, the stages of a transition
and the `JobRun` are dealt with here once, so that `Course.Kept.closed` gives the invariant for whole runs.
-/

namespace Jobflow

/-- What is said of the workflow and of the handler calls made so far. -/
structure Course where
  /-- When the execution reads the workflow. -/
  before : WorkflowInstance → List Invocation → Prop
  /-- At the head of the loop. -/
  looping : WorkflowInstance → List Invocation → Prop
  /-- While the task waits for its next attempt. -/
  retrying : WorkflowInstance → List Invocation → TaskRun → Prop
  /-- When a task has failed for good. -/
  exhausted : WorkflowInstance → List Invocation → Prop
  /-- When the execution is over. -/
  after : WorkflowInstance → List Invocation → Prop

/-- The next task is `c`, and `t` its task run. -/
structure Selects (d : JobDefinition) (w : WorkflowInstance) (c : TaskDefinition) (t : TaskRun) : Prop where
  running : w.state = .running
  next : TaskScheduler.nextRunnable w.tasks d.tasks = some c
  mem : t ∈ w.tasks
  definition : t.definitionTaskId = c.id

/-- The entry in the log of handler calls (execution-service.ts:88-98). -/
def handlerCall (r : RunId) (w : WorkflowInstance) (c : TaskDefinition) (t : TaskRun) : Invocation where
  runId := r
  handler := c.handler
  attempt := t.attempt + 1
  context := TaskExecutor.handlerContext t w.context

/-- What the executor's answer leads to. -/
def Course.Answered (C : Course) (w : WorkflowInstance) (log : List Invocation) (result : ExecuteResult) : Prop :=
  result.retryAfterMs.isSome = true ∧ C.retrying w log result.task ∨
    result.retryAfterMs = none ∧ result.task.status = .failed ∧ C.exhausted w log ∨
    result.retryAfterMs = none ∧ result.task.status ≠ .failed ∧ C.looping w log

/-- What has to be shown of a course. -/
structure Course.Kept (C : Course) (world : World) (r : RunId) (d : JobDefinition) : Prop where
  again : ∀ {w log}, C.after w log → C.before w log
  start : ∀ {w log} (now : ISODateString), C.before w log → w.state = .pending →
    C.looping (w.moved "start" .running "orchestrator" none now) log
  enter : ∀ {w log}, C.before w log → w.state = .running → C.looping w log
  idle : ∀ {w log}, C.before w log → w.state ≠ .pending → w.state ≠ .running → C.after w log
  known : ∀ {w log c}, C.looping w log → w.state = .running →
    TaskScheduler.nextRunnable w.tasks d.tasks = some c → ∃ t ∈ w.tasks, t.definitionTaskId = c.id
  answered : ∀ {w log c t} (began now : ISODateString), C.looping w log → Selects d w c t →
    ∀ result, result = ExecutionService.answered world r d w c (TaskExecutor.start t began) (earlierCalls log t) now →
      C.Answered (ExecutionService.updateTask w result.task now) (log ++ [handlerCall r w c t]) result
  requeued : ∀ {w log task} (now : ISODateString), C.retrying w log task → w.state = .running →
    task.status ≠ .failed ∧ C.looping (ExecutionService.updateTask w { task with status := .queued } now) log
  fail : ∀ {w log} (now : ISODateString), C.exhausted w log → w.state = .running →
    C.after (w.moved "fail" .failed ExecutionService.owner none now) log
  deadLetter : ∀ {w log} (now : ISODateString), C.after w log → w.state = .failed →
    C.after (w.moved "dead_letter" .deadLettered ExecutionService.owner none now) log
  complete : ∀ {w log} (now : ISODateString), C.looping w log → w.state = .running →
    (∀ t ∈ w.tasks, t.status = .succeeded ∨ t.status = .skipped) → ¬ Blocked d w →
      C.after (w.moved "complete" .completed ExecutionService.owner none now) log
  /-- A constraint is violated, or the guard refuses to complete the workflow. -/
  stopped : ∀ {w log}, C.looping w log → w.state = .running →
    TaskScheduler.nextRunnable w.tasks d.tasks = none → TaskScheduler.allDone w.tasks d.tasks = true →
      (Blocked d w ∨ ∃ t ∈ w.tasks, t.status ≠ .succeeded ∧ t.status ≠ .skipped) → C.after w log
  await : ∀ {w log} (now : ISODateString), C.looping w log → w.state = .running →
    TaskScheduler.nextRunnable w.tasks d.tasks = none → TaskScheduler.allDone w.tasks d.tasks = false →
      C.after (w.moved "await" .waiting ExecutionService.owner none now) log

/-- What the stores hold of a run whose instance is `w`. -/
structure OnRecord (d : JobDefinition) (rec : RunRecord) (w : WorkflowInstance) : Prop where
  workflow : rec.workflow = some w
  run : ∃ run, rec.run = some run ∧ run.jobId = d.id

/-- What holds while a transition is on its way. -/
def Course.moving (C : Course) : Purpose → WorkflowInstance → List Invocation → Prop
  | .start => C.looping
  | .complete | .await | .fail | .deadLetter => C.after

/-- The executor works on the stored instance. -/
inductive CourseInv (C : Course) (r : RunId) (d : JobDefinition) : Option ExecPc → RunRecord → Prop where
  | rest {rec : RunRecord} {w : WorkflowInstance} (h : OnRecord d rec w) (hw : C.after w rec.invocations) :
      CourseInv C r d none rec
  | runRead {rec : RunRecord} {w : WorkflowInstance} (h : OnRecord d rec w) (hw : C.before w rec.invocations) :
      CourseInv C r d (some (.runRead rec.run)) rec
  | definitionRead {rec : RunRecord} {w : WorkflowInstance} (h : OnRecord d rec w)
      (hw : C.before w rec.invocations) : CourseInv C r d (some (.definitionRead d.id (some d))) rec
  | workflowRead {rec : RunRecord} {w : WorkflowInstance} (h : OnRecord d rec w)
      (hw : C.before w rec.invocations) : CourseInv C r d (some (.workflowRead d rec.workflow)) rec
  | started {rec : RunRecord} {w : WorkflowInstance} (h : OnRecord d rec w) (hne : w.state ≠ .pending)
      (hw : C.before w rec.invocations) : CourseInv C r d (some (.started d w)) rec
  | transition {rec : RunRecord} {purpose : Purpose} {t : TransitionCall} (h : OnRecord d rec t.next)
      (hs : t.next.state = purpose.target) (hw : C.moving purpose t.next rec.invocations) :
      CourseInv C r d (some (.transition purpose d t)) rec
  | handler {rec : RunRecord} {w : WorkflowInstance} {c : TaskDefinition} {t : TaskRun} {log : List Invocation}
      {began : ISODateString} (h : OnRecord d rec w) (hc : Selects d w c t) (hw : C.looping w log)
      (hlog : rec.invocations = log ++ [handlerCall r w c t]) :
      CourseInv C r d (some (.handler d w c (TaskExecutor.start t began) (earlierCalls log t))) rec
  | taskSaved {rec : RunRecord} {w : WorkflowInstance} {result : ExecuteResult} (h : OnRecord d rec w)
      (hs : w.state = .running) (hw : C.Answered w rec.invocations result) :
      CourseInv C r d (some (.taskSaved d w result)) rec
  | sleeping {rec : RunRecord} {w : WorkflowInstance} {result : ExecuteResult} (h : OnRecord d rec w)
      (hs : w.state = .running) (hw : C.retrying w rec.invocations result.task) :
      CourseInv C r d (some (.sleeping d w result)) rec
  | requeued {rec : RunRecord} {w : WorkflowInstance} {result : ExecuteResult} (h : OnRecord d rec w)
      (hs : w.state = .running) (hr : result.task.status ≠ .failed) (hw : C.looping w rec.invocations) :
      CourseInv C r d (some (.requeued d w result)) rec
  | deadLetterPushed {rec : RunRecord} {w : WorkflowInstance} (h : OnRecord d rec w)
      (hw : C.after w rec.invocations) : CourseInv C r d (some .deadLetterPushed) rec
  | rejected {rec : RunRecord} {w : WorkflowInstance} {message : String} (h : OnRecord d rec w)
      (hw : C.after w rec.invocations) : CourseInv C r d (some (.rejected (.transitionError message))) rec

/-! ## Every segment keeps to the course -/

section
variable {world : World} {C : Course} {k : Nat} {r : RunId} {d : JobDefinition} {s : Stores} {w : WorkflowInstance}
  {now : ISODateString}

/-- The instance is saved; the rest of the record stays. -/
theorem OnRecord.save {rec : RunRecord} (h : OnRecord d rec w) (w' : WorkflowInstance) :
    OnRecord d { rec with workflow := some w' } w' := ⟨rfl, h.run⟩

theorem CourseInv.of_settle (h : OnRecord d (s.record r) w) (hw : C.after w (s.record r).invocations)
    (result : Except JobflowError Unit) :
    CourseInv C r d (ExecutionService.settle k r s result).2.running
      ((ExecutionService.settle k r s result).1.record r) := by
  rw [record_settle]
  exact .rest h hw

/-- A transition that goes through. -/
theorem CourseInv.of_transition (hc : s.Coherent) (ho : s.Owns r w) (h : OnRecord d (s.record r) w) (purpose : Purpose)
    {event : String} {actor : String} (hg : TransitionGuard.evaluate w event purpose.target = .ok ())
    (hr : (⟨w.state, purpose.target, event⟩ : TransitionRule) ∈ DEFAULT_TRANSITION_RULES)
    (hw : C.moving purpose (w.moved event purpose.target actor none now) (s.record r).invocations) :
    CourseInv C r d (ExecutionService.transition s purpose d w event purpose.target actor now).2.running
      ((ExecutionService.transition s purpose d w event purpose.target actor now).1.record r) := by
  rw [transition_accepted hg hr]
  dsimp only [ExecPc.running]
  rw [record_saveWorkflow hc ((Derived.moved hr).owns ho)]
  exact .transition (h.save _) rfl hw

variable (hC : C.Kept world r d)
include hC

/-- What follows the loop. -/
theorem Course.Kept.afterLoop (hc : s.Coherent) (ho : s.Owns r w) (h : OnRecord d (s.record r) w)
    (hw : C.after w (s.record r).invocations) :
    CourseInv C r d (ExecutionService.afterLoop k r s d w now).2.running
      ((ExecutionService.afterLoop k r s d w now).1.record r) := by
  unfold ExecutionService.afterLoop
  split
  · rename_i hfailed
    refine CourseInv.of_transition hc ho h .deadLetter
      (TransitionGuard.evaluate_other (by decide) (by decide) (by decide)) ?_ (hC.deadLetter now hw hfailed.1)
    rw [hfailed.1]
    decide
  · exact CourseInv.of_settle h hw _

/-- The head of the loop. -/
theorem Course.Kept.loop (hc : s.Coherent) (ho : s.Owns r w) (h : OnRecord d (s.record r) w)
    (hs : w.state = .running) (hw : C.looping w (s.record r).invocations) :
    CourseInv C r d (ExecutionService.loop k r s d w now).2.running
      ((ExecutionService.loop k r s d w now).1.record r) := by
  unfold ExecutionService.loop
  rw [if_neg (not_not.2 hs)]
  cases hnext : TaskScheduler.nextRunnable w.tasks d.tasks with
  | none =>
    cases hdone : TaskScheduler.allDone w.tasks d.tasks with
    | false =>
      dsimp only
      rw [if_neg (by decide)]
      refine CourseInv.of_transition hc ho h .await
        (TransitionGuard.evaluate_other (by decide) (by decide) (by decide)) ?_ (hC.await now hw hs hnext hdone)
      rw [hs]
      decide
    | true =>
      dsimp only
      rw [if_pos rfl]
      cases happly : RuleEngine.apply d
          { context := w.context, taskOutputs := RunContextFactory.taskOutputs w.tasks } with
      | error e =>
        have hb : Blocked d w := by
          unfold Blocked
          by_contra hne
          rw [Bool.not_eq_true, ← RuleEngine.apply_ok, happly] at hne
          cases hne
        exact CourseInv.of_settle h (hC.stopped hw hs hnext hdone (.inl hb)) _
      | ok _ =>
        have hb : ¬ Blocked d w := by
          unfold Blocked
          rw [RuleEngine.apply_ok.1 happly]
          simp
        by_cases hall : ∀ t ∈ w.tasks, t.status = .succeeded ∨ t.status = .skipped
        · refine CourseInv.of_transition hc ho h .complete ?_ ?_ (hC.complete now hw hs hall hb)
          · exact TransitionGuard.evaluate_complete.trans
              (TransitionGuard.assertAllRequiredTasksSucceeded_ok.2 hall)
          · rw [hs]
            decide
        · obtain ⟨message, he⟩ := @transition_refused _ s now d ExecutionService.owner hall
          dsimp only
          rw [he]
          refine .rejected h (hC.stopped hw hs hnext hdone (.inr ?_))
          push Not at hall
          exact hall
  | some c =>
    obtain ⟨t, ht, htc⟩ := hC.known hw hs hnext
    cases hfind : w.tasks.find? fun t => t.definitionTaskId = c.id with
    | none => exact absurd (decide_eq_true htc) (List.find?_eq_none.1 hfind t ht)
    | some u =>
      have hu : u.definitionTaskId = c.id := by simpa using List.find?_some hfind
      simp only [hfind, ExecutionService.invoke, ExecPc.running]
      rw [record_invoke rfl, show (TaskExecutor.start u now).attempt = u.attempt + 1 from rfl, timesInvoked_eq]
      exact .handler ⟨h.workflow, h.run⟩ ⟨hs, hnext, List.mem_of_find?_eq_some hfind, hu⟩ hw rfl

/-- The end of the loop body. -/
theorem Course.Kept.afterTask (hc : s.Coherent) (ho : s.Owns r w) (h : OnRecord d (s.record r) w)
    (hs : w.state = .running) {result : ExecuteResult}
    (hw : result.task.status = .failed ∧ C.exhausted w (s.record r).invocations ∨
      result.task.status ≠ .failed ∧ C.looping w (s.record r).invocations) :
    CourseInv C r d (ExecutionService.afterTask k r s d w result now).2.running
      ((ExecutionService.afterTask k r s d w result now).1.record r) := by
  unfold ExecutionService.afterTask
  rcases hw with ⟨hfailed, hw⟩ | ⟨hne, hw⟩
  · rw [if_pos hfailed]
    refine CourseInv.of_transition hc ho h .fail
      (TransitionGuard.evaluate_other (by decide) (by decide) (by decide)) ?_ (hC.fail now hw hs)
    rw [hs]
    decide
  · rw [if_neg hne]
    exact hC.loop hc ho h hs hw

/-- A segment of `applyTransition`. -/
theorem Course.Kept.resume_transition (hq : world.Quiet) (hc : s.Coherent) {purpose : Purpose} {t : TransitionCall}
    (ho : s.Owns r t.next) (h : OnRecord d (s.record r) t.next) (hs : t.next.state = purpose.target)
    (hw : C.moving purpose t.next (s.record r).invocations) {x : Stores × ExecPc}
    (hx : ExecutionService.resume world k r s now (.transition purpose d t) = some x) :
    CourseInv C r d x.2.running (x.1.record r) := by
  obtain ⟨heard, hann⟩ := announce_quiet hq s t now
  cases hst : t.stage with
  | workflowSaved =>
    simp only [ExecutionService.resume, TransitionCall.resume, hst] at hx
    cases hx
    exact .transition h hs hw
  | runRead found =>
    cases found with
    | false =>
      simp only [ExecutionService.resume, TransitionCall.resume, hst, hann] at hx
      cases hx
      exact .transition h hs hw
    | true =>
      simp only [ExecutionService.resume, TransitionCall.resume, hst] at hx
      cases hx
      obtain ⟨run, hrun, hjob⟩ := h.run
      obtain ⟨run', hjob', _, hrec⟩ := record_updateRun hc hrun t.target now
      dsimp only
      rw [ho.1, hrec]
      exact .transition ⟨h.workflow, run', rfl, hjob'.trans hjob⟩ hs hw
  | runSaved =>
    simp only [ExecutionService.resume, TransitionCall.resume, hst, hann] at hx
    cases hx
    exact .transition h hs hw
  | returned =>
    simp only [ExecutionService.resume, TransitionCall.resume, hst] at hx
    obtain rfl := Option.some.inj hx
    cases purpose with
    | start => exact hC.loop hc ho h hs hw
    | complete | await | fail => exact hC.afterLoop hc ho h hw
    | deadLetter =>
      dsimp only [ExecutionService.afterTransition, ExecPc.running]
      rw [record_pushDeadLetter rfl]
      exact .deadLetterPushed ⟨h.workflow, h.run⟩ hw

/-- Every segment of `executeRun`. -/
theorem Course.Kept.closed (hq : world.Quiet) : Closed world k r d (CourseInv C r d) where
  begin := fun rec h => by
    cases h with
    | rest h hw => exact .runRead h (hC.again hw)
  resume := fun s now pc x hc hjobs ho h hx => by
    cases h with
    | runRead h hw =>
      obtain ⟨run, hrun, hjob⟩ := h.run
      rw [hrun] at hx
      obtain rfl := Option.some.inj hx
      dsimp only [ExecPc.running]
      rw [hjob, hjobs]
      exact .definitionRead h hw
    | definitionRead h hw =>
      obtain rfl := Option.some.inj hx
      exact .workflowRead h hw
    | @workflowRead _ w h hw =>
      have hown : s.Owns r w := hc.getByRunId_owns h.workflow
      rw [h.workflow] at hx
      simp only [ExecutionService.resume] at hx
      split at hx
      · rename_i hs
        obtain rfl := Option.some.inj hx
        refine CourseInv.of_transition hc hown h .start
          (TransitionGuard.evaluate_other (by decide) (by decide) (by decide)) ?_ (hC.start now hw hs)
        rw [hs]
        decide
      · rename_i hne
        obtain rfl := Option.some.inj hx
        exact .started h hne hw
    | @started _ w h hne hw =>
      have hown : s.Owns r w := ho w (by simp [ExecPc.instances])
      obtain rfl := Option.some.inj hx
      by_cases hs : w.state = .running
      · exact hC.loop hc hown h hs (hC.enter hw hs)
      · rw [ExecutionService.loop, if_pos hs]
        exact hC.afterLoop hc hown h (hC.idle hw hne hs)
    | transition h hs hw => exact hC.resume_transition hq hc (ho _ (by simp [ExecPc.instances])) h hs hw hx
    | @handler _ w c t log began h hsel hw hlog =>
      obtain rfl := Option.some.inj hx
      have hown : s.Owns r w := ho w (by simp [ExecPc.instances])
      have hanswer := hC.answered began now hw hsel _ rfl
      dsimp only [ExecPc.running]
      rw [record_saveWorkflow hc (show s.Owns r (ExecutionService.updateTask w _ now) from ⟨hown.1, hown.2⟩)]
      refine .taskSaved (h.save _) hsel.running ?_
      dsimp only
      rw [hlog]
      exact hanswer
    | @taskSaved _ w result h hs hw =>
      have hown : s.Owns r w := ho w (by simp [ExecPc.instances])
      simp only [ExecutionService.resume] at hx
      rcases hw with ⟨hretry, hw⟩ | ⟨hnone, hw⟩ | ⟨hnone, hw⟩
      · rw [if_pos hretry] at hx
        obtain rfl := Option.some.inj hx
        exact .sleeping h hs hw
      · rw [hnone, if_neg (by decide)] at hx
        obtain rfl := Option.some.inj hx
        exact hC.afterTask hc hown h hs (.inl hw)
      · rw [hnone, if_neg (by decide)] at hx
        obtain rfl := Option.some.inj hx
        exact hC.afterTask hc hown h hs (.inr hw)
    | @sleeping _ w result h hs hw =>
      obtain rfl := Option.some.inj hx
      have hown : s.Owns r w := ho w (by simp [ExecPc.instances])
      obtain ⟨hne, hloop⟩ := hC.requeued now hw hs
      dsimp only [ExecPc.running]
      rw [record_saveWorkflow hc (show s.Owns r (ExecutionService.updateTask w _ now) from ⟨hown.1, hown.2⟩)]
      exact .requeued (h.save _) hs hne hloop
    | requeued h hs hr hw =>
      obtain rfl := Option.some.inj hx
      exact hC.afterTask hc (ho _ (by simp [ExecPc.instances])) h hs (.inr ⟨hr, hw⟩)
    | deadLetterPushed h hw | rejected h hw =>
      obtain rfl := Option.some.inj hx
      exact CourseInv.of_settle h hw _

end

/-! ## The execution comes to its end -/

/-- What makes the weight go down; `d` may count the attempts that are left in its own way. -/
structure Course.Bounded (C : Course) (d d' : JobDefinition) : Prop where
  ids : ∀ {w log}, C.looping w log → (w.tasks.map (·.id)).Nodup
  attempt : ∀ {w log c t}, C.looping w log → Selects d w c t →
    t.status ≠ .succeeded ∧ t.attempt < allowedAttempts d'.retryPolicy
  retrying : ∀ {w log task}, C.retrying w log task →
    (w.tasks.map (·.id)).Nodup ∧ task ∈ w.tasks ∧ task.status ≠ .succeeded

theorem Course.Bounded.lowers {world : World} {C : Course} {k : Nat} {r : RunId} {d d' : JobDefinition}
    (h : C.Bounded d d') : Lowers world k r d' (CourseInv C r d) := by
  intro s now pc x hI hx
  cases hpc : pc.savesTask with
  | false => exact ExecPc.weight_lt hpc hx
  | true =>
    cases hI with
    | @handler _ w c t log began _ hsel hw _ =>
      obtain rfl := Option.some.inj hx
      obtain ⟨hs, hlt⟩ := h.attempt hw hsel
      -- the attempt that was in flight is gone, whatever came of it
      let result := ExecutionService.answered world r d w c (TaskExecutor.start t began) (earlierCalls log t) now
      obtain ⟨hid, hattempt, _⟩ := TaskExecutor.finish_task (TaskExecutor.start t began) d.retryPolicy
        (TaskSimulator.execute world.simulator c.handler w.context (world.answer r t.definitionTaskId
          (t.attempt + 1) (earlierCalls log t))) now
      have hmore : t.attempt < result.task.attempt := Nat.lt_of_lt_of_eq (Nat.lt_succ_self _) hattempt.symm
      have hless : remaining d' (ExecutionService.updateTask w result.task now) < remaining d' w :=
        remaining_lt (h.ids hw) hsel.mem (congrArg Prod.fst hid) hs hlt (.inr hmore)
      show 4 * remaining d' (ExecutionService.updateTask w result.task now) + 12 < 4 * remaining d' w + 9
      omega
    | @sleeping _ w result _ _ hw =>
      obtain rfl := Option.some.inj hx
      obtain ⟨hn, hmem, hs⟩ := h.retrying hw
      have hle : remaining d' (ExecutionService.updateTask w { result.task with status := .queued } now) ≤
          remaining d' w := remaining_le hn hmem rfl hs rfl
      show 4 * remaining d' (ExecutionService.updateTask w { result.task with status := .queued } now) + 10 <
        4 * remaining d' w + 11
      omega
    | _ => cases hpc

end Jobflow
