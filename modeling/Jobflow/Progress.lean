import Jobflow.Execution
import Jobflow.Scheduling

/-!
# How far a run has come

A run of an accepted definition is, at every await, in one of two shapes: the tasks of a scheduled list
have succeeded, the ready task is being tried and the others are untouched (`Busy`), or every task has
succeeded (`AllDone`). The attempts a task has made and what came of each are those the world holds for it.
-/

namespace Jobflow

open Js (Record)

/-! ## What the handlers answer -/

/-- The output of attempt number `a` of a task of the run that starts as `w₀`, if it succeeds. -/
def World.attemptOutput (world : World) (w₀ : WorkflowInstance) (taskId handler : String) (a : Nat) :
    Option Record :=
  match TaskSimulator.execute world.simulator handler w₀.context (world.answer w₀.runId taskId a 0) with
  | .ok result => if result.success then some result.output else none
  | .error _ => none

/-- Attempt number `a` of task `c` succeeds. -/
def World.Succeeds (world : World) (w₀ : WorkflowInstance) (c : TaskDefinition) (a : Nat) : Prop :=
  (world.attemptOutput w₀ c.id c.handler a).isSome = true

instance (world : World) (w₀ : WorkflowInstance) (c : TaskDefinition) (a : Nat) :
    Decidable (world.Succeeds w₀ c a) :=
  inferInstanceAs (Decidable (_ = true))

/-- Task `c` succeeds on one of its first `n` attempts. -/
def World.SucceedsWithin (world : World) (w₀ : WorkflowInstance) (c : TaskDefinition) (n : Nat) : Prop :=
  ∃ a ∈ List.range' 1 n, world.Succeeds w₀ c a

instance (world : World) (w₀ : WorkflowInstance) (c : TaskDefinition) (n : Nat) :
    Decidable (world.SucceedsWithin w₀ c n) := inferInstanceAs (Decidable (∃ a ∈ List.range' 1 n, _))

/-- The attempts the executor gives a task. It asks `shouldRetry` about the attempt after next, so a task that
is retried at all gets one attempt less than `maxAttempts`. -/
def allowedAttempts (policy : RetryPolicy) : Nat := max 1 (policy.maxAttempts - 1).toNat

theorem allowedAttempts_pos (policy : RetryPolicy) : 1 ≤ allowedAttempts policy := Nat.le_max_left _ _

theorem RetryHandler.decide_retry {policy : RetryPolicy} {task : TaskRun} (h : 1 ≤ task.attempt) :
    (RetryHandler.decide policy task).retry = true ↔ task.attempt < allowedAttempts policy := by
  unfold RetryHandler.decide shouldRetry allowedAttempts
  by_cases hlt : ((task.attempt + 1 : Nat) : Int) < policy.maxAttempts
  · simp only [hlt, decide_true, Bool.not_true, Bool.false_eq_true, if_false, true_iff]
    omega
  · simp only [hlt, decide_false, Bool.not_false, if_true, Bool.false_eq_true, false_iff]
    omega

/-! ## The executor's three answers -/

section
variable (world : World) (w₀ : WorkflowInstance) (policy : RetryPolicy) (running : TaskRun) (handler : String)
  (now : ISODateString)

/-- `TaskExecutor.run` on the outcome of attempt `running.attempt`. -/
theorem TaskExecutor.finish_cases (hpos : 1 ≤ running.attempt) :
    let result := finish running policy
      (TaskSimulator.execute world.simulator handler w₀.context
        (world.answer w₀.runId running.definitionTaskId running.attempt 0)) now
    let output := world.attemptOutput w₀ running.definitionTaskId handler running.attempt
    (output.isSome = true ∧ result.retryAfterMs = none ∧
        result.task = { running with status := .succeeded, finishedAt := some now, output := output }) ∨
      (output = none ∧ running.attempt < allowedAttempts policy ∧ result.retryAfterMs.isSome = true ∧
        ∃ message, result.task =
          { running with status := .retrying, finishedAt := some now, errorMessage := some message }) ∨
      (output = none ∧ allowedAttempts policy ≤ running.attempt ∧ result.retryAfterMs = none ∧
        ∃ message, result.task =
          { running with status := .failed, finishedAt := some now, errorMessage := some message }) := by
  have hfail : ∀ message, (running.attempt < allowedAttempts policy ∧
        (handleFailure running policy message now).retryAfterMs.isSome = true ∧
        (handleFailure running policy message now).task =
          { running with status := .retrying, finishedAt := some now, errorMessage := some message }) ∨
      (allowedAttempts policy ≤ running.attempt ∧ (handleFailure running policy message now).retryAfterMs = none ∧
        (handleFailure running policy message now).task =
          { running with status := .failed, finishedAt := some now, errorMessage := some message }) := by
    intro message
    have hdecide : (RetryHandler.decide policy { running with
        status := .failed, finishedAt := some now, errorMessage := some message }).retry = true ↔
          running.attempt < allowedAttempts policy := RetryHandler.decide_retry hpos
    by_cases hr : running.attempt < allowedAttempts policy
    · exact .inl ⟨hr, by simp [handleFailure, hdecide.2 hr], by simp [handleFailure, hdecide.2 hr]⟩
    · have hno := Bool.not_eq_true _ ▸ mt hdecide.1 hr
      exact .inr ⟨by omega, by simp [handleFailure, hno], by simp [handleFailure, hno]⟩
  intro result output
  cases hx : TaskSimulator.execute world.simulator handler w₀.context
    (world.answer w₀.runId running.definitionTaskId running.attempt 0) with
  | error message =>
    have ho : output = none := by simp [output, World.attemptOutput, hx]
    have hres : result = handleFailure running policy message now := by simp [result, finish, hx]
    rw [hres]
    rcases hfail message with ⟨h₁, h₂, h₃⟩ | ⟨h₁, h₂, h₃⟩
    · exact .inr (.inl ⟨ho, h₁, h₂, message, h₃⟩)
    · exact .inr (.inr ⟨ho, h₁, h₂, message, h₃⟩)
  | ok r =>
    by_cases hs : r.success = true
    · have ho : output = some r.output := by simp [output, World.attemptOutput, hx, hs]
      exact .inl ⟨by rw [ho]; rfl, by simp [result, finish, hx, hs], by simp [result, finish, hx, hs, ho]⟩
    · have ho : output = none := by simp [output, World.attemptOutput, hx, hs]
      have hres : result = handleFailure running policy (r.errorMessage.getD "unknown error") now := by
        simp [result, finish, hx, hs]
      rw [hres]
      rcases hfail (r.errorMessage.getD "unknown error") with ⟨h₁, h₂, h₃⟩ | ⟨h₁, h₂, h₃⟩
      · exact .inr (.inl ⟨ho, h₁, h₂, _, h₃⟩)
      · exact .inr (.inr ⟨ho, h₁, h₂, _, h₃⟩)

end

/-! ## Shapes of a workflow -/

/-- What never changes about a task run. -/
def TaskRun.identity (t : TaskRun) : TaskId × String × String := (t.id, t.definitionTaskId, t.handler)

/-- `w₀` was made from `d` by `createRun`. -/
structure Instantiates (d : JobDefinition) (w₀ : WorkflowInstance) : Prop where
  tasks : w₀.tasks.map (fun t => (t.definitionTaskId, t.handler)) = d.tasks.map fun c => (c.id, c.handler)
  ids : (w₀.tasks.map (·.id)).Nodup

/-- `w` is a later instance of the run that started as `w₀`. -/
structure Later (w₀ w : WorkflowInstance) : Prop where
  identity : w.tasks.map TaskRun.identity = w₀.tasks.map TaskRun.identity
  context : w.context = w₀.context

/-- The task has not been tried. -/
structure Untouched (t : TaskRun) : Prop where
  status : t.status = .queued
  attempt : t.attempt = 0
  output : t.output = none

/-- The task has succeeded on its last attempt and failed all earlier ones. -/
structure Finished (world : World) (d : JobDefinition) (w₀ : WorkflowInstance) (t : TaskRun) : Prop where
  status : t.status = .succeeded
  attempt : 1 ≤ t.attempt ∧ t.attempt ≤ allowedAttempts d.retryPolicy
  earlier : ∀ a, 1 ≤ a → a < t.attempt → world.attemptOutput w₀ t.definitionTaskId t.handler a = none
  output : t.output = world.attemptOutput w₀ t.definitionTaskId t.handler t.attempt
  isSome : t.output.isSome = true

/-- The tasks of `done` have succeeded, task `c` has `status` after `n` attempts that all failed, and the others
are untouched. -/
structure Busy (world : World) (d : JobDefinition) (w₀ : WorkflowInstance) (done : List String)
    (c : TaskDefinition)
    (status : TaskStatus) (n : Nat) (w : WorkflowInstance) : Prop where
  later : Later w₀ w
  scheduled : Scheduled d.tasks done
  ready : TaskScheduler.ready d.tasks done = some c
  finished : ∀ t ∈ w.tasks, t.definitionTaskId ∈ done → Finished world d w₀ t
  current : ∀ t ∈ w.tasks, t.definitionTaskId = c.id → t.status = status ∧ t.attempt = n ∧ t.output = none
  failed : ∀ a, 1 ≤ a → a ≤ n → world.attemptOutput w₀ c.id c.handler a = none
  untouched : ∀ t ∈ w.tasks, t.definitionTaskId ∉ done → t.definitionTaskId ≠ c.id → Untouched t

/-- Every task has succeeded. -/
structure AllDone (world : World) (d : JobDefinition) (w₀ : WorkflowInstance) (w : WorkflowInstance) : Prop where
  later : Later w₀ w
  finished : ∀ t ∈ w.tasks, Finished world d w₀ t

/-- The shapes at the head of the loop. -/
inductive AtLoop (world : World) (d : JobDefinition) (w₀ : WorkflowInstance) (w : WorkflowInstance) : Prop where
  | busy {done : List String} {c : TaskDefinition} {n : Nat} (h : Busy world d w₀ done c .queued n w)
      (hn : n < allowedAttempts d.retryPolicy)
  | allDone (h : AllDone world d w₀ w)

section
variable {world : World} {d : JobDefinition} {w₀ w : WorkflowInstance} {done : List String} {c : TaskDefinition}
  {status : TaskStatus} {n : Nat} {t t' : TaskRun}

theorem Later.definitionTaskIds (hi : Instantiates d w₀) (h : Later w₀ w) :
    w.tasks.map (·.definitionTaskId) = d.tasks.map (·.id) := by
  have h₁ := congrArg (List.map fun x => x.2.1) h.identity
  have h₂ := congrArg (List.map Prod.fst) hi.tasks
  simp only [List.map_map] at h₁ h₂
  exact h₁.trans h₂

theorem Later.ids_nodup (hi : Instantiates d w₀) (h : Later w₀ w) : (w.tasks.map (·.id)).Nodup := by
  have h₁ := congrArg (List.map Prod.fst) h.identity
  simp only [List.map_map] at h₁
  exact h₁ ▸ hi.ids

theorem Later.definitionTaskIds_nodup (ha : Accepted d) (hi : Instantiates d w₀) (h : Later w₀ w) :
    (w.tasks.map (·.definitionTaskId)).Nodup := h.definitionTaskIds hi ▸ ha.nodup

/-- No task has made more attempts than it is allowed. -/
theorem Busy.attempt_le (h : Busy world d w₀ done c status n w) (hn : n ≤ allowedAttempts d.retryPolicy)
    (ht : t ∈ w.tasks) : t.attempt ≤ allowedAttempts d.retryPolicy := by
  by_cases hdone : t.definitionTaskId ∈ done
  · exact (h.finished t ht hdone).attempt.2
  · by_cases hc : t.definitionTaskId = c.id
    · obtain ⟨-, hatt, -⟩ := h.current t ht hc
      rw [hatt]
      exact hn
    · rw [(h.untouched t ht hdone hc).attempt]
      exact Nat.zero_le _

/-- A task run carries the handler of its definition. -/
theorem Later.handler_eq (ha : Accepted d) (hi : Instantiates d w₀) (h : Later w₀ w) (ht : t ∈ w.tasks)
    (hc : c ∈ d.tasks) (hid : t.definitionTaskId = c.id) : t.handler = c.handler := by
  have h₁ := congrArg (List.map Prod.snd) h.identity
  simp only [List.map_map] at h₁
  have hmem : (t.definitionTaskId, t.handler) ∈ d.tasks.map fun c => (c.id, c.handler) := by
    rw [← hi.tasks, show (fun t : TaskRun => (t.definitionTaskId, t.handler)) =
      Prod.snd ∘ TaskRun.identity from rfl,
      ← h₁]
    exact List.mem_map_of_mem (f := Prod.snd ∘ TaskRun.identity) ht
  obtain ⟨c', hc', he⟩ := List.mem_map.1 hmem
  have hcc : c' = c := List.inj_on_of_nodup_map ha.nodup hc' hc ((congrArg Prod.fst he).trans hid)
  rw [← hcc]
  exact (congrArg Prod.snd he).symm

/-- Two task runs of one task are the same. -/
theorem Later.eq_of_definitionTaskId (ha : Accepted d) (hi : Instantiates d w₀) (h : Later w₀ w) (ht : t ∈ w.tasks)
    (ht' : t' ∈ w.tasks) (hid : t.definitionTaskId = t'.definitionTaskId) : t = t' :=
  List.inj_on_of_nodup_map (h.definitionTaskIds_nodup ha hi) ht ht' hid

/-! ## Saving a task -/

/-- `updateTask` replaces the task run it is given and keeps the others. -/
theorem updateTask_mem (ha : Accepted d) (hi : Instantiates d w₀) (h : Later w₀ w) (ht : t ∈ w.tasks)
    (hid : t'.identity = t.identity) (now : ISODateString) (x : TaskRun) :
    x ∈ (ExecutionService.updateTask w t' now).tasks ↔
      x = t' ∨ x ∈ w.tasks ∧ x.definitionTaskId ≠ t.definitionTaskId := by
  have htid : t'.id = t.id := congrArg Prod.fst hid
  have hsame : ∀ y ∈ w.tasks, (y.id = t'.id ↔ y.definitionTaskId = t.definitionTaskId) := fun y hy =>
    ⟨fun he => congrArg _ (List.inj_on_of_nodup_map (h.ids_nodup hi) hy ht (he.trans htid)),
      fun he => (congrArg _ (h.eq_of_definitionTaskId ha hi hy ht he)).trans htid.symm⟩
  simp only [ExecutionService.updateTask, List.mem_map]
  constructor
  · rintro ⟨y, hy, rfl⟩
    by_cases he : y.id = t'.id
    · exact .inl (if_pos he)
    · rw [if_neg he]
      exact .inr ⟨hy, mt (hsame y hy).2 he⟩
  · rintro (rfl | ⟨hx, hne⟩)
    · exact ⟨t, ht, if_pos htid.symm⟩
    · exact ⟨x, hx, if_neg (mt (hsame x hx).1 hne)⟩

theorem Later.updateTask (hi : Instantiates d w₀) (h : Later w₀ w) (ht : t ∈ w.tasks)
    (hid : t'.identity = t.identity) (now : ISODateString) : Later w₀ (ExecutionService.updateTask w t' now) := by
  refine ⟨?_, h.context⟩
  rw [← h.identity, ExecutionService.updateTask, List.map_map]
  refine List.map_congr_left fun y hy => ?_
  have htid : t'.id = t.id := congrArg Prod.fst hid
  by_cases he : y.id = t'.id
  · rw [Function.comp_apply, if_pos he, hid, List.inj_on_of_nodup_map (h.ids_nodup hi) hy ht (he.trans htid)]
  · rw [Function.comp_apply, if_neg he]

/-- The task being tried gets another status. -/
theorem Busy.update (ha : Accepted d) (hi : Instantiates d w₀) (h : Busy world d w₀ done c status n w)
    (ht : t ∈ w.tasks) (htc : t.definitionTaskId = c.id) (hid : t'.identity = t.identity) (now : ISODateString)
    (hout : t'.output = none)
    (hfailed : ∀ a, 1 ≤ a → a ≤ t'.attempt → world.attemptOutput w₀ c.id c.handler a = none) :
    Busy world d w₀ done c t'.status t'.attempt (ExecutionService.updateTask w t' now) := by
  have hmem := updateTask_mem ha hi h.later ht hid now
  have htd : t'.definitionTaskId = c.id := (congrArg (fun x => x.2.1) hid).trans htc
  refine ⟨h.later.updateTask hi ht hid now, h.scheduled, h.ready, fun x hx hdone => ?_, fun x hx hxc => ?_,
    hfailed,
    fun x hx hnot hne => ?_⟩
  · rcases (hmem x).1 hx with rfl | ⟨hx, _⟩
    · exact absurd (htd ▸ hdone) (TaskScheduler.ready_not_done h.ready)
    · exact h.finished x hx hdone
  · rcases (hmem x).1 hx with rfl | ⟨_, hne⟩
    · exact ⟨rfl, rfl, hout⟩
    · exact absurd (hxc.trans htc.symm) hne
  · rcases (hmem x).1 hx with rfl | ⟨hx, _⟩
    · exact absurd htd hne
    · exact h.untouched x hx hnot hne

/-- The task being tried has succeeded: on to the next, if there is one. -/
theorem Busy.finish (ha : Accepted d) (hi : Instantiates d w₀) (h : Busy world d w₀ done c status n w)
    (ht : t ∈ w.tasks) (htc : t.definitionTaskId = c.id) (hid : t'.identity = t.identity)
    (now : ISODateString) (hf : Finished world d w₀ t') : AtLoop world d w₀
    (ExecutionService.updateTask w t' now) := by
  have hmem := updateTask_mem ha hi h.later ht hid now
  have htd : t'.definitionTaskId = c.id := (congrArg (fun x => x.2.1) hid).trans htc
  have hlater : Later w₀ (ExecutionService.updateTask w t' now) := h.later.updateTask hi ht hid now
  have hfin : ∀ x ∈ (ExecutionService.updateTask w t' now).tasks, x.definitionTaskId ∈ done ++ [c.id] →
      Finished world d w₀ x := fun x hx hdone => by
    rcases (hmem x).1 hx with rfl | ⟨hx, hne⟩
    · exact hf
    · rcases List.mem_append.1 hdone with hdone | hdone
      · exact h.finished x hx hdone
      · exact absurd ((List.mem_singleton.1 hdone).trans htc.symm) hne
  have hrest : ∀ x ∈ (ExecutionService.updateTask w t' now).tasks, x.definitionTaskId ∉ done ++ [c.id] →
      Untouched x := fun x hx hnot => by
    rw [List.mem_append, List.mem_singleton, not_or] at hnot
    rcases (hmem x).1 hx with rfl | ⟨hx, _⟩
    · exact absurd htd hnot.2
    · exact h.untouched x hx hnot.1 hnot.2
  cases hr : TaskScheduler.ready d.tasks (done ++ [c.id]) with
  | none =>
    refine .allDone ⟨hlater, fun x hx => hfin x hx ?_⟩
    have hx' : x.definitionTaskId ∈ d.tasks.map (·.id) :=
      hlater.definitionTaskIds hi ▸ List.mem_map_of_mem (f := (·.definitionTaskId)) hx
    obtain ⟨c', hc', hid'⟩ := List.mem_map.1 hx'
    exact hid' ▸ ha.all_done hr c' hc'
  | some c' =>
    have hbusy : Busy world d w₀ (done ++ [c.id]) c' .queued 0 (ExecutionService.updateTask w t' now) := by
      refine ⟨hlater, h.scheduled.snoc h.ready, hr, hfin, fun x hx hxc => ?_, fun a h₁ h₂ => by omega,
        fun x hx hnot _ => hrest x hx hnot⟩
      have hu := hrest x hx (hxc ▸ TaskScheduler.ready_not_done hr)
      exact ⟨hu.status, hu.attempt, hu.output⟩
    exact .busy hbusy (allowedAttempts_pos d.retryPolicy)

/-! ## What the scheduler sees -/

theorem Busy.nextRunnable (ha : Accepted d) (hi : Instantiates d w₀) (h : Busy world d w₀ done c .queued n w) :
    TaskScheduler.nextRunnable w.tasks d.tasks = some c := by
  rw [← h.ready]
  refine nextRunnable_eq_ready (h.later.definitionTaskIds_nodup ha hi) (fun id hid => ?_)
    (fun t ht hd => (h.finished t ht hd).status) fun t ht hd => .inl ?_
  · exact List.mem_map.1 (h.later.definitionTaskIds hi ▸ h.scheduled.subset id hid)
  · by_cases hc : t.definitionTaskId = c.id
    · exact (h.current t ht hc).1
    · exact (h.untouched t ht hd hc).status

theorem AllDone.nextRunnable (ha : Accepted d) (hi : Instantiates d w₀) (h : AllDone world d w₀ w) :
    TaskScheduler.nextRunnable w.tasks d.tasks = none := by
  have hids := h.later.definitionTaskIds hi
  rw [@nextRunnable_eq_ready _ d.tasks (hids ▸ ha.nodup) (d.tasks.map (·.id))
    (fun id hid => List.mem_map.1 (hids ▸ hid)) (fun t ht _ => (h.finished t ht).status)
    fun t ht hnot => absurd (hids ▸ List.mem_map_of_mem (f := (·.definitionTaskId)) ht) hnot]
  exact TaskScheduler.ready_eq_none.2 fun c hc => .inl (List.mem_map_of_mem (f := (·.id)) hc)

theorem AllDone.allDone (ha : Accepted d) (hi : Instantiates d w₀) (h : AllDone world d w₀ w) :
    TaskScheduler.allDone w.tasks d.tasks = true :=
  allDone_of_succeeded (h.later.definitionTaskIds hi) ha fun t ht => (h.finished t ht).status

theorem Busy.exists_taskRun (hi : Instantiates d w₀) (h : Busy world d w₀ done c status n w) :
    ∃ t ∈ w.tasks, t.definitionTaskId = c.id :=
  Jobflow.exists_taskRun (h.later.definitionTaskIds hi) (TaskScheduler.ready_mem h.ready)

end

end Jobflow
