import Jobflow.Cancellation
import Jobflow.Completion
import Jobflow.Course

/-!
# Runs of a job that is registered again (src/services/job-service.ts, src/services/execution-service.ts)

A run keeps the task runs that `createRun` has made for it, while `executeRun` reads the definition that is registered
at that moment. Tasks are matched by id; a task of the new definition that the run was not created with has no task
run, and selecting it ends the call with a `TypeError`.
-/

namespace Jobflow

/-- The event leaves run `r` alone; any job may be registered again. -/
def Event.Aside (r : RunId) : Event → Prop
  | .executeRun _ r' | .use r' _ | .replay _ r' | .restoreToCheckpoint r' _ _ | .acquire r' _ | .release r' _ => r' ≠ r
  | .register _ _ | .createRun _ _ _ | .resume _ _ => True

instance (r : RunId) : (e : Event) → Decidable (e.Aside r)
  | .executeRun _ r' | .use r' _ | .replay _ r' | .restoreToCheckpoint r' _ _ | .acquire r' _ | .release r' _ =>
    inferInstanceAs (Decidable (r' ≠ r))
  | .register _ _ | .createRun _ _ _ | .resume _ _ => isTrue trivial

/-- The task that the next segment selects, and the instance it works on. -/
def ExecPc.selects (pc : ExecPc) : Option (TaskDefinition × WorkflowInstance) :=
  pc.entersLoop.bind fun (d, w) =>
    if w.state = .running then (TaskScheduler.nextRunnable w.tasks d.tasks).map (·, w) else none

/-- Task `c` is the next one once the tasks before it, in the order in which tasks are run, have succeeded, and they do
succeed. -/
def World.ComesUp (world : World) (d : JobDefinition) (w₀ : WorkflowInstance) (c : TaskDefinition) : Prop :=
  ∃ done, Scheduled d.tasks done ∧ TaskScheduler.ready d.tasks done = some c ∧
    ∀ b ∈ d.tasks, b.id ∈ done → world.SucceedsWithin w₀ b (allowedAttempts d.retryPolicy)

/-- Run `w₀`, executed by service `k` under the definition `d`, keeps to the tasks it was created with. -/
structure System.KeepsToRun (world : World) (k : Nat) (d : JobDefinition) (w₀ : WorkflowInstance) (s : System) :
    Prop where
  /-- Every task that is selected has a task run. -/
  selects : ∀ pc ∈ s.executing w₀.runId, ∀ c w, pc.selects = some (c, w) → ∃ t ∈ w.tasks, t.definitionTaskId = c.id
  internal : ∀ pc ∈ s.executing w₀.runId, ∀ e, pc ≠ .rejected (.exception e)
  settles : s.Settles world k w₀.runId
  completes : s.executing w₀.runId = [] → ∃ w, s.stores.getByRunId w₀.runId = some w ∧
    w.tasks.map TaskRun.identity = w₀.tasks.map TaskRun.identity ∧
      (w.state = .completed ↔ (∀ t ∈ w.tasks, t.status = .succeeded) ∧ ¬ Blocked d w)

/-! ## How far the run has come under the new definition -/

/-- The task has failed every attempt it has made, and may make another one. -/
structure OpenTask (world : World) (d : JobDefinition) (w₀ : WorkflowInstance) (log : List Invocation) (t : TaskRun) :
    Prop where
  attempt : t.attempt < allowedAttempts d.retryPolicy
  log : attemptsOf log t.definitionTaskId = List.range' 1 t.attempt
  failed : ∀ c ∈ d.tasks, c.id = t.definitionTaskId → ∀ a, 1 ≤ a → a ≤ t.attempt → ¬ world.Succeeds w₀ c a

/-- The tasks of `done` have succeeded, task `held` waits for its next attempt and the others are queued. -/
structure Underway (world : World) (d : JobDefinition) (w₀ : WorkflowInstance) (done : List String)
    (held : Option String) (w : WorkflowInstance) (log : List Invocation) : Prop where
  later : Later w₀ w
  scheduled : Scheduled d.tasks done
  succeeds : ∀ b ∈ d.tasks, b.id ∈ done → world.SucceedsWithin w₀ b (allowedAttempts d.retryPolicy)
  known : ∀ id ∈ done, ∃ t ∈ w.tasks, t.definitionTaskId = id
  finished : ∀ t ∈ w.tasks, t.definitionTaskId ∈ done → t.status = .succeeded
  waiting : ∀ t ∈ w.tasks, t.definitionTaskId ∉ done → OpenTask world d w₀ log t ∧
    t.status = if held = some t.definitionTaskId then .retrying else .queued

/-- The run when no call executes it. -/
inductive Resting (world : World) (d : JobDefinition) (w₀ w : WorkflowInstance) (log : List Invocation) : Prop where
  | unfinished {done : List String} (hs : w.state = .pending ∨ w.state = .running)
      (hw : Underway world d w₀ done none w log) (hn : Blocked d w ∨ ∃ t ∈ w.tasks, t.status ≠ .succeeded)
  | completed (hs : w.state = .completed) (hl : Later w₀ w) (hall : ∀ t ∈ w.tasks, t.status = .succeeded)
      (hb : ¬ Blocked d w)
  | failed (hs : w.state = .failed ∨ w.state = .deadLettered) (hl : Later w₀ w)
      (hn : ∃ t ∈ w.tasks, t.status ≠ .succeeded)

def reregisteredCourse (world : World) (d : JobDefinition) (w₀ : WorkflowInstance) : Course where
  before := Resting world d w₀
  looping := fun w log => ∃ done, Underway world d w₀ done none w log
  retrying := fun w log task => ∃ done, Underway world d w₀ done (some task.definitionTaskId) w log ∧ task ∈ w.tasks ∧
    task.definitionTaskId ∉ done
  exhausted := fun w _ => Later w₀ w ∧ ∃ t ∈ w.tasks, t.status ≠ .succeeded
  after := Resting world d w₀

section
variable {world : World} {d₀ d : JobDefinition} {w₀ w : WorkflowInstance} {done : List String}
  {held : Option String} {log log' : List Invocation} {c : TaskDefinition} {t t' : TaskRun} {event : String}
  {target : WorkflowState} {actor : String} {note : Option String} {now : ISODateString}

theorem Resting.later (h : Resting world d w₀ w log) : Later w₀ w := by
  cases h with
  | unfinished _ hw _ => exact hw.later
  | completed _ hl _ _ | failed _ hl _ => exact hl

theorem Resting.completed_iff (h : Resting world d w₀ w log) :
    w.state = .completed ↔ (∀ t ∈ w.tasks, t.status = .succeeded) ∧ ¬ Blocked d w := by
  cases h with
  | unfinished hs _ hn =>
    refine iff_of_false (by rcases hs with hs | hs <;> simp [hs]) fun ⟨hall, hb⟩ => ?_
    rcases hn with hblocked | ⟨t, ht, hne⟩
    · exact hb hblocked
    · exact hne (hall t ht)
  | completed hs _ hall hb => exact iff_of_true hs ⟨hall, hb⟩
  | failed hs _ hn =>
    obtain ⟨t, ht, hne⟩ := hn
    exact iff_of_false (by rcases hs with hs | hs <;> simp [hs]) fun ⟨hall, _⟩ => hne (hall t ht)

/-- Nothing has been done yet. -/
theorem Underway.initial (hu : ∀ t ∈ w₀.tasks, Untouched t) : Underway world d w₀ [] none w₀ [] := by
  refine ⟨⟨rfl, rfl⟩, .nil, by simp, by simp, by simp, fun t ht _ => ⟨⟨?_, ?_, ?_⟩, (hu t ht).status⟩⟩
  · rw [(hu t ht).attempt]
    exact allowedAttempts_pos _
  · rw [(hu t ht).attempt]
    rfl
  · intro _ _ _ a h₁ h₂
    rw [(hu t ht).attempt] at h₂
    omega

theorem Underway.moved (h : Underway world d w₀ done held w log) :
    Underway world d w₀ done held (w.moved event target actor note now) log :=
  ⟨h.later.moved, h.scheduled, h.succeeds, h.known, h.finished, h.waiting⟩

/-- The log after the next attempt of `t`. -/
theorem attemptsOf_handlerCall (r : RunId) (id : String) : attemptsOf (log ++ [handlerCall r w c t]) id =
    attemptsOf log id ++ if t.definitionTaskId = id then [t.attempt + 1] else [] := by
  unfold attemptsOf
  rw [List.filter_append, List.map_append]
  have hcall : (handlerCall r w c t).context.taskId = t.definitionTaskId := rfl
  by_cases he : t.definitionTaskId = id
  · rw [if_pos he, List.filter_cons, hcall, if_pos (decide_eq_true he)]
    rfl
  · rw [if_neg he, List.filter_cons, hcall, if_neg (by simpa using he)]
    rfl

variable (ha₀ : Accepted d₀) (hi₀ : Instantiates d₀ w₀)
include ha₀ hi₀

theorem Underway.nextRunnable (h : Underway world d w₀ done none w log) :
    TaskScheduler.nextRunnable w.tasks d.tasks = TaskScheduler.ready d.tasks done :=
  nextRunnable_eq_ready (h.later.definitionTaskIds_nodup ha₀ hi₀) h.known h.finished
    fun t ht hnot => .inl (h.waiting t ht hnot).2

/-- The task being tried gets another status, with or without another attempt. -/
theorem Underway.update (h : Underway world d w₀ done held w log) (ht : t ∈ w.tasks)
    (hnot : t.definitionTaskId ∉ done) (hheld : held = none ∨ held = some t.definitionTaskId)
    (hid : t'.identity = t.identity) (hlog : ∀ id, t.definitionTaskId ≠ id → attemptsOf log' id = attemptsOf log id)
    (hopen : OpenTask world d w₀ log' t') {held' : Option String}
    (hheld' : held' = none ∨ held' = some t.definitionTaskId)
    (hs : t'.status = if held' = some t'.definitionTaskId then .retrying else .queued) (now : ISODateString) :
    Underway world d w₀ done held' (ExecutionService.updateTask w t' now) log' := by
  have hmem := updateTask_mem ha₀ hi₀ h.later ht hid now
  have hlater := h.later.updateTask hi₀ ht hid now
  have htd : t'.definitionTaskId = t.definitionTaskId := congrArg (fun x => x.2.1) hid
  refine ⟨hlater, h.scheduled, h.succeeds, fun id hdone => ?_, fun x hx hdone => ?_, fun x hx hx' => ?_⟩
  · obtain ⟨u, hu, rfl⟩ := h.known id hdone
    have hne : u.definitionTaskId ≠ t.definitionTaskId := fun he => hnot (he ▸ hdone)
    exact ⟨u, (hmem u).2 (.inr ⟨hu, hne⟩), rfl⟩
  · rcases (hmem x).1 hx with rfl | ⟨hx, _⟩
    · exact absurd (htd ▸ hdone) hnot
    · exact h.finished x hx hdone
  · rcases (hmem x).1 hx with rfl | ⟨hx, hne⟩
    · exact ⟨hopen, hs⟩
    · obtain ⟨hold, hstatus⟩ := h.waiting x hx hx'
      have hother : ∀ o : Option String, o = none ∨ o = some t.definitionTaskId → o ≠ some x.definitionTaskId := by
        rintro o (rfl | rfl) he
        · cases he
        · exact hne (Option.some.inj he).symm
      rw [if_neg (hother held hheld)] at hstatus
      rw [if_neg (hother held' hheld')]
      exact ⟨⟨hold.attempt, (hlog _ hne.symm).trans hold.log, hold.failed⟩, hstatus⟩

/-- The task being tried has succeeded. -/
theorem Underway.finish (h : Underway world d w₀ done none w log) (ht : t ∈ w.tasks)
    (hready : TaskScheduler.ready d.tasks done = some c) (htc : t.definitionTaskId = c.id)
    (hid : t'.identity = t.identity) (hlog : ∀ id, t.definitionTaskId ≠ id → attemptsOf log' id = attemptsOf log id)
    (hs : t'.status = .succeeded) (ha : Accepted d)
    (hsucc : world.SucceedsWithin w₀ c (allowedAttempts d.retryPolicy)) (now : ISODateString) :
    Underway world d w₀ (done ++ [c.id]) none (ExecutionService.updateTask w t' now) log' := by
  have hmem := updateTask_mem ha₀ hi₀ h.later ht hid now
  have hlater := h.later.updateTask hi₀ ht hid now
  have htd : t'.definitionTaskId = c.id := (congrArg (fun x => x.2.1) hid).trans htc
  have hnew : t' ∈ (ExecutionService.updateTask w t' now).tasks := (hmem t').2 (.inl rfl)
  refine ⟨hlater, h.scheduled.snoc hready, fun b hb hdone => ?_, fun id hdone => ?_, fun x hx hdone => ?_,
    fun x hx hx' => ?_⟩
  · rcases List.mem_append.1 hdone with hdone | hdone
    · exact h.succeeds b hb hdone
    · rw [List.inj_on_of_nodup_map ha.nodup hb (TaskScheduler.ready_mem hready) (List.mem_singleton.1 hdone)]
      exact hsucc
  · rcases List.mem_append.1 hdone with hdone | hdone
    · obtain ⟨u, hu, rfl⟩ := h.known id hdone
      refine ⟨u, (hmem u).2 (.inr ⟨hu, fun he => ?_⟩), rfl⟩
      exact TaskScheduler.ready_not_done hready (htc ▸ he ▸ hdone)
    · exact ⟨t', hnew, htd.trans (List.mem_singleton.1 hdone).symm⟩
  · rcases (hmem x).1 hx with rfl | ⟨hx, hne⟩
    · exact hs
    · rcases List.mem_append.1 hdone with hdone | hdone
      · exact h.finished x hx hdone
      · exact absurd ((List.mem_singleton.1 hdone).trans htc.symm) hne
  · rw [List.mem_append, List.mem_singleton, not_or] at hx'
    rcases (hmem x).1 hx with rfl | ⟨hx, hne⟩
    · exact absurd htd hx'.2
    · obtain ⟨hold, hstatus⟩ := h.waiting x hx hx'.1
      exact ⟨⟨hold.attempt, (hlog _ hne.symm).trans hold.log, hold.failed⟩, by simpa using hstatus⟩

/-- What becomes of the instance when the handler of the selected task answers. -/
theorem Underway.answered (ha : Accepted d) (h : Underway world d w₀ done none w log) (hsel : Selects d w c t)
    (began now : ISODateString) {result : ExecuteResult}
    (hresult : result = ExecutionService.answered world w₀.runId d w c (TaskExecutor.start t began)
      (earlierCalls log t) now) :
    (reregisteredCourse world d w₀).Answered (ExecutionService.updateTask w result.task now)
      (log ++ [handlerCall w₀.runId w c t]) result := by
  have hready : TaskScheduler.ready d.tasks done = some c := (h.nextRunnable ha₀ hi₀).symm.trans hsel.next
  have hc := TaskScheduler.ready_mem hready
  have hnot : t.definitionTaskId ∉ done := hsel.definition ▸ TaskScheduler.ready_not_done hready
  obtain ⟨hopen, _⟩ := h.waiting t hsel.mem hnot
  have hother : ∀ id, t.definitionTaskId ≠ id →
      attemptsOf (log ++ [handlerCall w₀.runId w c t]) id = attemptsOf log id := fun id hne => by
    rw [attemptsOf_handlerCall, if_neg hne, List.append_nil]
  have hthis : attemptsOf (log ++ [handlerCall w₀.runId w c t]) t.definitionTaskId =
      List.range' 1 (t.attempt + 1) := by
    rw [attemptsOf_handlerCall, if_pos rfl, hopen.log, List.range'_concat, Nat.one_mul, Nat.add_comm]
  rw [earlierCalls_eq_zero hopen.log] at hresult
  have hcases := TaskExecutor.finish_cases world w₀ d.retryPolicy (TaskExecutor.start t began) c.handler now
    (Nat.succ_le_succ (Nat.zero_le _))
  rw [← h.later.context] at hcases
  have hfinish : TaskExecutor.finish (TaskExecutor.start t began) d.retryPolicy
      (TaskSimulator.execute world.simulator c.handler w.context (world.answer w₀.runId
        (TaskExecutor.start t began).definitionTaskId (TaskExecutor.start t began).attempt 0)) now = result :=
    hresult.symm
  simp only [hfinish] at hcases
  have houtput : world.attemptOutput w₀ (TaskExecutor.start t began).definitionTaskId c.handler
      (TaskExecutor.start t began).attempt = world.attemptOutput w₀ c.id c.handler (t.attempt + 1) := by
    rw [← hsel.definition]
    rfl
  rw [houtput] at hcases
  -- what is known of a task that has failed this attempt too
  have hfailed : world.attemptOutput w₀ c.id c.handler (t.attempt + 1) = none → ∀ b ∈ d.tasks,
      b.id = t.definitionTaskId → ∀ a, 1 ≤ a → a ≤ t.attempt + 1 → ¬ world.Succeeds w₀ b a := by
    intro hnone b hb hbt a h₁ h₂
    rcases Nat.lt_or_ge a (t.attempt + 1) with hlt | hge
    · exact hopen.failed b hb hbt a h₁ (by omega)
    · obtain rfl := List.inj_on_of_nodup_map ha.nodup hb hc (hbt.trans hsel.definition)
      rw [Nat.le_antisymm h₂ hge, World.Succeeds, hnone]
      simp
  rcases hcases with ⟨hsome, hret, htask⟩ | ⟨hno, hlt, hret, message, htask⟩ | ⟨hno, hle, hret, message, htask⟩
  · have hid : result.task.identity = t.identity := by
      rw [htask]
      rfl
    have hsucc : world.SucceedsWithin w₀ c (allowedAttempts d.retryPolicy) := by
      refine ⟨t.attempt + 1, List.mem_range'_1.2 ⟨by omega, ?_⟩, hsome⟩
      have := hopen.attempt
      omega
    refine .inr (.inr ⟨hret, by simp [htask], done ++ [c.id], ?_⟩)
    exact h.finish ha₀ hi₀ hsel.mem hready hsel.definition hid hother (by rw [htask]) ha hsucc now
  · have hid : result.task.identity = t.identity := by
      rw [htask]
      rfl
    have htd : result.task.definitionTaskId = t.definitionTaskId := congrArg (fun x => x.2.1) hid
    have hatt : result.task.attempt = t.attempt + 1 := by
      rw [htask]
      rfl
    refine .inl ⟨hret, done, ?_, ?_, by rwa [htd]⟩
    · refine h.update ha₀ hi₀ hsel.mem hnot (.inl rfl) hid hother ⟨by rw [hatt]; exact hlt, ?_, ?_⟩ (.inr (by rw [htd]))
        (by rw [if_pos rfl, htask]) now
      · rw [htd, hatt, hthis]
      · rw [htd, hatt]
        exact hfailed hno
    · exact (updateTask_mem ha₀ hi₀ h.later hsel.mem hid now _).2 (.inl rfl)
  · have hid : result.task.identity = t.identity := by
      rw [htask]
      rfl
    refine .inr (.inl ⟨hret, by rw [htask], h.later.updateTask hi₀ hsel.mem hid now, result.task, ?_, by simp [htask]⟩)
    exact (updateTask_mem ha₀ hi₀ h.later hsel.mem hid now _).2 (.inl rfl)

/-- The tasks that come up have task runs: then the execution keeps to the run. -/
theorem reregisteredCourse_kept (ha : Accepted d)
    (hknown : ∀ c, world.ComesUp d w₀ c → ∃ t ∈ w₀.tasks, t.definitionTaskId = c.id) :
    (reregisteredCourse world d w₀).Kept world w₀.runId d where
  again := id
  start := fun now h hs => by
    cases h with
    | unfinished _ hw _ => exact ⟨_, hw.moved⟩
    | completed hs' => simp [hs] at hs'
    | failed hs' => simp [hs] at hs'
  enter := fun h hs => by
    cases h with
    | unfinished _ hw _ => exact ⟨_, hw⟩
    | completed hs' => simp [hs] at hs'
    | failed hs' => simp [hs] at hs'
  idle := fun h _ _ => h
  known := by
    rintro w log c ⟨done, hw⟩ _ hnext
    rw [hw.nextRunnable ha₀ hi₀] at hnext
    obtain ⟨t, ht, htc⟩ := hknown c ⟨done, hw.scheduled, hnext, hw.succeeds⟩
    have hids := (hw.later.definitionTaskIds hi₀).trans (Later.definitionTaskIds hi₀ ⟨rfl, rfl⟩).symm
    have hmem : c.id ∈ w.tasks.map (·.definitionTaskId) := by
      rw [hids, ← htc]
      exact List.mem_map_of_mem (f := (·.definitionTaskId)) ht
    exact List.mem_map.1 hmem
  answered := by
    rintro w log c t began now ⟨done, hw⟩ hsel result hresult
    exact hw.answered ha₀ hi₀ ha hsel began now hresult
  requeued := by
    rintro w log task now ⟨done, hw, ht, hnot⟩ _
    obtain ⟨hopen, hstatus⟩ := hw.waiting task ht hnot
    rw [if_pos rfl] at hstatus
    have hid : ({ task with status := .queued } : TaskRun).identity = task.identity := rfl
    refine ⟨by simp [hstatus], done, ?_⟩
    exact hw.update ha₀ hi₀ ht hnot (.inr rfl) hid (fun _ _ => rfl) ⟨hopen.attempt, hopen.log, hopen.failed⟩ (.inl rfl)
      (by simp) now
  fail := fun now h _ => .failed (.inl rfl) h.1.moved h.2
  deadLetter := fun now h hs => by
    cases h with
    | unfinished hs' => simp [hs] at hs'
    | completed hs' => simp [hs] at hs'
    | failed _ hl hn => exact .failed (.inr rfl) hl.moved hn
  complete := by
    rintro w log now ⟨done, hw⟩ _ hall hb
    refine .completed rfl hw.later.moved (fun t ht => ?_) hb
    by_cases hdone : t.definitionTaskId ∈ done
    · exact hw.finished t ht hdone
    · obtain ⟨_, hstatus⟩ := hw.waiting t ht hdone
      rw [if_neg (by simp)] at hstatus
      rcases hall t ht with h | h <;> rw [hstatus] at h <;> cases h
  stopped := by
    rintro w log ⟨done, hw⟩ hs _ _ hstop
    refine .unfinished (.inr hs) hw (hstop.imp_right ?_)
    rintro ⟨t, ht, hne, _⟩
    exact ⟨t, ht, hne⟩
  await := by
    rintro w log now ⟨done, hw⟩ _ hnext hdone
    -- once no task is ready every task has succeeded
    rw [hw.nextRunnable ha₀ hi₀] at hnext
    have hall : TaskScheduler.allDone w.tasks d.tasks = true := by
      simp only [TaskScheduler.allDone, List.all_eq_true, List.mem_filter]
      rintro c ⟨hc, _⟩
      obtain ⟨t, ht, htc⟩ := hw.known c.id (ha.all_done hnext c hc)
      rw [← htc, statusByDef_get (hw.later.definitionTaskIds_nodup ha₀ hi₀) ht,
        hw.finished t ht (htc ▸ ha.all_done hnext c hc)]
      rfl
    rw [hall] at hdone
    cases hdone

theorem reregisteredCourse_bounded : (reregisteredCourse world d w₀).Bounded d d where
  ids := by
    rintro w log ⟨done, hw⟩
    exact hw.later.ids_nodup hi₀
  attempt := by
    rintro w log c t ⟨done, hw⟩ hsel
    have hready := (hw.nextRunnable ha₀ hi₀).symm.trans hsel.next
    obtain ⟨hopen, hstatus⟩ := hw.waiting t hsel.mem (hsel.definition ▸ TaskScheduler.ready_not_done hready)
    rw [if_neg (by simp)] at hstatus
    exact ⟨by simp [hstatus], hopen.attempt⟩
  retrying := by
    rintro w log task ⟨done, hw, ht, hnot⟩
    obtain ⟨_, hstatus⟩ := hw.waiting task ht hnot
    rw [if_pos rfl] at hstatus
    exact ⟨hw.later.ids_nodup hi₀, ht, by simp [hstatus]⟩

end

/-! ## Between the creation of the run and its execution -/

section
variable {world : World} {r : RunId} {s s' : System} {e : Event}

theorem Event.Aside.not_opens (he : e.Aside r) (h : (s.view r).AtRest) (k : Nat) : e.opens s ≠ some (k, r) := by
  intro ho
  rw [Event.opens_eq h.replaying ho] at he
  exact he rfl

/-- An event that leaves the run alone changes nothing that concerns it. -/
theorem Event.Aside.step (he : e.Aside r) (hc : s.Coherent) (hk : ∃ id, s.stores.workflowOfRun.get r = some id)
    (h : (s.view r).AtRest) (hs : s.step world e = some s') :
    s'.view r = s.view r ∧ Stores.SameLocks r s.stores s'.stores := by
  have hopens := he.not_opens h
  have hexecuting : s.executing r = [] := h.executing
  constructor
  · cases System.step_run (r := r) hc hs with
    | same _ _ hv => exact hv
    | opened k _ _ ho => exact absurd ho (hopens k)
    | executed k i pc now x before after _ _ _ hpcs =>
      rw [hexecuting] at hpcs
      simp at hpcs
    | called use he' => exact absurd rfl (he' ▸ he)
    | used i reply use pc x before after _ _ _ _ huses =>
      rw [h.uses] at huses
      simp at huses
    | created i reply definition jobId trigger input before after _ _ hid hfresh =>
      obtain ⟨id, hid'⟩ := hk
      rw [← hid, hfresh.1] at hid'
      cases hid'
    | runSaved i reply jobId trigger input run before after _ _ hcreating =>
      rw [h.creating] at hcreating
      simp at hcreating
    | restored version now snap he' => exact absurd rfl (he' ▸ he)
    | replayed replays he' =>
      rcases he' with ⟨k, rfl⟩ | hne
      · exact absurd rfl he
      · exact absurd h.replaying hne
  · have hexecutors : s.executors r = [] := executors_eq_nil hexecuting
    cases System.step_locks (r := r) hs with
    | same _ hl _ => exact hl
    | began k ho | conflict k ho => exact absurd ho (hopens k)
    | ended k before after _ _ _ hx =>
      rw [hexecutors] at hx
      simp at hx
    | acquired o hev | released o hev => exact absurd rfl (hev ▸ he)

theorem Event.Aside.exec {events : List Event} (hc : s.Coherent) (hk : ∃ id, s.stores.workflowOfRun.get r = some id)
    (h : (s.view r).AtRest) (hok : ∀ e ∈ events, e.Aside r)
    (hs : EventSystem.exec (System.step world) s events = some s') :
    s'.Coherent ∧ s'.view r = s.view r ∧ Stores.SameLocks r s.stores s'.stores := by
  refine EventSystem.exec_invariant
    (I := fun m => m.Coherent ∧ m.view r = s.view r ∧ Stores.SameLocks r s.stores m.stores)
    (fun m e m' hm he hstep => ?_) ⟨hc, rfl, .refl r s.stores⟩ hok hs
  obtain ⟨hcm, hv, hl⟩ := hm
  have hkm : ∃ id, m.stores.workflowOfRun.get r = some id := by
    obtain ⟨id, hid⟩ := hk
    obtain ⟨w, hw, _⟩ := hc.stores.getByRunId_isSome hid
    have hw' : m.stores.getByRunId r = some w := (congrArg (fun v => v.record.workflow) hv).trans hw
    exact ⟨_, (hcm.stores.getByRunId_owns hw').2⟩
  obtain ⟨hv', hl'⟩ := Event.Aside.step he hcm hkm (hv ▸ h) hstep
  exact ⟨hcm.step hstep, hv'.trans hv, hl'.1.trans hl.1, fun k => (hl'.2 k).trans (hl.2 k)⟩

/-- At rest nothing is about to write to the run. -/
theorem RunView.AtRest.calm (h : (s.view r).AtRest) (k : Nat) : ∀ c ∈ s.calls, ¬ c.Disturbs k r := by
  intro c hc hd
  have hnone : ∀ {β : Type} {f : Call → Option β}, s.calls.filterMap f = [] → f c = none :=
    fun hf => List.filterMap_eq_nil_iff.1 hf c hc
  have hexecuting := hnone h.executing
  have huses := hnone h.uses
  have hcreating := hnone h.creating
  have hreplaying := hnone h.replaying
  cases c with
  | execute k' r' pc =>
    obtain ⟨rfl, _, hrun⟩ := hd
    simp only [Call.executing, if_true] at hexecuting
    rw [hexecuting] at hrun
    cases hrun
  | create jobId trigger input pc =>
    cases pc with
    | workflowSaved run => simp [Call.creating, show run.id = r from hd] at hcreating
    | _ => exact hd
  | use r' wanted pc =>
    cases pc with
    | settled result => exact hd
    | _ => simp [Call.uses, show r' = r from hd, UsePc.running] at huses
  | replay k' r' pc =>
    cases pc with
    | settled result => exact hd
    | _ => simp [Call.replaying, show r' = r from hd.1, ReplayPc.running] at hreplaying

end

/-! ## What holds of every execution -/

section
variable {world : World} {C : Course} {r : RunId} {d : JobDefinition} {rec : RunRecord} {pc : ExecPc}

/-- The task that is selected has a task run. -/
theorem CourseInv.selects_known (hC : C.Kept world r d) (h : CourseInv C r d (some pc) rec) {c : TaskDefinition}
    {w : WorkflowInstance} (hsel : pc.selects = some (c, w)) : ∃ t ∈ w.tasks, t.definitionTaskId = c.id := by
  obtain ⟨⟨d', w'⟩, hloop, hsel⟩ := Option.bind_eq_some_iff.1 hsel
  dsimp only at hsel
  split at hsel
  · rename_i hs
    obtain ⟨c', hnext, he⟩ := Option.map_eq_some_iff.1 hsel
    cases he
    cases h with
    | started _ _ hw =>
      cases hloop
      exact hC.known (hC.enter hw hs) hs hnext
    | @transition _ purpose t _ _ hw =>
      cases purpose with
      | start =>
        simp only [ExecPc.entersLoop] at hloop
        split at hloop <;> cases hloop
        exact hC.known hw hs hnext
      | complete | await | fail | deadLetter => cases hloop
    | taskSaved _ _ hw =>
      simp only [ExecPc.entersLoop] at hloop
      split at hloop
      · cases hloop
      · rename_i hgo
        cases hloop
        rcases hw with ⟨hretry, _⟩ | ⟨_, hfailed, _⟩ | ⟨_, _, hw⟩
        · exact absurd (.inl hretry) hgo
        · exact absurd (.inr hfailed) hgo
        · exact hC.known hw hs hnext
    | requeued _ _ _ hw =>
      simp only [ExecPc.entersLoop] at hloop
      split at hloop <;> cases hloop
      exact hC.known hw hs hnext
    | _ => cases hloop
  · cases hsel

theorem CourseInv.not_internal (h : CourseInv C r d (some pc) rec) (e : Js.Exception) :
    pc ≠ .rejected (.exception e) := by
  rintro rfl
  cases h

end

/-- Create a run, register its job again in any way, and execute the run. As long as every task of the new definition
that comes up in execution order, before a task uses up its attempts, is one that the run was created with, each task
that is selected has a task run, no call ends with an internal error, and the run completes exactly when all its tasks
have succeeded and no `block` constraint is violated. -/
theorem reregistered_run_keeps {world : World} (hw : world.Wired) {k : Nat} {d d' : JobDefinition}
    {w₀ : WorkflowInstance} {s₀ s₁ s : System} {between events : List Event} (h : NewRun world k d w₀ s₀)
    (hrest : (s₀.view w₀.runId).AtRest) (hbetween : ∀ e ∈ between, e.Aside w₀.runId)
    (hs₁ : EventSystem.exec (System.step world) s₀ between = some s₁) (hd' : s₁.stores.jobs.get d.id = some d')
    (hknown : ∀ c, world.ComesUp d' w₀ c → ∃ t ∈ w₀.tasks, t.definitionTaskId = c.id)
    (hok : ∀ e ∈ events, e.Undisturbed k w₀.runId d.id)
    (hs : EventSystem.exec (System.step world) s₁ events = some s) : s.KeepsToRun world k d' w₀ := by
  have ha₀ := h.accepted
  have hi₀ := h.instantiates
  have hrecord : s₀.stores.record w₀.runId = ⟨some w₀, (s₀.stores.record w₀.runId).run, [], []⟩ ∧
      ∃ run, (s₀.stores.record w₀.runId).run = some run ∧ run.jobId = d.id := by
    obtain ⟨trigger, input, uuids, now, _, _, _, hrec⟩ := h.created
    rw [hrec]
    exact ⟨rfl, _, rfl, rfl⟩
  obtain ⟨hrec₀, run, hrun, hjob⟩ := hrecord
  have hknown₀ : ∃ id, s₀.stores.workflowOfRun.get w₀.runId = some id :=
    ⟨_, (h.reachable.coherent.stores.getByRunId_owns (congrArg RunRecord.workflow hrec₀)).2⟩
  obtain ⟨hc₁, hview, hlocks⟩ := Event.Aside.exec h.reachable.coherent hknown₀ hrest hbetween hs₁
  obtain ⟨hid, ha⟩ := hc₁.stores.jobs _ _ hd'
  have hrec₁ : s₁.stores.record w₀.runId = s₀.stores.record w₀.runId := congrArg RunView.record hview
  -- nothing has been done yet
  have hstart : Resting world d' w₀ w₀ [] := by
    obtain ⟨trigger, input, uuids, now, _, _, hw₀, _⟩ := h.created
    have hu : ∀ t ∈ w₀.tasks, Untouched t := by
      rw [hw₀]
      exact newWorkflow_untouched
    have hne : w₀.tasks ≠ [] := fun hnil => by
      have := congrArg List.length hi₀.tasks
      rw [hnil, List.length_map, List.length_map] at this
      exact ha₀.nonempty (List.length_eq_zero_iff.1 this.symm)
    obtain ⟨t, ht⟩ := List.exists_mem_of_ne_nil _ hne
    exact .unfinished (.inl (by rw [hw₀]; rfl)) (.initial hu) (.inr ⟨t, ht, by simp [(hu t ht).status]⟩)
  have hon : OnRun k w₀.runId d' (CourseInv (reregisteredCourse world d' w₀) w₀.runId d') s₁ := by
    have hrest₁ : (s₁.view w₀.runId).AtRest := hview ▸ hrest
    have hexecuting : s₁.executing w₀.runId = [] := hrest₁.executing
    have hworkflow : s₁.stores.getByRunId w₀.runId = some w₀ :=
      congrArg RunRecord.workflow (hrec₁.trans hrec₀)
    refine ⟨hc₁, hid ▸ hd', ⟨_, (hc₁.stores.getByRunId_owns hworkflow).2⟩, hrest₁.calm k, ?_⟩
    rw [hexecuting]
    refine .rest ⟨fun hl => h.unlocked.1 ((hlocks.2 k).1 hl), hlocks.1.trans h.unlocked.2⟩ ?_
    rw [hrec₁, hrec₀]
    exact .rest ⟨rfl, run, hrun, hjob.trans hid.symm⟩ hstart
  have hkept := @reregisteredCourse_kept world _ _ _ ha₀ hi₀ ha hknown
  have hon' := (hkept.closed (k := k) hw.quiet).exec hon (hid.symm ▸ hok) hs
  refine ⟨fun pc hpc c w => (hon'.busy hpc).selects_known hkept, fun pc hpc => (hon'.busy hpc).not_internal,
    (hkept.closed hw.quiet).settles (reregisteredCourse_bounded ha₀ hi₀).lowers hon', fun hidle => ?_⟩
  cases hon'.rest hidle with
  | @rest _ w hrec hafter =>
    exact ⟨w, hrec.workflow, hafter.later.identity, hafter.completed_iff⟩

/-- `sampleChain`, wired the other way round. -/
def sampleRewired : JobDefinition := sampleJob 3 [] [sampleTask "b" [] none, sampleTask "a" ["b"] none]

/-- The run of `sampleChain` is executed in the new order, and completes. -/
theorem reregistered_run_keeps_sample : ∃ s₁ s,
    EventSystem.exec (System.step (sampleWorld fun _ _ => false)) (firstRun sampleChain [] (sampleReply sampleChain))
        [.register sampleRewired.input "t"] = some s₁ ∧
      EventSystem.exec (System.step (sampleWorld fun _ _ => false)) s₁ (sampleEvents sampleChain 15) = some s ∧
      s.executing "run_1" = [] ∧ (s.stores.getByRunId "run_1").map (·.state) = some .completed ∧
      s.KeepsToRun (sampleWorld fun _ _ => false) 0 sampleRewired (sampleRun sampleChain) := by
  have h : (EventSystem.exec (System.step (sampleWorld fun _ _ => false))
      (firstRun sampleChain [] (sampleReply sampleChain)) [.register sampleRewired.input "t"]).any (fun s₁ =>
        s₁.stores.jobs.get sampleChain.id = some sampleRewired ∧
        (EventSystem.exec (System.step (sampleWorld fun _ _ => false)) s₁ (sampleEvents sampleChain 15)).any fun s =>
          (s.executing "run_1").isEmpty ∧ (s.stores.getByRunId "run_1").map (·.state) = some .completed) = true := by
    decide +kernel
  obtain ⟨s₁, hs₁, hp⟩ := (Option.any_eq_true _ _).1 h
  obtain ⟨hd', hp⟩ := of_decide_eq_true hp
  obtain ⟨s, hs, hp⟩ := (Option.any_eq_true _ _).1 hp
  obtain ⟨hrest, hstate⟩ := of_decide_eq_true hp
  refine ⟨s₁, s, hs₁, hs, List.isEmpty_iff.1 hrest, hstate, reregistered_run_keeps (sampleWorld_wired _)
    (sample_newRun _ (d := sampleChain) (by decide +kernel)) (sample_atRest _) (by simp [Event.Aside]) hs₁ hd' ?_
    (sampleEvents_undisturbed sampleChain 15) hs⟩
  rintro c ⟨done, _, hready, _⟩
  have hc : c ∈ sampleRewired.tasks := TaskScheduler.ready_mem hready
  have hall : ∀ c ∈ sampleRewired.tasks, ∃ t ∈ (sampleRun sampleChain).tasks, t.definitionTaskId = c.id := by
    decide +kernel
  exact hall c hc

/-- `sampleOne` with a second task. -/
def sampleExtended : JobDefinition := sampleJob 3 [] [sampleTask "a" [] none, sampleTask "b" ["a"] none]

def ExecPc.threw : ExecPc → Bool
  | .rejected (.exception _) => true
  | _ => false

/-- After `a` has succeeded `b` is selected, which has no task run. -/
theorem task_without_run_selected : ∃ s₁ s,
    EventSystem.exec (System.step (sampleWorld fun _ _ => false))
        (firstRun sampleOne [] (sampleReply sampleOne))
        [.register sampleExtended.input "t"] = some s₁ ∧ s₁.stores.jobs.get "job" = some sampleExtended ∧
      EventSystem.exec (System.step (sampleWorld fun _ _ => false)) s₁ (sampleEvents sampleOne 9) = some s ∧
      ¬ s.KeepsToRun (sampleWorld fun _ _ => false) 0 sampleExtended (sampleRun sampleOne) := by
  have h : (EventSystem.exec (System.step (sampleWorld fun _ _ => false))
      (firstRun sampleOne [] (sampleReply sampleOne))
        [.register sampleExtended.input "t"]).any (fun s₁ =>
          s₁.stores.jobs.get "job" = some sampleExtended ∧
          (EventSystem.exec (System.step (sampleWorld fun _ _ => false)) s₁ (sampleEvents sampleOne 9)).any fun s =>
            (s.executing "run_1").any ExecPc.threw) = true := by
    decide +kernel
  obtain ⟨s₁, hs₁, hp⟩ := (Option.any_eq_true _ _).1 h
  obtain ⟨hd, hp⟩ := of_decide_eq_true hp
  obtain ⟨s, hs, hp⟩ := (Option.any_eq_true _ _).1 hp
  obtain ⟨pc, hpc, hthrew⟩ := List.any_eq_true.1 hp
  refine ⟨s₁, s, hs₁, hd, hs, fun hkeeps => ?_⟩
  unfold ExecPc.threw at hthrew
  split at hthrew
  · exact hkeeps.internal _ hpc _ rfl
  · cases hthrew

end Jobflow
