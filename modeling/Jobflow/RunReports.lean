import Jobflow.SequentialRun
import Jobflow.TimeSeries

/-!
# Analytics and reports of a run (src/analytics/run-analytics.ts, src/reporting/run-report-builder.ts)

Both count the task runs of a stored workflow. Of a run that has been executed they say what the handlers were asked and
what they answered (`run_reports_exact`): the attempts are the calls, a success is a call that succeeded, and the one
failure that can be reported is the last call.
-/

namespace Jobflow

open Js (Number Date Value)

/-! ## The source -/

/-- A value of `handlerBreakdown`. -/
structure HandlerCounts where
  count : Nat
  failed : Nat
  deriving DecidableEq

structure RunAnalyticsSummary where
  runId : RunId
  totalTasks : Nat
  succeeded : Nat
  failed : Nat
  retrying : Nat
  averageAttempts : Number
  criticalPathMs : Number
  handlerBreakdown : Option (InsertionMap String HandlerCounts)

/-- `text ? new Date(text).getTime() : otherwise`. -/
def timeOr (readDate : ISODateString → Date) (text : Option ISODateString) (otherwise : Number) : Number :=
  match given text with
  | none => otherwise
  | some text => TimeSeriesBuffer.getTime (readDate text)

/-- `Math.max(0, x)`. -/
def atLeastZero (x : Number) : Number :=
  if x.isNaN then .nan else if (Number.finite 0).lt x then x else .finite 0

namespace RunAnalyticsEngine

/-- `estimateCriticalPath` (run-analytics.ts:47-53). -/
def estimateCriticalPath (readDate : ISODateString → Date) (workflow : WorkflowInstance) : Number :=
  workflow.tasks.foldl (fun sum t =>
    let start := timeOr readDate t.startedAt (.finite 0)
    let finish := timeOr readDate t.finishedAt start
    sum.add (atLeastZero (finish.sub start))) (.finite 0)

def attemptSum (tasks : List TaskRun) : Nat := (tasks.map (·.attempt)).sum

def countTask (h : HandlerCounts) (t : TaskRun) : HandlerCounts :=
  ⟨h.count + 1, if t.status = .failed then h.failed + 1 else h.failed⟩

/-- The loop over `handlerBreakdown` (run-analytics.ts:26-29). There is none where a handler is called as a property
that every object inherits: what is counted then is a property of that property. -/
def handlerBreakdown (tasks : List TaskRun) : Option (InsertionMap String HandlerCounts) :=
  if tasks.any fun t => t.handler = "__proto__" || Value.objectPrototypeNames.contains t.handler then none
  else some (tasks.foldl (fun m t => m.set t.handler (countTask ((m.get t.handler).getD ⟨0, 0⟩) t)) .empty)

/-- `summarize` (run-analytics.ts:16-45). -/
def summarize (readDate : ISODateString → Date) (workflow : WorkflowInstance) : RunAnalyticsSummary where
  runId := workflow.runId
  totalTasks := workflow.tasks.length
  succeeded := workflow.tasks.countP (·.status = .succeeded)
  failed := workflow.tasks.countP (·.status = .failed)
  retrying := workflow.tasks.countP (·.status = .retrying)
  averageAttempts :=
    if workflow.tasks.length = 0 then .finite 0
    else (Number.ofInt (attemptSum workflow.tasks)).div (.ofInt workflow.tasks.length)
  criticalPathMs := estimateCriticalPath readDate workflow
  handlerBreakdown := handlerBreakdown workflow.tasks

end RunAnalyticsEngine

structure ReportedFailure where
  taskId : String
  message : String
  attempts : Nat

structure RunReport where
  runId : RunId
  jobId : JobId
  jobName : String
  state : WorkflowState
  durationMs : Number
  taskSummary : InsertionMap TaskStatus Nat
  failures : List ReportedFailure
  timeline : List (ISODateString × String × WorkflowState × WorkflowState)

namespace RunReportBuilder

/-- run-report-builder.ts:24-30. -/
def failures (tasks : List TaskRun) : List ReportedFailure :=
  (tasks.filter fun t => t.status = .failed || t.status = .retrying).map fun t =>
    ⟨t.definitionTaskId, t.errorMessage.getD "unknown", t.attempt⟩

/-- run-report-builder.ts:20-23. -/
def taskSummary (tasks : List TaskRun) : InsertionMap TaskStatus Nat :=
  tasks.foldl (fun m t => m.set t.status ((m.get t.status).getD 0 + 1)) .empty

/-- `build` (run-report-builder.ts:17-47). -/
def build (readDate : ISODateString → Date) (workflow : WorkflowInstance) (definition : JobDefinition)
    (finishedAt : Option ISODateString) (now : Number) : RunReport where
  runId := workflow.runId
  jobId := workflow.jobId
  jobName := definition.name
  state := workflow.state
  durationMs := (timeOr readDate finishedAt now).sub (TimeSeriesBuffer.getTime (readDate workflow.createdAt))
  taskSummary := taskSummary workflow.tasks
  failures := failures workflow.tasks
  timeline := workflow.history.map fun h => (h.timestamp, h.event, h.fromState, h.toState)

end RunReportBuilder

/-! ## Counting by key -/

/-- A list falls into the parts with each key. -/
theorem countP_eq_sum {α β : Type} [DecidableEq β] {f : α → β} {p : α → Bool} : ∀ {ids : List β} {l : List α},
    ids.Nodup → (∀ x ∈ l, f x ∈ ids) →
      l.countP p = (ids.map fun id => (l.filter fun x => f x = id).countP p).sum
  | [], l, _, hmem => by
    have hnil : l = [] := List.eq_nil_iff_forall_not_mem.2 fun x hx => List.not_mem_nil (hmem x hx)
    simp [hnil]
  | id :: ids, l, hn, hmem => by
    obtain ⟨hid, hids⟩ := List.nodup_cons.1 hn
    have hrest := countP_eq_sum (p := p) (l := l.filter fun x => f x ≠ id) hids fun x hx => by
      obtain ⟨hx, hne⟩ := List.mem_filter.1 hx
      exact (List.mem_cons.1 (hmem x hx)).resolve_left (of_decide_eq_true hne)
    have hpart : ∀ id' ∈ ids, (l.filter fun x => f x ≠ id).filter (fun x => f x = id') =
        l.filter fun x => f x = id' := by
      intro id' hid'
      rw [List.filter_filter]
      refine List.filter_congr fun x _ => ?_
      by_cases hx : f x = id'
      · have hne : id' ≠ id := fun he => hid (he ▸ hid')
        simp [hx, hne]
      · simp [hx]
    rw [List.map_cons, List.sum_cons, ← List.map_congr_left fun id' hid' => congrArg (List.countP p) (hpart id' hid'),
      ← hrest]
    rw [List.countP_filter, List.countP_filter, List.countP_eq_countP_filter_add l p fun x => f x = id]
    simp [List.countP_filter]

/-- The one element of a list with its key. -/
theorem filter_eq_singleton {α β : Type} {f : α → β} {p : α → Bool} {a : α} : ∀ {l : List α},
    (l.map f).Nodup → a ∈ l → (∀ x ∈ l, p x = true ↔ f x = f a) → l.filter p = [a]
  | [], _, ha, _ => absurd ha List.not_mem_nil
  | x :: l, hn, ha, hp => by
    obtain ⟨hx, hl⟩ := List.nodup_cons.1 hn
    by_cases hxa : f x = f a
    · have hrest : l.filter p = [] := by
        rw [List.filter_eq_nil_iff]
        intro y hy hpy
        have := (hp y (List.mem_cons_of_mem _ hy)).1 hpy
        exact hx (hxa ▸ this ▸ List.mem_map_of_mem hy)
      obtain rfl : a = x := (List.mem_cons.1 ha).resolve_right fun hl => hx (hxa ▸ List.mem_map_of_mem hl)
      rw [List.filter_cons_of_pos ((hp a List.mem_cons_self).2 rfl), hrest]
    · have hne : a ≠ x := fun he => hxa (he ▸ rfl)
      rw [List.filter_cons_of_neg (mt (hp x List.mem_cons_self).1 hxa)]
      exact filter_eq_singleton hl ((List.mem_cons.1 ha).resolve_left hne) fun y hy => hp y (List.mem_cons_of_mem _ hy)

/-! ## The calls of a run at rest -/

/-- The handler answers the call with success. -/
def World.answersWell (world : World) (w₀ : WorkflowInstance) (x : TaskCall) : Bool :=
  (world.attemptOutput w₀ x.taskId x.handler x.attempt).isSome

/-- The last call, if it failed. -/
def World.lastFailure (world : World) (w₀ : WorkflowInstance) (calls : List TaskCall) : Option TaskCall :=
  calls.getLast?.filter fun x => !world.answersWell w₀ x

section
variable {world : World} {d : JobDefinition} {w₀ w : WorkflowInstance} {c : TaskDefinition} {t : TaskRun}

/-- What a task run of a run at rest says. -/
inductive Reported (world : World) (d : JobDefinition) (w₀ : WorkflowInstance) (t : TaskRun) : Prop where
  | finished (h : Finished world d w₀ t)
  | exhausted (hs : t.status = .failed) (ha : t.attempt = allowedAttempts d.retryPolicy)
      (hf : ∀ a, 1 ≤ a → a ≤ t.attempt → world.attemptOutput w₀ t.definitionTaskId t.handler a = none)
  | untouched (h : Untouched t)

theorem Reported.countP (h : Reported world d w₀ t) :
    ((List.range' 1 t.attempt).countP fun a => (world.attemptOutput w₀ t.definitionTaskId t.handler a).isSome) =
      if t.status = .succeeded then 1 else 0 := by
  cases h with
  | finished h =>
    obtain ⟨m, hm⟩ := Nat.exists_eq_add_of_le' h.attempt.1
    have hearlier : (List.range' 1 m).countP
        (fun a => (world.attemptOutput w₀ t.definitionTaskId t.handler a).isSome) = 0 := by
      rw [List.countP_eq_zero]
      intro a ha
      rw [List.mem_range'_1] at ha
      simp [h.earlier a ha.1 (by omega)]
    have hlast : (world.attemptOutput w₀ t.definitionTaskId t.handler (m + 1)).isSome = true := by
      rw [← hm, ← h.output]
      exact h.isSome
    rw [if_pos h.status, hm, List.range'_concat, List.countP_append, hearlier]
    simp [Nat.add_comm 1 m, hlast]
  | exhausted hs ha hf =>
    rw [if_neg (by simp [hs]), List.countP_eq_zero]
    intro a hmem
    rw [List.mem_range'_1] at hmem
    simp [hf a hmem.1 (by omega)]
  | untouched h => simp [h.attempt, h.status]

/-- What calls with these attempts add up to. -/
theorem calls_of_tasks (ha : Accepted d) (hi : Instantiates d w₀) (hl : Later w₀ w) {calls : List TaskCall}
    (hreported : ∀ t ∈ w.tasks, Reported world d w₀ t)
    (hcalls : ∀ x ∈ calls, ∃ c ∈ d.tasks, ∃ a, x = w₀.callOf c a)
    (hattempts : ∀ t ∈ w.tasks, attemptsIn calls t.definitionTaskId = List.range' 1 t.attempt) :
    calls.length = RunAnalyticsEngine.attemptSum w.tasks ∧
      calls.countP (world.answersWell w₀) = w.tasks.countP (·.status = .succeeded) := by
  have hn := hl.definitionTaskIds_nodup ha hi
  have hmem : ∀ x ∈ calls, x.taskId ∈ w.tasks.map (·.definitionTaskId) := by
    intro x hx
    obtain ⟨c, hc, a, rfl⟩ := hcalls x hx
    rw [hl.definitionTaskIds hi]
    exact List.mem_map_of_mem hc
  have hpart : ∀ t ∈ w.tasks, (calls.filter fun x => x.taskId = t.definitionTaskId) =
      (List.range' 1 t.attempt).map fun a => ⟨t.definitionTaskId, t.handler, a, w₀.context⟩ := by
    intro t ht
    rw [← hattempts t ht, attemptsIn, List.map_map]
    refine ((List.map_congr_left fun x hx => ?_).trans (List.map_id _)).symm
    obtain ⟨hx, hid⟩ := List.mem_filter.1 hx
    obtain ⟨c, hc, a, rfl⟩ := hcalls x hx
    have hid : t.definitionTaskId = c.id := (of_decide_eq_true hid).symm
    simp [WorkflowInstance.callOf, hid, hl.handler_eq ha hi ht hc hid]
  constructor
  · have hsum := @countP_eq_sum _ _ _ (fun x : TaskCall => x.taskId) (fun _ => true) _ calls hn hmem
    rw [List.countP_true, List.map_map] at hsum
    rw [hsum, RunAnalyticsEngine.attemptSum]
    congr 1
    refine List.map_congr_left fun t ht => ?_
    simp [hpart t ht]
  · rw [@countP_eq_sum _ _ _ (fun x : TaskCall => x.taskId) (world.answersWell w₀) _ calls hn hmem, List.map_map]
    apply sum_map_eq_countP
    intro t ht
    rw [Function.comp_apply, hpart t ht, List.countP_map]
    simpa [Function.comp_def, World.answersWell] using (hreported t ht).countP

/-! ## The last call -/

/-- A task that succeeds is called until it does. -/
theorem World.getLast?_taskCalls (hs : world.SucceedsWithin w₀ c (allowedAttempts d.retryPolicy)) :
    ∃ a, world.Succeeds w₀ c a ∧ (world.taskCalls d w₀ c).getLast? = some (w₀.callOf c a) := by
  obtain ⟨a, hpos, hle, hsucceeds⟩ := World.succeedsWithin_iff.1 hs
  have hex : ∃ k, world.Succeeds w₀ c (1 + k) := ⟨a - 1, by rwa [Nat.add_sub_cancel' hpos]⟩
  have hleast := Nat.find_spec hex
  have hfailed : ∀ x, 1 ≤ x → x < 1 + Nat.find hex → ¬ world.Succeeds w₀ c x := fun x h₁ h₂ hx =>
    Nat.find_min hex (m := x - 1) (by omega) (by rwa [Nat.add_sub_cancel' h₁])
  have hk : Nat.find hex < allowedAttempts d.retryPolicy := by
    have : Nat.find hex ≤ a - 1 := Nat.find_min' hex (by rwa [Nat.add_sub_cancel' hpos])
    omega
  refine ⟨1 + Nat.find hex, hleast, ?_⟩
  rw [World.taskCalls, World.attempts_of_succeeds hfailed hleast hk, List.range'_concat, List.map_append,
    List.getLast?_append]
  simp

/-- If every task succeeds, so does the last call. -/
theorem World.lastFailure_eq_none (hs : ∀ c ∈ d.tasks, world.SucceedsWithin w₀ c (allowedAttempts d.retryPolicy))
    (n : Nat) (done : List String) : world.lastFailure w₀ (world.sequentialRun d w₀ n done) = none := by
  induction n generalizing done with
  | zero => rfl
  | succ n ih =>
    rw [sequentialRun]
    cases hready : TaskScheduler.ready d.tasks done with
    | none => rfl
    | some c =>
      dsimp only
      have hc := hs c (TaskScheduler.ready_mem hready)
      rw [if_pos hc, lastFailure, List.getLast?_append]
      have hrest := ih (done ++ [c.id])
      unfold lastFailure at hrest
      cases hlast : (world.sequentialRun d w₀ n (done ++ [c.id])).getLast? with
      | some x =>
        rw [hlast] at hrest
        exact hrest
      | none =>
        obtain ⟨a, ha, hcalls⟩ := getLast?_taskCalls hc
        rw [hcalls, Option.none_or]
        have hsome : world.attemptOutput w₀ c.id c.handler a ≠ none := Option.isSome_iff_ne_none.1 ha
        simpa [answersWell, WorkflowInstance.callOf] using hsome

/-- The last call of a run with a task that uses up its attempts is the last attempt at that task. -/
theorem FailsFirst.lastFailure (ha : Accepted d) {done : List String} (h : FailsFirst world d w₀ done c) :
    world.lastFailure w₀ (world.sequentialRun d w₀ d.tasks.length []) =
      some (w₀.callOf c (allowedAttempts d.retryPolicy)) := by
  have hfailed : ∀ a, 1 ≤ a → a < 1 + allowedAttempts d.retryPolicy → ¬ world.Succeeds w₀ c a := fun a h₁ h₂ hs =>
    h.fails (World.succeedsWithin_iff.2 ⟨a, h₁, by omega, hs⟩)
  have hpos := allowedAttempts_pos d.retryPolicy
  obtain ⟨m, hm⟩ := Nat.exists_eq_add_of_le' hpos
  obtain ⟨calls, -, rest, hprogram, hrest⟩ := h.scheduled.callsOf_next ha h.ready h.before
  have hlast : ¬ world.Succeeds w₀ c (m + 1) := hfailed (m + 1) (by omega) (by omega)
  rw [hprogram, hrest h.fails, List.append_nil, World.taskCalls, World.attempts_of_fails hfailed, World.lastFailure,
    List.getLast?_append, hm, List.range'_concat, List.map_append, List.getLast?_append]
  simpa [World.answersWell, WorkflowInstance.callOf, World.Succeeds, Nat.add_comm 1 m] using hlast

/-! ## The task runs of a run at rest -/

/-- The task runs reported as failed are those of the last call, if that failed. -/
structure ReportedAll (world : World) (d : JobDefinition) (w₀ w : WorkflowInstance) (last : Option TaskCall) :
    Prop where
  tasks : ∀ t ∈ w.tasks, Reported world d w₀ t
  failed : (w.tasks.filter fun t => t.status = .failed).map (fun t => (t.definitionTaskId, t.handler, t.attempt)) =
    last.toList.map fun x => (x.taskId, x.handler, x.attempt)

theorem AllDone.reportedAll (h : AllDone world d w₀ w) : ReportedAll world d w₀ w none := by
  refine ⟨fun t ht => .finished (h.finished t ht), ?_⟩
  have hnone : w.tasks.filter (fun t => t.status = .failed) = [] := by
    rw [List.filter_eq_nil_iff]
    intro t ht
    simp [(h.finished t ht).status]
  rw [hnone]
  rfl

theorem Busy.reportedAll (ha : Accepted d) (hi : Instantiates d w₀) {done : List String}
    (h : Busy world d w₀ done c .failed (allowedAttempts d.retryPolicy) w) :
    ReportedAll world d w₀ w (some (w₀.callOf c (allowedAttempts d.retryPolicy))) := by
  have hc := TaskScheduler.ready_mem h.ready
  obtain ⟨t, ht, htc⟩ := Jobflow.exists_taskRun (h.later.definitionTaskIds hi) hc
  have hstatus : ∀ x ∈ w.tasks, Reported world d w₀ x ∧ (x.status = .failed ↔ x.definitionTaskId = c.id) := by
    intro x hx
    by_cases hdone : x.definitionTaskId ∈ done
    · have hfinished := h.finished x hx hdone
      have hne : x.definitionTaskId ≠ c.id := fun he => TaskScheduler.ready_not_done h.ready (he ▸ hdone)
      exact ⟨.finished hfinished, by simp [hfinished.status, hne]⟩
    · by_cases hxc : x.definitionTaskId = c.id
      · obtain ⟨hs, hattempt, -⟩ := h.current x hx hxc
        refine ⟨.exhausted hs hattempt fun a h₁ h₂ => ?_, by simp [hs, hxc]⟩
        rw [hxc, h.later.handler_eq ha hi hx hc hxc]
        exact h.failed a h₁ (hattempt ▸ h₂)
      · have huntouched := h.untouched x hx hdone hxc
        exact ⟨.untouched huntouched, by simp [huntouched.status, hxc]⟩
  refine ⟨fun x hx => (hstatus x hx).1, ?_⟩
  have hone : w.tasks.filter (fun x => x.status = .failed) = [t] := by
    refine filter_eq_singleton (h.later.definitionTaskIds_nodup ha hi) ht fun x hx => ?_
    rw [decide_eq_true_iff, (hstatus x hx).2, htc]
  obtain ⟨-, hattempt, -⟩ := h.current t ht htc
  rw [hone]
  simp [WorkflowInstance.callOf, htc, hattempt, h.later.handler_eq ha hi ht hc htc]

theorem Fate.reportedAll (ha : Accepted d) (hi : Instantiates d w₀) {dl : List DeadLetterEntry}
    (h : Fate world d w₀ w dl) : Later w₀ w ∧ ReportedAll world d w₀ w
      (world.lastFailure w₀ (world.sequentialRun d w₀ d.tasks.length [])) := by
  cases h with
  | blocked _ hw _ _ | completed _ hw _ _ =>
    rw [World.lastFailure_eq_none fun c hc => hw.succeedsWithin ha hi hc]
    exact ⟨hw.later, hw.reportedAll⟩
  | failed _ hf hw _ _ | deadLettered _ hf hw _ _ =>
    rw [hf.lastFailure ha]
    exact ⟨hw.later, hw.reportedAll ha hi⟩

/-! ## What is reported -/

/-- What the counts of one handler come to. -/
theorem foldl_countTask (tasks : List TaskRun) (h : HandlerCounts) :
    tasks.foldl RunAnalyticsEngine.countTask h =
      ⟨h.count + tasks.length, h.failed + tasks.countP (·.status = .failed)⟩ := by
  induction tasks generalizing h with
  | nil => rfl
  | cons t tasks ih =>
    rw [List.foldl_cons, ih, List.length_cons, List.countP_cons]
    by_cases hs : t.status = .failed
    · simp [RunAnalyticsEngine.countTask, hs]
      omega
    · simp [RunAnalyticsEngine.countTask, hs]
      omega

theorem get_handlerBreakdown {tasks : List TaskRun} {breakdown : InsertionMap String HandlerCounts}
    (h : RunAnalyticsEngine.handlerBreakdown tasks = some breakdown) (name : String) :
    breakdown.get name = if tasks.countP (·.handler = name) = 0 then none else
      some ⟨tasks.countP (·.handler = name), (tasks.filter (·.status = .failed)).countP (·.handler = name)⟩ := by
  unfold RunAnalyticsEngine.handlerBreakdown at h
  split_ifs at h with hinherited
  obtain rfl := Option.some.inj h
  rw [InsertionMap.get_foldl_update, foldl_countTask]
  simp only [List.countP_eq_length_filter, List.length_eq_zero_iff, List.filter_filter, Nat.zero_add, Bool.and_comm]

theorem get_taskSummary (tasks : List TaskRun) (status : TaskStatus) :
    ((RunReportBuilder.taskSummary tasks).get status).getD 0 = tasks.countP (·.status = status) := by
  have hcount : ∀ (tasks : List TaskRun) (n : Nat), tasks.foldl (fun n _ => n + 1) n = n + tasks.length := by
    intro tasks
    induction tasks with
    | nil => simp
    | cons t tasks ih =>
      intro n
      rw [List.foldl_cons, ih, List.length_cons]
      omega
  have hget := InsertionMap.get_foldl_update (fun t : TaskRun => t.status) 0 (fun n _ => n + 1) tasks status
  rw [RunReportBuilder.taskSummary, hget, hcount, List.countP_eq_length_filter]
  by_cases h : tasks.filter (·.status = status) = [] <;> simp [h]

end

/-- What analytics and a report say of a run, in terms of its handler calls. -/
structure ReportsExactly (world : World) (d : JobDefinition) (w₀ : WorkflowInstance) (calls : List TaskCall)
    (summary : RunAnalyticsSummary) (report : RunReport) : Prop where
  totalTasks : summary.totalTasks = d.tasks.length
  averageAttempts : summary.averageAttempts = (Number.ofInt calls.length).div (.ofInt d.tasks.length)
  succeeded : summary.succeeded = calls.countP (world.answersWell w₀)
  failed : summary.failed = (world.lastFailure w₀ calls).toList.length
  retrying : summary.retrying = 0
  breakdown : ∀ m, summary.handlerBreakdown = some m → ∀ name, m.get name =
    if d.tasks.countP (·.handler = name) = 0 then none else
      some ⟨d.tasks.countP (·.handler = name), (world.lastFailure w₀ calls).toList.countP (·.handler = name)⟩
  taskSummary : (report.taskSummary.get .succeeded).getD 0 = calls.countP (world.answersWell w₀) ∧
    (report.taskSummary.get .failed).getD 0 = (world.lastFailure w₀ calls).toList.length
  failures : report.failures.map (fun f => (f.taskId, f.attempts)) =
    (world.lastFailure w₀ calls).toList.map fun x => (x.taskId, x.attempt)

/-- **Reports are exact**: whatever other calls do in between, analytics and the report of a new run that has been
executed and has come to rest are those of its handler calls. -/
theorem run_reports_exact {world : World} {k : Nat} {d : JobDefinition} {w₀ : WorkflowInstance} {s s' : System}
    {events : List Event} (hwired : world.Wired) (h : NewRun world k d w₀ s)
    (hok : ∀ e ∈ events, e.Undisturbed k w₀.runId d.id)
    (hs : EventSystem.exec (System.step world) s events = some s')
    (hx : s'.ExecutedSince s.calls.length k w₀.runId) (hrest : s'.executing w₀.runId = []) :
    ∃ w, s'.stores.getByRunId w₀.runId = some w ∧ ∀ readDate finishedAt now,
      ReportsExactly world d w₀ (s'.taskCalls w₀.runId) (RunAnalyticsEngine.summarize readDate w)
        (RunReportBuilder.build readDate w d finishedAt now) := by
  have ha := h.accepted
  have hi := h.instantiates
  have hcalls := (run_follows_program hwired h hok hs).2 hx hrest
  obtain ⟨w, hst, hfate⟩ := h.fate hwired.quiet hok hs hx hrest
  obtain ⟨hl, hreported⟩ := hfate.reportedAll ha hi
  rw [← hcalls] at hreported
  have hprogram : ∀ x ∈ s'.taskCalls w₀.runId, ∃ c ∈ d.tasks, ∃ a, x = w₀.callOf c a := fun x hx => by
    rw [hcalls] at hx
    exact World.mem_sequentialRun hx
  have hattempts : ∀ t ∈ w.tasks, attemptsIn (s'.taskCalls w₀.runId) t.definitionTaskId = List.range' 1 t.attempt := by
    intro t ht
    rw [System.taskCalls, attemptsIn_map_call]
    exact hst.attemptsOf_eq ht (by simp)
  obtain ⟨hlength, hsucceeded⟩ := calls_of_tasks ha hi hl hreported.tasks hprogram hattempts
  have htotal : w.tasks.length = d.tasks.length := by
    simpa using congrArg List.length (hl.definitionTaskIds hi)
  have hfailed : w.tasks.countP (·.status = .failed) =
      (world.lastFailure w₀ (s'.taskCalls w₀.runId)).toList.length := by
    simpa [List.countP_eq_length_filter] using congrArg List.length hreported.failed
  have hretrying : ∀ t ∈ w.tasks, t.status ≠ .retrying := by
    intro t ht
    cases hreported.tasks t ht with
    | finished hf => simp [hf.status]
    | exhausted hf => simp [hf]
    | untouched hu => simp [hu.status]
  have hhandlers : ∀ name, w.tasks.countP (·.handler = name) = d.tasks.countP (·.handler = name) := by
    intro name
    have hpairs : w.tasks.map (·.handler) = d.tasks.map (·.handler) := by
      have hidentity := congrArg (List.map fun x : TaskId × String × String => x.2.2) hl.identity
      have htasks := congrArg (List.map Prod.snd) hi.tasks
      rw [List.map_map, List.map_map] at hidentity htasks
      exact hidentity.trans htasks
    have hcount := congrArg (List.countP fun x : String => x = name) hpairs
    rw [List.countP_map, List.countP_map] at hcount
    exact hcount
  refine ⟨w, hst.workflow, fun readDate finishedAt now =>
    { totalTasks := htotal, averageAttempts := ?_, succeeded := hsucceeded.symm, failed := hfailed, retrying := ?_,
      breakdown := fun m hm name => ?_, taskSummary := ⟨?_, ?_⟩, failures := ?_ }⟩
  · have hne : w.tasks.length ≠ 0 := by
      rw [htotal]
      exact mt List.length_eq_zero_iff.1 ha.nonempty
    show (if w.tasks.length = 0 then _ else (Number.ofInt (RunAnalyticsEngine.attemptSum w.tasks)).div _) = _
    rw [if_neg hne, ← hlength, htotal]
  · exact List.countP_eq_zero.2 fun t ht => by simpa using hretrying t ht
  · have hfailing : (w.tasks.filter (·.status = .failed)).countP (·.handler = name) =
        (world.lastFailure w₀ (s'.taskCalls w₀.runId)).toList.countP (·.handler = name) := by
      have hcount := congrArg (List.countP fun x : String × String × Nat => x.2.1 = name) hreported.failed
      rw [List.countP_map, List.countP_map] at hcount
      exact hcount
    rw [get_handlerBreakdown hm, hhandlers, hfailing]
  · exact (get_taskSummary _ _).trans hsucceeded.symm
  · exact (get_taskSummary _ _).trans hfailed
  · have hnone : w.tasks.filter (fun t => t.status = .failed || t.status = .retrying) =
        w.tasks.filter (·.status = .failed) :=
      List.filter_congr fun t ht => by simp [hretrying t ht]
    have hreports := congrArg (List.map fun x : String × String × Nat => (x.1, x.2.2)) hreported.failed
    rw [List.map_map, List.map_map] at hreports
    show ((RunReportBuilder.failures w.tasks).map _) = _
    rw [RunReportBuilder.failures, hnone, List.map_map]
    exact hreports

/-- The second task of the sample uses up its two attempts. -/
theorem run_reports_exact_sample : ∃ s' w, sampleAfter (fun t _ => t = "b") sampleChain 19 = some s' ∧
    s'.stores.getByRunId "run_1" = some w ∧
    (s'.taskCalls "run_1").map (fun x => (x.taskId, x.attempt)) = [("a", 1), ("b", 1), ("b", 2)] ∧
    ∀ readDate finishedAt now, ReportsExactly (sampleWorld fun t _ => t = "b") sampleChain (sampleRun sampleChain)
      (s'.taskCalls "run_1") (RunAnalyticsEngine.summarize readDate w)
      (RunReportBuilder.build readDate w sampleChain finishedAt now) := by
  obtain ⟨s', hs, hrest, hx, hp⟩ := sample_at_rest (fun t _ => t = "b") sampleChain 19
    (p := fun s => (s.taskCalls "run_1").map (fun x => (x.taskId, x.attempt)) = [("a", 1), ("b", 1), ("b", 2)])
    (by decide +kernel)
  have hd : JobService.register BUILTIN_HANDLERS sampleChain.input "t" = .ok sampleChain := by decide +kernel
  obtain ⟨w, hw, hreports⟩ := run_reports_exact (sampleWorld_wired _) (sample_newRun _ hd)
    (sampleEvents_undisturbed _ 19) hs hx hrest
  exact ⟨s', w, hs, hw, of_decide_eq_true hp, hreports⟩

end Jobflow
