import Jobflow.Fate
import Jobflow.Termination

/-!
# Completion

The loop of `executeRun` never gets stuck: when no task is runnable every task has succeeded. So an executed run
is completed when all its tasks succeed and no `block` constraint is violated, failed or dead-lettered when a
task uses up its attempts, whether or not that task is optional, and left in `running` when a constraint blocks
it.
-/

namespace Jobflow

/-! ## The head of the loop -/

/-- The definition and the instance with which the next segment comes to the condition of the loop. -/
def ExecPc.entersLoop : ExecPc → Option (JobDefinition × WorkflowInstance)
  | .started d w => some (d, w)
  | .transition .start d t => if t.stage = .returned then some (d, t.next) else none
  | .taskSaved d w result =>
    if result.retryAfterMs.isSome = true ∨ result.task.status = .failed then none else some (d, w)
  | .requeued d w result => if result.task.status = .failed then none else some (d, w)
  | _ => none

section
variable {world : World} {k : Nat} {d d' : JobDefinition} {w₀ w : WorkflowInstance} {pc : ExecPc} {rec : RunRecord}

/-- In a run of an accepted definition the instance is then in one of the shapes of `AtLoop`. -/
theorem RunInv.atLoop (h : RunInv world d w₀ (some pc) rec) (hpc : pc.entersLoop = some (d', w))
    (hs : w.state = .running) : d' = d ∧ AtLoop world d w₀ w := by
  cases h with
  | started _ hset _ =>
    cases hpc
    cases hset with
    | blocked _ hw => exact ⟨rfl, .allDone hw⟩
    | pending hs' | completed hs' | failed hs' | deadLettered hs' =>
      rw [hs'] at hs
      cases hs
  | transition _ hm =>
    cases hm with
    | start _ hw =>
      simp only [ExecPc.entersLoop] at hpc
      split at hpc
      · cases hpc
        exact ⟨rfl, hw⟩
      · cases hpc
    | _ => cases hpc
  | succeeded _ _ hw hr hret =>
    simp only [ExecPc.entersLoop, hr, hret] at hpc
    cases hpc
    exact ⟨rfl, hw⟩
  | exhausted _ _ _ hr =>
    simp only [ExecPc.entersLoop, hr, or_true, if_true] at hpc
    cases hpc
  | retrying hp _ _ _ _ _ _ hret =>
    rcases hp with rfl | rfl
    · simp only [ExecPc.entersLoop, hret, true_or, if_true] at hpc
      cases hpc
    · cases hpc
  | requeued _ _ hw hr =>
    simp only [ExecPc.entersLoop, if_neg hr] at hpc
    cases hpc
    exact ⟨rfl, hw⟩
  | _ => cases hpc

/-- No task runnable: every task is done with, and the guard agrees. -/
theorem AtLoop.of_nextRunnable_none (ha : Accepted d) (hi : Instantiates d w₀) (h : AtLoop world d w₀ w)
    (hn : TaskScheduler.nextRunnable w.tasks d.tasks = none) :
    TaskScheduler.allDone w.tasks d.tasks = true ∧ TransitionGuard.evaluate w "complete" .completed = .ok () := by
  cases h with
  | busy hw =>
    rw [hw.nextRunnable ha hi] at hn
    cases hn
  | allDone hw =>
    refine ⟨hw.allDone ha hi, ?_⟩
    rw [TransitionGuard.evaluate_complete, TransitionGuard.assertAllRequiredTasksSucceeded_ok]
    exact fun t ht => .inl (hw.finished t ht).status

theorem RunInv.not_await {t : TransitionCall} : ¬ RunInv world d w₀ (some (.transition .await d' t)) rec := by
  rintro (_ | _ | _ | _ | _ | ⟨_, hm, _⟩ | _ | _ | _ | ⟨hpc | hpc, _⟩ | _ | _)
  · cases hm
  · cases hpc
  · cases hpc

theorem RunInv.not_waiting {o : Option ExecPc} (h : RunInv world d w₀ o rec) (hw : rec.workflow = some w) :
    w.state ≠ .waiting := by
  have hset : ∀ {w'}, rec.workflow = some w' → Settled world d w₀ w' rec.deadLetters → w.state ≠ .waiting := by
    intro w' hw' hs
    obtain rfl := Option.some.inj (hw.symm.trans hw')
    cases hs with
    | pending hs | blocked hs | completed hs | failed hs | deadLettered hs => simp [hs]
  have hrest : RestInv world d w₀ rec → w.state ≠ .waiting := fun ⟨_, hst, hs⟩ => hset hst.workflow hs
  have heq : ∀ {w' status flight}, Stored d rec w' status flight → w' = w := fun hst =>
    Option.some.inj (hst.workflow.symm.trans hw)
  cases h with
  | rest h | runRead h | definitionRead h | workflowRead h => exact hrest h
  | started hst hs => exact hset hst.workflow hs
  | transition hst hm =>
    obtain rfl := heq hst
    cases hm with
    | start hs | complete hs | fail hs | deadLetter hs => simp [hs]
  | handler hst hs | succeeded hst hs | exhausted hst hs | requeued hst hs | deadLetterPushed hst hs =>
    obtain rfl := heq hst
    simp [hs]
  | retrying _ hst hs =>
    obtain rfl := heq hst
    simp [hs]

end

/-! ## No deadlock -/

/-- Along every list of events that leaves a new run to one service: when the loop finds no runnable task, all
tasks are done and the guard accepts `complete`; the `await` transition is never taken; every call of
`executeRun` settles; and an executed run in which no task has failed and no constraint blocks is completed. -/
theorem run_never_deadlocks {world : World} {k : Nat} {d : JobDefinition} {w₀ : WorkflowInstance} {s s' : System}
    {events : List Event} (hwired : world.Wired) (h : NewRun world k d w₀ s)
    (hok : ∀ e ∈ events, e.Undisturbed k w₀.runId d.id)
    (hs : EventSystem.exec (System.step world) s events = some s') :
    (∀ pc ∈ s'.executing w₀.runId, ∀ d' w, pc.entersLoop = some (d', w) → w.state = .running →
        TaskScheduler.nextRunnable w.tasks d'.tasks = none →
        TaskScheduler.allDone w.tasks d'.tasks = true ∧
          TransitionGuard.evaluate w "complete" .completed = .ok ()) ∧
      (∀ pc ∈ s'.executing w₀.runId, ∀ d' t, pc ≠ .transition .await d' t) ∧
      (∀ w, s'.stores.getByRunId w₀.runId = some w → w.state ≠ .waiting) ∧
      s'.Settles world k w₀.runId ∧
      (s'.ExecutedSince s.calls.length k w₀.runId → s'.executing w₀.runId = [] →
        ∀ w, s'.stores.getByRunId w₀.runId = some w → (∀ t ∈ w.tasks, t.status ≠ .failed) → ¬ Blocked d w →
        w.state = .completed ∧ ∀ t ∈ w.tasks, t.status = .succeeded) := by
  have hq := hwired.quiet
  have ha := h.accepted
  have hi := h.instantiates
  have hon := h.exec hq hok hs
  have hbusy : ∀ pc ∈ s'.executing w₀.runId, RunInv world d w₀ (some pc) (s'.stores.record w₀.runId) :=
    fun pc hpc => hon.busy hpc
  refine ⟨fun pc hpc d' w hent hst hn => ?_, fun pc hpc d' t he => ?_, fun w hw => ?_, h.settles hq hok hs,
    fun hx hrest w hw hfail hb => ?_⟩
  · obtain ⟨rfl, hloop⟩ := (hbusy pc hpc).atLoop hent hst
    exact hloop.of_nextRunnable_none ha hi hn
  · subst he
    exact RunInv.not_await (hbusy _ hpc)
  · obtain ⟨o, hinv⟩ := hon.inv
    exact hinv.not_waiting hw
  · obtain ⟨w', hst, hfate⟩ := h.fate hq hok hs hx hrest
    obtain rfl := Option.some.inj (hw.symm.trans hst.workflow)
    cases hfate with
    | blocked _ hw' hb' => exact absurd (hw'.blocked_iff.2 hb') hb
    | completed hs' hw' => exact ⟨hs', fun t ht => (hw'.finished t ht).status⟩
    | failed _ _ hw' | deadLettered _ _ hw' =>
      obtain ⟨t, ht, htc⟩ := hw'.exists_taskRun hi
      exact absurd (hw'.current t ht htc).1 (hfail t ht)

/-- The chain of two tasks, at rest after fifteen segments. -/
theorem run_never_deadlocks_sample : ∃ s' w, sampleAfter (fun _ _ => false) sampleChain 15 = some s' ∧
    s'.stores.getByRunId "run_1" = some w ∧ w.state = .completed ∧ ∀ t ∈ w.tasks, t.status = .succeeded := by
  obtain ⟨s', hs, hrest, hx, hp⟩ := sample_at_rest (fun _ _ => false) sampleChain 15
    (p := fun s => (s.stores.getByRunId "run_1").any fun w => w.tasks.all fun t => t.status ≠ .failed)
    (by decide +kernel)
  obtain ⟨w, hw, hfail⟩ := (Option.any_eq_true _ _).1 hp
  have hnew := sample_newRun (fun _ _ => false) (d := sampleChain) (by decide +kernel)
  refine ⟨s', w, hs, hw, (run_never_deadlocks (sampleWorld_wired _) hnew
    (sampleEvents_undisturbed sampleChain 15) hs).2.2.2.2 hx hrest w hw
    (fun t ht => ?_) (by simp [Blocked, ConstraintValidator.blocked, sampleChain, sampleJob])⟩
  simpa using List.all_eq_true.1 hfail t ht

/-! ## Runs left in `running` -/

/-- An executed run is left in `running` exactly when every task succeeds within its attempts and a `block`
constraint is then violated. -/
theorem not_left_running_iff {world : World} {k : Nat} {d : JobDefinition} {w₀ : WorkflowInstance} {s s' : System}
    {events : List Event} (hwired : world.Wired) (h : NewRun world k d w₀ s)
    (hok : ∀ e ∈ events, e.Undisturbed k w₀.runId d.id)
    (hs : EventSystem.exec (System.step world) s events = some s')
    (hx : s'.ExecutedSince s.calls.length k w₀.runId) (hrest : s'.executing w₀.runId = []) :
    (∀ w run, s'.stores.getByRunId w₀.runId = some w → s'.stores.runs.get w₀.runId = some run →
        w.state ≠ .running ∧ run.status ≠ .running) ↔
      ¬ ((∀ c ∈ d.tasks, world.SucceedsWithin w₀ c (allowedAttempts d.retryPolicy)) ∧
      world.BlocksFinally d w₀) := by
  obtain ⟨w, hst, hfate⟩ := h.fate hwired.quiet hok hs hx hrest
  obtain ⟨run, hrun, _, hstatus⟩ := hst.run
  have hstored : (∀ w' run', s'.stores.getByRunId w₀.runId = some w' → s'.stores.runs.get w₀.runId = some run' →
      w'.state ≠ .running ∧ run'.status ≠ .running) ↔ w.state ≠ .running := by
    refine ⟨fun hall => (hall w run hst.workflow hrun).1, fun hne w' run' hw' hrun' => ?_⟩
    obtain rfl := Option.some.inj (hst.workflow.symm.trans hw')
    obtain rfl := Option.some.inj (hrun.symm.trans hrun')
    exact ⟨hne, hstatus ▸ hne⟩
  rw [hstored, hfate.allDone_iff h.accepted h.instantiates]
  cases hfate with
  | blocked hs' _ hb => simp [hs', hb]
  | completed hs' _ hb => simp [hs', hb]
  | failed hs' | deadLettered hs' => simp [hs']

/-- A job of one task whose constraint holds whatever the context. -/
def sampleBlocked : JobDefinition := sampleJob 3 [⟨"never", "always", .block⟩] [sampleTask "a" [] none]

/-- Its only task succeeds, the constraint is reported, and the run stays in `running`. -/
theorem blocked_run_left_running : ∃ s', sampleAfter (fun _ _ => false) sampleBlocked 9 = some s' ∧
    s'.executing "run_1" = [] ∧ (s'.stores.getByRunId "run_1").map (·.state) = some .running ∧
    (s'.stores.runs.get "run_1").map (·.status) = some .running := by
  obtain ⟨s', hs, hrest, _, hp⟩ := sample_at_rest (fun _ _ => false) sampleBlocked 9
    (p := fun s => (s.stores.getByRunId "run_1").map (·.state) = some .running ∧
      (s.stores.runs.get "run_1").map (·.status) = some .running) (by decide +kernel)
  exact ⟨s', hs, hrest, by simpa using hp⟩

theorem not_left_running_iff_sample : ∃ s', sampleAfter (fun _ _ => false) sampleBlocked 9 = some s' ∧
    ¬ ∀ w run, s'.stores.getByRunId "run_1" = some w → s'.stores.runs.get "run_1" = some run →
      w.state ≠ .running ∧ run.status ≠ .running := by
  obtain ⟨s', hs, hrest, hx, _⟩ := sample_at_rest (fun _ _ => false) sampleBlocked 9
    (p := fun _ => true) (by decide +kernel)
  have hnew := sample_newRun (fun _ _ => false) (d := sampleBlocked) (by decide +kernel)
  refine ⟨s', hs, mt (not_left_running_iff (sampleWorld_wired _) hnew
    (sampleEvents_undisturbed sampleBlocked 9) hs hx hrest).1 ?_⟩
  rw [not_not]
  exact ⟨by decide +kernel, by decide +kernel⟩

/-! ## Optional tasks -/

/-- Task `c` is required, or a required task depends on it, directly or not. -/
inductive Needed (d : JobDefinition) : TaskDefinition → Prop where
  | required {c : TaskDefinition} (hc : c ∈ d.tasks) (h : c.required = true) : Needed d c
  | dependency {b c : TaskDefinition} (hb : Needed d b) (hc : c ∈ d.tasks) (h : c.id ∈ b.dependencies) : Needed d c

theorem Needed.mem {d : JobDefinition} {c : TaskDefinition} (h : Needed d c) : c ∈ d.tasks := by
  cases h <;> assumption

/-- The attempts that the executor gives a task which succeeds within `maxAttempts`. -/
theorem succeedsWithin_allowed_iff {world : World} {d : JobDefinition} {w₀ : WorkflowInstance} {c : TaskDefinition}
    (ha : Accepted d) (hs : world.SucceedsWithin w₀ c d.retryPolicy.maxAttempts.toNat) :
    world.SucceedsWithin w₀ c (allowedAttempts d.retryPolicy) ↔
      d.retryPolicy.maxAttempts = 1 ∨ world.SucceedsWithin w₀ c (d.retryPolicy.maxAttempts.toNat - 1) := by
  obtain ⟨hmin, _⟩ := retryPolicySchema_bounds ha.policy
  by_cases hone : d.retryPolicy.maxAttempts = 1
  · have : allowedAttempts d.retryPolicy = d.retryPolicy.maxAttempts.toNat := by simp [allowedAttempts, hone]
    simp only [hone, true_or, iff_true]
    rwa [this]
  · have : allowedAttempts d.retryPolicy = d.retryPolicy.maxAttempts.toNat - 1 := by
      unfold allowedAttempts
      omega
    simp [hone, this]

/-- When the needed tasks succeed within `maxAttempts` attempts and no constraint blocks, an executed run is
completed exactly when every task succeeds within the attempts the executor gives it, those nobody needs
included. -/
theorem completed_iff_every_task_succeeds {world : World} {k : Nat} {d : JobDefinition} {w₀ : WorkflowInstance}
    {s s' : System} {events : List Event} (hwired : world.Wired) (h : NewRun world k d w₀ s)
    (hok : ∀ e ∈ events, e.Undisturbed k w₀.runId d.id)
    (hs : EventSystem.exec (System.step world) s events = some s')
    (hneeded : ∀ c, Needed d c → world.SucceedsWithin w₀ c d.retryPolicy.maxAttempts.toNat)
    (hblock : ¬ world.BlocksFinally d w₀) :
    s'.Settles world k w₀.runId ∧
      (s'.ExecutedSince s.calls.length k w₀.runId → s'.executing w₀.runId = [] →
        ∀ w, s'.stores.getByRunId w₀.runId = some w → (w.state = .completed ↔
          (∀ c ∈ d.tasks, ¬ Needed d c → world.SucceedsWithin w₀ c (allowedAttempts d.retryPolicy)) ∧
          ∀ c, Needed d c → d.retryPolicy.maxAttempts = 1 ∨
            world.SucceedsWithin w₀ c (d.retryPolicy.maxAttempts.toNat - 1))) := by
  have hq := hwired.quiet
  refine ⟨h.settles hq hok hs, fun hx hrest w hw => ?_⟩
  obtain ⟨w', hst, hfate⟩ := h.fate hq hok hs hx hrest
  obtain rfl := Option.some.inj (hw.symm.trans hst.workflow)
  have hall : w.state = .completed ↔ ∀ c ∈ d.tasks, world.SucceedsWithin w₀ c (allowedAttempts d.retryPolicy) := by
    rw [hfate.allDone_iff h.accepted h.instantiates]
    cases hfate with
    | blocked _ _ hb => exact absurd hb hblock
    | completed hs' | failed hs' | deadLettered hs' => simp [hs']
  -- a needed task succeeds within `maxAttempts`; the executor gives it one attempt less, unless that leaves none
  have hiff : ∀ c, Needed d c → (world.SucceedsWithin w₀ c (allowedAttempts d.retryPolicy) ↔
      d.retryPolicy.maxAttempts = 1 ∨ world.SucceedsWithin w₀ c (d.retryPolicy.maxAttempts.toNat - 1)) :=
    fun c hc => succeedsWithin_allowed_iff h.accepted (hneeded c hc)
  rw [hall]
  constructor
  · exact fun hsucc => ⟨fun c hc _ => hsucc c hc, fun c hc => (hiff c hc).1 (hsucc c hc.mem)⟩
  · rintro ⟨hother, hneed⟩ c hc
    by_cases hn : Needed d c
    · exact (hiff c hn).2 (hneed c hn)
    · exact hother c hc hn

/-- Task `a`, which is optional, fails; task `b` is required, succeeds and depends on nothing. -/
def sampleOptional : JobDefinition := sampleJob 3 [] [sampleTask "a" [] (some true), sampleTask "b" [] none]

theorem sampleOptional_needed {c : TaskDefinition} (h : Needed sampleOptional c) : c = sampleTask "b" [] none := by
  induction h with
  | required hc hr =>
    simp only [sampleOptional, sampleJob, List.mem_cons, List.not_mem_nil, or_false] at hc
    rcases hc with rfl | rfl
    · simp [TaskDefinition.required, sampleTask] at hr
    · rfl
  | dependency _ _ h ih =>
    rw [ih] at h
    simp [sampleTask, TaskDefinition.dependencies] at h

/-- The required task would succeed, but the optional one comes first and ends the run. -/
theorem optional_task_fails_run : ∃ s', sampleAfter (fun t _ => t = "a") sampleOptional 17 = some s' ∧
    s'.executing "run_1" = [] ∧ (s'.stores.getByRunId "run_1").map (·.state) = some .failed ∧
    (∀ c, Needed sampleOptional c →
      (sampleWorld fun t _ => t = "a").SucceedsWithin (sampleRun sampleOptional) c 3) ∧
    ¬ (sampleWorld fun t _ => t = "a").BlocksFinally sampleOptional (sampleRun sampleOptional) := by
  obtain ⟨s', hs, hrest, _, hp⟩ := sample_at_rest (fun t _ => t = "a") sampleOptional 17
    (p := fun s => (s.stores.getByRunId "run_1").map (·.state) = some .failed) (by decide +kernel)
  refine ⟨s', hs, hrest, of_decide_eq_true hp, fun c hc => ?_, by decide +kernel⟩
  rw [sampleOptional_needed hc]
  decide +kernel

theorem completed_iff_every_task_succeeds_sample : ∃ s' w,
    sampleAfter (fun t _ => t = "a") sampleOptional 17 = some s' ∧ s'.stores.getByRunId "run_1" = some w ∧
      (w.state = .completed ↔
        (∀ c ∈ sampleOptional.tasks, ¬ Needed sampleOptional c → (sampleWorld fun t _ => t = "a").SucceedsWithin
          (sampleRun sampleOptional) c 2) ∧
        ∀ c, Needed sampleOptional c → (3 : Int) = 1 ∨ (sampleWorld fun t _ => t = "a").SucceedsWithin
          (sampleRun sampleOptional) c 2) := by
  obtain ⟨s', hs, hrest, hx, hp⟩ := sample_at_rest (fun t _ => t = "a") sampleOptional 17
    (p := fun s => (s.stores.getByRunId "run_1").isSome) (by decide +kernel)
  obtain ⟨w, hw⟩ := Option.isSome_iff_exists.1 hp
  refine ⟨s', w, hs, hw, (completed_iff_every_task_succeeds (sampleWorld_wired _) (sample_newRun _ (by decide +kernel))
    (sampleEvents_undisturbed sampleOptional 17) hs (fun c hc => ?_) (by decide +kernel)).2 hx hrest w hw⟩
  rw [sampleOptional_needed hc]
  decide +kernel

end Jobflow
