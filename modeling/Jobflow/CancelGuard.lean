import Jobflow.History

/-!
# What the cancel guard sees (src/engine/transition-guard.ts)

`TransitionGuard.evaluate` refuses `cancel` while a task of the instance is running. The status `running` is only ever
given to the executor's own copy of a task (task-executor.ts:29-34), and what `updateTask` writes back has another one,
so no instance anywhere has a running task, and the guard never refuses.
-/

namespace Jobflow

/-- No task of the instance is shown as running. -/
def WorkflowInstance.Idle (w : WorkflowInstance) : Prop := ∀ t ∈ w.tasks, t.status ≠ .running

theorem newWorkflow_idle (d : JobDefinition) (jobId : JobId) (input : Js.Record) (uuids : Uuids)
    (now : ISODateString) : (WorkflowService.newWorkflow d jobId input uuids now).Idle := by
  intro t ht
  obtain ⟨i, hi, rfl⟩ := List.mem_iff_getElem.1 ht
  simp [WorkflowService.newWorkflow, createTaskRun]

theorem WorkflowInstance.Idle.derived {w₀ w : WorkflowInstance} (h : w₀.Idle) (hd : Derived w₀ w) : w.Idle := by
  cases hd with
  | moved rule => exact h
  | retasked now htasks =>
    intro t ht
    rcases htasks t ht with hold | hnew
    · exact h t hold
    · exact hnew

/-- The guard has nothing to say about an idle instance. -/
theorem WorkflowInstance.Idle.cancel_allowed {w : WorkflowInstance} (h : w.Idle) :
    TransitionGuard.evaluate w "cancel" .cancelled = .ok () := by
  have hany : w.tasks.any (fun t => t.status = .running) = false := by
    rw [List.any_eq_false]
    intro t ht
    simpa using h t ht
  simp [TransitionGuard.evaluate, hany, pure, Except.pure]

/-! ## Handlers in flight -/

/-- The task whose handler the call is waiting for, if it executes run `r`. -/
def Call.inFlight (r : RunId) : Call → Option TaskRun
  | .execute _ r' (.handler _ _ _ running _) => if r' = r then some running else none
  | _ => none

def System.inFlight (s : System) (r : RunId) : List TaskRun := s.calls.filterMap (Call.inFlight r)

/-- The stored workflow shows every task whose handler is in flight as running, and the guard refuses to cancel it. -/
def System.CancelGuarded (s : System) (r : RunId) : Prop :=
  ∀ running ∈ s.inFlight r, ∃ w, s.stores.getByRunId r = some w ∧
    (∃ t ∈ w.tasks, t.id = running.id ∧ t.status = .running) ∧
    TransitionGuard.evaluate w "cancel" .cancelled ≠ .ok ()

section
variable {world : World} {s : System} {r : RunId} {running : TaskRun}

theorem Call.inFlight_eq_some {c : Call} (h : c.inFlight r = some running) :
    ∃ k d w nextDef earlier, c = .execute k r (.handler d w nextDef running earlier) := by
  unfold inFlight at h
  split at h
  · split at h
    · rename_i hr
      subst hr
      cases h
      exact ⟨_, _, _, _, _, rfl⟩
    · cases h
  · cases h

/-- While a handler is in flight the stored workflow shows no running task. -/
theorem handler_unseen (h : System.Reachable world s) (hf : running ∈ s.inFlight r) :
    ∃ w, s.stores.getByRunId r = some w ∧ w.Idle := by
  obtain ⟨c, hc, hcf⟩ := List.mem_filterMap.1 hf
  obtain ⟨k, d, w₀, nextDef, earlier, rfl⟩ := Call.inFlight_eq_some hcf
  have hown := h.coherent.calls _ hc w₀ (List.mem_singleton_self w₀)
  obtain ⟨w, hw, _⟩ := h.coherent.stores.getByRunId_isSome hown.2
  have hall := System.Reachable.all (fun _ _ h hd => WorkflowInstance.Idle.derived h hd) newWorkflow_idle h
  exact ⟨w, hw, hall.1.found hw⟩

/-- The guard sees running work at the moments at which there is none. -/
theorem cancel_guarded_iff (h : System.Reachable world s) (r : RunId) : s.CancelGuarded r ↔ s.inFlight r = [] := by
  constructor
  · intro hguard
    refine List.eq_nil_iff_forall_not_mem.2 fun running hf => ?_
    obtain ⟨w, hw, hidle⟩ := handler_unseen h hf
    obtain ⟨w', hw', _, hrefused⟩ := hguard running hf
    rw [hw, Option.some.injEq] at hw'
    exact hrefused (hw' ▸ hidle.cancel_allowed)
  · intro hnil running hf
    rw [hnil] at hf
    cases hf

end

/-- The handler of the only task is in flight after eight events. -/
theorem sampleOne_inFlight : ∃ s, sampleAfter (fun _ _ => false) sampleOne 7 = some s ∧
    System.Reachable (sampleWorld fun _ _ => false) s ∧ (s.inFlight "run_1").map (·.id) = ["task_a"] := by
  have hnew := sample_newRun (fun _ _ => false) (d := sampleOne) (by decide +kernel)
  obtain ⟨setup, hsetup⟩ := hnew.reachable
  have hstate : (sampleAfter (fun _ _ => false) sampleOne 7).map (fun s => (s.inFlight "run_1").map (·.id)) =
      some ["task_a"] := by
    decide +kernel
  obtain ⟨s, hs, hids⟩ := Option.map_eq_some_iff.1 hstate
  exact ⟨s, hs, ⟨_, EventSystem.exec_append.2 ⟨_, hsetup, hs⟩⟩, hids⟩

theorem cancel_guarded_iff_sample : ∃ s, sampleAfter (fun _ _ => false) sampleOne 7 = some s ∧
    (s.inFlight "run_1").map (·.id) = ["task_a"] ∧ (s.CancelGuarded "run_1" ↔ s.inFlight "run_1" = []) := by
  obtain ⟨s, hs, hreach, hids⟩ := sampleOne_inFlight
  exact ⟨s, hs, hids, cancel_guarded_iff hreach "run_1"⟩

/-- The handler of `a` is in flight, and the guard lets `cancel` through. -/
theorem running_task_unseen : ∃ s w, System.Reachable (sampleWorld fun _ _ => false) s ∧
    (s.inFlight "run_1").map (·.id) = ["task_a"] ∧ s.stores.getByRunId "run_1" = some w ∧ w.state = .running ∧
    w.tasks.map (·.status) = [.queued] ∧ TransitionGuard.evaluate w "cancel" .cancelled = .ok () ∧
    ¬ s.CancelGuarded "run_1" := by
  obtain ⟨s, hs, hreach, hids⟩ := sampleOne_inFlight
  have hstored : (sampleAfter (fun _ _ => false) sampleOne 7).bind
      (fun s => (s.stores.getByRunId "run_1").map fun w => (w.state, w.tasks.map (·.status))) =
      some (.running, [.queued]) := by
    decide +kernel
  rw [hs, Option.bind_some] at hstored
  obtain ⟨w, hw, hshape⟩ := Option.map_eq_some_iff.1 hstored
  rw [Prod.mk.injEq] at hshape
  have hidle : w.Idle := by
    intro t ht
    have : t.status ∈ w.tasks.map (·.status) := List.mem_map_of_mem ht
    rw [hshape.2, List.mem_singleton] at this
    rw [this]
    decide
  refine ⟨s, w, hreach, hids, hw, hshape.1, hshape.2, hidle.cancel_allowed, fun hguard => ?_⟩
  cases hf : s.inFlight "run_1" with
  | nil => simp [hf] at hids
  | cons running rest =>
    obtain ⟨w', hw', _, hrefused⟩ := hguard running (hf ▸ List.mem_cons_self)
    rw [hw, Option.some.injEq] at hw'
    exact hrefused (hw' ▸ hidle.cancel_allowed)

end Jobflow
