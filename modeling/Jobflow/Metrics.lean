import Jobflow.MetricsRegistry
import Jobflow.Ownership

/-!
# The run counters (src/metrics/collector.ts, src/metrics/registry.ts)

The collector counts `run.completed` and `run.failed`, but the orchestrator only ever tells its listeners of
`workflow.transitioned`, so both counters stay at zero in every reachable state (`metrics_zero`).
-/

namespace Jobflow

/-! ## `MetricsCollector` -/

/-- The values of `FailureReason` (types.ts:28-35). -/
def FailureReason.text : FailureReason → String
  | .validation => "validation"
  | .timeout => "timeout"
  | .handlerError => "handler_error"
  | .transitionDenied => "transition_denied"
  | .constraintViolation => "constraint_violation"
  | .maxRetriesExceeded => "max_retries_exceeded"

/-- The one label of a counter. -/
def Labels.single (name value : String) : Labels := ⟨[(name, value)], by simp⟩

/-- `onDomainEvent` (collector.ts:7-27). -/
def MetricsCollector.onDomainEvent (localeCompare : Collation) (m : MetricsRegistry) : DomainEvent → MetricsRegistry
  | .runStarted _ jobId _ => m.increment localeCompare ⟨"jobflow_runs_started_total", .single "job_id" jobId, .finite 1⟩
  | .runCompleted _ _ => m.increment localeCompare ⟨"jobflow_runs_completed_total", .empty, .finite 1⟩
  | .runFailed _ reason _ =>
    m.increment localeCompare ⟨"jobflow_runs_failed_total", .single "reason" reason.text, .finite 1⟩
  | .taskFinished _ _ success _ =>
    m.increment localeCompare
      ⟨"jobflow_tasks_finished_total", .single "success" (if success then "true" else "false"), .finite 1⟩
  | .taskRetryScheduled _ _ _ _ _ => m.increment localeCompare ⟨"jobflow_task_retries_total", .empty, .finite 1⟩
  | _ => m

/-- The registry of the container: the orchestrator's one listener is the event bus, which hands every event to the
collector, the first of its subscribers (container.ts:115-126). -/
def Stores.metrics (localeCompare : Collation) (s : Stores) : MetricsRegistry :=
  s.heard.foldl (fun m call => MetricsCollector.onDomainEvent localeCompare m call.2) .empty

/-- The counters of this name, summed over their labels. -/
def MetricsRegistry.total (m : MetricsRegistry) (name : String) : Rat :=
  ((m.counterMetrics.filter fun c => c.name = name).map fun c => c.value.toRat?.getD 0).sum

/-- How many history entries of the stored workflows lead to `target`. -/
def Stores.entriesTo (s : Stores) (target : WorkflowState) : Nat :=
  (s.workflows.entries.map fun e => e.2.history.countP (·.toState = target)).sum

/-! ## What the listeners hear -/

def DomainEvent.IsTransition : DomainEvent → Prop
  | .workflowTransitioned _ _ _ _ _ => True
  | _ => False

/-- Nothing but transitions has been announced. -/
def Stores.HeardTransitions (s : Stores) : Prop := ∀ call ∈ s.heard, call.2.IsTransition

section
variable {world : World} {k : Nat} {r : RunId} {s s' : Stores} {d : JobDefinition} {w : WorkflowInstance}
  {now : ISODateString}

theorem emitFrom_event {listeners : List DomainEventListener} {event : DomainEvent} :
    ∀ n, ∀ call ∈ (WorkflowOrchestrator.emitFrom n listeners event).1, call.2 = event := by
  induction listeners with
  | nil => simp [WorkflowOrchestrator.emitFrom]
  | cons l ls ih =>
    intro n call hcall
    unfold WorkflowOrchestrator.emitFrom at hcall
    split at hcall
    · rw [List.mem_singleton.1 hcall]
    · rcases List.mem_cons.1 hcall with rfl | hcall
      · rfl
      · exact ih (n + 1) call hcall

theorem Stores.HeardTransitions.congr (h : s.HeardTransitions) (heq : s'.heard = s.heard) : s'.HeardTransitions := by
  rw [Stores.HeardTransitions, heq]
  exact h

theorem Stores.HeardTransitions.announce (h : s.HeardTransitions) (world : World) (t : TransitionCall)
    (now : ISODateString) :
    (WorkflowOrchestrator.announce world s t now).1.HeardTransitions := by
  have hheard : (WorkflowOrchestrator.announce world s t now).1.heard = s.heard ++
      (WorkflowOrchestrator.emitFrom 0 world.listeners
        (.workflowTransitioned t.next.runId t.fromState t.target t.event now)).1 := by
    unfold WorkflowOrchestrator.announce
    dsimp only
    split <;> rfl
  intro call hcall
  rw [hheard] at hcall
  rcases List.mem_append.1 hcall with hcall | hcall
  · exact h call hcall
  · rw [emitFrom_event 0 call hcall]
    trivial

theorem Stores.HeardTransitions.resume (h : s.HeardTransitions) (world : World) (t : TransitionCall)
    (now : ISODateString) :
    (t.resume world s now).1.HeardTransitions := by
  unfold TransitionCall.resume
  split
  · exact h
  · obtain ⟨runs, hruns⟩ := updateRun_runs s t.next.runId t.target now
    exact h.congr (by rw [hruns])
  · exact h.announce world t now
  · exact h.announce world t now
  · exact h

namespace ExecutionService

theorem settle_heard {result : Except JobflowError Unit} : (settle k r s result).1.heard = s.heard := by
  obtain ⟨locks, hlocks, -⟩ := release_eq (s.deleteLocalLock k r) r owner
  rw [settle, hlocks]
  rfl

theorem transition_heard {purpose : Purpose} {event : String} {target : WorkflowState} {actor : String} :
    (transition s purpose d w event target actor now).1.heard = s.heard := by
  unfold transition
  cases h : WorkflowOrchestrator.applyTransition s w event target actor now with
  | error e => rfl
  | ok st =>
    obtain ⟨-, -, hs, -⟩ := WorkflowOrchestrator.applyTransition_ok.1 h
    simp only [hs]
    rfl

theorem afterLoop_heard : (afterLoop k r s d w now).1.heard = s.heard := by
  unfold afterLoop
  split
  · exact transition_heard
  · exact settle_heard

theorem loop_heard : (loop k r s d w now).1.heard = s.heard := by
  unfold loop
  split
  · exact afterLoop_heard
  split
  · split
    · split
      · exact settle_heard
      · exact transition_heard
    · exact transition_heard
  · split <;> rfl

theorem afterTask_heard {result : ExecuteResult} : (afterTask k r s d w result now).1.heard = s.heard := by
  unfold afterTask
  split
  · exact transition_heard
  · exact loop_heard

theorem afterTransition_heard {purpose : Purpose} :
    (afterTransition k r s purpose d w now).1.heard = s.heard := by
  cases purpose with
  | start => exact loop_heard
  | complete | await | fail => exact afterLoop_heard
  | deadLetter => rfl

theorem executeRun_heard (k : Nat) (r : RunId) (s : Stores) : (executeRun k r s).1.heard = s.heard := by
  unfold executeRun
  split
  · rfl
  · cases h : (s.addLocalLock k r).acquire r owner with
    | error e =>
      simp only [h]
      rfl
    | ok s' =>
      simp only [h]
      rw [acquire_ok h]
      rfl

/-- A segment of `executeRun` announces nothing but transitions. -/
theorem resume_heard {pc : ExecPc} {x : Stores × ExecPc} (hs : s.HeardTransitions)
    (h : resume world k r s now pc = some x) : x.1.HeardTransitions := by
  cases pc with
  | runRead found | definitionRead jobId found =>
    cases found <;> cases h
    · exact hs.congr settle_heard
    · exact hs
  | workflowRead d found =>
    cases found with
    | none =>
      cases h
      exact hs.congr settle_heard
    | some w =>
      simp only [resume] at h
      split at h
      · obtain rfl := Option.some.inj h
        exact hs.congr transition_heard
      · obtain rfl := Option.some.inj h
        exact hs
  | started d w =>
    obtain rfl := Option.some.inj h
    exact hs.congr loop_heard
  | transition purpose d t =>
    have ht := hs.resume world t now
    cases hres : t.resume world s now with
    | mk s₁ out =>
      rw [hres] at ht
      simp only [resume, hres] at h
      cases out with
      | suspended t' =>
        cases h
        exact ht
      | threw e =>
        cases h
        exact ht
      | returned next =>
        obtain rfl := Option.some.inj h
        exact ht.congr afterTransition_heard
  | handler d w nextDef running earlier | sleeping d w result =>
    obtain rfl := Option.some.inj h
    exact hs
  | taskSaved d w result =>
    simp only [resume] at h
    split at h
    · obtain rfl := Option.some.inj h
      exact hs
    · obtain rfl := Option.some.inj h
      exact hs.congr afterTask_heard
  | requeued d w result =>
    obtain rfl := Option.some.inj h
    exact hs.congr afterTask_heard
  | deadLetterPushed | rejected e =>
    obtain rfl := Option.some.inj h
    exact hs.congr settle_heard
  | settled result => cases h

end ExecutionService

theorem Use.resume_heard {use : Use} {pc : UsePc} {x : Stores × UsePc} (hs : s.HeardTransitions)
    (h : use.resume world r s now pc = some x) : x.1.HeardTransitions := by
  cases pc with
  | read found =>
    cases found with
    | none =>
      cases h
      exact hs
    | some w =>
      cases use with
      | applyTransition event target actor =>
        simp only [Use.resume] at h
        cases hap : WorkflowOrchestrator.applyTransition s w event target actor now with
        | error e =>
          rw [hap] at h
          cases h
          exact hs
        | ok st =>
          rw [hap] at h
          cases h
          obtain ⟨-, -, hst, -⟩ := WorkflowOrchestrator.applyTransition_ok.1 hap
          exact hs.congr (by rw [hst]; rfl)
      | captureCheckpoint label | snapshot =>
        cases h
        exact hs
  | transition t =>
    have ht := hs.resume world t now
    cases hres : t.resume world s now with
    | mk s₁ out =>
      rw [hres] at ht
      simp only [Use.resume, hres] at h
      cases out <;> cases h <;> exact ht
  | saved =>
    cases h
    exact hs
  | settled result => cases h

end

theorem System.execute_heard {s : System} (hs : s.stores.HeardTransitions) (k : Nat) (r : RunId) :
    (s.execute k r).stores.HeardTransitions := hs.congr (ExecutionService.executeRun_heard k r s.stores)

theorem System.step_heard {world : World} {s s' : System} {e : Event} (hs : s.stores.HeardTransitions)
    (he : s.step world e = some s') : s'.stores.HeardTransitions := by
  cases System.step_cases he with
  | registered | notRegistered | notRestored | acquired | notAcquired | released | restored => exact hs
  | createCalled | useCalled | replayCalled | replayed => exact hs
  | executeCalled => exact System.execute_heard hs _ _
  | executed hi hx => exact ExecutionService.resume_heard hs hx
  | created hi hx => cases hx <;> exact hs
  | used hi hx => exact Use.resume_heard hs hx
  | @replayExecutes i _ k r before => exact System.execute_heard (s := s.suspend i s.stores _) hs k r

theorem System.Reachable.heardTransitions {world : World} {s : System} (h : System.Reachable world s) :
    s.stores.HeardTransitions := by
  refine EventSystem.Reachable.invariant (I := fun s => s.stores.HeardTransitions) ?_
    (fun _ _ _ hs => System.step_heard hs) h
  exact fun call hcall => absurd hcall List.not_mem_nil

/-- The collector has counted nothing. -/
theorem metrics_zero {s : Stores} (h : s.HeardTransitions) (localeCompare : Collation) (name : String) :
    (s.metrics localeCompare).total name = 0 := by
  have hempty : ∀ heard : List (Nat × DomainEvent), (∀ call ∈ heard, call.2.IsTransition) →
      heard.foldl (fun m call => MetricsCollector.onDomainEvent localeCompare m call.2) .empty =
        MetricsRegistry.empty := by
    intro heard
    induction heard with
    | nil => simp
    | cons call heard ih =>
      intro hall
      have hcall := hall call List.mem_cons_self
      have hskip : MetricsCollector.onDomainEvent localeCompare .empty call.2 = MetricsRegistry.empty := by
        cases hev : call.2 with
        | workflowTransitioned _ _ _ _ _ => rfl
        | _ =>
          rw [hev] at hcall
          cases hcall
      rw [List.foldl_cons, hskip]
      exact ih fun c hc => hall c (List.mem_cons_of_mem _ hc)
  rw [Stores.metrics, hempty s.heard h]
  rfl

end Jobflow
