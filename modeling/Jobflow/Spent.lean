import Jobflow.RunSteps

/-!
# What an execution will still do

`executeRun` works on a copy of the workflow that it has read or saved itself. `ExecPc.Spent` says of a suspended call
that it will neither save the workflow nor call a handler any more, as far as its copy tells; `resume_kind` follows
this, and the workflow that the call has saved last, from one await to the next.
-/

namespace Jobflow

namespace ExecutionService

/-- After the loop the workflow is left as it is (execution-service.ts:117-131). -/
def LeavesAlone (d : JobDefinition) (w : WorkflowInstance) : Prop :=
  ¬ (w.state = .failed ∧ OverThreshold d w)

/-- The loop, entered with `w`, neither saves the workflow nor calls a handler (execution-service.ts:56-98): it has
ended, or an exception ends it. -/
def Quits (d : JobDefinition) (w : WorkflowInstance) : Prop :=
  if w.state ≠ .running then LeavesAlone d w
  else match TaskScheduler.nextRunnable w.tasks d.tasks with
    | none => TaskScheduler.allDone w.tasks d.tasks = true ∧
        (Blocked d w ∨ ∃ t ∈ w.tasks, t.status ≠ .succeeded ∧ t.status ≠ .skipped)
    | some nextDef => ∀ t ∈ w.tasks, t.definitionTaskId ≠ nextDef.id

end ExecutionService

open ExecutionService (LeavesAlone Quits)

/-- The call will not save the workflow and not call a handler; while it has not read the workflow yet, as long as
what it reads is in a terminal state. -/
def ExecPc.Spent : ExecPc → Prop
  | .runRead _ | .definitionRead _ _ => True
  | .workflowRead _ none => True
  | .workflowRead d (some w) => w.state ≠ .pending ∧ Quits d w
  | .started d w => Quits d w
  | .transition .start d t => Quits d t.next
  | .transition .deadLetter _ _ => True
  | .transition _ d t => LeavesAlone d t.next
  | .handler _ _ _ _ _ => False
  | .taskSaved d w result => result.retryAfterMs = none ∧ result.task.status ≠ .failed ∧ Quits d w
  | .sleeping _ _ _ => False
  | .requeued d w result => result.task.status ≠ .failed ∧ Quits d w
  | .deadLetterPushed | .rejected _ | .settled _ => True

instance (d : JobDefinition) (w : WorkflowInstance) : Decidable (LeavesAlone d w) :=
  inferInstanceAs (Decidable (¬ (_ ∧ (_ : Int) ≤ _)))

instance (d : JobDefinition) (w : WorkflowInstance) : Decidable (Blocked d w) :=
  inferInstanceAs (Decidable (_ = true))

instance (d : JobDefinition) (w : WorkflowInstance) : Decidable (Quits d w) :=
  if hs : w.state ≠ .running then decidable_of_iff (LeavesAlone d w) (by rw [Quits, if_pos hs])
  else match hn : TaskScheduler.nextRunnable w.tasks d.tasks with
    | none =>
      decidable_of_iff (TaskScheduler.allDone w.tasks d.tasks = true ∧
        (Blocked d w ∨ ∃ t ∈ w.tasks, t.status ≠ .succeeded ∧ t.status ≠ .skipped)) (by rw [Quits, if_neg hs, hn])
    | some nextDef =>
      decidable_of_iff (∀ t ∈ w.tasks, t.definitionTaskId ≠ nextDef.id) (by rw [Quits, if_neg hs, hn])

instance : DecidablePred ExecPc.Spent
  | .workflowRead d (some w) => inferInstanceAs (Decidable (w.state ≠ .pending ∧ Quits d w))
  | .started d w => inferInstanceAs (Decidable (Quits d w))
  | .transition .start d t => inferInstanceAs (Decidable (Quits d t.next))
  | .transition .complete d t | .transition .await d t | .transition .fail d t =>
    inferInstanceAs (Decidable (LeavesAlone d t.next))
  | .handler _ _ _ _ _ | .sleeping _ _ _ => isFalse id
  | .taskSaved d w result =>
    inferInstanceAs (Decidable (result.retryAfterMs = none ∧ result.task.status ≠ .failed ∧ Quits d w))
  | .requeued d w result => inferInstanceAs (Decidable (result.task.status ≠ .failed ∧ Quits d w))
  | .runRead _ | .definitionRead _ _ | .workflowRead _ none | .transition .deadLetter _ _ | .deadLetterPushed
  | .rejected _ | .settled _ => isTrue trivial

/-- The instance the call has just saved: it waits for `workflowStore.save`. -/
def ExecPc.written : ExecPc → Option WorkflowInstance
  | .taskSaved _ w _ => some w
  | .requeued _ w _ => some w
  | .transition _ _ t => if t.stage = .workflowSaved then some t.next else none
  | _ => none

def Purpose.target : Purpose → WorkflowState
  | .start => .running
  | .complete => .completed
  | .await => .waiting
  | .fail => .failed
  | .deadLetter => .deadLettered

/-- A call in the loop works on a running workflow, and its transitions go where they should. -/
def ExecPc.WellFormed : ExecPc → Prop
  | .transition purpose _ t => t.next.state = purpose.target
  | .handler _ w _ _ _ => w.state = .running
  | .taskSaved _ w _ => w.state = .running
  | .sleeping _ w _ => w.state = .running
  | .requeued _ w _ => w.state = .running
  | _ => True

/-- What a segment of `executeRun` does to the workflow of its run. -/
inductive SegmentKind (r : RunId) (s : Stores) (pc : ExecPc) (x : Stores × ExecPc) : Prop where
  /-- It saves the workflow. -/
  | saved (w₀ w : WorkflowInstance) (hpc : ¬ pc.Spent) (hw₀ : pc.instances = [w₀]) (hd : Derived w₀ w)
      (hs : x.1 = s.saveWorkflow w) (hx : x.2.written = some w) (hi : x.2.instances = [w])
  /-- It leaves the workflow alone; only a call that is not spent may call a handler. -/
  | quiet (hrec : (x.1.record r).workflow = (s.record r).workflow) (hx : x.2.written = none)
      (hi : ∀ w ∈ x.2.instances, w ∈ pc.instances) (hspent : x.2.Spent ↔ pc.Spent)
      (hinv : pc.Spent → (x.1.record r).invocations = (s.record r).invocations)
  /-- It reads the workflow. -/
  | read (d : JobDefinition) (hpc : pc.Spent) (hx : x = (s, .workflowRead d (s.getByRunId r)))

section
variable {world : World} {k : Nat} {r : RunId} {d : JobDefinition} {w : WorkflowInstance} {s : Stores}
  {now : ISODateString} {pc : ExecPc}

/-- The segment ends the call, or leaves it to be ended. -/
theorem SegmentKind.of_over {x : Stores × ExecPc} (hpc : pc.Spent)
    (hrec : (x.1.record r).workflow = (s.record r).workflow)
    (hinv : (x.1.record r).invocations = (s.record r).invocations)
    (hx : (∃ e, x.2 = .settled e) ∨ (∃ e, x.2 = .rejected e) ∨ x.2 = .deadLetterPushed) :
    SegmentKind r s pc x := by
  rcases hx with ⟨e, hx⟩ | ⟨e, hx⟩ | hx <;>
    exact .quiet hrec (by rw [hx]; rfl) (by rw [hx]; simp [ExecPc.instances])
      (by rw [hx]; exact iff_of_true trivial hpc) fun _ => hinv

theorem SegmentKind.of_settle (hpc : pc.Spent) (result : Except JobflowError Unit) :
    SegmentKind r s pc (ExecutionService.settle k r s result) :=
  .of_over hpc (congrArg RunRecord.workflow (record_settle k result))
    (congrArg RunRecord.invocations (record_settle k result)) (.inl ⟨result, rfl⟩)

/-- A transition that the rules and the guard allow. -/
theorem SegmentKind.of_transition {purpose : Purpose} {event : String} {target : WorkflowState} {actor : String}
    (hg : TransitionGuard.evaluate w event target = .ok ())
    (hr : (⟨w.state, target, event⟩ : TransitionRule) ∈ DEFAULT_TRANSITION_RULES) (hpc : ¬ pc.Spent)
    (hw : pc.instances = [w]) :
    SegmentKind r s pc (ExecutionService.transition s purpose d w event target actor now) := by
  rw [transition_accepted hg hr]
  exact .saved w _ hpc hw (.moved hr) rfl rfl rfl

theorem SegmentKind.of_afterLoop (hw : pc.instances = [w]) (hpc : pc.Spent ↔ LeavesAlone d w) :
    SegmentKind r s pc (ExecutionService.afterLoop k r s d w now) := by
  unfold ExecutionService.afterLoop
  split
  · rename_i h
    have hrule : (⟨w.state, .deadLettered, "dead_letter"⟩ : TransitionRule) ∈ DEFAULT_TRANSITION_RULES := by
      rw [h.1]
      decide
    refine .of_transition (TransitionGuard.evaluate_other (by decide) (by decide) (by decide)) hrule ?_ hw
    exact fun hspent => hpc.1 hspent h
  · rename_i h
    exact .of_settle (hpc.2 h) _

theorem SegmentKind.of_loop (hw : pc.instances = [w]) (hpc : pc.Spent ↔ Quits d w) :
    SegmentKind r s pc (ExecutionService.loop k r s d w now) := by
  unfold ExecutionService.loop
  unfold Quits at hpc
  split
  · rename_i hs
    rw [if_pos hs] at hpc
    exact .of_afterLoop hw hpc
  rename_i hs
  rw [if_neg hs] at hpc
  rw [not_not] at hs
  split
  · rename_i hnext
    rw [hnext] at hpc
    split
    · rename_i hdone
      split
      · rename_i err happly
        refine .of_settle (hpc.2 ⟨hdone, .inl ?_⟩) _
        by_contra hblocked
        unfold Blocked at hblocked
        rw [Bool.not_eq_true, ← RuleEngine.apply_ok, happly] at hblocked
        cases hblocked
      · rename_i hok
        rw [RuleEngine.apply_ok] at hok
        by_cases hall : ∀ t ∈ w.tasks, t.status = .succeeded ∨ t.status = .skipped
        · have hrule : (⟨w.state, .completed, "complete"⟩ : TransitionRule) ∈ DEFAULT_TRANSITION_RULES := by
            rw [hs]
            decide
          refine .of_transition ?_ hrule (fun hspent => ?_) hw
          · rw [TransitionGuard.evaluate_complete]
            exact TransitionGuard.assertAllRequiredTasksSucceeded_ok.2 hall
          · rcases (hpc.1 hspent).2 with hblocked | ⟨t, ht, h₁, h₂⟩
            · exact absurd hok (by rw [hblocked]; decide)
            · exact (hall t ht).elim h₁ h₂
        · have hopen : ∃ t ∈ w.tasks, t.status ≠ .succeeded ∧ t.status ≠ .skipped := by
            push Not at hall
            exact hall
          obtain ⟨message, he⟩ := transition_refused hall
          rw [he]
          exact .of_over (hpc.2 ⟨hdone, .inr hopen⟩) rfl rfl (.inr (.inl ⟨_, rfl⟩))
    · rename_i hdone
      have hrule : (⟨w.state, .waiting, "await"⟩ : TransitionRule) ∈ DEFAULT_TRANSITION_RULES := by
        rw [hs]
        decide
      refine .of_transition (TransitionGuard.evaluate_other (by decide) (by decide) (by decide)) hrule ?_ hw
      exact fun hspent => hdone (hpc.1 hspent).1
  · rename_i nextDef hnext
    rw [hnext] at hpc
    split
    · rename_i hfind
      rw [List.find?_eq_none] at hfind
      exact .of_over (hpc.2 fun t ht he => hfind t ht (by simpa using he)) rfl rfl (.inr (.inl ⟨_, rfl⟩))
    · rename_i taskRun hfind
      have hno : ¬ pc.Spent := fun hspent => by
        have hid := List.find?_some hfind
        exact hpc.1 hspent taskRun (List.mem_of_find?_eq_some hfind) (by simpa using hid)
      exact .quiet rfl rfl (by rw [hw]; simp [ExecutionService.invoke, ExecPc.instances])
        (iff_of_false id hno) fun hspent => absurd hspent hno

theorem SegmentKind.of_afterTask {result : ExecuteResult} (hs : w.state = .running) (hw : pc.instances = [w])
    (hpc : pc.Spent ↔ result.task.status ≠ .failed ∧ Quits d w) :
    SegmentKind r s pc (ExecutionService.afterTask k r s d w result now) := by
  unfold ExecutionService.afterTask
  split
  · rename_i hfailed
    have hrule : (⟨w.state, .failed, "fail"⟩ : TransitionRule) ∈ DEFAULT_TRANSITION_RULES := by
      rw [hs]
      decide
    refine .of_transition (TransitionGuard.evaluate_other (by decide) (by decide) (by decide)) hrule ?_ hw
    exact fun hspent => (hpc.1 hspent).1 hfailed
  · rename_i hne
    exact .of_loop hw (hpc.trans (and_iff_right hne))

/-- `applyTransition` on its way, inside `executeRun`. -/
theorem SegmentKind.of_transition_resume (hq : world.Quiet) {purpose : Purpose} {t : TransitionCall}
    {x : Stores × ExecPc} (hx : ExecutionService.resume world k r s now (.transition purpose d t) = some x) :
    SegmentKind r s (.transition purpose d t) x := by
  -- the suspended call differs in its stage only
  have hsuspended : ∀ (st : Stores) (stage : TransitionStage), stage ≠ .workflowSaved →
      (st.record r).workflow = (s.record r).workflow → (st.record r).invocations = (s.record r).invocations →
      SegmentKind r s (.transition purpose d t) (st, .transition purpose d { t with stage := stage }) :=
    fun st stage hstage hrec hinv => .quiet hrec (if_neg hstage) (fun w hw => hw)
      (by cases purpose <;> exact Iff.rfl) fun _ => hinv
  obtain ⟨heard, ha⟩ := announce_quiet hq s t now
  unfold ExecutionService.resume TransitionCall.resume at hx
  cases hstage : t.stage with
  | workflowSaved =>
    simp only [hstage] at hx
    cases hx
    exact hsuspended s (.runRead _) (by simp) rfl rfl
  | runRead found =>
    cases found with
    | true =>
      simp only [hstage] at hx
      cases hx
      obtain ⟨runs, he⟩ := updateRun_runs s t.next.runId t.target now
      refine hsuspended _ .runSaved (by decide) ?_ ?_
      · rw [he]
        rfl
      · rw [he]
        rfl
    | false =>
      simp only [hstage, ha] at hx
      cases hx
      exact hsuspended _ .returned (by decide) rfl rfl
  | runSaved =>
    simp only [hstage, ha] at hx
    cases hx
    exact hsuspended _ .returned (by decide) rfl rfl
  | returned =>
    simp only [hstage] at hx
    cases hx
    cases purpose with
    | start => exact .of_loop rfl Iff.rfl
    | complete | await | fail => exact .of_afterLoop rfl Iff.rfl
    | deadLetter => exact .of_over trivial rfl rfl (.inr (.inr rfl))

/-- Every segment of `executeRun`, with listeners that do not throw. -/
theorem ExecutionService.resume_kind (hq : world.Quiet) (hpc : pc.WellFormed) {x : Stores × ExecPc}
    (hx : resume world k r s now pc = some x) : SegmentKind r s pc x := by
  cases pc with
  | runRead found =>
    cases found <;> cases hx
    · refine .of_settle ?_ _
      trivial
    · exact .quiet rfl rfl (by simp [ExecPc.instances]) Iff.rfl fun _ => rfl
  | definitionRead jobId found =>
    cases found <;> cases hx
    · refine .of_settle ?_ _
      trivial
    · exact .read _ trivial rfl
  | workflowRead d found =>
    cases found with
    | none =>
      cases hx
      refine .of_settle ?_ _
      trivial
    | some w =>
      simp only [resume] at hx
      split at hx
      · rename_i hs
        obtain rfl := Option.some.inj hx
        have hrule : (⟨w.state, .running, "start"⟩ : TransitionRule) ∈ DEFAULT_TRANSITION_RULES := by
          rw [hs]
          decide
        exact .of_transition (TransitionGuard.evaluate_other (by decide) (by decide) (by decide)) hrule
          (fun hspent => hspent.1 hs) rfl
      · rename_i hs
        cases hx
        exact .quiet rfl rfl (fun _ hw => hw) (and_iff_right hs).symm fun _ => rfl
  | started d w =>
    obtain rfl := Option.some.inj hx
    exact .of_loop rfl Iff.rfl
  | transition purpose d t => exact .of_transition_resume hq hx
  | handler d w nextDef running earlier =>
    obtain rfl := Option.some.inj hx
    exact .saved w _ id rfl (updateTask_derived finish_status) rfl rfl rfl
  | taskSaved d w result =>
    simp only [resume] at hx
    split at hx
    · rename_i hretry
      cases hx
      refine .quiet rfl rfl (fun _ hw => hw) (iff_of_false id fun hspent => ?_) fun _ => rfl
      rw [hspent.1] at hretry
      cases hretry
    · rename_i hretry
      obtain rfl := Option.some.inj hx
      have hnone : result.retryAfterMs = none := by simpa using hretry
      exact .of_afterTask hpc rfl (and_iff_right hnone)
  | sleeping d w result =>
    obtain rfl := Option.some.inj hx
    exact .saved w _ id rfl (updateTask_derived (by simp)) rfl rfl rfl
  | requeued d w result =>
    obtain rfl := Option.some.inj hx
    exact .of_afterTask hpc rfl Iff.rfl
  | deadLetterPushed =>
    obtain rfl := Option.some.inj hx
    refine .of_settle ?_ _
    trivial
  | rejected e =>
    obtain rfl := Option.some.inj hx
    refine .of_settle ?_ _
    trivial
  | settled result => cases hx


/-! ## Calls stay well formed -/

theorem ExecPc.WellFormed.of_transition (purpose : Purpose) {event actor : String} :
    (ExecutionService.transition s purpose d w event purpose.target actor now).2.WellFormed := by
  unfold ExecutionService.transition
  cases ha : WorkflowOrchestrator.applyTransition s w event purpose.target actor now with
  | error e => trivial
  | ok st =>
    obtain ⟨_, _, _, ht⟩ := WorkflowOrchestrator.applyTransition_ok.1 ha
    simp only [ExecPc.WellFormed, ht, moved_state]

theorem ExecPc.WellFormed.of_afterLoop : (ExecutionService.afterLoop k r s d w now).2.WellFormed := by
  unfold ExecutionService.afterLoop
  split
  · exact .of_transition .deadLetter
  · trivial

theorem ExecPc.WellFormed.of_loop : (ExecutionService.loop k r s d w now).2.WellFormed := by
  unfold ExecutionService.loop
  split
  · exact .of_afterLoop
  rename_i hs
  split
  · split
    · split
      · trivial
      · exact .of_transition .complete
    · exact .of_transition .await
  · split
    · trivial
    · exact not_not.1 hs

theorem ExecPc.WellFormed.of_afterTask {result : ExecuteResult} :
    (ExecutionService.afterTask k r s d w result now).2.WellFormed := by
  unfold ExecutionService.afterTask
  split
  · exact .of_transition .fail
  · exact .of_loop

/-- A segment of `applyTransition` keeps the instance it has saved. -/
theorem TransitionCall.resume_next {t t' : TransitionCall} {s' : Stores}
    (h : t.resume world s now = (s', .suspended t')) : t'.next = t.next := by
  have hannounce : WorkflowOrchestrator.announce world s t now = (s', .suspended t') → t'.next = t.next :=
    fun h => by
      unfold WorkflowOrchestrator.announce at h
      dsimp only at h
      split at h <;> cases h
      rfl
  unfold TransitionCall.resume at h
  split at h
  · cases h
    rfl
  · cases h
    rfl
  · exact hannounce h
  · exact hannounce h
  · cases h

theorem ExecutionService.resume_wellFormed (hpc : pc.WellFormed) {x : Stores × ExecPc}
    (hx : resume world k r s now pc = some x) : x.2.WellFormed := by
  cases pc with
  | runRead found => cases found <;> cases hx <;> trivial
  | definitionRead jobId found => cases found <;> cases hx <;> trivial
  | workflowRead d found =>
    cases found with
    | none =>
      cases hx
      trivial
    | some w =>
      simp only [resume] at hx
      split at hx
      · obtain rfl := Option.some.inj hx
        exact .of_transition .start
      · cases hx
        trivial
  | started d w =>
    obtain rfl := Option.some.inj hx
    exact .of_loop
  | transition purpose d t =>
    cases hres : t.resume world s now with
    | mk s₁ out =>
      simp only [resume, hres] at hx
      cases out with
      | suspended t' =>
        cases hx
        exact (congrArg WorkflowInstance.state (TransitionCall.resume_next hres)).trans hpc
      | threw e =>
        cases hx
        trivial
      | returned next =>
        obtain rfl := Option.some.inj hx
        cases purpose with
        | start => exact .of_loop
        | complete | await | fail => exact .of_afterLoop
        | deadLetter => trivial
  | handler d w nextDef running earlier =>
    obtain rfl := Option.some.inj hx
    exact hpc
  | taskSaved d w result =>
    simp only [resume] at hx
    split at hx
    · cases hx
      exact hpc
    · obtain rfl := Option.some.inj hx
      exact .of_afterTask
  | sleeping d w result =>
    obtain rfl := Option.some.inj hx
    exact hpc
  | requeued d w result =>
    obtain rfl := Option.some.inj hx
    exact .of_afterTask
  | deadLetterPushed | rejected e =>
    obtain rfl := Option.some.inj hx
    trivial
  | settled result => cases hx

/-- Once the workflow is in a terminal state there is nothing left to do for a call that has just saved or read
it. -/
theorem ExecPc.WellFormed.spent_of_terminal (hpc : pc.WellFormed)
    (hw : WorkflowStateMachine.isTerminal w.state = true)
    (h : pc.written = some w ∨ ∃ d, pc = .workflowRead d (some w)) : pc.Spent := by
  have hquits : ∀ d, Quits d w := fun d => by
    have hrunning : w.state ≠ .running := fun hs => by
      rw [hs] at hw
      cases hw
    rw [Quits, if_pos hrunning]
    rintro ⟨hs, _⟩
    rw [hs] at hw
    cases hw
  rcases h with hwritten | ⟨d, rfl⟩
  · cases pc with
    | transition purpose d t =>
      simp only [ExecPc.written] at hwritten
      split at hwritten
      · obtain rfl := Option.some.inj hwritten
        have hstate : t.next.state = purpose.target := hpc
        cases purpose with
        | start => exact hquits d
        | deadLetter => trivial
        | complete | await | fail =>
          rintro ⟨hs, _⟩
          rw [hs] at hw
          cases hw
      · cases hwritten
    | taskSaved d x result | requeued d x result =>
      obtain rfl := Option.some.inj hwritten
      have hstate : x.state = .running := hpc
      rw [hstate] at hw
      cases hw
    | _ => cases hwritten
  · refine ⟨fun hs => ?_, hquits d⟩
    rw [hs] at hw
    cases hw


end

end Jobflow
