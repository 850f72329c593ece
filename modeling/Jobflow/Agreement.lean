import Jobflow.RunSteps

/-!
# Run and workflow records (src/storage, src/persistence/recovery-service.ts)

What state a run is in is kept twice, in its workflow and in its `JobRun`. `applyTransition` writes first the one and
then the other; `restoreToCheckpoint` only writes the workflow. So, when operations follow one another, the two agree
after each of them exactly as long as no checkpoint of another state is restored.
-/

namespace Jobflow

/-! ## Records that agree -/

/-- The run is not known, or its `JobRun` has the state of its workflow and a finishing time once that is terminal. -/
inductive RunRecord.Agrees (rec : RunRecord) : Prop where
  | unknown (hw : rec.workflow = none) (hr : rec.run = none)
  | known {w : WorkflowInstance} {run : JobRun} (hw : rec.workflow = some w) (hr : rec.run = some run)
      (hs : run.status = w.state) (hf : run.finishedAt.isSome = WorkflowStateMachine.isTerminal w.state)

/-- `applyTransition` has saved the workflow, and has still to write to the `JobRun` or has done so. -/
structure TransitionCall.Agrees (t : TransitionCall) (rec : RunRecord) : Prop where
  workflow : rec.workflow = some t.next
  target : t.target = t.next.state
  run : ∃ run, rec.run = some run ∧
    match t.stage with
    | .workflowSaved | .runRead true => run.finishedAt = none
    | .runRead false => False
    | .runSaved | .returned =>
      run.status = t.next.state ∧ run.finishedAt.isSome = WorkflowStateMachine.isTerminal t.next.state

/-- The records agree, or a transition of the call is on its way; the copy of the call is the stored workflow. -/
def ExecPc.Agrees (rec : RunRecord) : ExecPc → Prop
  | .transition _ _ t => t.Agrees rec
  | pc => rec.Agrees ∧ ∀ w ∈ pc.instances, rec.workflow = some w

def TransitionOutcome.Agrees (rec : RunRecord) : TransitionOutcome → Prop
  | .suspended t => t.Agrees rec
  | .threw _ => rec.Agrees
  | .returned next => rec.Agrees ∧ rec.workflow = some next

def UsePc.Agrees (rec : RunRecord) : UsePc → Prop
  | .transition t => t.Agrees rec
  | pc => rec.Agrees ∧ ∀ w ∈ pc.instances, rec.workflow = some w

section
variable {world : World} {k : Nat} {r : RunId} {d : JobDefinition} {w w' : WorkflowInstance} {s : Stores}
  {now : ISODateString} {rec : RunRecord} {pc : ExecPc}

/-- No rule leaves a terminal state. -/
theorem rule_not_terminal {event : String} {source target : WorkflowState}
    (hr : (⟨source, target, event⟩ : TransitionRule) ∈ DEFAULT_TRANSITION_RULES) :
    WorkflowStateMachine.isTerminal source = false := by
  have hall : ∀ rule ∈ DEFAULT_TRANSITION_RULES, WorkflowStateMachine.isTerminal rule.fromState = false := by decide
  exact hall _ hr

/-- Another instance in the same state is stored. -/
theorem RunRecord.Agrees.save (h : rec.Agrees) (hw : rec.workflow = some w) (hs : w'.state = w.state) :
    RunRecord.Agrees { rec with workflow := some w' } := by
  cases h with
  | unknown hnone _ =>
    rw [hw] at hnone
    cases hnone
  | known hv hr hstatus hfinished =>
    obtain rfl := Option.some.inj (hw.symm.trans hv)
    exact .known rfl hr (hstatus.trans hs.symm) (by rw [hs]; exact hfinished)

/-- The first segment of a transition. -/
theorem TransitionCall.Agrees.begin (h : rec.Agrees) (hw : rec.workflow = some w) {event : String}
    {target : WorkflowState} {actor : String}
    (hr : (⟨w.state, target, event⟩ : TransitionRule) ∈ DEFAULT_TRANSITION_RULES) :
    TransitionCall.Agrees ⟨w.state, event, target, w.moved event target actor none now, .workflowSaved⟩
      { rec with workflow := some (w.moved event target actor none now) } := by
  cases h with
  | unknown hnone _ =>
    rw [hw] at hnone
    cases hnone
  | known hv hrun hstatus hfinished =>
    obtain rfl := Option.some.inj (hw.symm.trans hv)
    rw [rule_not_terminal hr] at hfinished
    exact ⟨rfl, rfl, _, hrun, by simpa using hfinished⟩

theorem TransitionCall.Agrees.record {t : TransitionCall} (h : t.Agrees rec)
    (hstage : t.stage = .runSaved ∨ t.stage = .returned) : rec.Agrees := by
  obtain ⟨run, hrun, hstatus⟩ := h.run
  rcases hstage with hstage | hstage <;> rw [hstage] at hstatus <;>
    exact .known h.workflow hrun hstatus.1 hstatus.2

/-- `emit` leaves the records alone. -/
theorem announce_record (world : World) (s : Stores) (t : TransitionCall) (now : ISODateString) (r : RunId) :
    (∃ st, WorkflowOrchestrator.announce world s t now = (st, .suspended { t with stage := .returned }) ∧
        st.record r = s.record r) ∨
      ∃ st e, WorkflowOrchestrator.announce world s t now = (st, .threw e) ∧ st.record r = s.record r := by
  unfold WorkflowOrchestrator.announce
  dsimp only
  split
  · exact .inr ⟨_, _, rfl, rfl⟩
  · exact .inl ⟨_, rfl, rfl⟩

/-- What the later segments of a transition leave behind. -/
theorem TransitionCall.Agrees.resume {t : TransitionCall} {s' : Stores} {out : TransitionOutcome} (hc : s.Coherent)
    (ho : s.Owns r t.next) (h : t.Agrees (s.record r)) (hx : t.resume world s now = (s', out)) :
    out.Agrees (s'.record r) := by
  obtain ⟨run, hrun, hstatus⟩ := h.run
  have hget : s.runs.get r = some run := hrun
  unfold TransitionCall.resume at hx
  cases hstage : t.stage with
  | workflowSaved =>
    simp only [hstage] at hx hstatus
    cases hx
    have hhas : s.runs.has t.next.runId = true := by simp [InsertionMap.has, ho.1, hget]
    rw [hhas]
    exact ⟨h.workflow, h.target, run, hrun, hstatus⟩
  | runRead found =>
    cases found with
    | true =>
      simp only [hstage] at hx hstatus
      cases hx
      rw [ho.1]
      rcases updateRun_eq (s := s) r t.target now with ⟨hnone, _⟩ | ⟨run', hrun', he⟩
      · rw [hget] at hnone
        cases hnone
      · obtain rfl := Option.some.inj (hget.symm.trans hrun')
        rw [he]
        let run' : JobRun := { run with
          status := t.target
          finishedAt := if WorkflowStateMachine.isTerminal t.target then some now else run.finishedAt }
        refine ⟨h.workflow, h.target, run', ?_, h.target, ?_⟩
        · exact congrArg RunRecord.run (@record_saveRun_self s r run' (hc.runs r run hget))
        · change run'.finishedAt.isSome = WorkflowStateMachine.isTerminal t.next.state
          rw [← h.target]
          by_cases hterm : WorkflowStateMachine.isTerminal t.target = true
          · simp [run', hterm]
          · simp [run', hterm, hstatus]
    | false =>
      simp only [hstage] at hstatus
  | runSaved =>
    simp only [hstage] at hx hstatus
    rcases announce_record world s t now r with ⟨st, ha, hrec⟩ | ⟨st, e, ha, hrec⟩ <;> rw [ha] at hx <;> cases hx
    · exact ⟨hrec ▸ h.workflow, h.target, run, hrec ▸ hrun, hstatus⟩
    · exact hrec ▸ h.record (.inl hstage)
  | returned =>
    simp only [hstage] at hx
    cases hx
    exact ⟨h.record (.inr hstage), h.workflow⟩

/-! ## Every segment of `executeRun` -/

/-- A segment that ends the call, or leaves it to be ended. -/
theorem ExecPc.Agrees.of_settle (h : (s.record r).Agrees) (result : Except JobflowError Unit) :
    (ExecutionService.settle k r s result).2.Agrees ((ExecutionService.settle k r s result).1.record r) := by
  rw [record_settle]
  exact ⟨h, by simp [ExecutionService.settle, ExecPc.instances]⟩

theorem ExecPc.Agrees.of_transition (hc : s.Coherent) (ho : s.Owns r w) (h : (s.record r).Agrees)
    (hw : (s.record r).workflow = some w) {purpose : Purpose} {event : String} {target : WorkflowState}
    {actor : String} :
    (ExecutionService.transition s purpose d w event target actor now).2.Agrees
      ((ExecutionService.transition s purpose d w event target actor now).1.record r) := by
  unfold ExecutionService.transition
  cases ha : WorkflowOrchestrator.applyTransition s w event target actor now with
  | error e => exact ⟨h, by simp [ExecPc.instances]⟩
  | ok st =>
    obtain ⟨_, hrule, hs, ht⟩ := WorkflowOrchestrator.applyTransition_ok.1 ha
    dsimp only [ExecPc.Agrees]
    rw [hs, ht, record_saveWorkflow hc ((Derived.moved hrule).owns ho)]
    exact .begin h hw hrule

theorem ExecPc.Agrees.of_afterLoop (hc : s.Coherent) (ho : s.Owns r w) (h : (s.record r).Agrees)
    (hw : (s.record r).workflow = some w) :
    (ExecutionService.afterLoop k r s d w now).2.Agrees
      ((ExecutionService.afterLoop k r s d w now).1.record r) := by
  unfold ExecutionService.afterLoop
  split
  · exact .of_transition hc ho h hw
  · exact .of_settle h _

theorem ExecPc.Agrees.of_loop (hc : s.Coherent) (ho : s.Owns r w) (h : (s.record r).Agrees)
    (hw : (s.record r).workflow = some w) :
    (ExecutionService.loop k r s d w now).2.Agrees ((ExecutionService.loop k r s d w now).1.record r) := by
  unfold ExecutionService.loop
  split
  · exact .of_afterLoop hc ho h hw
  split
  · split
    · split
      · exact .of_settle h _
      · exact .of_transition hc ho h hw
    · exact .of_transition hc ho h hw
  · split
    · exact ⟨h, by simp [ExecPc.instances]⟩
    · refine ⟨?_, fun x hx => ?_⟩
      · unfold ExecutionService.invoke
        rw [record_invoke rfl]
        cases h with
        | unknown hnone hr => exact .unknown hnone hr
        | known hv hr hs hf => exact .known hv hr hs hf
      · rw [List.mem_singleton.1 hx]
        exact hw

theorem ExecPc.Agrees.of_afterTask (hc : s.Coherent) (ho : s.Owns r w) (h : (s.record r).Agrees)
    (hw : (s.record r).workflow = some w) {result : ExecuteResult} :
    (ExecutionService.afterTask k r s d w result now).2.Agrees
      ((ExecutionService.afterTask k r s d w result now).1.record r) := by
  unfold ExecutionService.afterTask
  split
  · exact .of_transition hc ho h hw
  · exact .of_loop hc ho h hw

/-- Saving what `updateTask` makes of the stored workflow. -/
theorem RunRecord.Agrees.updateTask (hc : s.Coherent) (ho : s.Owns r w) (h : (s.record r).Agrees)
    (hw : (s.record r).workflow = some w) {task : TaskRun} (ht : task.status ≠ .running) :
    ((s.saveWorkflow (ExecutionService.updateTask w task now)).record r).Agrees ∧
      ((s.saveWorkflow (ExecutionService.updateTask w task now)).record r).workflow =
        some (ExecutionService.updateTask w task now) := by
  rw [record_saveWorkflow hc ((ExecutionService.updateTask_derived ht).owns ho)]
  exact ⟨h.save hw rfl, rfl⟩

theorem ExecPc.Agrees.resume (hc : s.Coherent) (ho : ∀ w ∈ pc.instances, s.Owns r w) (h : pc.Agrees (s.record r))
    {x : Stores × ExecPc} (hx : ExecutionService.resume world k r s now pc = some x) :
    x.2.Agrees (x.1.record r) := by
  cases pc with
  | runRead found =>
    cases found <;> cases hx
    · exact .of_settle h.1 _
    · exact ⟨h.1, by simp [ExecPc.instances]⟩
  | definitionRead jobId found =>
    cases found <;> cases hx
    · exact .of_settle h.1 _
    · exact ⟨h.1, fun w hw => Option.mem_toList.1 hw⟩
  | workflowRead d found =>
    cases found with
    | none =>
      cases hx
      exact .of_settle h.1 _
    | some w =>
      have hw := h.2 w (by simp [ExecPc.instances])
      have how := ho w (by simp [ExecPc.instances])
      simp only [ExecutionService.resume] at hx
      split at hx
      · obtain rfl := Option.some.inj hx
        exact .of_transition hc how h.1 hw
      · cases hx
        exact h
  | started d w =>
    obtain rfl := Option.some.inj hx
    exact .of_loop hc (ho w (by simp [ExecPc.instances])) h.1 (h.2 w (by simp [ExecPc.instances]))
  | transition purpose d t =>
    have hot := ho t.next (by simp [ExecPc.instances])
    cases hres : t.resume world s now with
    | mk s₁ out =>
      have hout := TransitionCall.Agrees.resume hc hot h hres
      simp only [ExecutionService.resume, hres] at hx
      cases out with
      | suspended t' =>
        cases hx
        exact hout
      | threw e =>
        cases hx
        exact ⟨hout, by simp [ExecPc.instances]⟩
      | returned next =>
        obtain ⟨rfl, rfl⟩ := TransitionCall.resume_returned hres
        obtain rfl := Option.some.inj hx
        cases purpose with
        | start => exact .of_loop hc hot hout.1 hout.2
        | complete | await | fail => exact .of_afterLoop hc hot hout.1 hout.2
        | deadLetter =>
          refine ⟨?_, by simp [ExecutionService.afterTransition, ExecPc.instances]⟩
          unfold ExecutionService.afterTransition
          dsimp only
          rw [record_pushDeadLetter rfl]
          cases hout.1 with
          | unknown hnone hr => exact .unknown hnone hr
          | known hv hr hs hf => exact .known hv hr hs hf
  | handler d w nextDef running earlier =>
    obtain rfl := Option.some.inj hx
    obtain ⟨hagrees, hw'⟩ := h.1.updateTask hc (ho w (by simp [ExecPc.instances])) (h.2 w (by simp [ExecPc.instances]))
      ExecutionService.finish_status
    exact ⟨hagrees, fun v hv => by rw [List.mem_singleton.1 hv]; exact hw'⟩
  | taskSaved d w result =>
    simp only [ExecutionService.resume] at hx
    split at hx
    · cases hx
      exact h
    · obtain rfl := Option.some.inj hx
      exact .of_afterTask hc (ho w (by simp [ExecPc.instances])) h.1 (h.2 w (by simp [ExecPc.instances]))
  | sleeping d w result =>
    obtain rfl := Option.some.inj hx
    obtain ⟨hagrees, hw'⟩ := h.1.updateTask hc (ho w (by simp [ExecPc.instances])) (h.2 w (by simp [ExecPc.instances]))
      (show ({ result.task with status := .queued } : TaskRun).status ≠ .running by simp)
    exact ⟨hagrees, fun v hv => by rw [List.mem_singleton.1 hv]; exact hw'⟩
  | requeued d w result =>
    obtain rfl := Option.some.inj hx
    exact .of_afterTask hc (ho w (by simp [ExecPc.instances])) h.1 (h.2 w (by simp [ExecPc.instances]))
  | deadLetterPushed | rejected e =>
    obtain rfl := Option.some.inj hx
    exact .of_settle h.1 _
  | settled result => cases hx

/-- Every segment of a caller that uses the workflow. -/
theorem UsePc.Agrees.resume {wanted : Use} {pc : UsePc} (hc : s.Coherent) (ho : ∀ w ∈ pc.instances, s.Owns r w)
    (h : pc.Agrees (s.record r)) {x : Stores × UsePc} (hx : wanted.resume world r s now pc = some x) :
    x.2.Agrees (x.1.record r) := by
  cases pc with
  | read found =>
    cases found with
    | none =>
      cases hx
      exact ⟨h.1, by simp [UsePc.instances]⟩
    | some w =>
      have hw := h.2 w (by simp [UsePc.instances])
      have how := ho w (by simp [UsePc.instances])
      cases wanted with
      | applyTransition event target actor =>
        simp only [Use.resume] at hx
        cases ha : WorkflowOrchestrator.applyTransition s w event target actor now with
        | error e =>
          rw [ha] at hx
          cases hx
          exact ⟨h.1, by simp [UsePc.instances]⟩
        | ok st =>
          obtain ⟨_, hrule, hs, ht⟩ := WorkflowOrchestrator.applyTransition_ok.1 ha
          rw [ha] at hx
          cases hx
          dsimp only [UsePc.Agrees]
          rw [hs, ht, record_saveWorkflow hc ((Derived.moved hrule).owns how)]
          exact .begin h.1 hw hrule
      | captureCheckpoint label =>
        cases hx
        exact ⟨h.1, by simp [UsePc.instances]⟩
      | snapshot =>
        cases hx
        refine ⟨?_, by simp [UsePc.instances]⟩
        rw [record_saveWorkflow hc how]
        exact h.1.save hw rfl
  | transition t =>
    cases hres : t.resume world s now with
    | mk s₁ out =>
      have hout := TransitionCall.Agrees.resume hc (ho t.next (by simp [UsePc.instances])) h hres
      simp only [Use.resume, hres] at hx
      cases out with
      | suspended t' =>
        cases hx
        exact hout
      | threw e =>
        cases hx
        exact ⟨hout, by simp [UsePc.instances]⟩
      | returned next =>
        cases hx
        exact ⟨hout.1, by simp [UsePc.instances]⟩
  | saved =>
    cases hx
    exact ⟨h.1, by simp [UsePc.instances]⟩
  | settled result => cases hx

end

/-! ## One operation after another -/

def CreatePc.running : CreatePc → Option CreatePc
  | .settled _ => none
  | pc => some pc

/-- The call has not settled. -/
def Call.unsettled : Call → Bool
  | .execute _ _ pc => pc.running.isSome
  | .create _ _ _ pc => pc.running.isSome
  | .use _ _ pc => pc.running.isSome
  | .replay _ _ pc => pc.running.isSome

/-- No operation is under way. -/
def System.AllSettled (s : System) : Prop := ∀ c ∈ s.calls, c.unsettled = false

instance (s : System) : Decidable s.AllSettled := inferInstanceAs (Decidable (∀ c ∈ _, _))

/-- Operations begin only when no other is under way; runs are not replayed. -/
def Event.OneByOne (s : System) : Event → Prop
  | .createRun _ _ _ | .executeRun _ _ | .use _ _ | .restoreToCheckpoint _ _ _ => s.AllSettled
  | .replay _ _ => False
  | .register _ _ | .acquire _ _ | .release _ _ | .resume _ _ => True

instance (s : System) : (e : Event) → Decidable (e.OneByOne s)
  | .createRun _ _ _ | .executeRun _ _ | .use _ _ | .restoreToCheckpoint _ _ _ =>
    inferInstanceAs (Decidable s.AllSettled)
  | .replay _ _ => isFalse id
  | .register _ _ | .acquire _ _ | .release _ _ | .resume _ _ => isTrue trivial

/-- A checkpoint that is restored has the state of the workflow that it replaces. -/
def Event.KeepsState (s : System) : Event → Prop
  | .restoreToCheckpoint r version _ =>
    match s.stores.findSnapshot r version, s.stores.getByRunId r with
    | some snap, some w => snap.workflow.state = w.state
    | _, _ => True
  | _ => True

instance (s : System) : (e : Event) → Decidable (e.KeepsState s)
  | .restoreToCheckpoint r version now =>
    match hsnap : s.stores.findSnapshot r version, hw : s.stores.getByRunId r with
    | some snap, some w =>
      decidable_of_iff (snap.workflow.state = w.state) (by simp [Event.KeepsState, hsnap, hw])
    | some _, none | none, some _ | none, none => isTrue (by simp [Event.KeepsState, hsnap, hw])
  | .register _ _ | .createRun _ _ _ | .executeRun _ _ | .use _ _ | .replay _ _ | .acquire _ _ | .release _ _
  | .resume _ _ => isTrue trivial

/-- What the step does to the list of calls. -/
inductive CallsStep (s : System) (e : Event) (s' : System) : Prop where
  | same (h : s'.calls = s.calls)
  | made (c : Call) (ha : s.AllSettled) (hc : ∀ k r pc, c ≠ .replay k r pc) (h : s'.calls = s.calls ++ [c])
  | moved (i : Nat) (reply : Reply) (c c' : Call) (he : e = .resume i reply) (hi : s.calls[i]? = some c)
      (hu : c.unsettled = true) (hc : ∀ k r pc, c' ≠ .replay k r pc) (h : s'.calls = s.calls.set i c')

/-- What the stores and the calls have about one run while operations follow one another. -/
inductive RunAgrees : RunView → Prop where
  | rest {rec : RunRecord} (h : rec.Agrees) : RunAgrees ⟨rec, [], [], [], []⟩
  | executing {rec : RunRecord} {pc : ExecPc} (h : pc.Agrees rec) : RunAgrees ⟨rec, [pc], [], [], []⟩
  | inUse {rec : RunRecord} {wanted : Use} {pc : UsePc} (h : pc.Agrees rec) :
      RunAgrees ⟨rec, [], [(wanted, pc)], [], []⟩
  | creating {rec : RunRecord} {run : JobRun} {w : WorkflowInstance} (hw : rec.workflow = some w)
      (hs : run.status = w.state) (hf : run.finishedAt.isSome = WorkflowStateMachine.isTerminal w.state) :
      RunAgrees ⟨rec, [], [], [run], []⟩

/-- At most one call is under way, and the records of every run agree but for what it has still to write. -/
structure Sequential (s : System) : Prop where
  coherent : s.Coherent
  replays : ∀ k r pc, Call.replay k r pc ∉ s.calls
  single : ∀ (i j : Nat) (c c' : Call), s.calls[i]? = some c → s.calls[j]? = some c' → c.unsettled = true →
    c'.unsettled = true → i = j
  runs : ∀ r, RunAgrees (s.view r)

section
variable {world : World} {r : RunId} {s s' : System} {e : Event}

/-- A settled call concerns no run. -/
theorem Call.silent_of_settled {c : Call} (h : c.unsettled = false) (r : RunId) :
    c.executing r = none ∧ c.uses r = none ∧ c.creating r = none ∧ c.replaying r = none := by
  cases c with
  | execute k r' pc =>
    have hnone : pc.running = none := by simpa [unsettled] using h
    refine ⟨?_, rfl, rfl, rfl⟩
    simp [Call.executing, hnone]
  | create jobId trigger input pc =>
    refine ⟨rfl, rfl, ?_, rfl⟩
    cases pc with
    | settled result => rfl
    | _ => cases h
  | use r' wanted pc =>
    have hnone : pc.running = none := by simpa [unsettled] using h
    refine ⟨rfl, ?_, rfl, rfl⟩
    simp [Call.uses, hnone]
  | replay k r' pc =>
    have hnone : pc.running = none := by simpa [unsettled] using h
    refine ⟨rfl, rfl, rfl, ?_⟩
    simp [Call.replaying, hnone]

theorem view_atRest (h : ∀ c ∈ s.calls, c.executing r = none ∧ c.uses r = none ∧ c.creating r = none ∧
    c.replaying r = none) : (s.view r).AtRest :=
  ⟨List.filterMap_eq_nil_iff.2 fun c hc => (h c hc).1, List.filterMap_eq_nil_iff.2 fun c hc => (h c hc).2.1,
    List.filterMap_eq_nil_iff.2 fun c hc => (h c hc).2.2.1, List.filterMap_eq_nil_iff.2 fun c hc => (h c hc).2.2.2⟩

theorem System.AllSettled.atRest (h : s.AllSettled) (r : RunId) : (s.view r).AtRest :=
  view_atRest fun c hc => Call.silent_of_settled (h c hc) r

theorem RunView.AtRest.eq {v : RunView} (h : v.AtRest) : v = ⟨v.record, [], [], [], []⟩ :=
  RunView.ext rfl h.executing h.uses h.creating h.replaying

theorem RunAgrees.of_atRest {v : RunView} (h : RunAgrees v) (hv : v.AtRest) : v.record.Agrees := by
  rw [hv.eq] at h
  cases h with
  | rest h => exact h

/-- Without replays, a step makes a call, resumes one or leaves the calls alone. -/
theorem System.step_calls (hr : ∀ k r pc, Call.replay k r pc ∉ s.calls) (he : e.OneByOne s)
    (hs : s.step world e = some s') : CallsStep s e s' := by
  cases System.step_cases hs with
  | registered | notRegistered | restored | notRestored | acquired | notAcquired | released => exact .same rfl
  | createCalled | executeCalled | useCalled => exact .made _ he (by simp) rfl
  | replayCalled => exact absurd he id
  | executed hi hx =>
    exact .moved _ _ _ _ rfl hi (by simp [Call.unsettled, ExecutionService.resume_running hx]) (by simp) rfl
  | created hi hx =>
    refine .moved _ _ _ _ rfl hi ?_ (by simp) rfl
    cases hx <;> rfl
  | @used _ _ _ _ pc _ hi hx =>
    refine .moved _ _ _ _ rfl hi ?_ (by simp) rfl
    cases pc with
    | settled result => cases hx
    | _ => rfl
  | replayed hi | replayExecutes hi => exact absurd (List.mem_of_getElem? hi) (hr _ _ _)

/-- At most one call stays under way. -/
theorem CallsStep.single (h : CallsStep s e s')
    (hs : ∀ (i j : Nat) (c c' : Call), s.calls[i]? = some c → s.calls[j]? = some c' → c.unsettled = true →
      c'.unsettled = true → i = j) (i j : Nat) (c c' : Call) (hi : s'.calls[i]? = some c)
    (hj : s'.calls[j]? = some c') (hu : c.unsettled = true) (hu' : c'.unsettled = true) : i = j := by
  cases h with
  | same hcalls =>
    rw [hcalls] at hi hj
    exact hs i j c c' hi hj hu hu'
  | made new ha hc hcalls =>
    -- only the new call can be unsettled
    have hlast : ∀ (n : Nat) (c : Call), s'.calls[n]? = some c → c.unsettled = true → n = s.calls.length := by
      intro n c hn hun
      rw [hcalls] at hn
      by_contra hne
      have hlt : n < s.calls.length := by
        obtain ⟨hlen, _⟩ := List.getElem?_eq_some_iff.1 hn
        rw [List.length_append, List.length_singleton] at hlen
        omega
      rw [List.getElem?_append_left hlt] at hn
      rw [ha c (List.mem_of_getElem? hn)] at hun
      cases hun
    rw [hlast i c hi hu, hlast j c' hj hu']
  | moved m reply old new he hm hold hc hcalls =>
    -- only the call that has moved can be unsettled
    have hmoved : ∀ (n : Nat) (c : Call), s'.calls[n]? = some c → c.unsettled = true → n = m := by
      intro n c hn hun
      by_contra hne
      rw [hcalls, List.getElem?_set_ne (Ne.symm hne)] at hn
      exact hne (hs n m c old hn hm hun hold)
    rw [hmoved i c hi hu, hmoved j c' hj hu']

theorem CallsStep.replays (h : CallsStep s e s') (hr : ∀ k r pc, Call.replay k r pc ∉ s.calls) :
    ∀ k r pc, Call.replay k r pc ∉ s'.calls := by
  intro k r pc hmem
  cases h with
  | same hcalls => exact hr k r pc (hcalls ▸ hmem)
  | made c ha hc hcalls =>
    rw [hcalls] at hmem
    rcases List.mem_append.1 hmem with hold | hnew
    · exact hr k r pc hold
    · exact hc k r pc (List.mem_singleton.1 hnew).symm
  | moved i reply c c' he hi hu hc hcalls =>
    rw [hcalls] at hmem
    rcases List.mem_or_eq_of_mem_set hmem with hold | hnew
    · exact hr k r pc hold
    · exact hc k r pc hnew.symm

/-- While a call is under way no other call concerns any run. -/
theorem Sequential.atRest (h : Sequential s) {i : Nat} {c : Call} (hi : s.calls[i]? = some c)
    (hu : c.unsettled = true)
    (hc : c.executing r = none ∧ c.uses r = none ∧ c.creating r = none ∧ c.replaying r = none) :
    (s.view r).AtRest := by
  refine view_atRest fun c' hc' => ?_
  by_cases hu' : c'.unsettled = true
  · obtain ⟨j, hj⟩ := List.mem_iff_getElem?.1 hc'
    obtain rfl := h.single i j c c' hi hj hu hu'
    rw [hi, Option.some.injEq] at hj
    exact hj ▸ hc
  · exact Call.silent_of_settled (Bool.not_eq_true _ ▸ hu') r

/-- A list with one element, split at an element. -/
theorem singleton_split {α : Type} {a b : α} {before after : List α} (h : [a] = before ++ b :: after) :
    before = [] ∧ after = [] ∧ a = b := by
  cases before with
  | nil =>
    obtain ⟨hab, hafter⟩ := List.cons.inj h
    exact ⟨rfl, hafter.symm, hab⟩
  | cons x xs =>
    have := congrArg List.length h
    simp at this

/-- A step that restores no checkpoint of another state. -/
theorem Sequential.runs_step (h : Sequential s) (he : e.OneByOne s) (hs : s.step world e = some s')
    (hk : e.KeepsState s) (r : RunId) : RunAgrees (s'.view r) := by
  have hruns := h.runs r
  cases System.step_run (r := r) h.coherent hs with
  | same ho hn hv =>
    rw [hv]
    exact hruns
  | opened k pcs replays ho hpcs hreplays hv =>
    have hall : s.AllSettled := by
      unfold Event.opens at ho
      split at ho
      · exact he
      · split at ho
        · rename_i hi
          exact absurd (List.mem_of_getElem? hi) (h.replays _ _ _)
        · cases ho
      · cases ho
    have hrest := hall.atRest r
    have hagrees := hruns.of_atRest hrest
    have hexec : s.executing r = [] := hrest.executing
    rw [hv, hrest.eq, hexec, hreplays.resolve_right (not_not.2 hrest.replaying)]
    rcases hpcs with rfl | rfl
    · exact .rest hagrees
    · exact .executing ⟨hagrees, by simp [ExecPc.instances]⟩
  | executed k i pc now x before after he' hx hown hpcs hv =>
    rw [hv]
    have hpcs' : (s.view r).executing = before ++ pc :: after := hpcs
    have hrec : (s.view r).record = s.stores.record r := rfl
    generalize s.view r = v at hruns hpcs' hrec
    cases hruns with
    | executing hpc =>
      obtain ⟨rfl, rfl, rfl⟩ := singleton_split hpcs'
      obtain rfl := hrec
      have hpc' := hpc.resume h.coherent.stores hown hx
      rcases ExecPc.running_segment x.2 with ⟨hrun, _⟩ | ⟨hrun, hseg⟩
      · simp only [hrun, Option.toList_some, List.nil_append, List.append_nil]
        exact .executing hpc'
      · simp only [hrun, Option.toList_none, List.nil_append]
        cases hx₂ : x.2 with
        | settled result =>
          rw [hx₂] at hpc'
          exact .rest hpc'.1
        | _ =>
          rw [hx₂] at hrun
          cases hrun
    | rest _ | inUse _ | creating _ _ _ => simp at hpcs'
  | called wanted he' hv =>
    subst he'
    have hall : s.AllSettled := he
    have hrest := hall.atRest r
    have hagrees := hruns.of_atRest hrest
    rw [hv, hrest.eq]
    exact .inUse ⟨hagrees, fun w hw => Option.mem_toList.1 hw⟩
  | used i reply wanted pc x before after he' hi hx hown huses hv =>
    rw [hv]
    have hrec : (s.view r).record = s.stores.record r := rfl
    generalize s.view r = v at hruns huses hrec
    cases hruns with
    | inUse hpc =>
      obtain ⟨rfl, rfl, heq⟩ := singleton_split huses
      cases heq
      obtain rfl := hrec
      have hpc' := hpc.resume h.coherent.stores hown hx
      cases hx₂ : x.2 with
      | settled result =>
        rw [hx₂] at hpc'
        exact .rest hpc'.1
      | _ =>
        rw [hx₂] at hpc'
        exact .inUse hpc'
    | rest _ | executing _ | creating _ _ _ => simp at huses
  | created i reply definition jobId trigger input before after he' hi hid hfresh hcreating hv =>
    have hrest := h.atRest (r := r) hi rfl ⟨rfl, rfl, rfl, rfl⟩
    rw [hrest.creating] at hcreating
    obtain ⟨rfl, rfl⟩ := List.append_eq_nil_iff.1 hcreating.symm
    rw [hv, hrest.eq]
    exact .creating rfl rfl rfl
  | runSaved i reply jobId trigger input run before after he' hi hcreating hv =>
    rw [hv]
    have hrec : (s.view r).record = s.stores.record r := rfl
    generalize s.view r = v at hruns hcreating hrec
    cases hruns with
    | creating hw hstatus hfinished =>
      obtain ⟨rfl, rfl, rfl⟩ := singleton_split hcreating
      obtain rfl := hrec
      exact .rest (.known hw rfl hstatus hfinished)
    | rest _ | executing _ | inUse _ => simp at hcreating
  | restored version now snap he' hsnap hv =>
    subst he'
    have hall : s.AllSettled := he
    have hrest := hall.atRest r
    have hagrees := hruns.of_atRest hrest
    rw [hv, hrest.eq]
    have hown := h.coherent.stores.snapshots r snap (Stores.findSnapshot_mem hsnap)
    obtain ⟨w, hw, _⟩ := h.coherent.stores.getByRunId_isSome hown.2
    unfold Event.KeepsState at hk
    simp only [hsnap, hw] at hk
    exact .rest (hagrees.save hw hk)
  | replayed replays he' ho hn hv =>
    rcases he' with ⟨k, rfl⟩ | hne
    · exact absurd he id
    · refine absurd ?_ hne
      refine List.filterMap_eq_nil_iff.2 fun c hc => ?_
      cases c with
      | replay k r' pc => exact absurd hc (h.replays k r' pc)
      | _ => rfl

theorem Sequential.step (h : Sequential s) (he : e.OneByOne s) (hs : s.step world e = some s')
    (hk : e.KeepsState s) : Sequential s' := by
  have hcalls := System.step_calls h.replays he hs
  exact ⟨h.coherent.step hs, hcalls.replays h.replays, hcalls.single h.single, h.runs_step he hs hk⟩

theorem Sequential.agrees (h : Sequential s) (hall : s.AllSettled) (r : RunId) : (s.stores.record r).Agrees :=
  (h.runs r).of_atRest (hall.atRest r)

/-- Restoring a checkpoint of another state leaves the `JobRun` behind. -/
theorem Sequential.disagrees (h : Sequential s) (he : e.OneByOne s) (hs : s.step world e = some s')
    (hk : ¬ e.KeepsState s) : ¬ (s'.AllSettled → ∀ r, (s'.stores.record r).Agrees) := by
  intro hagrees
  cases e with
  | restoreToCheckpoint r version now =>
    have hall : s.AllSettled := he
    have hbefore := h.agrees hall r
    unfold Event.KeepsState at hk
    dsimp only at hk
    split at hk
    · rename_i snap w hsnap hw
      cases hs
      have hafter := hagrees hall r
      have hown := h.coherent.stores.restored_owns hsnap now
      rw [restoreToCheckpoint_findSnapshot, hsnap] at hafter
      rw [record_saveWorkflow h.coherent.stores hown] at hafter
      cases hbefore with
      | unknown hnone _ =>
        have hget : s.stores.getByRunId r = none := hnone
        rw [hw] at hget
        cases hget
      | known hv hr hstatus _ =>
        obtain rfl := Option.some.inj (hw.symm.trans hv)
        cases hafter with
        | unknown hnone _ => cases hnone
        | known hv' hr' hstatus' _ =>
          obtain rfl := Option.some.inj hv'
          obtain rfl := Option.some.inj (hr.symm.trans hr')
          exact hk (hstatus'.symm.trans hstatus)
    · exact hk trivial
  | _ => exact hk trivial

theorem Sequential.empty : Sequential .empty where
  coherent := System.empty_coherent
  replays := fun _ _ _ h => by cases h
  single := fun _ _ _ _ h => by cases h
  runs := fun _ => .rest (.unknown rfl rfl)

end

/-- In any sequence of operations, one after another: the records of every run agree after each of them exactly as long
as a checkpoint is restored only when it has the state of the workflow that it replaces. -/
theorem run_workflow_agree_iff {world : World} {events : List Event}
    (hok : EventSystem.Along (System.step world) (fun s e _ => e.OneByOne s) .empty events) :
    EventSystem.Along (System.step world) (fun _ _ s => s.AllSettled → ∀ r, (s.stores.record r).Agrees) .empty
        events ↔
      EventSystem.Along (System.step world) (fun s e _ => e.KeepsState s) .empty events := by
  refine EventSystem.along_iff_within (fun s e s' h he hs => ?_) Sequential.empty hok
  by_cases hk : e.KeepsState s
  · have h' := h.step he hs hk
    exact ⟨iff_of_true h'.agrees hk, fun _ => h'⟩
  · exact ⟨iff_of_false (h.disagrees he hs hk) hk, fun hc => absurd hc hk⟩

/-- A run is created, a checkpoint of it captured and restored at once, and the run executed to the end. -/
def sampleOperations : List Event :=
  sampleCreated sampleChain ++ [.use "run_1" (.captureCheckpoint none), .resume 1 (sampleReply sampleChain),
    .restoreToCheckpoint "run_1" none "t"] ++ .executeRun 0 "run_1" ::
    List.replicate 15 (.resume 2 (sampleReply sampleChain))

theorem run_workflow_agree_iff_sample :
    EventSystem.Along (System.step (sampleWorld fun _ _ => false))
      (fun _ _ s => s.AllSettled → ∀ r, (s.stores.record r).Agrees) .empty sampleOperations :=
  (run_workflow_agree_iff (by decide +kernel)).2 (by decide +kernel)

/-- After that the checkpoint is restored again: the workflow is pending, its `JobRun` completed and finished. -/
theorem restored_run_still_completed :
    EventSystem.Along (System.step (sampleWorld fun _ _ => false)) (fun s e _ => e.OneByOne s) .empty
      (sampleOperations ++ [.restoreToCheckpoint "run_1" none "t"]) ∧
    ∃ s, EventSystem.exec (System.step (sampleWorld fun _ _ => false)) .empty
        (sampleOperations ++ [.restoreToCheckpoint "run_1" none "t"]) = some s ∧ s.AllSettled ∧
      (s.stores.getByRunId "run_1").map (·.state) = some .pending ∧
      (s.stores.runs.get "run_1").map (fun run => (run.status, run.finishedAt.isSome)) = some (.completed, true) ∧
      ¬ (s.stores.record "run_1").Agrees := by
  refine ⟨by decide +kernel, ?_⟩
  have h : (EventSystem.exec (System.step (sampleWorld fun _ _ => false)) .empty
      (sampleOperations ++ [.restoreToCheckpoint "run_1" none "t"])).any (fun s => s.AllSettled ∧
        (s.stores.getByRunId "run_1").map (·.state) = some .pending ∧
        (s.stores.runs.get "run_1").map (fun run => (run.status, run.finishedAt.isSome)) =
          some (.completed, true)) = true := by decide +kernel
  obtain ⟨s, hs, hp⟩ := (Option.any_eq_true _ _).1 h
  obtain ⟨hall, hworkflow, hrun⟩ := of_decide_eq_true hp
  refine ⟨s, hs, hall, hworkflow, hrun, fun hagrees => ?_⟩
  obtain ⟨w, hw, hstate⟩ := Option.map_eq_some_iff.1 hworkflow
  obtain ⟨run, hr, hstatus⟩ := Option.map_eq_some_iff.1 hrun
  cases hagrees with
  | unknown hnone _ =>
    have hget : s.stores.getByRunId "run_1" = none := hnone
    rw [hw] at hget
    cases hget
  | known hv hr' hs' _ =>
    obtain rfl := Option.some.inj (hw.symm.trans hv)
    obtain rfl := Option.some.inj (hr.symm.trans hr')
    rw [(Prod.mk.inj hstatus).1, hstate] at hs'
    cases hs'

end Jobflow
