import Jobflow.Retries

/-!
# Executing a failed run again

`startRun` only starts pending workflows, the loop is skipped unless the workflow is running, and nothing in
`executeRun` takes the `retry` transition. So executing a failed run again, directly or by `replay`, either
dead-letters it, if the attempts made so far reach the threshold of the definition that is registered now, or
changes nothing at all.
-/

namespace Jobflow

/-! ## What can happen to the record -/

/-- A run that has failed. -/
structure FailedRun (d : JobDefinition) (w : WorkflowInstance) (rec₀ : RunRecord) : Prop where
  workflow : rec₀.workflow = some w
  failed : w.state = .failed
  run : ∃ run, rec₀.run = some run ∧ run.jobId = d.id

/-- The run of `rec₀` has been moved to `dead_lettered`, as the instance `w'`; `entries` have been pushed. -/
structure DeadLetters (d : JobDefinition) (rec₀ rec : RunRecord) (w' : WorkflowInstance)
    (entries : List DeadLetterEntry) : Prop where
  workflow : rec.workflow = some w'
  state : w'.state = .deadLettered
  run : ∃ run, rec.run = some run ∧ run.jobId = d.id
  deadLetters : rec.deadLetters = rec₀.deadLetters ++ entries
  invocations : rec.invocations = rec₀.invocations

/-- The record of a failed run that may have been executed again. -/
inductive Again (d : JobDefinition) (w : WorkflowInstance) (rec₀ rec : RunRecord) : Prop where
  | unchanged (h : rec = rec₀)
  | deadLettered {w' : WorkflowInstance} {entry : DeadLetterEntry} (ht : OverThreshold d w)
      (h : DeadLetters d rec₀ rec w' [entry])

/-- The record of a failed run that has been executed again. -/
inductive Recovered (d : JobDefinition) (w : WorkflowInstance) (rec₀ rec : RunRecord) : Prop where
  | unchanged (ht : ¬ OverThreshold d w) (h : rec = rec₀)
  | deadLettered {w' : WorkflowInstance} {entry : DeadLetterEntry} (ht : OverThreshold d w)
      (h : DeadLetters d rec₀ rec w' [entry])

/-- The invariant of a failed run that is being executed again; `Rest` is what holds between two executions. -/
inductive RecoveryInv (d : JobDefinition) (w : WorkflowInstance) (rec₀ : RunRecord) (Rest : RunRecord → Prop) :
    Option ExecPc → RunRecord → Prop where
  | rest {rec : RunRecord} (h : Rest rec) : RecoveryInv d w rec₀ Rest none rec
  | runRead {rec : RunRecord} (h : Again d w rec₀ rec) : RecoveryInv d w rec₀ Rest (some (.runRead rec.run)) rec
  | definitionRead {rec : RunRecord} (h : Again d w rec₀ rec) :
      RecoveryInv d w rec₀ Rest (some (.definitionRead d.id (some d))) rec
  | workflowRead {rec : RunRecord} (h : Again d w rec₀ rec) :
      RecoveryInv d w rec₀ Rest (some (.workflowRead d rec.workflow)) rec
  | started {rec : RunRecord} {w' : WorkflowInstance} (h : Again d w rec₀ rec) (hw : rec.workflow = some w') :
      RecoveryInv d w rec₀ Rest (some (.started d w')) rec
  | transition {rec : RunRecord} {t : TransitionCall} (ht : OverThreshold d w)
      (h : DeadLetters d rec₀ rec t.next []) :
      RecoveryInv d w rec₀ Rest (some (.transition .deadLetter d t)) rec
  | deadLetterPushed {rec : RunRecord} {w' : WorkflowInstance} {entry : DeadLetterEntry} (ht : OverThreshold d w)
      (h : DeadLetters d rec₀ rec w' [entry]) : RecoveryInv d w rec₀ Rest (some .deadLetterPushed) rec

section
variable {world : World} {k : Nat} {r : RunId} {d : JobDefinition} {w : WorkflowInstance} {rec₀ rec : RunRecord}
  {Rest : RunRecord → Prop} {s : Stores} {now : ISODateString}

theorem Again.run (hf : FailedRun d w rec₀) (h : Again d w rec₀ rec) :
    ∃ run, rec.run = some run ∧ run.jobId = d.id := by
  cases h with
  | unchanged h => exact h ▸ hf.run
  | deadLettered _ h => exact h.run

/-- The stored instance, which is not running either way. -/
theorem Again.workflow (hf : FailedRun d w rec₀) (h : Again d w rec₀ rec) :
    ∃ w', rec.workflow = some w' ∧ (w' = w ∧ rec = rec₀ ∧ w'.state = .failed ∨
      w'.state = .deadLettered ∧ Recovered d w rec₀ rec) := by
  cases h with
  | unchanged h => exact ⟨w, h ▸ hf.workflow, .inl ⟨rfl, h, hf.failed⟩⟩
  | deadLettered ht h => exact ⟨_, h.workflow, .inr ⟨h.state, .deadLettered ht h⟩⟩

/-- The segment that follows `startRun`: the loop is skipped. -/
theorem RecoveryInv.loop (hf : FailedRun d w rec₀) (hrest : ∀ rec, Recovered d w rec₀ rec → Rest rec)
    (hc : s.Coherent) {w' : WorkflowInstance} (ho : s.Owns r w') (h : Again d w rec₀ (s.record r))
    (hw : (s.record r).workflow = some w') :
    RecoveryInv d w rec₀ Rest (ExecutionService.loop k r s d w' now).2.running
      ((ExecutionService.loop k r s d w' now).1.record r) := by
  obtain ⟨w'', hw'', hcases⟩ := h.workflow hf
  obtain rfl := Option.some.inj (hw.symm.trans hw'')
  have hsettle : Recovered d w rec₀ (s.record r) → RecoveryInv d w rec₀ Rest
      (ExecutionService.settle k r s (.ok ())).2.running ((ExecutionService.settle k r s (.ok ())).1.record r) :=
    fun hrec => by
      rw [record_settle]
      exact .rest (hrest _ hrec)
  rcases hcases with ⟨rfl, hsame, hfailed⟩ | ⟨hdead, hrec⟩
  · rw [ExecutionService.loop, if_pos (by simp [hfailed]), ExecutionService.afterLoop]
    by_cases ht : OverThreshold d w'
    · rw [if_pos ⟨hfailed, ht⟩, transition_accepted (TransitionGuard.evaluate_other (by decide) (by decide)
        (by decide))
        (by rw [hfailed]; decide)]
      have ho' : s.Owns r (w'.moved "dead_letter" .deadLettered ExecutionService.owner none now) :=
        (Derived.moved (by rw [hfailed]; decide)).owns ho
      dsimp only [ExecPc.running]
      rw [record_saveWorkflow hc ho']
      refine .transition ht ⟨rfl, rfl, ?_, by rw [hsame, List.append_nil], by rw [hsame]⟩
      rw [hsame]
      exact hf.run
    · rw [if_neg fun hx => ht hx.2]
      exact hsettle (.unchanged ht hsame)
  · rw [ExecutionService.loop, if_pos (by simp [hdead]), ExecutionService.afterLoop, if_neg (by simp [hdead])]
    exact hsettle hrec

/-- A segment of the `dead_letter` transition. -/
theorem RecoveryInv.resume_transition (hq : world.Quiet) (hc : s.Coherent) {tc : TransitionCall}
    (ho : s.Owns r tc.next) (ht : OverThreshold d w) (h : DeadLetters d rec₀ (s.record r) tc.next [])
    {x : Stores × ExecPc} (hx : ExecutionService.resume world k r s now (.transition .deadLetter d tc) = some x) :
    RecoveryInv d w rec₀ Rest x.2.running (x.1.record r) := by
  obtain ⟨heard, hann⟩ := announce_quiet hq s tc now
  cases hst : tc.stage with
  | workflowSaved =>
    simp only [ExecutionService.resume, TransitionCall.resume, hst] at hx
    cases hx
    exact .transition ht h
  | runRead found =>
    cases found with
    | false =>
      simp only [ExecutionService.resume, TransitionCall.resume, hst, hann] at hx
      cases hx
      exact .transition ht h
    | true =>
      simp only [ExecutionService.resume, TransitionCall.resume, hst] at hx
      cases hx
      obtain ⟨run, hrun, hjob⟩ := h.run
      obtain ⟨run', hjob', _, hrec⟩ := record_updateRun hc hrun tc.target now
      dsimp only
      rw [ho.1, hrec]
      exact .transition ht ⟨h.workflow, h.state, ⟨run', rfl, hjob'.trans hjob⟩, h.deadLetters, h.invocations⟩
  | runSaved =>
    simp only [ExecutionService.resume, TransitionCall.resume, hst, hann] at hx
    cases hx
    exact .transition ht h
  | returned =>
    simp only [ExecutionService.resume, TransitionCall.resume, hst] at hx
    obtain rfl := Option.some.inj hx
    let entry : DeadLetterEntry :=
      { runId := r, reason := .maxRetriesExceeded, workflowId := tc.next.id, timestamp := now }
    show RecoveryInv d w rec₀ Rest (some .deadLetterPushed) ((s.pushDeadLetter entry).record r)
    have hdl : DeadLetters d rec₀ ((s.pushDeadLetter entry).record r) tc.next [entry] := by
      rw [record_pushDeadLetter rfl]
      exact ⟨h.workflow, h.state, h.run, by rw [h.deadLetters, List.append_nil], h.invocations⟩
    exact .deadLetterPushed ht hdl

/-- Every segment of `executeRun` on a failed run keeps the invariant. -/
theorem recovery_closed (hq : world.Quiet) (hf : FailedRun d w rec₀)
    (hrest : ∀ rec, Recovered d w rec₀ rec → Rest rec) (hagain : ∀ rec, Rest rec → Again d w rec₀ rec) :
    Closed world k r d (RecoveryInv d w rec₀ Rest) where
  begin := fun rec h => by
    cases h with
    | rest h => exact .runRead (hagain rec h)
  resume := fun s now pc x hc hjobs ho h hx => by
    cases h with
    | runRead h =>
      obtain ⟨run, hrun, hjob⟩ := h.run hf
      rw [hrun] at hx
      obtain rfl := Option.some.inj hx
      simp only [ExecPc.running, hjob, hjobs]
      exact .definitionRead h
    | definitionRead h =>
      obtain rfl := Option.some.inj hx
      exact .workflowRead h
    | workflowRead h =>
      obtain ⟨w', hw', hcases⟩ := h.workflow hf
      rw [hw'] at hx
      have hne : w'.state ≠ .pending := by
        rcases hcases with ⟨_, _, hs⟩ | ⟨hs, _⟩ <;> simp [hs]
      simp only [ExecutionService.resume, if_neg hne] at hx
      obtain rfl := Option.some.inj hx
      exact .started h hw'
    | started h hw =>
      obtain rfl := Option.some.inj hx
      exact RecoveryInv.loop hf hrest hc (ho _ (by simp [ExecPc.instances])) h hw
    | transition ht h => exact RecoveryInv.resume_transition hq hc (ho _ (by simp [ExecPc.instances])) ht h hx
    | deadLetterPushed ht h =>
      obtain rfl := Option.some.inj hx
      rw [record_settle]
      exact .rest (hrest _ (.deadLettered ht h))

theorem RecoveryInv.savesTask {pc : ExecPc} (h : RecoveryInv d w rec₀ Rest (some pc) rec) :
    pc.savesTask = false := by
  cases h <;> rfl

/-- What a failed run looks like once it has been executed again. -/
theorem recovered {d : JobDefinition} {w : WorkflowInstance} {s s' : System} {events : List Event}
    (hq : world.Quiet) (hf : FailedRun d w (s.stores.record r)) (hreach : System.Reachable world s)
    (hd : s.stores.jobs.get d.id = some d) (hidle : s.executing r = []) (hunlocked : s.stores.Unlocked k r)
    (hcalm : ∀ c ∈ s.calls, ¬ c.Disturbs k r) (hok : ∀ e ∈ events, e.Undisturbed k r d.id)
    (hs : EventSystem.exec (System.step world) s events = some s') :
    s'.Settles world k r ∧ (s'.ExecutedSince s.calls.length k r → s'.executing r = [] →
      Recovered d w (s.stores.record r) (s'.stores.record r)) := by
  have hc := hreach.coherent
  have hagain : ∀ rec, Recovered d w (s.stores.record r) rec → Again d w (s.stores.record r) rec := fun rec h => by
    cases h with
    | unchanged _ h => exact .unchanged h
    | deadLettered ht h => exact .deadLettered ht h
  have hI : Closed world k r d (RecoveryInv d w (s.stores.record r) (Again d w (s.stores.record r))) :=
    recovery_closed hq hf hagain fun _ => id
  have hJ : Closed world k r d (RecoveryInv d w (s.stores.record r) (Recovered d w (s.stores.record r))) :=
    recovery_closed hq hf (fun _ => id) hagain
  have hon : OnRun k r d (RecoveryInv d w (s.stores.record r) (Again d w (s.stores.record r))) s := by
    refine ⟨hc, hd, ⟨_, (hc.stores.getByRunId_owns hf.workflow).2⟩, hcalm, ?_⟩
    rw [hidle]
    exact .rest hunlocked (.rest (.unchanged rfl))
  have hlt : Lowers world k r d (RecoveryInv d w (s.stores.record r) (Again d w (s.stores.record r))) :=
    fun _ _ _ _ h hx => ExecPc.weight_lt h.savesTask hx
  refine ⟨hI.settles hlt (hI.exec hon hok hs), fun hx hrest => ?_⟩
  -- while it is being executed the two invariants say the same
  have hsame : ∀ pc rec, RecoveryInv d w (s.stores.record r) (Again d w (s.stores.record r)) (some pc) rec →
      RecoveryInv d w (s.stores.record r) (Recovered d w (s.stores.record r)) (some pc) rec := by
    intro pc rec h
    cases h with
    | runRead h => exact .runRead h
    | definitionRead h => exact .definitionRead h
    | workflowRead h => exact .workflowRead h
    | started h hw => exact .started h hw
    | transition ht h => exact .transition ht h
    | deadLetterPushed ht h => exact .deadLetterPushed ht h
  cases (Closed.exec_executed hI hJ hsame hon hok hs hx).rest hrest with
  | rest h => exact h

end

/-! ## Recovery -/

/-- The run has been retried, and the handler of a task that had failed has been called again. -/
def Retried (before after : RunRecord) (w : WorkflowInstance) : Prop :=
  (∃ w', after.workflow = some w' ∧ ∃ e ∈ w'.history.drop w.history.length,
      e.event = "retry" ∧ e.toState = .running) ∧
    ∃ t ∈ w.tasks, t.status = .failed ∧
      (attemptsOf before.invocations t.definitionTaskId).length <
        (attemptsOf after.invocations t.definitionTaskId).length

/-- The run has been dead-lettered. -/
def DeadLettered (before after : RunRecord) : Prop :=
  (∃ w', after.workflow = some w' ∧ w'.state = .deadLettered) ∧
  before.deadLetters.length < after.deadLetters.length

/-- Executing a failed run again, directly or by `replay`, retries or dead-letters it exactly when its attempts
reach the threshold of the definition, and otherwise changes nothing. -/
theorem failed_run_recovers_iff {world : World} {k : Nat} {r : RunId} {d : JobDefinition} {w : WorkflowInstance}
    {run : JobRun} {s s' : System} {events : List Event} (hwired : world.Wired) (hreach : System.Reachable world s)
    (hw : s.stores.getByRunId r = some w) (hfailed : w.state = .failed) (hrun : s.stores.runs.get r = some run)
    (hd : s.stores.jobs.get run.jobId = some d) (hidle : s.executing r = []) (hunlocked : s.stores.Unlocked k r)
    (hcalm : ∀ c ∈ s.calls, ¬ c.Disturbs k r) (hok : ∀ e ∈ events, e.Undisturbed k r d.id)
    (hs : EventSystem.exec (System.step world) s events = some s') :
    s'.Settles world k r ∧ (s'.ExecutedSince s.calls.length k r → s'.executing r = [] →
      (((Retried (s.stores.record r) (s'.stores.record r) w ∨
        DeadLettered (s.stores.record r) (s'.stores.record r)) ∧
          ¬ ((s'.stores.record r).workflow = (s.stores.record r).workflow ∧
            (s'.stores.record r).run = (s.stores.record r).run ∧
            (s'.stores.record r).deadLetters = (s.stores.record r).deadLetters)) ↔
        d.retryPolicy.maxAttempts * (d.tasks.length : Int) ≤ (ExecutionService.attempts w : Int))) := by
  have hid : d.id = run.jobId := (hreach.coherent.stores.jobs _ _ hd).1
  have hf : FailedRun d w (s.stores.record r) := ⟨hw, hfailed, run, hrun, hid.symm⟩
  obtain ⟨hsettles, hrec⟩ := recovered hwired.quiet hf hreach (hid ▸ hd) hidle hunlocked hcalm hok hs
  refine ⟨hsettles, fun hx hrest => ?_⟩
  cases hrec hx hrest with
  | unchanged ht hsame => exact iff_of_false (fun h => h.2 (by rw [hsame]; exact ⟨rfl, rfl, rfl⟩)) ht
  | @deadLettered w' entry ht h =>
    have hlt : (s.stores.record r).deadLetters.length < (s'.stores.record r).deadLetters.length := by
      rw [h.deadLetters, List.length_append]
      exact Nat.lt_succ_self _
    refine iff_of_true ⟨.inr ⟨⟨w', h.workflow, h.state⟩, hlt⟩, fun he => ?_⟩ ht
    rw [he.2.2] at hlt
    exact absurd hlt (Nat.lt_irrefl _)

/-- A run that failed under its definition stays failed under it. -/
theorem NewRun.failed_stays {world : World} {k : Nat} {d : JobDefinition} {w₀ : WorkflowInstance}
    {s s₁ s₂ : System} {events₁ events₂ : List Event} (hq : world.Quiet) (h : NewRun world k d w₀ s)
    (hok₁ : ∀ e ∈ events₁, e.Undisturbed k w₀.runId d.id) (hok₂ : ∀ e ∈ events₂, e.Undisturbed k w₀.runId d.id)
    (hs₁ : EventSystem.exec (System.step world) s events₁ = some s₁)
    (hs₂ : EventSystem.exec (System.step world) s₁ events₂ = some s₂)
    (hx₁ : s₁.ExecutedSince s.calls.length k w₀.runId) (hrest₁ : s₁.executing w₀.runId = [])
    (hfailed : (s₁.stores.getByRunId w₀.runId).map (·.state) = some .failed)
    (hx₂ : s₂.ExecutedSince s₁.calls.length k w₀.runId) (hrest₂ : s₂.executing w₀.runId = []) :
    s₂.stores.record w₀.runId = s₁.stores.record w₀.runId := by
  have hon := h.exec hq hok₁ hs₁
  obtain ⟨w, hst, hfate⟩ := h.fate hq hok₁ hs₁ hx₁ hrest₁
  rw [show s₁.stores.getByRunId w₀.runId = some w from hst.workflow, Option.map_some, Option.some.injEq] at hfailed
  obtain ⟨run, hrun, hjob, _⟩ := hst.run
  have hrec := (recovered hq ⟨hst.workflow, hfailed, run, hrun, hjob⟩ (h.reachable.exec hs₁) hon.definition hrest₁
    (hon.unlocked hrest₁) hon.calm hok₂ hs₂).2 hx₂ hrest₂
  cases hrec with
  | unchanged _ h => exact h
  | deadLettered ht _ =>
    cases hfate with
    | failed _ _ hw hl => exact absurd ((hw.overThreshold_iff h.accepted h.instantiates).1 ht) hl
    | blocked hs | completed hs | deadLettered hs =>
      rw [hs] at hfailed
      cases hfailed

/-- A second call of `executeRun` for that run, and its segments. -/
def sampleAgain : List Event := .executeRun 0 "run_1" :: List.replicate 4 (.resume 2 (sampleReply sampleSecondTry))

theorem sampleAgain_undisturbed : ∀ e ∈ sampleAgain,
    e.Undisturbed 0 (sampleRun sampleSecondTry).runId sampleSecondTry.id := by
  decide +kernel

/-- The run that fails its two attempts, executed once more. -/
theorem sample_executed_again : ∃ s s', sampleAfter (fun _ _ => true) sampleSecondTry 13 = some s ∧
    s.executing "run_1" = [] ∧ s.ExecutedSince 1 0 "run_1" ∧
    (s.stores.getByRunId "run_1").map (fun w => (w.state, ExecutionService.attempts w)) = some (.failed, 1) ∧
    EventSystem.exec (System.step (sampleWorld fun _ _ => true)) s sampleAgain = some s' ∧
    s'.ExecutedSince s.calls.length 0 "run_1" ∧ s'.executing "run_1" = [] := by
  obtain ⟨s, hs, hrest, hx, hp⟩ := sample_at_rest (fun _ _ => true) sampleSecondTry 13
    (p := fun s => (s.stores.getByRunId "run_1").map (fun w => (w.state, ExecutionService.attempts w)) =
      some (.failed, 1)) (by decide +kernel)
  have hboth : (EventSystem.exec (System.step (sampleWorld fun _ _ => true))
      (firstRun sampleSecondTry [] (sampleReply sampleSecondTry))
      (sampleEvents sampleSecondTry 13 ++ sampleAgain)).any
        (fun s => (s.executing "run_1").isEmpty) = true := by decide +kernel
  obtain ⟨s', hs', hrest'⟩ := (Option.any_eq_true _ _).1 hboth
  obtain ⟨m, hm, hagain⟩ := EventSystem.exec_append.1 hs'
  obtain rfl := Option.some.inj (hs.symm.trans hm)
  exact ⟨s, s', hs, hrest, hx, of_decide_eq_true hp, hagain, System.executedSince_of_mem List.mem_cons_self hagain,
    List.isEmpty_iff.1 hrest'⟩

/-- Nothing has changed. -/
theorem failed_run_not_recovered : ∃ s s', sampleAfter (fun _ _ => true) sampleSecondTry 13 = some s ∧
    (s.stores.getByRunId "run_1").map (·.state) = some .failed ∧
    EventSystem.exec (System.step (sampleWorld fun _ _ => true)) s sampleAgain = some s' ∧
    s'.executing "run_1" = [] ∧ s'.stores.record "run_1" = s.stores.record "run_1" := by
  obtain ⟨s, s', hs, hrest, hx, hstate, hagain, hx', hrest'⟩ := sample_executed_again
  have hfailed : (s.stores.getByRunId "run_1").map (·.state) = some .failed := by
    have := congrArg (Option.map Prod.fst) hstate
    rwa [Option.map_map] at this
  exact ⟨s, s', hs, hfailed, hagain, hrest', (sample_newRun _ (d := sampleSecondTry) (by decide +kernel)).failed_stays
    (sampleWorld_wired _).quiet (sampleEvents_undisturbed sampleSecondTry 13) sampleAgain_undisturbed hs hagain hx
    hrest hfailed hx' hrest'⟩

theorem failed_run_recovers_iff_sample : ∃ s s' w, sampleAfter (fun _ _ => true) sampleSecondTry 13 = some s ∧
    EventSystem.exec (System.step (sampleWorld fun _ _ => true)) s sampleAgain = some s' ∧
    s.stores.getByRunId "run_1" = some w ∧ w.state = .failed ∧
    ((Retried (s.stores.record "run_1") (s'.stores.record "run_1") w ∨
        DeadLettered (s.stores.record "run_1") (s'.stores.record "run_1")) ∧
      ¬ ((s'.stores.record "run_1").workflow = (s.stores.record "run_1").workflow ∧
        (s'.stores.record "run_1").run = (s.stores.record "run_1").run ∧
        (s'.stores.record "run_1").deadLetters = (s.stores.record "run_1").deadLetters) ↔
      (2 : Int) * 1 ≤ 1) := by
  obtain ⟨s, s', hs, hrest, hx, hstate, hagain, hx', hrest'⟩ := sample_executed_again
  have hnew : NewRun (sampleWorld fun _ _ => true) 0 sampleSecondTry (sampleRun sampleSecondTry) _ :=
    sample_newRun _ (by decide +kernel)
  have hq := (sampleWorld_wired fun _ _ => true).quiet
  have hon := hnew.exec hq (sampleEvents_undisturbed sampleSecondTry 13) hs
  obtain ⟨w, hst, _⟩ := hnew.fate hq (sampleEvents_undisturbed sampleSecondTry 13) hs hx hrest
  have hw : s.stores.getByRunId "run_1" = some w := hst.workflow
  rw [hw, Option.map_some, Option.some.injEq, Prod.mk.injEq] at hstate
  obtain ⟨run, hrun, hjob, _⟩ := hst.run
  have hiff := (failed_run_recovers_iff (sampleWorld_wired fun _ _ => true) (hnew.reachable.exec hs) hw hstate.1 hrun
    (hjob ▸ hon.definition) hrest (hon.unlocked hrest) hon.calm sampleAgain_undisturbed hagain).2 hx' hrest'
  rw [hstate.2] at hiff
  exact ⟨s, s', w, hs, hagain, hw, hstate.1, hiff⟩

end Jobflow
