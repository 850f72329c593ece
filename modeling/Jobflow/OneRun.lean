import Jobflow.Lib.Projection
import Jobflow.Metrics

/-!
# One run of the stores

`Stores.only` is what the stores hold about one run, as stores of their own. Every segment of a call of that run does
there what it does in all the stores (`ExecutionService.resume_only`), and no segment of a call of another run changes
it (`Effect.only`).
-/

namespace Jobflow

/-! ## What concerns one run -/

/-- The run an event of the domain is about. -/
def DomainEvent.runId : DomainEvent → Option RunId
  | .jobRegistered _ _ => none
  | .runStarted runId _ _ | .runCompleted runId _ | .workflowTransitioned runId _ _ _ _ | .taskStarted runId _ _ _
  | .taskFinished runId _ _ _ | .taskRetryScheduled runId _ _ _ _ | .runFailed runId _ _ | .runDeadLettered runId _ =>
    some runId

def onRun (r r' : RunId) : Bool := r' = r

def onWorkflow (id : Option WorkflowId) (id' : WorkflowId) : Bool := id = some id'

theorem onRun_self (r : RunId) : onRun r r = true := decide_eq_true rfl

/-- All definitions, and of the rest what is stored under run `r`. -/
def Stores.only (r : RunId) (s : Stores) : Stores where
  jobs := s.jobs
  workflows := s.workflows.restrict (onWorkflow (s.workflowOfRun.get r))
  workflowOfRun := s.workflowOfRun.restrict (onRun r)
  runs := s.runs.restrict (onRun r)
  deadLetters := s.deadLetters.filter fun e => e.runId = r
  runLocks := s.runLocks.restrict (onRun r)
  localLocks := s.localLocks.filter fun l => l.2 = r
  checkpoints := s.checkpoints.restrict (onRun r)
  heard := s.heard.filter fun h => h.2.runId = some r
  invocations := s.invocations.filter fun i => i.runId = r

namespace Stores

section
variable {r r' : RunId} {s : Stores} {w : WorkflowInstance} {k : Nat}

theorem ext {s t : Stores} (h₁ : s.jobs = t.jobs) (h₂ : s.workflows = t.workflows)
    (h₃ : s.workflowOfRun = t.workflowOfRun) (h₄ : s.runs = t.runs) (h₅ : s.deadLetters = t.deadLetters)
    (h₆ : s.runLocks = t.runLocks) (h₇ : s.localLocks = t.localLocks) (h₈ : s.checkpoints = t.checkpoints)
    (h₉ : s.heard = t.heard) (h₁₀ : s.invocations = t.invocations) : s = t := by
  cases s
  cases t
  simp_all

/-! ## Reading -/

theorem only_runs (r : RunId) (s : Stores) : (s.only r).runs.get r = s.runs.get r :=
  InsertionMap.get_restrict (onRun_self r)

theorem only_hasRun (r : RunId) (s : Stores) : (s.only r).runs.has r = s.runs.has r :=
  InsertionMap.has_restrict (onRun_self r)

theorem only_runLocks (r : RunId) (s : Stores) : (s.only r).runLocks.get r = s.runLocks.get r :=
  InsertionMap.get_restrict (onRun_self r)

theorem only_workflowOfRun (r : RunId) (s : Stores) : (s.only r).workflowOfRun.get r = s.workflowOfRun.get r :=
  InsertionMap.get_restrict (onRun_self r)

theorem only_listSnapshots (r : RunId) (s : Stores) : (s.only r).listSnapshots r = s.listSnapshots r :=
  congrArg (fun snaps : Option (List RunSnapshot) => snaps.getD []) (InsertionMap.get_restrict (onRun_self r))

theorem only_getByRunId (r : RunId) (s : Stores) : (s.only r).getByRunId r = s.getByRunId r := by
  unfold getByRunId
  rw [only_workflowOfRun]
  cases hid : s.workflowOfRun.get r with
  | none => rfl
  | some id =>
    rw [Option.bind_some, Option.bind_some]
    have hget := @InsertionMap.get_restrict _ _ s.workflows (onWorkflow (s.workflowOfRun.get r)) id _
      (decide_eq_true hid)
    rw [← hget]
    rfl

theorem only_hasLocalLock (k : Nat) (r : RunId) (s : Stores) : (s.only r).hasLocalLock k r = s.hasLocalLock k r := by
  unfold hasLocalLock only
  simp

theorem only_timesInvoked (r : RunId) (s : Stores) (taskId : String) (attempt : Nat) :
    (s.only r).timesInvoked r taskId attempt = s.timesInvoked r taskId attempt := by
  unfold timesInvoked only
  rw [List.countP_filter]
  refine List.countP_congr fun i _ => ?_
  simp only [Bool.and_eq_true, decide_eq_true_eq]
  exact and_iff_left_of_imp fun h => h.1

/-! ## Writing what belongs to the run -/

theorem only_saveWorkflow (h : s.Owns r w) : (s.saveWorkflow w).only r = (s.only r).saveWorkflow w := by
  obtain ⟨hr, hid⟩ := h
  have hsame : (s.saveWorkflow w).workflowOfRun.get r = s.workflowOfRun.get r := by
    rw [saveWorkflow, hr, InsertionMap.get_set_self, hid]
  refine ext rfl ?_ ?_ rfl rfl rfl rfl rfl rfl rfl
  · simp only [only, hsame]
    exact InsertionMap.restrict_set (show onWorkflow _ _ = true from decide_eq_true hid) w
  · exact InsertionMap.restrict_set (show onRun r w.runId = true from decide_eq_true hr) w.id

theorem only_saveRun {run : JobRun} (h : run.id = r) : (s.saveRun run).only r = (s.only r).saveRun run :=
  ext rfl rfl rfl (InsertionMap.restrict_set (show onRun r run.id = true from decide_eq_true h) run)
    rfl rfl rfl rfl rfl rfl

theorem only_pushDeadLetter {entry : DeadLetterEntry} (h : entry.runId = r) :
    (s.pushDeadLetter entry).only r = (s.only r).pushDeadLetter entry := by
  refine ext rfl rfl rfl rfl ?_ rfl rfl rfl rfl rfl
  simp [only, pushDeadLetter, h]

theorem only_addLocalLock (k : Nat) (r : RunId) (s : Stores) :
    (s.addLocalLock k r).only r = (s.only r).addLocalLock k r := by
  refine ext rfl rfl rfl rfl rfl rfl ?_ rfl rfl rfl
  simp [only, addLocalLock]

theorem only_deleteLocalLock (k : Nat) (r : RunId) (s : Stores) :
    (s.deleteLocalLock k r).only r = (s.only r).deleteLocalLock k r := by
  refine ext rfl rfl rfl rfl rfl rfl ?_ rfl rfl rfl
  simp only [only, deleteLocalLock, List.filter_filter, Bool.and_comm]

theorem only_acquire (r : RunId) (owner : String) (s : Stores) :
    (s.only r).acquire r owner = (s.acquire r owner).map (only r) := by
  have hset : only r { s with runLocks := s.runLocks.set r owner } =
      { s.only r with runLocks := (s.only r).runLocks.set r owner } :=
    ext rfl rfl rfl rfl rfl (InsertionMap.restrict_set (onRun_self r) owner) rfl rfl rfl rfl
  unfold acquire
  rw [only_runLocks]
  split
  · split_ifs
    · rfl
    · rw [Except.map, hset]
  · rw [Except.map, hset]

theorem only_release (r : RunId) (owner : String) (s : Stores) :
    (s.release r owner).only r = (s.only r).release r owner := by
  unfold release
  rw [only_runLocks]
  split_ifs
  · exact ext rfl rfl rfl rfl rfl (InsertionMap.restrict_delete (onRun r) r) rfl rfl rfl rfl
  · rfl

theorem only_saveSnapshot {snapshot : RunSnapshot} (h : snapshot.runId = r) :
    (s.saveSnapshot snapshot).only r = (s.only r).saveSnapshot snapshot := by
  subst h
  refine ext rfl rfl rfl rfl rfl rfl rfl ?_ rfl rfl
  unfold saveSnapshot
  rw [only_listSnapshots]
  exact InsertionMap.restrict_set (onRun_self _) _

theorem only_captureCheckpoint (r : RunId) (w : WorkflowInstance) (label : Option String) (now : ISODateString)
    (s : Stores) : (s.captureCheckpoint r w label now).only r = (s.only r).captureCheckpoint r w label now := by
  unfold captureCheckpoint
  rw [only_listSnapshots]
  exact only_saveSnapshot rfl

/-! ## Writing what belongs to another -/

theorem only_saveWorkflow_ne (h : w.runId ≠ r) (hid : s.workflowOfRun.get r ≠ some w.id) :
    (s.saveWorkflow w).only r = s.only r := by
  have hsame : (s.saveWorkflow w).workflowOfRun.get r = s.workflowOfRun.get r := InsertionMap.get_set_ne _ _ h
  refine ext rfl ?_ ?_ rfl rfl rfl rfl rfl rfl rfl
  · simp only [only, hsame]
    exact InsertionMap.restrict_set_of_not (show onWorkflow _ _ = false from decide_eq_false hid) w
  · exact InsertionMap.restrict_set_of_not (show onRun r w.runId = false from decide_eq_false h) w.id

theorem only_saveRun_ne {run : JobRun} (h : run.id ≠ r) : (s.saveRun run).only r = s.only r :=
  ext rfl rfl rfl (InsertionMap.restrict_set_of_not (show onRun r run.id = false from decide_eq_false h) run)
    rfl rfl rfl rfl rfl rfl

end

end Stores

/-! ## Segments of calls of the run -/

/-- The result of a segment, seen in one run. -/
def onlyIn {α : Type} (r : RunId) (x : Stores × α) : Stores × α := (x.1.only r, x.2)

section
variable {world : World} {k : Nat} {r : RunId} {s : Stores} {d : JobDefinition} {w : WorkflowInstance}
  {now : ISODateString}

theorem applyTransition_only {event : String} {target : WorkflowState} {actor : String} (hw : s.Owns r w) :
    WorkflowOrchestrator.applyTransition (s.only r) w event target actor now =
      (WorkflowOrchestrator.applyTransition s w event target actor now).map (onlyIn r) := by
  cases hs : WorkflowOrchestrator.applyTransition s w event target actor now with
  | ok x =>
    obtain ⟨hguard, hrule, hst, ht⟩ := WorkflowOrchestrator.applyTransition_ok.1 hs
    refine (WorkflowOrchestrator.applyTransition_ok.2 ⟨hguard, hrule, ?_, ht⟩)
    rw [hst]
    exact Stores.only_saveWorkflow ((Derived.moved hrule).owns hw)
  | error e =>
    -- what is thrown does not depend on the stores
    unfold WorkflowOrchestrator.applyTransition at hs ⊢
    cases hguard : TransitionGuard.evaluate w event target with
    | error e' =>
      rw [hguard] at hs
      exact hs
    | ok _ =>
      rw [hguard] at hs
      cases hnext : WorkflowStateMachine.transition w event target actor none now with
      | error e' =>
        rw [hnext] at hs
        exact hs
      | ok next =>
        rw [hnext] at hs
        cases hs

theorem announce_only {t : TransitionCall} (ht : t.next.runId = r) :
    WorkflowOrchestrator.announce world (s.only r) t now = onlyIn r (WorkflowOrchestrator.announce world s t now) := by
  have hheard (emitted : List (Nat × DomainEvent)) (h : ∀ e ∈ emitted, e.2.runId = some r) :
      Stores.only r { s with heard := s.heard ++ emitted } =
        { s.only r with heard := (s.only r).heard ++ emitted } := by
    refine Stores.ext rfl rfl rfl rfl rfl rfl rfl rfl ?_ rfl
    simp only [Stores.only, List.filter_append]
    rw [List.filter_eq_self.2 fun e he => decide_eq_true (h e he)]
  have hruns : ∀ e ∈ (WorkflowOrchestrator.emitFrom 0 world.listeners
      (.workflowTransitioned t.next.runId t.fromState t.target t.event now)).1, e.2.runId = some r := by
    intro e he
    rw [emitFrom_event 0 e he, ← ht]
    rfl
  unfold WorkflowOrchestrator.announce onlyIn
  dsimp only
  split
  · rw [hheard _ hruns]
  · rw [hheard _ hruns]

theorem updateRun_only (hc : s.Coherent) (target : WorkflowState) :
    WorkflowOrchestrator.updateRun (s.only r) r target now =
      (WorkflowOrchestrator.updateRun s r target now).only r := by
  unfold WorkflowOrchestrator.updateRun
  rw [Stores.only_runs]
  cases hrun : s.runs.get r with
  | none => rfl
  | some run =>
    refine (Stores.only_saveRun ?_).symm
    exact hc.runs r run hrun

theorem TransitionCall.resume_only {t : TransitionCall} (hc : s.Coherent) (ht : t.next.runId = r) :
    t.resume world (s.only r) now = onlyIn r (t.resume world s now) := by
  unfold TransitionCall.resume
  split
  · rw [ht, Stores.only_hasRun]
    rfl
  · rw [ht, updateRun_only hc]
    rfl
  · exact announce_only ht
  · exact announce_only ht
  · rfl

namespace ExecutionService

theorem executeRun_only (k : Nat) (r : RunId) (s : Stores) :
    executeRun k r (s.only r) = onlyIn r (executeRun k r s) := by
  unfold executeRun
  rw [Stores.only_hasLocalLock]
  split_ifs
  · rfl
  · dsimp only
    rw [← Stores.only_addLocalLock, Stores.only_acquire]
    cases (s.addLocalLock k r).acquire r owner with
    | error e => rfl
    | ok s' =>
      simp only [Except.map, Stores.only_runs]
      rfl

theorem settle_only {result : Except JobflowError Unit} :
    settle k r (s.only r) result = onlyIn r (settle k r s result) := by
  unfold settle onlyIn
  rw [Stores.only_release, Stores.only_deleteLocalLock]

theorem transition_only {purpose : Purpose} {event : String} {target : WorkflowState} {actor : String}
    (hw : s.Owns r w) : transition (s.only r) purpose d w event target actor now =
      onlyIn r (transition s purpose d w event target actor now) := by
  unfold transition
  rw [applyTransition_only hw]
  cases WorkflowOrchestrator.applyTransition s w event target actor now with
  | error e => rfl
  | ok x => rfl

theorem afterLoop_only (hw : s.Owns r w) :
    afterLoop k r (s.only r) d w now = onlyIn r (afterLoop k r s d w now) := by
  unfold afterLoop
  split_ifs
  · exact transition_only hw
  · exact settle_only

theorem invoke_only {nextDef : TaskDefinition} {taskRun : TaskRun} :
    invoke r (s.only r) d w nextDef taskRun now = onlyIn r (invoke r s d w nextDef taskRun now) := by
  unfold invoke onlyIn
  dsimp only
  rw [Stores.only_timesInvoked]
  refine Prod.ext (Stores.ext rfl rfl rfl rfl rfl rfl rfl rfl rfl ?_) rfl
  simp [Stores.only]

theorem loop_only (hw : s.Owns r w) : loop k r (s.only r) d w now = onlyIn r (loop k r s d w now) := by
  unfold loop
  by_cases hstate : w.state ≠ .running
  · rw [if_pos hstate, if_pos hstate]
    exact afterLoop_only hw
  rw [if_neg hstate, if_neg hstate]
  cases TaskScheduler.nextRunnable w.tasks d.tasks with
  | none =>
    dsimp only
    split_ifs
    · cases RuleEngine.apply d { context := w.context, taskOutputs := RunContextFactory.taskOutputs w.tasks } with
      | error e => exact settle_only
      | ok _ => exact transition_only hw
    · exact transition_only hw
  | some nextDef =>
    dsimp only
    cases w.tasks.find? fun t => t.definitionTaskId = nextDef.id with
    | none => rfl
    | some taskRun => exact invoke_only

theorem afterTask_only {result : ExecuteResult} (hw : s.Owns r w) :
    afterTask k r (s.only r) d w result now = onlyIn r (afterTask k r s d w result now) := by
  unfold afterTask
  split_ifs
  · exact transition_only hw
  · exact loop_only hw

theorem afterTransition_only {purpose : Purpose} (hw : s.Owns r w) :
    afterTransition k r (s.only r) purpose d w now = onlyIn r (afterTransition k r s purpose d w now) := by
  cases purpose with
  | start => exact loop_only hw
  | complete | await | fail => exact afterLoop_only hw
  | deadLetter =>
    refine Prod.ext (Stores.only_pushDeadLetter ?_).symm rfl
    rfl

theorem owns_updateTask (hw : s.Owns r w) (task : TaskRun) : s.Owns r (updateTask w task now) := hw

theorem resume_transition_only {purpose : Purpose} {t : TransitionCall} (hc : s.Coherent) (ht : s.Owns r t.next) :
    resume world k r (s.only r) now (.transition purpose d t) =
      (resume world k r s now (.transition purpose d t)).map (onlyIn r) := by
  simp only [resume, TransitionCall.resume_only hc ht.1]
  cases hres : t.resume world s now with
  | mk s₁ out =>
    cases out with
    | suspended t' => rfl
    | threw e => rfl
    | returned next =>
      obtain ⟨rfl, rfl⟩ := TransitionCall.resume_returned hres
      exact congrArg some (afterTransition_only ht)

/-- **A call of a run needs no more than what concerns that run.** -/
theorem resume_only {pc : ExecPc} (hc : s.Coherent) (hheld : ∀ w ∈ pc.instances, s.Owns r w) :
    resume world k r (s.only r) now pc = (resume world k r s now pc).map (onlyIn r) := by
  cases pc with
  | runRead found =>
    cases found with
    | none => exact congrArg some settle_only
    | some run => rfl
  | definitionRead jobId found =>
    cases found with
    | none => exact congrArg some settle_only
    | some d =>
      simp only [resume, Stores.only_getByRunId]
      rfl
  | workflowRead d found =>
    cases found with
    | none => exact congrArg some settle_only
    | some w =>
      have hw : s.Owns r w := hheld w (List.mem_singleton_self w)
      simp only [resume]
      split_ifs
      · exact congrArg some (transition_only hw)
      · rfl
  | started d w => exact congrArg some (loop_only (hheld w (List.mem_singleton_self w)))
  | transition purpose d t => exact resume_transition_only hc (hheld t.next (List.mem_singleton_self _))
  | handler d w nextDef running earlier =>
    have hw := @owns_updateTask r s w now (hheld w (List.mem_singleton_self w))
      (answered world r d w nextDef running earlier now).task
    exact congrArg some (Prod.ext (Stores.only_saveWorkflow hw).symm rfl)
  | taskSaved d w result =>
    simp only [resume]
    split_ifs
    · rfl
    · exact congrArg some (afterTask_only (hheld w (List.mem_singleton_self w)))
  | sleeping d w result =>
    have hw := @owns_updateTask r s w now (hheld w (List.mem_singleton_self w))
      { result.task with status := .queued }
    exact congrArg some (Prod.ext (Stores.only_saveWorkflow hw).symm rfl)
  | requeued d w result => exact congrArg some (afterTask_only (hheld w (List.mem_singleton_self w)))
  | deadLetterPushed => exact congrArg some settle_only
  | rejected e => exact congrArg some settle_only
  | settled result => rfl

end ExecutionService

theorem Use.resume_only {use : Use} {pc : UsePc} (hc : s.Coherent) (hheld : ∀ w ∈ pc.instances, s.Owns r w) :
    use.resume world r (s.only r) now pc = (use.resume world r s now pc).map (onlyIn r) := by
  cases pc with
  | read found =>
    cases found with
    | none => rfl
    | some w =>
      have hw : s.Owns r w := hheld w (List.mem_singleton_self w)
      cases use with
      | applyTransition event target actor =>
        simp only [Use.resume, applyTransition_only hw]
        cases WorkflowOrchestrator.applyTransition s w event target actor now with
        | error e => rfl
        | ok x => rfl
      | captureCheckpoint label =>
        exact congrArg some (Prod.ext (Stores.only_captureCheckpoint r w label now s).symm rfl)
      | snapshot => exact congrArg some (Prod.ext (Stores.only_saveWorkflow hw).symm rfl)
  | transition t =>
    have ht : s.Owns r t.next := hheld t.next (List.mem_singleton_self _)
    simp only [Use.resume, TransitionCall.resume_only hc ht.1]
    cases t.resume world s now with
    | mk s₁ out => cases out <;> rfl
  | saved => rfl
  | settled result => rfl

theorem restoreToCheckpoint_only (hc : s.Coherent) (version : Option Nat) :
    ((s.only r).restoreToCheckpoint r version now).1 = (s.restoreToCheckpoint r version now).1.only r := by
  have hfind : (s.only r).findSnapshot r version = s.findSnapshot r version := by
    unfold Stores.findSnapshot
    rw [Stores.only_listSnapshots]
  rw [restoreToCheckpoint_findSnapshot, restoreToCheckpoint_findSnapshot, hfind]
  cases hsnap : s.findSnapshot r version with
  | none => rfl
  | some snap => exact (Stores.only_saveWorkflow (hc.restored_owns hsnap now)).symm

end

/-! ## Segments of calls of other runs -/

section
variable {k : Nat} {r r' : RunId} {s s' : Stores} {seg : Segment} {held ws : List WorkflowInstance}

theorem Stores.Owns.only_save {w : WorkflowInstance} (h : s.Owns r' w) (hc : s.Coherent) (hne : r' ≠ r) :
    (s.saveWorkflow w).only r = s.only r := by
  refine Stores.only_saveWorkflow_ne (h.1.symm ▸ hne) fun hid => ?_
  exact hne (hc.injective r' r _ h.2 hid)

/-- What is heard of run `r`. -/
def heardOf (r : RunId) (s : Stores) : List (Nat × DomainEvent) := s.heard.filter fun h => h.2.runId = some r

theorem only_localLocks_ne {locks : List (Nat × RunId)}
    (h : locks.filter (fun l => l.2 = r) = s.localLocks.filter fun l => l.2 = r) :
    Stores.only r { s with localLocks := locks } = s.only r := Stores.ext rfl rfl rfl rfl rfl rfl h rfl rfl rfl

theorem only_acquire_ne {owner : String} (hne : r' ≠ r) :
    Stores.only r { s with runLocks := s.runLocks.set r' owner } = s.only r := by
  refine Stores.ext rfl rfl rfl rfl rfl ?_ rfl rfl rfl rfl
  exact InsertionMap.restrict_set_of_not (show onRun r r' = false from decide_eq_false hne) owner

theorem only_release_ne {owner : String} (hne : r' ≠ r) : (s.release r' owner).only r = s.only r := by
  unfold Stores.release
  split_ifs
  · refine Stores.ext rfl rfl rfl rfl rfl ?_ rfl rfl rfl rfl
    refine (InsertionMap.restrict_delete (onRun r) r').trans ?_
    exact InsertionMap.delete_restrict_of_not (show onRun r r' = false from decide_eq_false hne)
  · rfl

theorem only_addLocalLock_ne (hne : r' ≠ r) : (s.addLocalLock k r').only r = s.only r :=
  only_localLocks_ne (List.filter_cons_of_neg (by simpa using hne))

theorem only_deleteLocalLock_ne (hne : r' ≠ r) : (s.deleteLocalLock k r').only r = s.only r := by
  refine only_localLocks_ne ?_
  rw [List.filter_filter]
  refine List.filter_congr fun l _ => ?_
  by_cases hl : l.2 = r
  · have hpair : l ≠ (k, r') := fun h => hne (by rw [← hl, h])
    simp [hl, hpair]
  · simp [hl]

theorem only_captureCheckpoint_ne {w : WorkflowInstance} {label : Option String} {now : ISODateString} (hne : r' ≠ r) :
    (s.captureCheckpoint r' w label now).only r = s.only r := by
  refine Stores.ext rfl rfl rfl rfl rfl rfl rfl ?_ rfl rfl
  exact InsertionMap.restrict_set_of_not (show onRun r r' = false from decide_eq_false hne) _

/-- A call of another run changes nothing of this one, but for what is heard. -/
theorem Effect.only (he : Effect k r' held s seg s' ws) (hc : s.Coherent) (hheld : ∀ w ∈ held, s.Owns r' w)
    (hne : r' ≠ r) (hheard : heardOf r s' = heardOf r s) : s'.only r = s.only r := by
  cases he with
  | keep _ | read _ | refuse => rfl
  | save h hd _ => exact (hd.owns (hheld _ h)).only_save hc hne
  | resave h => exact (hheld _ h).only_save hc hne
  | @updateRun w target now _ h _ =>
    rcases updateRun_eq (s := s) w.runId target now with ⟨_, he⟩ | ⟨run, hrun, he⟩
    · rw [he]
    · rw [he]
      have hid : run.id = r' := (hc.runs _ run hrun).trans (hheld w h).1
      exact Stores.only_saveRun_ne fun hr => hne (hid.symm.trans hr)
  | hear _ => exact Stores.ext rfl rfl rfl rfl rfl rfl rfl rfl hheard rfl
  | invoke hi _ =>
    refine Stores.ext rfl rfl rfl rfl rfl rfl rfl rfl rfl ?_
    simp [Stores.only, hi, hne]
  | pushDeadLetter h =>
    refine Stores.ext rfl rfl rfl rfl ?_ rfl rfl rfl rfl rfl
    simp [Stores.only, Stores.pushDeadLetter, h, hne]
  | capture _ => exact only_captureCheckpoint_ne hne
  | begin h =>
    rw [acquire_ok h]
    exact (only_acquire_ne hne).trans (only_addLocalLock_ne hne)
  | leak => exact only_addLocalLock_ne hne
  | settle => exact (only_release_ne hne).trans (only_deleteLocalLock_ne hne)

/-! ## What is heard -/

variable {world : World} {now : ISODateString}

theorem TransitionCall.resume_heardOf {t : TransitionCall} (ht : t.next.runId ≠ r) :
    heardOf r (t.resume world s now).1 = heardOf r s := by
  have hannounce : heardOf r (WorkflowOrchestrator.announce world s t now).1 = heardOf r s := by
    have hheard : (WorkflowOrchestrator.announce world s t now).1.heard = s.heard ++
        (WorkflowOrchestrator.emitFrom 0 world.listeners
          (.workflowTransitioned t.next.runId t.fromState t.target t.event now)).1 := by
      unfold WorkflowOrchestrator.announce
      dsimp only
      split <;> rfl
    have hnone : (WorkflowOrchestrator.emitFrom 0 world.listeners
        (.workflowTransitioned t.next.runId t.fromState t.target t.event now)).1.filter
          (fun h => h.2.runId = some r) = [] := by
      refine List.filter_eq_nil_iff.2 fun h hmem => ?_
      rw [emitFrom_event 0 h hmem, decide_eq_true_eq]
      exact fun heq => ht (Option.some.inj heq)
    rw [heardOf, hheard, List.filter_append, hnone, List.append_nil]
    rfl
  unfold TransitionCall.resume
  split
  · rfl
  · obtain ⟨runs, hruns⟩ := updateRun_runs s t.next.runId t.target now
    rw [hruns]
    rfl
  · exact hannounce
  · exact hannounce
  · rfl

theorem heardOf_congr (h : s'.heard = s.heard) : heardOf r s' = heardOf r s := by rw [heardOf, h, heardOf]

theorem ExecutionService.resume_heardOf {pc : ExecPc} {x : Stores × ExecPc}
    (hpc : ∀ w ∈ pc.instances, w.runId ≠ r) (h : ExecutionService.resume world k r' s now pc = some x) :
    heardOf r x.1 = heardOf r s := by
  cases pc with
  | runRead found | definitionRead jobId found =>
    cases found <;> cases h
    · exact heardOf_congr settle_heard
    · rfl
  | workflowRead d found =>
    cases found with
    | none =>
      cases h
      exact heardOf_congr settle_heard
    | some w =>
      simp only [resume] at h
      split_ifs at h
      · obtain rfl := Option.some.inj h
        exact heardOf_congr transition_heard
      · obtain rfl := Option.some.inj h
        rfl
  | started d w =>
    obtain rfl := Option.some.inj h
    exact heardOf_congr loop_heard
  | transition purpose d t =>
    have ht := @TransitionCall.resume_heardOf r s world now t (hpc t.next (List.mem_singleton_self _))
    cases hres : t.resume world s now with
    | mk s₁ out =>
      rw [hres] at ht
      simp only [resume, hres] at h
      cases out with
      | suspended t' | threw e =>
        cases h
        exact ht
      | returned next =>
        obtain rfl := Option.some.inj h
        exact (heardOf_congr afterTransition_heard).trans ht
  | handler d w nextDef running earlier | sleeping d w result =>
    obtain rfl := Option.some.inj h
    rfl
  | taskSaved d w result =>
    simp only [resume] at h
    split_ifs at h
    · obtain rfl := Option.some.inj h
      rfl
    · obtain rfl := Option.some.inj h
      exact heardOf_congr afterTask_heard
  | requeued d w result =>
    obtain rfl := Option.some.inj h
    exact heardOf_congr afterTask_heard
  | deadLetterPushed | rejected e =>
    obtain rfl := Option.some.inj h
    exact heardOf_congr settle_heard
  | settled result => cases h

theorem Use.resume_heardOf {use : Use} {pc : UsePc} {x : Stores × UsePc} (hpc : ∀ w ∈ pc.instances, w.runId ≠ r)
    (h : use.resume world r' s now pc = some x) : heardOf r x.1 = heardOf r s := by
  cases pc with
  | read found =>
    cases found with
    | none =>
      cases h
      rfl
    | some w =>
      cases use with
      | applyTransition event target actor =>
        simp only [Use.resume] at h
        cases hap : WorkflowOrchestrator.applyTransition s w event target actor now with
        | error e =>
          rw [hap] at h
          cases h
          rfl
        | ok st =>
          obtain ⟨_, _, hst, _⟩ := WorkflowOrchestrator.applyTransition_ok.1 hap
          rw [hap] at h
          cases h
          rw [hst]
          rfl
      | captureCheckpoint label | snapshot =>
        cases h
        rfl
  | transition t =>
    have ht := @TransitionCall.resume_heardOf r s world now t (hpc t.next (List.mem_singleton_self _))
    simp only [Use.resume] at h
    cases hres : t.resume world s now with
    | mk s₁ out =>
      rw [hres] at ht h
      cases out <;> cases h <;> exact ht
  | saved =>
    cases h
    rfl
  | settled result => cases h

end

end Jobflow
