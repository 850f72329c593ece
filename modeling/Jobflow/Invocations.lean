import Jobflow.Executed

/-!
# Handler calls

Which handlers may be in flight, what the tasks they depend on look like at that moment, and how often a
task's handler is called. The log of handler calls only grows, and the calls logged for a task are its
attempts 1, 2, .., each once, all but the last of which have failed.
-/

namespace Jobflow

/-- Call number `i` has called the handler of task `c` of run `r`, which has not answered yet. -/
def System.InFlight (s : System) (r : RunId) (i : Nat) (c : TaskDefinition) : Prop :=
  ∃ k d w running earlier, s.calls[i]? = some (.execute k r (.handler d w c running earlier))

/-- The attempts of a task of run `r` for which the handler has been called. -/
def System.attemptsOf (s : System) (r : RunId) (taskId : String) : List Nat :=
  Jobflow.attemptsOf (s.stores.record r).invocations taskId

/-- Event `e` brings the handler call `inv` about. -/
def System.Invokes (world : World) (s : System) (e : Event) (s' : System) (inv : Invocation) : Prop :=
  s.step world e = some s' ∧ s'.stores.invocations = s.stores.invocations ++ [inv]

/-! ## How the log grows -/

/-- What a segment of `executeRun` adds to the log: nothing, or the call with which it ends. -/
inductive Logs (r : RunId) (s : Stores) : Stores × ExecPc → Prop where
  | silent {x : Stores × ExecPc} (h : x.1.invocations = s.invocations) : Logs r s x
  | invoke (d : JobDefinition) (w : WorkflowInstance) (c : TaskDefinition) (t : TaskRun) (now : ISODateString) :
      Logs r s (ExecutionService.invoke r s d w c t now)

section
variable {world : World} {k : Nat} {r : RunId} {s : Stores} {d : JobDefinition} {w : WorkflowInstance}
  {now : ISODateString}

theorem acquire_log {s' : Stores} {owner : String} (h : s.acquire r owner = .ok s') :
    s'.invocations = s.invocations := by rw [acquire_ok h]

theorem release_log (owner : String) : (s.release r owner).invocations = s.invocations := by
  obtain ⟨locks, hl, _⟩ := release_eq s r owner
  rw [hl]

theorem updateRun_log (target : WorkflowState) :
    (WorkflowOrchestrator.updateRun s r target now).invocations = s.invocations := by
  obtain ⟨runs, he⟩ := updateRun_runs s r target now
  rw [he]

theorem applyTransition_log {s' : Stores} {event : String} {target : WorkflowState} {actor : String}
    {t : TransitionCall} (h : WorkflowOrchestrator.applyTransition s w event target actor now = .ok (s', t)) :
    s'.invocations = s.invocations := by
  obtain ⟨_, _, rfl, _⟩ := WorkflowOrchestrator.applyTransition_ok.1 h
  rfl

theorem TransitionCall.resume_log (t : TransitionCall) : (t.resume world s now).1.invocations = s.invocations := by
  have hann : (WorkflowOrchestrator.announce world s t now).1.invocations = s.invocations := by
    unfold WorkflowOrchestrator.announce
    dsimp only
    split <;> rfl
  unfold TransitionCall.resume
  split
  · rfl
  · exact updateRun_log _
  · exact hann
  · exact hann
  · rfl

namespace ExecutionService

theorem executeRun_log (k : Nat) (r : RunId) (s : Stores) : (executeRun k r s).1.invocations = s.invocations := by
  unfold executeRun
  split
  · rfl
  · cases h : (s.addLocalLock k r).acquire r owner with
    | error e =>
      simp only [h]
      rfl
    | ok s' =>
      simp only [h]
      exact (acquire_log h).trans rfl

theorem settle_log {result : Except JobflowError Unit} : Logs r s (settle k r s result) :=
  .silent (release_log owner)

theorem transition_log {purpose : Purpose} {event : String} {target : WorkflowState} {actor : String} :
    Logs r s (transition s purpose d w event target actor now) := by
  unfold transition
  cases h : WorkflowOrchestrator.applyTransition s w event target actor now with
  | error e => exact .silent rfl
  | ok st => exact .silent (applyTransition_log h)

theorem afterLoop_log : Logs r s (afterLoop k r s d w now) := by
  unfold afterLoop
  split
  · exact transition_log
  · exact settle_log

theorem loop_log : Logs r s (loop k r s d w now) := by
  unfold loop
  split
  · exact afterLoop_log
  split
  · split
    · split
      · exact settle_log
      · exact transition_log
    · exact transition_log
  · split
    · exact .silent rfl
    · exact .invoke d w _ _ now

theorem afterTask_log {result : ExecuteResult} : Logs r s (afterTask k r s d w result now) := by
  unfold afterTask
  split
  · exact transition_log
  · exact loop_log

/-- Every segment of `executeRun`. -/
theorem resume_log {pc : ExecPc} {x : Stores × ExecPc} (h : resume world k r s now pc = some x) : Logs r s x := by
  cases pc with
  | runRead found =>
    cases found <;> cases h
    · exact settle_log
    · exact .silent rfl
  | definitionRead jobId found =>
    cases found <;> cases h
    · exact settle_log
    · exact .silent rfl
  | workflowRead d found =>
    cases found with
    | none =>
      cases h
      exact settle_log
    | some w =>
      simp only [resume] at h
      split at h <;> obtain rfl := Option.some.inj h
      · exact transition_log
      · exact .silent rfl
  | started d w =>
    obtain rfl := Option.some.inj h
    exact loop_log
  | transition purpose d t =>
    have hlog : (t.resume world s now).1.invocations = s.invocations := t.resume_log
    cases hres : t.resume world s now with
    | mk s₁ out =>
      simp only [resume, hres] at h hlog
      cases out with
      | suspended t' | threw e =>
        cases h
        exact .silent hlog
      | returned next =>
        obtain ⟨rfl, _⟩ := TransitionCall.resume_returned hres
        obtain rfl := Option.some.inj h
        cases purpose with
        | start => exact loop_log
        | complete | await | fail => exact afterLoop_log
        | deadLetter => exact .silent rfl
  | handler d w nextDef running earlier =>
    cases h
    exact .silent rfl
  | taskSaved d w result =>
    simp only [resume] at h
    split at h <;> obtain rfl := Option.some.inj h
    · exact .silent rfl
    · exact afterTask_log
  | sleeping d w result =>
    cases h
    exact .silent rfl
  | requeued d w result =>
    obtain rfl := Option.some.inj h
    exact afterTask_log
  | deadLetterPushed | rejected e =>
    cases h
    exact settle_log
  | settled result => cases h

end ExecutionService

theorem Use.resume_log {use : Use} {pc : UsePc} {x : Stores × UsePc} (h : use.resume world r s now pc = some x) :
    x.1.invocations = s.invocations := by
  cases pc with
  | read found =>
    cases found with
    | none =>
      cases h
      rfl
    | some w =>
      cases use with
      | applyTransition event target actor =>
        simp only [Use.resume] at h
        cases ha : WorkflowOrchestrator.applyTransition s w event target actor now with
        | error e =>
          rw [ha] at h
          cases h
          rfl
        | ok st =>
          rw [ha] at h
          cases h
          exact applyTransition_log ha
      | captureCheckpoint label =>
        cases h
        rfl
      | snapshot =>
        cases h
        rfl
  | transition t =>
    have hlog : (t.resume world s now).1.invocations = s.invocations := t.resume_log
    cases hres : t.resume world s now with
    | mk s₁ out =>
      simp only [Use.resume, hres] at h hlog
      cases out <;> cases h <;> exact hlog
  | saved =>
    cases h
    rfl
  | settled result => cases h

end

section
variable {world : World} {s s' : System}

/-- A handler is only called by a segment of `executeRun`, which then awaits it. -/
theorem System.step_log {e : Event} (h : s.step world e = some s') :
    s'.stores.invocations = s.stores.invocations ∨ ∃ (i k : Nat) (r : RunId) (d : JobDefinition)
      (w : WorkflowInstance) (c : TaskDefinition) (t : TaskRun) (now : ISODateString),
      s'.stores = (ExecutionService.invoke r s.stores d w c t now).1 ∧
        s'.calls[i]? = some (.execute k r (ExecutionService.invoke r s.stores d w c t now).2) := by
  cases System.step_cases h with
  | executeCalled | replayExecutes => exact .inl (ExecutionService.executeRun_log _ _ s.stores)
  | @executed i _ k r _ _ hi hx =>
    cases ExecutionService.resume_log hx with
    | silent h => exact .inl h
    | invoke d w c t now =>
      refine .inr ⟨i, k, r, d, w, c, t, now, rfl, ?_⟩
      exact List.getElem?_set_self (List.getElem?_eq_some_iff.1 hi).1
  | created hi hx => cases hx <;> exact .inl rfl
  | used hi hx => exact .inl (Use.resume_log hx)
  | _ => exact .inl rfl

/-- The log only grows. -/
theorem log_exec {events : List Event} (h : EventSystem.exec (System.step world) s events = some s') :
    s.stores.invocations <+: s'.stores.invocations := by
  refine EventSystem.exec_invariant (I := fun m => s.stores.invocations <+: m.stores.invocations)
    (fun m _ m' hm (_ : True) hstep => hm.trans ?_) (List.prefix_refl _) (fun _ _ => trivial) h
  rcases System.step_log hstep with he | ⟨i, k, r, d, w, c, t, now, hst, _⟩
  · rw [he]
  · rw [hst]
    exact List.prefix_append _ _

theorem attemptsOf_mono (h : s.stores.invocations <+: s'.stores.invocations) (r : RunId) (taskId : String) :
    s.attemptsOf r taskId <+: s'.attemptsOf r taskId := ((h.filter _).filter _).map _

end

/-! ## What the log says -/

section
variable {world : World} {d : JobDefinition} {w₀ : WorkflowInstance} {o : Option ExecPc} {rec : RunRecord}

/-- At every await the stored instance has one of the two shapes. -/
theorem RunInv.shape (h : RunInv world d w₀ o rec) : ∃ w status flight, Stored d rec w status flight ∧
    ((∃ done c st n, Busy world d w₀ done c st n w ∧ st ≠ .succeeded ∧ (flight = none ∨ flight = some c.id)) ∨
      AllDone world d w₀ w ∧ flight = none) := by
  have hloop : ∀ {w status}, Stored d rec w status none → AtLoop world d w₀ w → ∃ w status flight,
      Stored d rec w status flight ∧ ((∃ done c st n, Busy world d w₀ done c st n w ∧ st ≠ .succeeded ∧
        (flight = none ∨ flight = some c.id)) ∨ AllDone world d w₀ w ∧ flight = none) := fun hst hw => by
    cases hw with
    | busy hw _ => exact ⟨_, _, _, hst, .inl ⟨_, _, _, _, hw, by simp, .inl rfl⟩⟩
    | allDone hw => exact ⟨_, _, _, hst, .inr ⟨hw, rfl⟩⟩
  have hset : ∀ {w status}, Stored d rec w status none → Settled world d w₀ w rec.deadLetters → ∃ w status flight,
      Stored d rec w status flight ∧ ((∃ done c st n, Busy world d w₀ done c st n w ∧ st ≠ .succeeded ∧
        (flight = none ∨ flight = some c.id)) ∨ AllDone world d w₀ w ∧ flight = none) := fun hst hs => by
    cases hs with
    | pending _ hw _ _ => exact hloop hst hw
    | blocked _ hw _ _ | completed _ hw _ _ => exact ⟨_, _, _, hst, .inr ⟨hw, rfl⟩⟩
    | failed _ hw _ _ | deadLettered _ hw _ _ => exact ⟨_, _, _, hst, .inl ⟨_, _, _, _, hw, by simp, .inl rfl⟩⟩
  cases h with
  | rest h | runRead h | definitionRead h | workflowRead h =>
    obtain ⟨w, hst, hs⟩ := h
    exact hset hst hs
  | started hst hs _ => exact hset hst hs
  | transition hst hm _ _ _ =>
    cases hm with
    | start _ hw => exact hloop hst hw
    | complete _ hw _ => exact ⟨_, _, _, hst, .inr ⟨hw, rfl⟩⟩
    | fail _ hw | deadLetter _ hw _ => exact ⟨_, _, _, hst, .inl ⟨_, _, _, _, hw, by simp, .inl rfl⟩⟩
  | handler hst _ hw _ _ _ _ _ _ => exact ⟨_, _, _, hst, .inl ⟨_, _, _, _, hw, by simp, .inr rfl⟩⟩
  | succeeded hst _ hw _ _ _ => exact hloop hst hw
  | exhausted hst _ hw _ _ _ => exact ⟨_, _, _, hst, .inl ⟨_, _, _, _, hw, by simp, .inl rfl⟩⟩
  | retrying _ hst _ hw _ _ _ _ _ => exact ⟨_, _, _, hst, .inl ⟨_, _, _, _, hw, by simp, .inl rfl⟩⟩
  | requeued hst _ hw _ _ => exact hloop hst hw
  | deadLetterPushed hst _ hset' => exact hset hst hset'

/-- The handler calls of a task are its attempts in order; all but the last have failed, and if the task has
succeeded the last one succeeded. -/
theorem RunInv.log (ha : Accepted d) (hi : Instantiates d w₀) (h : RunInv world d w₀ o rec) :
    ∃ w, rec.workflow = some w ∧ Later w₀ w ∧ ∀ t ∈ w.tasks, ∃ m,
      attemptsOf rec.invocations t.definitionTaskId = List.range' 1 m ∧
      (∀ a, 1 ≤ a → a < m → world.attemptOutput w₀ t.definitionTaskId t.handler a = none) ∧
      (t.status = .succeeded → 1 ≤ m ∧ (world.attemptOutput w₀ t.definitionTaskId t.handler m).isSome = true) := by
  obtain ⟨w, status, flight, hst, hshape⟩ := h.shape
  have hfin : ∀ t ∈ w.tasks, Finished world d w₀ t → flight ≠ some t.definitionTaskId → ∃ m,
      attemptsOf rec.invocations t.definitionTaskId = List.range' 1 m ∧
      (∀ a, 1 ≤ a → a < m → world.attemptOutput w₀ t.definitionTaskId t.handler a = none) ∧
      (t.status = .succeeded → 1 ≤ m ∧ (world.attemptOutput w₀ t.definitionTaskId t.handler m).isSome = true) :=
    fun t ht hf hfl => by
      have hlog := hst.log t ht
      rw [if_neg hfl] at hlog
      exact ⟨_, hlog, hf.earlier, fun _ => ⟨hf.attempt.1, by rw [Nat.add_zero, ← hf.output]; exact hf.isSome⟩⟩
  rcases hshape with ⟨done, c, st, n, hw, hsucc, hfl⟩ | ⟨hw, hfl⟩
  · refine ⟨w, hst.workflow, hw.later, fun t ht => ?_⟩
    have hc := TaskScheduler.ready_mem hw.ready
    by_cases hdone : t.definitionTaskId ∈ done
    · refine hfin t ht (hw.finished t ht hdone) fun he => ?_
      rcases hfl with hfl | hfl
      · rw [hfl] at he
        cases he
      · rw [hfl] at he
        exact TaskScheduler.ready_not_done hw.ready (Option.some.inj he ▸ hdone)
    · have hlog := hst.log t ht
      by_cases htc : t.definitionTaskId = c.id
      · obtain ⟨hstat, hatt, _⟩ := hw.current t ht htc
        refine ⟨_, hlog, fun a h₁ h₂ => ?_, fun hs => absurd (hstat.symm.trans hs) hsucc⟩
        rw [hw.later.handler_eq ha hi ht hc htc, htc]
        refine hw.failed a h₁ ?_
        rw [hatt] at h₂
        split at h₂ <;> omega
      · have hu := hw.untouched t ht hdone htc
        have hnot : flight ≠ some t.definitionTaskId := fun he => by
          rcases hfl with hfl | hfl
          · rw [hfl] at he
            cases he
          · rw [hfl] at he
            exact htc (Option.some.inj he).symm
        rw [if_neg hnot, hu.attempt] at hlog
        refine ⟨0, hlog, fun a h₁ h₂ => by omega, fun hs => ?_⟩
        rw [hu.status] at hs
        cases hs
  · exact ⟨w, hst.workflow, hw.later, fun t ht => hfin t ht (hw.finished t ht) (by simp [hfl])⟩

end

/-! ## Handlers in flight -/

section
variable {world : World} {k : Nat} {d : JobDefinition} {w₀ : WorkflowInstance} {s s₁ s₂ : System}

/-- What holds while the handler of `c` is in flight. -/
theorem OnRun.inFlight (h : OnRun k w₀.runId d (RunInv world d w₀) s) {i : Nat} {c : TaskDefinition}
    (hf : s.InFlight w₀.runId i c) : ∃ w done n t inv, s.stores.getByRunId w₀.runId = some w ∧
      Busy world d w₀ done c .queued n w ∧ t ∈ w.tasks ∧ t.definitionTaskId = c.id ∧
      (s.stores.record w₀.runId).invocations.getLast? = some inv ∧
      inv.context = TaskExecutor.handlerContext t w.context := by
  obtain ⟨k', d', w, running, earlier, hcall⟩ := hf
  have hmem : ExecPc.handler d' w c running earlier ∈ s.executing w₀.runId :=
    List.mem_filterMap.2 ⟨_, List.mem_of_getElem? hcall, by simp [Call.executing, ExecPc.running]⟩
  have hp := h.phase
  generalize s.executing w₀.runId = pcs at hp hmem
  cases hp with
  | rest _ _ => cases hmem
  | busy _ hI =>
    rw [List.mem_singleton] at hmem
    subst hmem
    cases hI with
    | handler hst _ hw _ ht htc hi hctx _ => exact ⟨_, _, _, _, _, hst.workflow, hw, ht, htc, hi, hctx⟩
    | retrying hpc => rcases hpc with hpc | hpc <;> cases hpc

theorem OnRun.inFlight_unique {I : Option ExecPc → RunRecord → Prop} {r : RunId} (h : OnRun k r d I s) {i j : Nat}
    {c c' : TaskDefinition} (hi : s.InFlight r i c) (hj : s.InFlight r j c') : i = j := by
  obtain ⟨k₁, d₁, w₁, running₁, earlier₁, hcall⟩ := hi
  obtain ⟨k₂, d₂, w₂, running₂, earlier₂, hcall'⟩ := hj
  by_contra hne
  have hx₁ : Call.executing r (.execute k₁ r (.handler d₁ w₁ c running₁ earlier₁)) =
      some (.handler d₁ w₁ c running₁ earlier₁) := by simp [Call.executing, ExecPc.running]
  have hx₂ : Call.executing r (.execute k₂ r (.handler d₂ w₂ c' running₂ earlier₂)) =
      some (.handler d₂ w₂ c' running₂ earlier₂) := by simp [Call.executing, ExecPc.running]
  have hmem : ExecPc.handler d₁ w₁ c running₁ earlier₁ ∈ s.executing r :=
    List.mem_filterMap.2 ⟨_, List.mem_of_getElem? hcall, hx₁⟩
  -- replacing call `i` by one that executes nothing leaves call `j` alone
  have hj' : (s.calls.set i (.create "" "" [] (.definitionRead none)))[j]? = s.calls[j]? :=
    List.getElem?_set_ne hne
  have hmem' := List.mem_filterMap.2 ⟨_, List.mem_of_getElem? (hj'.trans hcall'), hx₂⟩
  have hp := h.phase
  generalize hpcs : s.executing r = pcs at hp hmem
  cases hp with
  | rest _ _ => cases hmem
  | busy _ _ =>
    obtain ⟨_, hx⟩ := filterMap_set_of_single (Call.executing r)
      (b := .create "" "" [] (.definitionRead none)) hcall
      hx₁ hpcs
    rw [hx] at hmem'
    simp [Call.executing] at hmem'

/-- What holds when the handler of a task of the run is called. -/
theorem OnRun.invokes (hI : Closed world k w₀.runId d (RunInv world d w₀))
    (h : OnRun k w₀.runId d (RunInv world d w₀) s)
    {e : Event} {s' : System} {inv : Invocation} (he : e.Undisturbed k w₀.runId d.id)
    (hinv : s.Invokes world e s' inv)
    (hr : inv.runId = w₀.runId) : ∃ w done c n t, s.stores.getByRunId w₀.runId = some w ∧
      Busy world d w₀ done c .queued n w ∧ t ∈ w.tasks ∧ t.definitionTaskId = c.id ∧ inv.handler = c.handler ∧
      inv.context = TaskExecutor.handlerContext t w.context := by
  obtain ⟨hstep, hlog⟩ := hinv
  rcases System.step_log hstep with hsame | ⟨i, k', r, d', w', c, t', now, hst, hcall⟩
  · rw [hlog] at hsame
    simp at hsame
  · have hinv : inv = ⟨r, c.handler, t'.attempt + 1, TaskExecutor.handlerContext t' w'.context⟩ := by
      rw [hst] at hlog
      exact (List.singleton_inj.1 (List.append_cancel_left hlog)).symm
    obtain rfl : r = w₀.runId := by rw [← hr, hinv]
    have hrec : s'.stores.record w₀.runId =
        { s.stores.record w₀.runId with invocations := (s.stores.record w₀.runId).invocations ++ [inv] } := by
      rw [hst, hinv]
      exact record_invoke rfl
    obtain ⟨w, done, n, t, inv', hw, hb, ht, htc, hlast, hctx⟩ :=
      (h.step hI he hstep).inFlight ⟨_, _, _, _, _, hcall⟩
    rw [hrec] at hlast
    simp only [List.getLast?_concat, Option.some.injEq] at hlast
    subst hlast
    refine ⟨w, done, c, n, t, ?_, hb, ht, htc, by rw [hinv], hctx⟩
    exact (congrArg RunRecord.workflow hrec).symm.trans hw

/-- At most the last of a task's handler calls succeeds. -/
theorem RunInv.succeeds_at_most_once (ha : Accepted d) (hi : Instantiates d w₀) {o : Option ExecPc}
    {rec : RunRecord}
    (h : RunInv world d w₀ o rec) {c : TaskDefinition} (hc : c ∈ d.tasks) :
    (attemptsOf rec.invocations c.id).countP (world.Succeeds w₀ c) ≤ 1 := by
  obtain ⟨w, _, hl, hlog⟩ := h.log ha hi
  obtain ⟨t, ht, htc⟩ := exists_taskRun (hl.definitionTaskIds hi) hc
  obtain ⟨m, hm, hfailed, _⟩ := hlog t ht
  rw [htc, hl.handler_eq ha hi ht hc htc] at hfailed
  rw [← htc, hm]
  cases m with
  | zero => simp
  | succ m =>
    rw [List.range'_concat, List.countP_append]
    have hnone : (List.range' 1 m).countP (world.Succeeds w₀ c) = 0 := by
      rw [List.countP_eq_zero]
      intro a hmem
      rw [List.mem_range'_1] at hmem
      simp [World.Succeeds, hfailed a hmem.1 (by omega)]
    rw [hnone, Nat.zero_add]
    exact List.countP_le_length

/-- Once a task has succeeded its handler is not called any more. -/
theorem RunInv.attemptsOf_eq (ha : Accepted d) (hi : Instantiates d w₀) {o₁ o₂ : Option ExecPc}
    {rec₁ rec₂ : RunRecord}
    (h₁ : RunInv world d w₀ o₁ rec₁) (h₂ : RunInv world d w₀ o₂ rec₂) {w : WorkflowInstance} {t : TaskRun}
    (hw : rec₁.workflow = some w) (ht : t ∈ w.tasks) (hs : t.status = .succeeded)
    (hp : attemptsOf rec₁.invocations t.definitionTaskId <+: attemptsOf rec₂.invocations t.definitionTaskId) :
    attemptsOf rec₂.invocations t.definitionTaskId = attemptsOf rec₁.invocations t.definitionTaskId := by
  obtain ⟨w₁, hw₁, hl₁, hlog₁⟩ := h₁.log ha hi
  obtain ⟨w₂, _, hl₂, hlog₂⟩ := h₂.log ha hi
  obtain rfl := Option.some.inj (hw.symm.trans hw₁)
  have hmem : t.identity ∈ w₂.tasks.map TaskRun.identity := by
    rw [hl₂.identity, ← hl₁.identity]
    exact List.mem_map_of_mem ht
  obtain ⟨t₂, ht₂, hid⟩ := List.mem_map.1 hmem
  obtain ⟨_, hid, hhandler⟩ := Prod.mk.inj hid |>.imp_right Prod.mk.inj
  obtain ⟨m₁, hm₁, _, hlast⟩ := hlog₁ t ht
  obtain ⟨m₂, hm₂, hfailed, _⟩ := hlog₂ t₂ ht₂
  obtain ⟨hpos, hsome⟩ := hlast hs
  rw [hid] at hm₂ hfailed
  rw [hm₁, hm₂] at hp
  have hle := hp.length_le
  rw [List.length_range', List.length_range'] at hle
  -- a later call would mean that the successful attempt had failed
  have hge : m₂ ≤ m₁ := Nat.not_lt.1 fun hlt => by
    have := hfailed m₁ hpos hlt
    rw [hhandler] at this
    rw [this] at hsome
    cases hsome
  rw [hm₁, hm₂, Nat.le_antisymm hge hle]

end

/-! ## The executor respects the dependencies -/

/-- Along every list of events that leaves a new run to one service: a handler is called only when the tasks its
task depends on are stored as succeeded and the task itself is not, at most one handler of the run is in flight,
a task stored as succeeded is never called again, and each task succeeds at most once. -/
theorem handlers_respect_dependencies {world : World} {k : Nat} {d : JobDefinition} {w₀ : WorkflowInstance}
    {s s₁ s₂ : System} {events₁ events₂ : List Event} (hwired : world.Wired) (h : NewRun world k d w₀ s)
    (hok₁ : ∀ e ∈ events₁, e.Undisturbed k w₀.runId d.id) (hok₂ : ∀ e ∈ events₂, e.Undisturbed k w₀.runId d.id)
    (hs₁ : EventSystem.exec (System.step world) s events₁ = some s₁)
    (hs₂ : EventSystem.exec (System.step world) s₁ events₂ = some s₂) :
    (∀ e s' inv, e.Undisturbed k w₀.runId d.id → s₁.Invokes world e s' inv → inv.runId = w₀.runId →
        ∃ w c, s₁.stores.getByRunId w₀.runId = some w ∧ c ∈ d.tasks ∧ c.id = inv.context.taskId ∧
          c.handler = inv.handler ∧
          (∀ dep ∈ c.dependencies, ∃ t ∈ w.tasks, t.definitionTaskId = dep ∧ t.status = .succeeded) ∧
          ∀ t ∈ w.tasks, t.definitionTaskId = c.id → t.status ≠ .succeeded) ∧
      (∀ i j c c', s₁.InFlight w₀.runId i c → s₁.InFlight w₀.runId j c' → i = j) ∧
      (∀ w t, s₁.stores.getByRunId w₀.runId = some w → t ∈ w.tasks → t.status = .succeeded →
        s₂.attemptsOf w₀.runId t.definitionTaskId = s₁.attemptsOf w₀.runId t.definitionTaskId) ∧
      ∀ c ∈ d.tasks, (s₁.attemptsOf w₀.runId c.id).countP (world.Succeeds w₀ c) ≤ 1 := by
  have hq := hwired.quiet
  have ha := h.accepted
  have hi := h.instantiates
  have h₁ := h.exec hq hok₁ hs₁
  have h₂ := (runInv_closed hq ha hi).exec h₁ hok₂ hs₂
  refine ⟨fun e s' inv he hinv hr => ?_, fun i j c c' hi hj => h₁.inFlight_unique hi hj,
    fun w t hw ht hs => ?_, fun c hc => ?_⟩
  · obtain ⟨w, done, c, n, t, hw, hb, ht, htc, hhandler, hctx⟩ := h₁.invokes (runInv_closed hq ha hi) he hinv hr
    refine ⟨w, c, hw, TaskScheduler.ready_mem hb.ready, by rw [hctx]; exact htc.symm, hhandler.symm,
      fun dep hdep => ?_, fun u hu huc => ?_⟩
    · obtain ⟨u, hu, hud⟩ := exists_taskRun_of_dependency (hb.later.definitionTaskIds hi) ha
        (TaskScheduler.ready_mem hb.ready) hdep
      exact ⟨u, hu, hud, (hb.finished u hu (hud ▸ TaskScheduler.ready_dependencies hb.ready dep hdep)).status⟩
    · rw [(hb.current u hu huc).1]
      simp
  · obtain ⟨o₁, hI₁⟩ := h₁.inv
    obtain ⟨o₂, hI₂⟩ := h₂.inv
    exact hI₁.attemptsOf_eq ha hi hI₂ hw ht hs (attemptsOf_mono (log_exec hs₂) w₀.runId t.definitionTaskId)
  · obtain ⟨o, hI⟩ := h₁.inv
    exact hI.succeeds_at_most_once ha hi hc

/-- After eight segments `a` has succeeded; until the run is completed it is not called again. -/
theorem handlers_respect_dependencies_sample : ∃ s₁ s₂, sampleAfter (fun _ _ => false) sampleChain 8 = some s₁ ∧
    EventSystem.exec (System.step (sampleWorld fun _ _ => false)) s₁
      (List.replicate 7 (.resume 1 (sampleReply sampleChain))) = some s₂ ∧
    (s₁.stores.getByRunId "run_1").any (fun w => w.tasks.any fun t =>
      t.definitionTaskId = "a" && t.status = .succeeded) = true ∧
    s₂.attemptsOf "run_1" "a" = s₁.attemptsOf "run_1" "a" := by
  obtain ⟨s₂, hs⟩ := Option.isSome_iff_exists.1 (by decide +kernel :
    (EventSystem.exec (System.step (sampleWorld fun _ _ => false)) (firstRun sampleChain []
    (sampleReply sampleChain))
      (sampleEvents sampleChain 8 ++ List.replicate 7 (.resume 1 (sampleReply sampleChain)))).isSome = true)
  obtain ⟨s₁, h₁, h₂⟩ := EventSystem.exec_append.1 hs
  have ha : (sampleAfter (fun _ _ => false) sampleChain 8).any (fun s => (s.stores.getByRunId "run_1").any fun w =>
      w.tasks.any fun t => t.definitionTaskId = "a" && t.status = .succeeded) = true := by decide +kernel
  rw [show sampleAfter (fun _ _ => false) sampleChain 8 = some s₁ from h₁, Option.any_some] at ha
  refine ⟨s₁, s₂, h₁, h₂, ha, ?_⟩
  obtain ⟨w, hw, hany⟩ := (Option.any_eq_true _ _).1 ha
  obtain ⟨t, ht, heq⟩ := List.any_eq_true.1 hany
  simp only [Bool.and_eq_true, decide_eq_true_eq] at heq
  have hrun := (handlers_respect_dependencies (sampleWorld_wired _)
    (sample_newRun _ (d := sampleChain) (by decide +kernel))
    (sampleEvents_undisturbed sampleChain 8)
    (fun e he => by rw [List.eq_of_mem_replicate he]; trivial) h₁ h₂).2.2.1
  rw [← heq.1]
  exact hrun w t hw ht heq.2

/-! ## What a handler is given -/

/-- The context of the call maps every dependency of `c` to the output stored for it. -/
def DeliversPriorOutputs (w : WorkflowInstance) (c : TaskDefinition) (inv : Invocation) : Prop :=
  ∀ dep ∈ c.dependencies, ∃ t ∈ w.tasks, ∃ output, t.definitionTaskId = dep ∧ t.output = some output ∧
    inv.context.priorOutputs.lookup dep = some output

/-- The executor passes an empty `priorOutputs`. -/
theorem deliversPriorOutputs_iff {w : WorkflowInstance} {c : TaskDefinition} {inv : Invocation} {t : TaskRun}
    {input : Js.Record} (h : inv.context = TaskExecutor.handlerContext t input) :
    DeliversPriorOutputs w c inv ↔ c.dependencies = [] := by
  constructor
  · intro hd
    by_contra hne
    obtain ⟨dep, hdep⟩ := List.exists_mem_of_ne_nil _ hne
    obtain ⟨_, _, output, _, _, hlookup⟩ := hd dep hdep
    rw [h] at hlookup
    cases hlookup
  · intro he dep hdep
    rw [he] at hdep
    cases hdep

/-- Along every list of events that leaves a new run to one service, the handlers that get the outputs of the tasks
before them are those of the tasks that depend on none. -/
theorem prior_outputs_delivered_iff {world : World} {k : Nat} {d : JobDefinition} {w₀ : WorkflowInstance}
    {s s₁ s' : System} {events : List Event} {e : Event} {inv : Invocation} (hwired : world.Wired)
    (h : NewRun world k d w₀ s) (hok : ∀ e ∈ events, e.Undisturbed k w₀.runId d.id)
    (hs : EventSystem.exec (System.step world) s events = some s₁) (he : e.Undisturbed k w₀.runId d.id)
    (hinv : s₁.Invokes world e s' inv) (hr : inv.runId = w₀.runId) :
    ∃ w c, s₁.stores.getByRunId w₀.runId = some w ∧ c ∈ d.tasks ∧ c.id = inv.context.taskId ∧
      (DeliversPriorOutputs w c inv ↔ c.dependencies = []) := by
  have hq := hwired.quiet
  obtain ⟨w, done, c, n, t, hw, hb, ht, htc, _, hctx⟩ :=
    (h.exec hq hok hs).invokes (runInv_closed hq h.accepted h.instantiates) he hinv hr
  exact ⟨w, c, hw, TaskScheduler.ready_mem hb.ready, by rw [hctx]; exact htc.symm, deliversPriorOutputs_iff hctx⟩

theorem sampleChain_calls_b : ∃ s s' inv, sampleAfter (fun _ _ => false) sampleChain 8 = some s ∧
    s.Invokes (sampleWorld fun _ _ => false) (.resume 1 (sampleReply sampleChain)) s' inv ∧ inv.runId = "run_1" ∧
    inv.context.taskId = "b" := by
  have hev : EventSystem.exec (System.step (sampleWorld fun _ _ => false))
      (firstRun sampleChain [] (sampleReply sampleChain))
      (sampleEvents sampleChain 8 ++ [.resume 1 (sampleReply sampleChain)]) =
        sampleAfter (fun _ _ => false) sampleChain 9 := by
    rfl
  obtain ⟨s', hs⟩ := Option.isSome_iff_exists.1 (by decide +kernel :
    (sampleAfter (fun _ _ => false) sampleChain 9).isSome = true)
  obtain ⟨s, h₁, h₂⟩ := EventSystem.exec_snoc.1 (hev.trans hs)
  have hlog : (sampleAfter (fun _ _ => false) sampleChain 9).map (fun s => s.stores.invocations.map fun inv =>
      (inv.runId, inv.context.taskId)) = some [("run_1", "a"), ("run_1", "b")] := by decide +kernel
  have hlog' : (sampleAfter (fun _ _ => false) sampleChain 8).map (fun s => s.stores.invocations.length) =
    some 1 := by
    decide +kernel
  rw [hs, Option.map_some, Option.some.injEq] at hlog
  rw [show sampleAfter (fun _ _ => false) sampleChain 8 = some s from h₁, Option.map_some,
    Option.some.injEq] at hlog'
  obtain ⟨l, hl⟩ := log_exec (EventSystem.exec_cons.2 ⟨s', h₂, rfl⟩ :
    EventSystem.exec (System.step (sampleWorld fun _ _ => false)) s [_] = some s')
  -- one call before the segment, two after it
  obtain ⟨first, hfirst⟩ := List.length_eq_one_iff.1 hlog'
  rw [← hl, hfirst, List.singleton_append, List.map_cons, List.cons_eq_cons] at hlog
  obtain ⟨inv, rfl⟩ : ∃ inv, l = [inv] := by
    have := congrArg List.length hlog.2
    rw [List.length_map] at this
    exact List.length_eq_one_iff.1 this
  obtain ⟨hrun, htask⟩ := Prod.mk.inj (List.singleton_inj.1 hlog.2)
  exact ⟨s, s', inv, h₁, ⟨h₂, hl.symm⟩, hrun, htask⟩

/-- `a` has succeeded, but the handler of `b`, which depends on it, is not given its output. -/
theorem prior_outputs_missing : ∃ s s' inv w, sampleAfter (fun _ _ => false) sampleChain 8 = some s ∧
    s.Invokes (sampleWorld fun _ _ => false) (.resume 1 (sampleReply sampleChain)) s' inv ∧
    inv.runId = "run_1" ∧ inv.context.taskId = "b" ∧ s.stores.getByRunId "run_1" = some w ∧
    ¬ DeliversPriorOutputs w (sampleTask "b" ["a"] none) inv := by
  obtain ⟨s, s', inv, hs, hinv, hrun, htask⟩ := sampleChain_calls_b
  have hnew : NewRun (sampleWorld fun _ _ => false) 0 sampleChain (sampleRun sampleChain) _ :=
    sample_newRun _ (by decide +kernel)
  have hq : (sampleWorld fun _ _ => false).Quiet := (sampleWorld_wired _).quiet
  obtain ⟨w, _, _, _, t, hw, _, _, _, _, hctx⟩ :=
    (hnew.exec hq (sampleEvents_undisturbed sampleChain 8) hs).invokes
    (runInv_closed hq hnew.accepted hnew.instantiates) (by exact trivial) hinv hrun
  refine ⟨s, s', inv, w, hs, hinv, hrun, htask, hw, fun hd => ?_⟩
  have := (deliversPriorOutputs_iff hctx).1 hd
  simp [sampleTask, TaskDefinition.dependencies] at this

/-- The call of `b` gets no outputs, because `b` has a dependency. -/
theorem prior_outputs_delivered_iff_sample : ∃ s s' inv, sampleAfter (fun _ _ => false) sampleChain 8 = some s ∧
    s.Invokes (sampleWorld fun _ _ => false) (.resume 1 (sampleReply sampleChain)) s' inv ∧
    ∃ w c, s.stores.getByRunId "run_1" = some w ∧ c ∈ sampleChain.tasks ∧ c.id = inv.context.taskId ∧
      (DeliversPriorOutputs w c inv ↔ c.dependencies = []) := by
  obtain ⟨s, s', inv, hs, hinv, hrun, _⟩ := sampleChain_calls_b
  exact ⟨s, s', inv, hs, hinv, prior_outputs_delivered_iff (sampleWorld_wired _)
    (sample_newRun _ (d := sampleChain) (by decide +kernel))
    (sampleEvents_undisturbed sampleChain 8) hs (by exact trivial) hinv hrun⟩

end Jobflow
