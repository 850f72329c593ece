import Mathlib.Algebra.Order.BigOperators.Group.List
import Mathlib.Algebra.Order.Group.Nat
import Jobflow.Executed

/-!
# Every execution ends

Each segment of a call of `executeRun` lowers a weight: the attempts that the tasks still have, and within one
attempt the awaits still to come. So a call that is resumed again and again settles, whatever state it is resumed
in.
-/

namespace Jobflow

/-- The attempts that the tasks which have not succeeded still have. -/
def remaining (d : JobDefinition) (w : WorkflowInstance) : Nat :=
  (w.tasks.map fun t => if t.status = .succeeded then 0 else allowedAttempts d.retryPolicy - t.attempt).sum

/-! ## The weight of an await -/

/-- The weight of a transition that has returned, with `n` attempts left. -/
def Purpose.weight (n : Nat) : Purpose → Nat
  | .start => 4 * n + 10
  | .complete | .await | .fail => 6
  | .deadLetter => 2

/-- The awaits of `applyTransition` still to come. -/
def TransitionStage.weight : TransitionStage → Nat
  | .workflowSaved => 3
  | .runRead _ => 2
  | .runSaved => 1
  | .returned => 0

/-- The weight of an await of `executeRun`; before the instance has been read the `stored` one counts. -/
def ExecPc.weight (d : JobDefinition) (stored : Option WorkflowInstance) : ExecPc → Nat
  | .runRead _ => 4 * (stored.map (remaining d)).getD 0 + 16
  | .definitionRead _ _ => 4 * (stored.map (remaining d)).getD 0 + 15
  | .workflowRead _ found => 4 * (found.map (remaining d)).getD 0 + 14
  | .started _ w => 4 * remaining d w + 10
  | .transition purpose _ t => purpose.weight (remaining d t.next) + t.stage.weight
  | .handler _ w _ _ _ => 4 * remaining d w + 9
  | .taskSaved _ w _ => 4 * remaining d w + 12
  | .sleeping _ w _ => 4 * remaining d w + 11
  | .requeued _ w _ => 4 * remaining d w + 10
  | .deadLetterPushed | .rejected _ => 1
  | .settled _ => 0

/-! ## Updates of a task -/

section
variable {world : World} {d : JobDefinition} {w₀ w : WorkflowInstance} {t t' : TaskRun} {now : ISODateString}

/-- The terms of the sum after an update, task by task. -/
theorem remaining_updateTask (w : WorkflowInstance) (t' : TaskRun) (now : ISODateString) :
    remaining d (ExecutionService.updateTask w t' now) =
      (w.tasks.map fun t => if t.id = t'.id then
        (if t'.status = .succeeded then 0 else allowedAttempts d.retryPolicy - t'.attempt)
        else if t.status = .succeeded then 0 else allowedAttempts d.retryPolicy - t.attempt).sum := by
  unfold remaining ExecutionService.updateTask
  rw [List.map_map]
  refine congrArg List.sum (List.map_congr_left fun t _ => ?_)
  by_cases he : t.id = t'.id
  · simp [he]
  · simp [he]

/-- An update that takes an attempt from a task lowers the sum. -/
theorem remaining_lt (hn : (w.tasks.map (·.id)).Nodup) (ht : t ∈ w.tasks) (hid : t'.id = t.id)
    (hs : t.status ≠ .succeeded) (hlt : t.attempt < allowedAttempts d.retryPolicy)
    (h : t'.status = .succeeded ∨ t.attempt < t'.attempt) :
    remaining d (ExecutionService.updateTask w t' now) < remaining d w := by
  have hterm : (if t'.status = .succeeded then 0 else allowedAttempts d.retryPolicy - t'.attempt) <
      allowedAttempts d.retryPolicy - t.attempt := by
    rcases h with h | h
    · rw [if_pos h]
      omega
    · split <;> omega
  rw [remaining_updateTask, remaining]
  refine List.sum_lt_sum _ _ (fun x hx => ?_) ⟨t, ht, ?_⟩
  · by_cases he : x.id = t'.id
    · obtain rfl := List.inj_on_of_nodup_map hn hx ht (he.trans hid)
      rw [if_pos he, if_neg hs]
      exact hterm.le
    · rw [if_neg he]
  · rw [if_pos hid.symm, if_neg hs]
    exact hterm

/-- An update that only changes the status does not raise it. -/
theorem remaining_le (hn : (w.tasks.map (·.id)).Nodup) (ht : t ∈ w.tasks) (hid : t'.id = t.id)
    (hs : t.status ≠ .succeeded) (hatt : t'.attempt = t.attempt) :
    remaining d (ExecutionService.updateTask w t' now) ≤ remaining d w := by
  rw [remaining_updateTask, remaining]
  refine List.sum_le_sum fun x hx => ?_
  by_cases he : x.id = t'.id
  · obtain rfl := List.inj_on_of_nodup_map hn hx ht (he.trans hid)
    rw [if_pos he, if_neg hs, hatt]
    split <;> omega
  · rw [if_neg he]

end

/-! ## Every segment lowers the weight -/

section
variable {world : World} {k : Nat} {d d' : JobDefinition} {w₀ w : WorkflowInstance} {s : Stores}
  {now : ISODateString}
  {stored : Option WorkflowInstance} {x : Stores × ExecPc}

theorem weight_settle {r : RunId} (result : Except JobflowError Unit) :
    (ExecutionService.settle k r s result).2.weight d stored = 0 := rfl

/-- A transition that the executor asks for either begins or is rejected. -/
theorem weight_transition {purpose : Purpose} {event : String} {target : WorkflowState} {actor : String} :
    (ExecutionService.transition s purpose d' w event target actor now).2.weight d stored ≤
      purpose.weight (remaining d w) + 3 := by
  unfold ExecutionService.transition
  cases ha : WorkflowOrchestrator.applyTransition s w event target actor now with
  | error e =>
    simp only [ExecPc.weight]
    omega
  | ok st =>
    obtain ⟨_, _, _, ht⟩ := WorkflowOrchestrator.applyTransition_ok.1 ha
    simp only [ht]
    exact Nat.le_refl _

theorem weight_afterLoop {r : RunId} : (ExecutionService.afterLoop k r s d' w now).2.weight d stored ≤ 5 := by
  unfold ExecutionService.afterLoop
  split
  · exact weight_transition
  · rw [weight_settle]
    omega

theorem weight_loop {r : RunId} :
    (ExecutionService.loop k r s d' w now).2.weight d stored ≤ 4 * remaining d w + 9 := by
  unfold ExecutionService.loop
  split
  · exact weight_afterLoop.trans (by omega)
  split
  · split
    · split
      · rw [weight_settle]
        omega
      · refine weight_transition.trans ?_
        simp only [Purpose.weight]
        omega
    · refine weight_transition.trans ?_
      simp only [Purpose.weight]
      omega
  · split
    · simp only [ExecPc.weight]
      omega
    · exact Nat.le_refl _

/-- The segment that follows a handler's answer. -/
theorem weight_afterTask {r : RunId} {result : ExecuteResult} :
    (ExecutionService.afterTask k r s d' w result now).2.weight d stored ≤ 4 * remaining d w + 9 := by
  unfold ExecutionService.afterTask
  split
  · refine weight_transition.trans ?_
    simp only [Purpose.weight]
    omega
  · exact weight_loop

/-- A segment of `applyTransition` that does not end the call comes one await nearer to its end. -/
theorem TransitionCall.resume_suspended {tc tc' : TransitionCall} {s' : Stores}
    (h : tc.resume world s now = (s', .suspended tc')) :
    tc'.next = tc.next ∧ tc'.stage.weight < tc.stage.weight := by
  have hann : ∀ {s' tc'}, WorkflowOrchestrator.announce world s tc now = (s', .suspended tc') →
      tc'.next = tc.next ∧ tc'.stage = .returned := by
    intro s' tc' h
    unfold WorkflowOrchestrator.announce at h
    dsimp only at h
    split at h
    · cases h
    · cases h
      exact ⟨rfl, rfl⟩
  unfold TransitionCall.resume at h
  split at h
  · rename_i hst
    cases h
    exact ⟨rfl, by rw [hst]; exact Nat.lt_succ_self _⟩
  · rename_i hst
    cases h
    exact ⟨rfl, by rw [hst]; exact Nat.lt_succ_self _⟩
  · rename_i hst
    obtain ⟨hn, hs⟩ := hann h
    exact ⟨hn, by rw [hs, hst]; exact Nat.two_pos⟩
  · rename_i hst
    obtain ⟨hn, hs⟩ := hann h
    exact ⟨hn, by rw [hs, hst]; exact Nat.one_pos⟩
  · cases h

theorem weight_afterTransition {r : RunId} {purpose : Purpose} :
    (ExecutionService.afterTransition k r s purpose d' w now).2.weight d stored <
      purpose.weight (remaining d w) := by
  cases purpose with
  | start => exact weight_loop.trans_lt (Nat.lt_succ_self _)
  | complete | await | fail => exact weight_afterLoop.trans_lt (Nat.lt_succ_self _)
  | deadLetter => exact Nat.one_lt_two

theorem Purpose.one_lt_weight (purpose : Purpose) (n : Nat) : 1 < purpose.weight n := by
  cases purpose <;> simp [weight]

/-- The awaits after which the executor saves a task. -/
def ExecPc.savesTask : ExecPc → Bool
  | .handler _ _ _ _ _ | .sleeping _ _ _ => true
  | _ => false

/-- Every other segment lowers the weight, whatever it works on. -/
theorem ExecPc.weight_lt {r : RunId} {pc : ExecPc} (hpc : pc.savesTask = false)
    (hx : ExecutionService.resume world k r s now pc = some x) :
    x.2.weight d (x.1.record r).workflow < pc.weight d (s.record r).workflow := by
  cases pc with
  | runRead found =>
    cases found <;> obtain rfl := Option.some.inj hx
    · rw [weight_settle]
      exact Nat.succ_pos _
    · exact Nat.lt_succ_self _
  | definitionRead jobId found =>
    cases found <;> obtain rfl := Option.some.inj hx
    · rw [weight_settle]
      exact Nat.succ_pos _
    · exact Nat.lt_succ_self _
  | workflowRead d' found =>
    cases found with
    | none =>
      obtain rfl := Option.some.inj hx
      rw [weight_settle]
      exact Nat.succ_pos _
    | some w =>
      simp only [ExecutionService.resume] at hx
      split at hx <;> obtain rfl := Option.some.inj hx
      · exact weight_transition.trans_lt (Nat.lt_succ_self _)
      · simp only [weight, Option.map_some, Option.getD_some]
        omega
  | started d' w =>
    obtain rfl := Option.some.inj hx
    exact weight_loop.trans_lt (Nat.lt_succ_self _)
  | transition purpose d' tc =>
    simp only [ExecutionService.resume] at hx
    split at hx
    · rename_i hres
      obtain ⟨hnext, hlt⟩ := TransitionCall.resume_suspended hres
      obtain rfl := Option.some.inj hx
      simp only [weight, hnext]
      omega
    · obtain rfl := Option.some.inj hx
      have := purpose.one_lt_weight (remaining d tc.next)
      simp only [weight]
      omega
    · rename_i hres
      obtain ⟨rfl, rfl⟩ := TransitionCall.resume_returned hres
      obtain rfl := Option.some.inj hx
      exact weight_afterTransition.trans_le (Nat.le_add_right _ _)
  | handler d' w c running earlier | sleeping d' w result => cases hpc
  | taskSaved d' w result =>
    simp only [ExecutionService.resume] at hx
    split at hx <;> obtain rfl := Option.some.inj hx
    · exact Nat.lt_succ_self _
    · refine weight_afterTask.trans_lt ?_
      simp only [weight]
      omega
  | requeued d' w result =>
    obtain rfl := Option.some.inj hx
    exact weight_afterTask.trans_lt (Nat.lt_succ_self _)
  | deadLetterPushed | rejected e =>
    obtain rfl := Option.some.inj hx
    exact Nat.one_pos
  | settled result => cases hx

/-- Whatever the handler answers, it is the same task that comes back, and it is no longer running. -/
theorem TaskExecutor.finish_task (running : TaskRun) (policy : RetryPolicy)
    (answer : Except String SimulatedResult) (now : ISODateString) :
    (finish running policy answer now).task.identity = running.identity ∧
      (finish running policy answer now).task.attempt = running.attempt ∧
      (finish running policy answer now).task.status ≠ .running ∧
      (finish running policy answer now).task.status ≠ .skipped := by
  have hfail : ∀ message, (handleFailure running policy message now).task.identity = running.identity ∧
      (handleFailure running policy message now).task.attempt = running.attempt ∧
      (handleFailure running policy message now).task.status ≠ .running ∧
      (handleFailure running policy message now).task.status ≠ .skipped := by
    intro message
    unfold handleFailure
    dsimp only
    split <;> exact ⟨rfl, rfl, by simp, by simp⟩
  unfold finish
  split
  · exact hfail _
  · split
    · exact hfail _
    · exact ⟨rfl, rfl, by simp, by simp⟩

/-- In a run of an accepted definition the two others do too. -/
theorem RunInv.weight_lt (hi : Instantiates d w₀) {pc : ExecPc}
    (h : RunInv world d w₀ (some pc) (s.record w₀.runId))
    (hx : ExecutionService.resume world k w₀.runId s now pc = some x) :
    x.2.weight d (x.1.record w₀.runId).workflow < pc.weight d (s.record w₀.runId).workflow := by
  cases hpc : pc.savesTask with
  | false => exact ExecPc.weight_lt hpc hx
  | true =>
    cases h with
    | @handler _ w done c t n began i _ _ hw hn ht htc =>
      obtain rfl := Option.some.inj hx
      obtain ⟨hstatus, hatt, _⟩ := hw.current t ht htc
      -- the attempt that was in flight is gone, whatever came of it
      let result := ExecutionService.answered world w₀.runId d w c (TaskExecutor.start t began) 0 now
      obtain ⟨hid, hattempt, _⟩ := TaskExecutor.finish_task (TaskExecutor.start t began) d.retryPolicy
        (TaskSimulator.execute world.simulator c.handler w.context (world.answer w₀.runId t.definitionTaskId
          (t.attempt + 1) 0)) now
      have hless : t.attempt < result.task.attempt := Nat.lt_of_lt_of_eq (Nat.lt_succ_self _) hattempt.symm
      have hlt : remaining d (ExecutionService.updateTask w result.task now) < remaining d w :=
        remaining_lt (hw.later.ids_nodup hi) ht (congrArg Prod.fst hid) (by simp [hstatus]) (hatt ▸ hn) (.inr hless)
      show 4 * remaining d (ExecutionService.updateTask w result.task now) + 12 < 4 * remaining d w + 9
      omega
    | @retrying _ _ w result _ _ hp _ _ hw _ ht htc =>
      rcases hp with rfl | rfl
      · cases hpc
      · obtain rfl := Option.some.inj hx
        obtain ⟨hstatus, _, _⟩ := hw.current _ ht htc
        have hle : remaining d (ExecutionService.updateTask w { result.task with status := .queued } now) ≤
            remaining d w := remaining_le (hw.later.ids_nodup hi) ht rfl (by simp [hstatus]) rfl
        show 4 * remaining d (ExecutionService.updateTask w { result.task with status := .queued } now) + 10 <
          4 * remaining d w + 11
        omega
    | _ => cases hpc

end

/-! ## Every call settles -/

section
variable {world : World} {k : Nat} {d : JobDefinition} {w₀ : WorkflowInstance} {s : System}

/-- Every call of `executeRun` for run `r` settles when it is resumed often enough, whatever its segments are
answered. -/
def System.Settles (world : World) (k : Nat) (r : RunId) (s : System) : Prop :=
  ∀ i pc, s.calls[i]? = some (.execute k r pc) → pc.running = some pc → ∀ feed : Nat → Reply, ∃ n s',
    EventSystem.exec (System.step world) s ((List.range n).map fun j => .resume i (feed j)) = some s' ∧
      s'.executing r = []

/-- The weight of the await at which run `r` is suspended. -/
def System.weight (d : JobDefinition) (r : RunId) (s : System) : Nat :=
  ((s.executing r).map (ExecPc.weight d (s.stores.record r).workflow)).sum

theorem ExecutionService.resume_enabled {st : Stores} {r : RunId} {now : ISODateString} {pc : ExecPc}
    (h : pc.running = some pc) : ∃ x, resume world k r st now pc = some x := by
  cases pc with
  | runRead found => cases found <;> exact ⟨_, rfl⟩
  | definitionRead jobId found => cases found <;> exact ⟨_, rfl⟩
  | workflowRead d found =>
    cases found with
    | none => exact ⟨_, rfl⟩
    | some w =>
      simp only [resume]
      split <;> exact ⟨_, rfl⟩
  | transition purpose d t =>
    simp only [resume]
    split <;> exact ⟨_, rfl⟩
  | taskSaved d w result =>
    simp only [resume]
    split <;> exact ⟨_, rfl⟩
  | settled result => cases h
  | _ => exact ⟨_, rfl⟩

/-- Under `I` every segment of `executeRun` lowers the weight. -/
def Lowers (world : World) (k : Nat) (r : RunId) (d : JobDefinition)
    (I : Option ExecPc → RunRecord → Prop) : Prop :=
  ∀ (s : Stores) (now : ISODateString) (pc : ExecPc) (x : Stores × ExecPc), I (some pc) (s.record r) →
    ExecutionService.resume world k r s now pc = some x →
      x.2.weight d (x.1.record r).workflow < pc.weight d (s.record r).workflow

variable {r : RunId} {d' : JobDefinition} {I : Option ExecPc → RunRecord → Prop}

/-- A segment of the call that executes the run; the weight may count by another definition. -/
theorem OnRun.resume_lt (hlt : Lowers world k r d' I) (h : OnRun k r d I s) {i : Nat} {pc : ExecPc}
    (hcall : s.calls[i]? = some (.execute k r pc)) (hpc : pc.running = some pc) (reply : Reply) :
    ∃ x : Stores × ExecPc, s.step world (.resume i reply) = some (s.suspend i x.1 (.execute k r x.2)) ∧
      (s.suspend i x.1 (.execute k r x.2)).executing r = x.2.running.toList ∧
      (s.suspend i x.1 (.execute k r x.2)).weight d' r < s.weight d' r := by
  obtain ⟨x, hx⟩ : ∃ x, ExecutionService.resume world k r s.stores reply.now pc = some x :=
    ExecutionService.resume_enabled hpc
  have hold : Call.executing r (.execute k r pc) = some pc := by simp [Call.executing, hpc]
  have hmem : pc ∈ s.executing r := List.mem_filterMap.2 ⟨_, List.mem_of_getElem? hcall, hold⟩
  have hp := h.phase
  cases hpcs : s.executing r with
  | nil =>
    rw [hpcs] at hmem
    cases hmem
  | cons pc' rest =>
    rw [hpcs] at hp
    cases hp with
    | busy _ hI =>
      obtain ⟨rfl, hset⟩ := filterMap_set_of_single _ (b := Call.execute k r x.2) hcall hold hpcs
      have hexec : (s.suspend i x.1 (.execute k r x.2)).executing r = x.2.running.toList :=
        hset.trans (by simp [Call.executing])
      refine ⟨x, by simp [System.step, System.resume, hcall, hx], hexec, ?_⟩
      rw [System.weight, System.weight, hexec, hpcs, List.map_singleton, List.sum_singleton]
      refine Nat.lt_of_le_of_lt ?_ (hlt _ _ _ _ hI hx)
      rcases ExecPc.running_segment x.2 with ⟨hrun, _⟩ | ⟨hrun, _⟩
      · rw [hrun]
        exact (List.sum_singleton).le
      · rw [hrun]
        exact Nat.zero_le _

/-- Whatever state a call of `executeRun` is in, it settles. -/
theorem Closed.settles (hI : Closed world k r d I) (hlt : Lowers world k r d' I) (h : OnRun k r d I s) :
    s.Settles world k r := by
  intro i pc hcall hpc feed
  let J : System → Prop := fun s => OnRun k r d I s ∧
    (s.executing r = [] ∨ ∃ pc, s.calls[i]? = some (.execute k r pc) ∧ pc.running = some pc)
  have hstep : ∀ (s : System) (e : Event), J s → ¬ s.executing r = [] → (∃ reply, e = .resume i reply) →
      ∃ s', s.step world e = some s' ∧ J s' ∧ s'.weight d' r < s.weight d' r := by
    rintro s e ⟨hon, hcall⟩ hbusy ⟨reply, rfl⟩
    obtain ⟨pc, hcall, hpc⟩ := hcall.resolve_left hbusy
    obtain ⟨x, hx, hexec, hlt⟩ := hon.resume_lt hlt hcall hpc reply
    refine ⟨_, hx, ⟨hon.step hI (by exact trivial) hx, ?_⟩, hlt⟩
    rcases ExecPc.running_segment x.2 with ⟨hrun, _⟩ | ⟨hrun, _⟩
    · exact .inr ⟨x.2, List.getElem?_set_self (List.getElem?_eq_some_iff.1 hcall).1, hrun⟩
    · exact .inl (by rw [hexec, hrun]; rfl)
  obtain ⟨n, s', _, hexec, hdone, _⟩ := EventSystem.exec_feed_done (System.weight d' r) hstep _ s (Nat.le_refl _)
    ⟨h, .inr ⟨pc, hcall, hpc⟩⟩ (fun j => .resume i (feed j)) fun j => ⟨feed j, rfl⟩
  exact ⟨n, s', by simpa using hexec, hdone⟩

/-- The calls that execute a new run settle. -/
theorem NewRun.settles (hq : world.Quiet) (h : NewRun world k d w₀ s) {events : List Event} {s' : System}
    (hok : ∀ e ∈ events, e.Undisturbed k w₀.runId d.id)
    (hs : EventSystem.exec (System.step world) s events = some s') : s'.Settles world k w₀.runId := by
  have hlt : Lowers world k w₀.runId d (RunInv world d w₀) := fun _ _ _ _ hI hx => hI.weight_lt h.instantiates hx
  exact (runInv_closed hq h.accepted h.instantiates).settles hlt (h.exec hq hok hs)

end

end Jobflow
