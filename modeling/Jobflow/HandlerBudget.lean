import Jobflow.Invocations
import Jobflow.Termination

/-!
# How many handler calls an execution makes

A retry leaves the set of finished tasks as it is, but the attempts that the log of handler calls holds for a task are
those the task has recorded, and `RetryHandler.decide` stops at the policy's limit. So an execution of `n` tasks ends
within `n` times `maxAttempts` handler calls (`handler_calls_bounded`), whatever the handlers answer.
-/

namespace Jobflow

/-- A log whose entries fall into `ids`, at most `n` under each. -/
theorem length_le_mul {α β : Type} [DecidableEq β] {f : α → β} {n : Nat} : ∀ {ids : List β} {l : List α},
    (∀ x ∈ l, f x ∈ ids) → (∀ id ∈ ids, l.countP (f · = id) ≤ n) → l.length ≤ ids.length * n
  | [], l, hmem, _ => by
    have hnil : l = [] := List.eq_nil_iff_forall_not_mem.2 fun x hx => List.not_mem_nil (hmem x hx)
    simp [hnil]
  | id :: ids, l, hmem, hcount => by
    have hrest : (l.filter (f · ≠ id)).length ≤ ids.length * n := by
      refine length_le_mul (f := f) (fun x hx => ?_) fun id' hid' => ?_
      · obtain ⟨hx, hne⟩ := List.mem_filter.1 hx
        exact (List.mem_cons.1 (hmem x hx)).resolve_left (of_decide_eq_true hne)
      · exact List.filter_sublist.countP_le.trans (hcount id' (List.mem_cons_of_mem _ hid'))
    have hsplit := List.length_eq_countP_add_countP (f · = id) (l := l)
    have hid := hcount id List.mem_cons_self
    simp only [decide_not, ← List.countP_eq_length_filter] at hrest
    simp only [decide_eq_true_eq, decide_not] at hsplit
    rw [List.length_cons, Nat.add_mul, Nat.one_mul]
    omega

section
variable {world : World} {k : Nat} {d : JobDefinition} {w₀ w : WorkflowInstance} {s s' : System} {done : List String}
  {c : TaskDefinition} {status : TaskStatus} {n : Nat}

/-! ## The attempts of a task -/

/-- No task has used more attempts than it is allowed. -/
structure WithinBudget (d : JobDefinition) (w₀ w : WorkflowInstance) : Prop where
  later : Later w₀ w
  attempt : ∀ t ∈ w.tasks, t.attempt ≤ allowedAttempts d.retryPolicy

theorem Busy.withinBudget (h : Busy world d w₀ done c status n w) (hn : n ≤ allowedAttempts d.retryPolicy) :
    WithinBudget d w₀ w :=
  ⟨h.later, fun _ ht => h.attempt_le hn ht⟩

theorem AllDone.withinBudget (h : AllDone world d w₀ w) : WithinBudget d w₀ w :=
  ⟨h.later, fun t ht => (h.finished t ht).attempt.2⟩

theorem AtLoop.withinBudget (h : AtLoop world d w₀ w) : WithinBudget d w₀ w := by
  cases h with
  | busy h hn => exact h.withinBudget hn.le
  | allDone h => exact h.withinBudget

theorem Settled.withinBudget {dl : List DeadLetterEntry} (h : Settled world d w₀ w dl) : WithinBudget d w₀ w := by
  cases h with
  | pending _ hw _ _ => exact hw.withinBudget
  | blocked _ hw _ _ | completed _ hw _ _ => exact hw.withinBudget
  | failed _ hw _ _ | deadLettered _ hw _ _ => exact hw.withinBudget le_rfl

theorem Moving.withinBudget {purpose : Purpose} {before : WorkflowState} (h : Moving world d w₀ w purpose before) :
    WithinBudget d w₀ w := by
  cases h with
  | start _ hw => exact hw.withinBudget
  | complete _ hw _ => exact hw.withinBudget
  | fail _ hw | deadLetter _ hw _ => exact hw.withinBudget le_rfl

/-- At every await no task has had more calls than it is allowed attempts. -/
theorem RunInv.calls_le {o : Option ExecPc} {rec : RunRecord} (h : RunInv world d w₀ o rec) :
    ∃ w, rec.workflow = some w ∧ Later w₀ w ∧ ∀ t ∈ w.tasks,
      (attemptsOf rec.invocations t.definitionTaskId).length ≤ allowedAttempts d.retryPolicy := by
  have hquiet : ∀ {w status}, Stored d rec w status none → WithinBudget d w₀ w →
      ∃ w, rec.workflow = some w ∧ Later w₀ w ∧ ∀ t ∈ w.tasks,
        (attemptsOf rec.invocations t.definitionTaskId).length ≤ allowedAttempts d.retryPolicy := by
    intro w status hst hw
    refine ⟨w, hst.workflow, hw.later, fun t ht => ?_⟩
    rw [hst.log t ht, List.length_range', if_neg (by simp)]
    exact hw.attempt t ht
  cases h with
  | rest h | runRead h | definitionRead h | workflowRead h =>
    obtain ⟨w, hst, hs⟩ := h
    exact hquiet hst hs.withinBudget
  | started hst hs _ => exact hquiet hst hs.withinBudget
  | transition hst hm _ _ _ => exact hquiet hst hm.withinBudget
  | succeeded hst _ hw _ _ _ => exact hquiet hst hw.withinBudget
  | exhausted hst _ hw _ _ _ => exact hquiet hst (hw.withinBudget le_rfl)
  | retrying _ hst _ hw hn _ _ _ _ => exact hquiet hst (hw.withinBudget hn.le)
  | requeued hst _ hw _ _ => exact hquiet hst hw.withinBudget
  | deadLetterPushed hst _ hs => exact hquiet hst hs.withinBudget
  | handler hst _ hw hn _ _ _ _ _ =>
    refine ⟨_, hst.workflow, hw.later, fun t ht => ?_⟩
    rw [hst.log t ht, List.length_range']
    -- only the task in flight has a call more than its attempts
    split
    · rename_i hcur
      obtain ⟨-, hatt, -⟩ := hw.current t ht (Option.some.inj hcur).symm
      rw [hatt]
      exact hn
    · exact (hw.withinBudget hn.le).attempt t ht

/-! ## The log of an execution -/

/-- Every handler call logged for the run is for a task of its definition. -/
def LogsTasks (d : JobDefinition) (r : RunId) (s : System) : Prop :=
  ∀ inv ∈ (s.stores.record r).invocations, inv.context.taskId ∈ d.tasks.map (·.id)

theorem LogsTasks.step (hI : Closed world k w₀.runId d (RunInv world d w₀))
    (h : OnRun k w₀.runId d (RunInv world d w₀) s) (hlog : LogsTasks d w₀.runId s) {e : Event}
    (he : e.Undisturbed k w₀.runId d.id) (hs : s.step world e = some s') : LogsTasks d w₀.runId s' := by
  intro inv hinv
  obtain ⟨hmem, hr⟩ := List.mem_filter.1 hinv
  rcases System.step_log hs with hsame | ⟨i, k', r, d', w', c, t', now, hst, -⟩
  · rw [hsame] at hmem
    exact hlog inv (List.mem_filter.2 ⟨hmem, hr⟩)
  · have hgrown : ∃ new, s'.stores.invocations = s.stores.invocations ++ [new] := by
      rw [hst]
      exact ⟨_, rfl⟩
    obtain ⟨new, hnew⟩ := hgrown
    rw [hnew] at hmem
    rcases List.mem_append.1 hmem with hold | hlast
    · exact hlog inv (List.mem_filter.2 ⟨hold, hr⟩)
    · obtain rfl := List.mem_singleton.1 hlast
      obtain ⟨w, done, c, n, t, -, hb, -, htc, -, hctx⟩ :=
        h.invokes hI he ⟨hs, hnew⟩ (of_decide_eq_true hr)
      rw [hctx]
      exact List.mem_map.2 ⟨c, TaskScheduler.ready_mem hb.ready, htc.symm⟩

theorem NewRun.logsTasks (hq : world.Quiet) (h : NewRun world k d w₀ s) {events : List Event}
    (hok : ∀ e ∈ events, e.Undisturbed k w₀.runId d.id)
    (hs : EventSystem.exec (System.step world) s events = some s') : LogsTasks d w₀.runId s' := by
  have hI : Closed world k w₀.runId d (RunInv world d w₀) := runInv_closed hq h.accepted h.instantiates
  have hinit : LogsTasks d w₀.runId s := by
    obtain ⟨_, _, _, _, _, _, _, hrec⟩ := h.created
    intro inv hinv
    rw [hrec] at hinv
    cases hinv
  have hboth := EventSystem.exec_invariant
    (I := fun m : System => OnRun k w₀.runId d (RunInv world d w₀) m ∧ LogsTasks d w₀.runId m)
    (fun m e m' hm he hstep => ⟨hm.1.step hI he hstep, hm.2.step hI hm.1 he hstep⟩) ⟨h.onRun, hinit⟩ hok hs
  exact hboth.2

end

/-- **Executions are bounded**: whatever the handlers of a new run answer and however its execution is interleaved with
the rest of the system, every call of `executeRun` for it settles, and at no time have its `n` tasks had more than `n`
times `maxAttempts` handler calls. -/
theorem handler_calls_bounded {world : World} {k : Nat} {d : JobDefinition} {w₀ : WorkflowInstance} {s s' : System}
    {events : List Event} (hwired : world.Wired) (h : NewRun world k d w₀ s)
    (hok : ∀ e ∈ events, e.Undisturbed k w₀.runId d.id)
    (hs : EventSystem.exec (System.step world) s events = some s') :
    s'.Settles world k w₀.runId ∧
      ((s'.stores.record w₀.runId).invocations.length : Int) ≤ d.tasks.length * d.retryPolicy.maxAttempts := by
  have hq := hwired.quiet
  refine ⟨h.settles hq hok hs, ?_⟩
  have hlog := h.logsTasks hq hok hs
  obtain ⟨o, hinv⟩ := (h.exec hq hok hs).inv
  obtain ⟨w, -, hlater, hle⟩ := hinv.calls_le
  have hcount : (s'.stores.record w₀.runId).invocations.length ≤
      (d.tasks.map (·.id)).length * allowedAttempts d.retryPolicy := by
    refine length_le_mul (f := fun inv : Invocation => inv.context.taskId) (fun inv hinv => hlog inv hinv) ?_
    intro id hid
    rw [← hlater.definitionTaskIds h.instantiates] at hid
    obtain ⟨t, ht, rfl⟩ := List.mem_map.1 hid
    have hcalls := hle t ht
    rwa [attemptsOf, List.length_map, ← List.countP_eq_length_filter] at hcalls
  rw [List.length_map] at hcount
  obtain ⟨hmin, -⟩ := retryPolicySchema_bounds h.accepted.policy
  have hallowed : (allowedAttempts d.retryPolicy : Int) ≤ d.retryPolicy.maxAttempts := by
    unfold allowedAttempts
    omega
  calc ((s'.stores.record w₀.runId).invocations.length : Int)
      ≤ d.tasks.length * allowedAttempts d.retryPolicy := by exact_mod_cast hcount
    _ ≤ d.tasks.length * d.retryPolicy.maxAttempts := Int.mul_le_mul_of_nonneg_left hallowed (Int.natCast_nonneg _)

/-- Both attempts of `a` fail, and the run ends after two calls of the six it may make. -/
theorem handler_calls_bounded_sample : ∃ s', sampleAfter (fun _ _ => true) sampleChain 17 = some s' ∧
    (s'.stores.record "run_1").invocations.length = 2 ∧ s'.Settles (sampleWorld fun _ _ => true) 0 "run_1" ∧
    ((s'.stores.record "run_1").invocations.length : Int) ≤ sampleChain.tasks.length * 3 := by
  obtain ⟨s', hs, -, -, hp⟩ := sample_at_rest (fun _ _ => true) sampleChain 17
    (p := fun s => (s.stores.record "run_1").invocations.length = 2) (by decide +kernel)
  exact ⟨s', hs, of_decide_eq_true hp, handler_calls_bounded (sampleWorld_wired _)
    (sample_newRun _ (d := sampleChain) (by decide +kernel)) (sampleEvents_undisturbed sampleChain 17) hs⟩

end Jobflow
