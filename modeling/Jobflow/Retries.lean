import Jobflow.Fate
import Jobflow.Invocations
import Jobflow.Termination

/-!
# Retries and dead letters

`RetryHandler.decide` asks `shouldRetry` about the attempt after the one that has just failed, so a task with
`maxAttempts` of two or more is called one time less than that. The dead-letter decision compares the attempts of
all tasks with `maxAttempts` for each of them, which an execution that stops at the first exhausted task reaches
only when that task is the last one and the policy allows a single attempt.
-/

namespace Jobflow

/-! ## The attempts of a task -/

section
variable {world : World} {d : JobDefinition} {w₀ w : WorkflowInstance} {c : TaskDefinition} {t : TaskRun}

theorem allowedAttempts_cases (ha : Accepted d) :
    d.retryPolicy.maxAttempts.toNat = 1 ∧ allowedAttempts d.retryPolicy = 1 ∨
      2 ≤ d.retryPolicy.maxAttempts.toNat ∧
        allowedAttempts d.retryPolicy = d.retryPolicy.maxAttempts.toNat - 1 := by
  obtain ⟨hmin, _⟩ := retryPolicySchema_bounds ha.policy
  unfold allowedAttempts
  omega

/-- The task keeps the retry budget `n` in an execution that made the calls `calls` and left it as `t`: if its
first `n` attempts fail it is called `n` times and stored as failed, and if attempt `a` is the first to succeed
and is among them it is stored as succeeded with that attempt. -/
structure KeepsRetryBudget (world : World) (w₀ : WorkflowInstance) (c : TaskDefinition) (n : Nat)
    (calls : List Nat) (t : TaskRun) : Prop where
  exhausted : (∀ a, 1 ≤ a → a ≤ n → ¬ world.Succeeds w₀ c a) → calls.length = n ∧ t.status = .failed
  succeeded : ∀ a, 1 ≤ a → a ≤ n → world.Succeeds w₀ c a → (∀ b, 1 ≤ b → b < a → ¬ world.Succeeds w₀ c b) →
    t.status = .succeeded ∧ t.attempt = a

/-- A task that has succeeded keeps its budget. -/
theorem Finished.keepsRetryBudget (ha : Accepted d) (hf : Finished world d w₀ t)
    (htc : t.definitionTaskId = c.id) (hh : t.handler = c.handler) (calls : List Nat) :
    KeepsRetryBudget world w₀ c d.retryPolicy.maxAttempts.toNat calls t := by
  obtain ⟨hpos, hle⟩ := hf.attempt
  have hlast : world.Succeeds w₀ c t.attempt := by
    unfold World.Succeeds
    rw [← htc, ← hh, ← hf.output]
    exact hf.isSome
  have hearlier : ∀ a, 1 ≤ a → a < t.attempt → ¬ world.Succeeds w₀ c a := fun a h₁ h₂ hs => by
    have := hf.earlier a h₁ h₂
    rw [htc, hh] at this
    rw [World.Succeeds, this] at hs
    cases hs
  refine ⟨fun hall => absurd hlast (hall _ hpos ?_), fun a h₁ _ hs hfirst => ⟨hf.status, ?_⟩⟩
  · rcases allowedAttempts_cases ha with ⟨_, _⟩ | ⟨_, _⟩ <;> omega
  · rcases Nat.lt_trichotomy t.attempt a with hlt | heq | hgt
    · exact absurd hlast (hfirst _ hpos hlt)
    · exact heq
    · exact absurd hs (hearlier a h₁ hgt)

/-- A task that has used up the attempts it is allowed keeps its budget only if it is one. -/
theorem keepsRetryBudget_of_failed (ha : Accepted d) {calls : List Nat}
    (hfailed : ∀ a, 1 ≤ a → a ≤ allowedAttempts d.retryPolicy → ¬ world.Succeeds w₀ c a) (hs : t.status = .failed)
    (hcalls : calls.length = allowedAttempts d.retryPolicy) :
    KeepsRetryBudget world w₀ c d.retryPolicy.maxAttempts.toNat calls t ↔ d.retryPolicy.maxAttempts.toNat = 1 := by
  rcases allowedAttempts_cases ha with ⟨hone, hallowed⟩ | ⟨htwo, hallowed⟩
  · refine ⟨fun _ => hone, fun _ => ⟨fun _ => ⟨by omega, hs⟩, fun a h₁ h₂ hsucc => ?_⟩⟩
    exact absurd hsucc (hfailed a h₁ (by omega))
  · refine ⟨fun hk => ?_, fun h => by omega⟩
    -- the last attempt of the budget is never made, whatever would have come of it
    by_cases hsucc : world.Succeeds w₀ c d.retryPolicy.maxAttempts.toNat
    · have := (hk.succeeded _ (by omega) (Nat.le_refl _) hsucc fun b h₁ h₂ => hfailed b h₁ (by omega)).1
      rw [hs] at this
      cases this
    · have := (hk.exhausted fun a h₁ h₂ => by
        rcases Nat.lt_or_ge a d.retryPolicy.maxAttempts.toNat with hlt | hge
        · exact hfailed a h₁ (by omega)
        · rw [Nat.le_antisymm h₂ hge]
          exact hsucc).1
      omega

end

/-! ## The retry budget -/

/-- Of the tasks an executed run has called, those keep the budget of `maxAttempts` that succeed before its last
attempt, and all of them if that is the first. -/
theorem retry_budget_iff {world : World} {k : Nat} {d : JobDefinition} {w₀ : WorkflowInstance} {s s' : System}
    {events : List Event} (hwired : world.Wired) (h : NewRun world k d w₀ s)
    (hok : ∀ e ∈ events, e.Undisturbed k w₀.runId d.id)
    (hs : EventSystem.exec (System.step world) s events = some s') :
    s'.Settles world k w₀.runId ∧
      (s'.ExecutedSince s.calls.length k w₀.runId → s'.executing w₀.runId = [] →
        ∃ w, s'.stores.getByRunId w₀.runId = some w ∧ ∀ t ∈ w.tasks, ∀ c ∈ d.tasks, t.definitionTaskId = c.id →
          s'.attemptsOf w₀.runId c.id ≠ [] →
          (KeepsRetryBudget world w₀ c d.retryPolicy.maxAttempts.toNat (s'.attemptsOf w₀.runId c.id) t ↔
            d.retryPolicy.maxAttempts = 1 ∨
              world.SucceedsWithin w₀ c (d.retryPolicy.maxAttempts.toNat - 1))) := by
  have hq := hwired.quiet
  have ha := h.accepted
  have hi := h.instantiates
  refine ⟨h.settles hq hok hs, fun hx hrest => ?_⟩
  obtain ⟨w, hst, hfate⟩ := h.fate hq hok hs hx hrest
  refine ⟨w, hst.workflow, fun t ht c hc htc hcalled => ?_⟩
  have hlog : s'.attemptsOf w₀.runId c.id = List.range' 1 t.attempt := by
    have := hst.log t ht
    rwa [if_neg (by simp), Nat.add_zero, htc] at this
  have hcases := allowedAttempts_cases ha
  obtain ⟨hmin, _⟩ := retryPolicySchema_bounds ha.policy
  have hfinished : ∀ (hl : Later w₀ w), Finished world d w₀ t →
      (KeepsRetryBudget world w₀ c d.retryPolicy.maxAttempts.toNat (s'.attemptsOf w₀.runId c.id) t ↔
        d.retryPolicy.maxAttempts = 1 ∨
          world.SucceedsWithin w₀ c (d.retryPolicy.maxAttempts.toNat - 1)) := fun hl hf => by
    refine iff_of_true (hf.keepsRetryBudget ha htc (hl.handler_eq ha hi ht hc htc) _) ?_
    obtain ⟨a, h₁, h₂, hsucc⟩ := World.succeedsWithin_iff.1 (hf.succeedsWithin ha hi hl ht hc htc)
    by_cases hone : d.retryPolicy.maxAttempts = 1
    · exact .inl hone
    · exact .inr (World.succeedsWithin_iff.2 ⟨a, h₁, by omega, hsucc⟩)
  have hbusy : ∀ {done c'}, Busy world d w₀ done c' .failed (allowedAttempts d.retryPolicy) w →
      (KeepsRetryBudget world w₀ c d.retryPolicy.maxAttempts.toNat (s'.attemptsOf w₀.runId c.id) t ↔
        d.retryPolicy.maxAttempts = 1 ∨
          world.SucceedsWithin w₀ c (d.retryPolicy.maxAttempts.toNat - 1)) := fun {done c'} hb => by
    by_cases hdone : t.definitionTaskId ∈ done
    · exact hfinished hb.later (hb.finished t ht hdone)
    by_cases hcur : t.definitionTaskId = c'.id
    · obtain rfl := List.inj_on_of_nodup_map ha.nodup hc (TaskScheduler.ready_mem hb.ready) (htc.symm.trans hcur)
      obtain ⟨hstatus, hatt, _⟩ := hb.current t ht hcur
      have hfailed : ∀ a, 1 ≤ a → a ≤ allowedAttempts d.retryPolicy → ¬ world.Succeeds w₀ c a :=
        fun a h₁ h₂ hsucc => by
        rw [World.Succeeds, hb.failed a h₁ h₂] at hsucc
        cases hsucc
      rw [keepsRetryBudget_of_failed ha hfailed hstatus
        ((congrArg List.length hlog).trans (by rw [List.length_range', hatt]))]
      constructor
      · exact fun hone => .inl (by omega)
      · rintro (hone | hwithin)
        · omega
        · obtain ⟨a, h₁, h₂, hsucc⟩ := World.succeedsWithin_iff.1 hwithin
          exact absurd hsucc (hfailed a h₁ (by omega))
    · rw [(hb.untouched t ht hdone hcur).attempt] at hlog
      exact absurd hlog hcalled
  cases hfate with
  | blocked _ hw | completed _ hw => exact hfinished hw.later (hw.finished t ht)
  | failed _ _ hb | deadLettered _ _ hb => exact hbusy hb

/-- One task whose first attempt fails and whose second succeeds, with two attempts to make. -/
def sampleSecondTry : JobDefinition := sampleJob 2 [] [sampleTask "a" [] none]

/-- The second attempt is never made. -/
theorem second_attempt_never_made : ∃ s', sampleAfter (fun _ a => a = 1) sampleSecondTry 13 = some s' ∧
    s'.executing "run_1" = [] ∧ s'.attemptsOf "run_1" "a" = [1] ∧
    (s'.stores.getByRunId "run_1").map (fun w => w.tasks.map (·.status)) = some [.failed] ∧
    (sampleWorld fun _ a => a = 1).Succeeds (sampleRun sampleSecondTry) (sampleTask "a" [] none) 2 := by
  obtain ⟨s', hs, hrest, _, hp⟩ := sample_at_rest (fun _ a => a = 1) sampleSecondTry 13
    (p := fun s => s.attemptsOf "run_1" "a" = [1] ∧
      (s.stores.getByRunId "run_1").map (fun w => w.tasks.map (·.status)) = some [.failed]) (by decide +kernel)
  have hp := of_decide_eq_true hp
  exact ⟨s', hs, hrest, hp.1, hp.2, by decide +kernel⟩

theorem retry_budget_iff_sample : ∃ s' w t, sampleAfter (fun _ a => a = 1) sampleSecondTry 13 = some s' ∧
    s'.stores.getByRunId "run_1" = some w ∧ t ∈ w.tasks ∧
    ¬ KeepsRetryBudget (sampleWorld fun _ a => a = 1) (sampleRun sampleSecondTry) (sampleTask "a" [] none) 2
      (s'.attemptsOf "run_1" "a") t := by
  obtain ⟨s', hs, hrest, hx, hp⟩ := sample_at_rest (fun _ a => a = 1) sampleSecondTry 13
    (p := fun s => s.attemptsOf "run_1" "a" ≠ [] ∧
      (s.stores.getByRunId "run_1").any (fun w => w.tasks.any fun t => t.definitionTaskId = "a") = true)
    (by decide +kernel)
  obtain ⟨hcalled, hany⟩ := of_decide_eq_true hp
  obtain ⟨w, hw, hbudget⟩ := (retry_budget_iff (sampleWorld_wired _)
    (sample_newRun _ (d := sampleSecondTry) (by decide +kernel))
    (sampleEvents_undisturbed sampleSecondTry 13) hs).2 hx hrest
  rw [show s'.stores.getByRunId "run_1" = some w from hw, Option.any_some] at hany
  obtain ⟨t, ht, hta⟩ := List.any_eq_true.1 hany
  refine ⟨s', w, t, hs, hw, ht, mt (hbudget t ht (sampleTask "a" [] none) List.mem_cons_self
    (of_decide_eq_true hta) hcalled).1 (by decide +kernel)⟩

/-! ## Dead letters -/

section
variable {world : World} {k : Nat} {d : JobDefinition} {w₀ : WorkflowInstance} {s s' : System}
  {events : List Event}

/-- At rest the store holds an entry for a run exactly when its workflow is dead-lettered, however often the run
has been executed. -/
theorem NewRun.deadLetter_iff (hq : world.Quiet) (h : NewRun world k d w₀ s)
    (hok : ∀ e ∈ events, e.Undisturbed k w₀.runId d.id)
    (hs : EventSystem.exec (System.step world) s events = some s') (hrest : s'.executing w₀.runId = []) :
    ∃ w, s'.stores.getByRunId w₀.runId = some w ∧
      ((∃ e ∈ s'.stores.deadLetters, e.runId = w₀.runId) ↔ w.state = .deadLettered) := by
  have hinv := (h.exec hq hok hs).rest hrest
  cases hinv with
  | rest hr =>
    obtain ⟨w, hst, hset⟩ := hr
    have hentry : (∃ e ∈ s'.stores.deadLetters, e.runId = w₀.runId) ↔
      (s'.stores.record w₀.runId).deadLetters ≠ [] := by
      rw [Stores.record, Ne, List.filter_eq_nil_iff]
      simp
    refine ⟨w, hst.workflow, ?_⟩
    rw [hentry]
    cases hset with
    | pending hs' _ _ hdl | blocked hs' _ _ hdl | completed hs' _ _ hdl | failed hs' _ _ hdl
    | deadLettered hs' _ _ hdl => simp [hs', hdl]

end

/-- A run that ends because a required task has used up its attempts is dead-lettered exactly when the policy
allows one attempt and the task is the last to be run. -/
theorem dead_lettered_iff {world : World} {k : Nat} {d : JobDefinition} {w₀ : WorkflowInstance} {s s' : System}
    {events : List Event} (hwired : world.Wired) (h : NewRun world k d w₀ s)
    (hok : ∀ e ∈ events, e.Undisturbed k w₀.runId d.id)
    (hs : EventSystem.exec (System.step world) s events = some s')
    (hx : s'.ExecutedSince s.calls.length k w₀.runId) (hrest : s'.executing w₀.runId = []) :
    ∃ w, s'.stores.getByRunId w₀.runId = some w ∧
      ((((∃ t ∈ w.tasks, ∃ c ∈ d.tasks, t.definitionTaskId = c.id ∧ c.required = true ∧ t.status = .failed) →
            w.state = .deadLettered ∧ s'.stores.deadLetters.countP (fun e => e.runId = w₀.runId) = 1) ∧
          ((∃ e ∈ s'.stores.deadLetters, e.runId = w₀.runId) ↔ w.state = .deadLettered)) ↔
        ∀ done c, FailsFirst world d w₀ done c → c.required = true →
          d.retryPolicy.maxAttempts = 1 ∧ done.length + 1 = d.tasks.length) := by
  have hq := hwired.quiet
  have hi := h.instantiates
  obtain ⟨w, hw, hentry⟩ := h.deadLetter_iff hq hok hs hrest
  obtain ⟨w', hst, hfate⟩ := h.fate hq hok hs hx hrest
  obtain rfl := Option.some.inj (hw.symm.trans hst.workflow)
  have hcount : s'.stores.deadLetters.countP (fun e => e.runId = w₀.runId) =
      (s'.stores.record w₀.runId).deadLetters.length := List.countP_eq_length_filter
  refine ⟨w, hw, ?_⟩
  rw [and_iff_left hentry, hcount]
  -- the task that has failed, if one has
  have hfailed : ∀ {done c}, Busy world d w₀ done c .failed (allowedAttempts d.retryPolicy) w →
      ((∃ t ∈ w.tasks, ∃ c ∈ d.tasks, t.definitionTaskId = c.id ∧ c.required = true ∧ t.status = .failed) ↔
        c.required = true) := fun {done c} hb => by
    constructor
    · rintro ⟨t, ht, c', hc', htc, hreq, hstatus⟩
      by_cases hdone : t.definitionTaskId ∈ done
      · rw [(hb.finished t ht hdone).status] at hstatus
        cases hstatus
      by_cases hcur : t.definitionTaskId = c.id
      · rwa [List.inj_on_of_nodup_map h.accepted.nodup hc' (TaskScheduler.ready_mem hb.ready)
          (htc.symm.trans hcur)] at hreq
      · rw [(hb.untouched t ht hdone hcur).status] at hstatus
        cases hstatus
    · intro hreq
      obtain ⟨t, ht, htc⟩ := hb.exists_taskRun hi
      exact ⟨t, ht, c, TaskScheduler.ready_mem hb.ready, htc, hreq, (hb.current t ht htc).1⟩
  have honly : ∀ {done c}, FailsFirst world d w₀ done c → ((∀ done' c', FailsFirst world d w₀ done' c' →
      c'.required = true → d.retryPolicy.maxAttempts = 1 ∧ done'.length + 1 = d.tasks.length) ↔
      (c.required = true → d.retryPolicy.maxAttempts = 1 ∧ done.length + 1 = d.tasks.length)) := fun hf => by
    refine ⟨fun hall => hall _ _ hf, fun hone done' c' hf' => ?_⟩
    obtain ⟨rfl, rfl⟩ := hf.unique hf'
    exact hone
  cases hfate with
  | blocked _ hw' | completed _ hw' =>
    refine iff_of_true ?_ fun done c hf =>
      absurd (hw'.succeedsWithin h.accepted hi (TaskScheduler.ready_mem hf.ready)) hf.fails
    rintro ⟨t, ht, _, _, _, _, hstatus⟩
    rw [(hw'.finished t ht).status] at hstatus
    cases hstatus
  | failed hs' hf hb hl hdl =>
    rw [hfailed hb, honly hf]
    refine forall_congr' fun _ => iff_of_false ?_ hl
    simp [hs']
  | deadLettered hs' hf hb hl hdl =>
    rw [hfailed hb, honly hf]
    exact forall_congr' fun _ => iff_of_true ⟨hs', by rw [hdl]; rfl⟩ hl

/-- The only task, required, fails its only two attempts; the run is failed, not dead-lettered. -/
theorem exhausted_run_not_dead_lettered : ∃ s', sampleAfter (fun _ _ => true) sampleSecondTry 13 = some s' ∧
    s'.executing "run_1" = [] ∧ (s'.stores.getByRunId "run_1").map (·.state) = some .failed ∧
    (s'.stores.getByRunId "run_1").map (fun w => w.tasks.map (·.status)) = some [.failed] ∧
    (sampleTask "a" [] none).required = true ∧ s'.stores.deadLetters.length = 0 := by
  obtain ⟨s', hs, hrest, _, hp⟩ := sample_at_rest (fun _ _ => true) sampleSecondTry 13
    (p := fun s => (s.stores.getByRunId "run_1").map (·.state) = some .failed ∧
      (s.stores.getByRunId "run_1").map (fun w => w.tasks.map (·.status)) = some [.failed] ∧
      s.stores.deadLetters.length = 0) (by decide +kernel)
  have hp := of_decide_eq_true hp
  exact ⟨s', hs, hrest, hp.1, hp.2.1, rfl, hp.2.2⟩

/-- With a policy of one attempt the only task is the last one, and its run is dead-lettered. -/
theorem dead_lettered_iff_sample : ∃ s' w,
    sampleAfter (fun _ _ => true) (sampleJob 1 [] [sampleTask "a" [] none]) 18 = some s' ∧
      s'.stores.getByRunId "run_1" = some w ∧ w.state = .deadLettered ∧
      s'.stores.deadLetters.countP (fun e => e.runId = "run_1") = 1 := by
  obtain ⟨s', hs, hrest, hx, hp⟩ := sample_at_rest (fun _ _ => true)
    (sampleJob 1 [] [sampleTask "a" [] none]) 18
    (p := fun s => (s.stores.getByRunId "run_1").any fun w => w.tasks.any fun t =>
      t.definitionTaskId = "a" && t.status = .failed) (by decide +kernel)
  have hnew := sample_newRun (fun _ _ => true) (d := sampleJob 1 [] [sampleTask "a" [] none]) (by decide +kernel)
  obtain ⟨w, hw, hiff⟩ := dead_lettered_iff (sampleWorld_wired _) hnew (sampleEvents_undisturbed _ 18) hs hx hrest
  rw [show s'.stores.getByRunId "run_1" = some w from hw, Option.any_some] at hp
  obtain ⟨t, ht, hta⟩ := List.any_eq_true.1 hp
  simp only [Bool.and_eq_true, decide_eq_true_eq] at hta
  have hlast := (hiff.2 fun done c hf _ => ⟨rfl, ?_⟩).1 ⟨t, ht, _, List.mem_cons_self, hta.1, rfl, hta.2⟩
  · exact ⟨s', w, hs, hw, hlast⟩
  · have hle := (hf.scheduled.snoc hf.ready).length_le
    rw [List.length_append, List.length_singleton] at hle
    change done.length + 1 ≤ 1 at hle
    change done.length + 1 = 1
    omega

end Jobflow
