import Mathlib.Data.Rat.Floor
import Mathlib.Order.Lattice.Nat
import Mathlib.Order.Monotone.Basic
import Jobflow.Jobs
import Jobflow.Workers

/-!
# The delays between retries (src/domain/retry-policy.ts, src/workers)

`handleFailure` hands the failed task to `RetryHandler.decide`, which computes the delay for the attempt after the one
that has failed, and `computeBackoffDelay` takes one off for the exponent. So the wait before retry `k` has the exponent
`k`, not `k - 1`: `keeps_backoff_iff` says when that makes no difference.
-/

namespace Jobflow

/-! ## A task that keeps failing -/

/-- A call of the executor: when it starts, what the simulator answers, and when. -/
structure Attempt where
  startedAt : ISODateString
  answer : Except String SimulatedResult
  finishedAt : ISODateString

/-- `TaskExecutor.run` (task-executor.ts:23-65). -/
def TaskExecutor.run (policy : RetryPolicy) (taskRun : TaskRun) (a : Attempt) : ExecuteResult :=
  finish (start taskRun a.startedAt) policy a.answer a.finishedAt

/-- What the executor returns when the task is requeued for as long as it asks for a retry
(execution-service.ts:88-104). -/
def TaskExecutor.runs (policy : RetryPolicy) : TaskRun → List Attempt → List ExecuteResult
  | _, [] => []
  | taskRun, a :: attempts =>
    let result := run policy taskRun a
    result :: if result.retryAfterMs.isSome then runs policy { result.task with status := .queued } attempts else []

/-- The delays it returns, before the first retry, the second, .. -/
def TaskExecutor.delays (policy : RetryPolicy) (taskRun : TaskRun) (attempts : List Attempt) : List Int :=
  (runs policy taskRun attempts).filterMap (·.retryAfterMs)

def Attempt.Fails (a : Attempt) : Prop := ∀ result, a.answer = .ok result → result.success = false

/-- The delays are those of exponential backoff: `initialDelayMs` times a power of the multiplier that starts at the
exponent zero, rounded down, and never more than `maxDelayMs`. -/
structure KeepsBackoff (policy : RetryPolicy) (delays : List Int) : Prop where
  formula : ∀ k delay, delays[k]? = some delay →
    delay = min ((policy.initialDelayMs : Rat) * policy.backoffMultiplier ^ k).floor policy.maxDelayMs
  nondecreasing : delays.Pairwise (· ≤ ·)
  capped : ∀ delay ∈ delays, delay ≤ policy.maxDelayMs

/-- The number of retries of a task whose first `n` attempts fail. -/
def RetryPolicy.retries (policy : RetryPolicy) (n : Nat) : Nat := min n (policy.maxAttempts - 2).toNat

section
variable {policy : RetryPolicy} {taskRun : TaskRun} {a : Attempt} {attempts : List Attempt}

/-- A failing call asks for a retry while the attempt after next is below the limit. -/
theorem TaskExecutor.run_fails (ha : a.Fails) :
    (run policy taskRun a).retryAfterMs = (if ((taskRun.attempt + 2 : Nat) : Int) < policy.maxAttempts then
        some (computeBackoffDelay policy (taskRun.attempt + 2)) else none) ∧
      (run policy taskRun a).task.attempt = taskRun.attempt + 1 := by
  have hfailure (task : TaskRun) (message : String) (now : ISODateString) :
      (handleFailure task policy message now).retryAfterMs =
          (if ((task.attempt + 1 : Nat) : Int) < policy.maxAttempts then
            some (computeBackoffDelay policy (task.attempt + 1)) else none) ∧
      (handleFailure task policy message now).task.attempt = task.attempt := by
    unfold handleFailure RetryHandler.decide shouldRetry
    by_cases hlt : ((task.attempt + 1 : Nat) : Int) < policy.maxAttempts
    · simp only [hlt, decide_true, Bool.not_true, Bool.false_eq_true, if_false, if_true, and_self]
    · simp only [hlt, decide_false, Bool.not_false, Bool.false_eq_true, if_false, if_true, and_self]
  unfold run finish
  cases hanswer : a.answer with
  | error message => exact hfailure (start taskRun a.startedAt) message a.finishedAt
  | ok result =>
    have hsuccess := ha result hanswer
    simp only [hsuccess, Bool.not_false, if_true]
    exact hfailure (start taskRun a.startedAt) _ a.finishedAt

/-- The delays of a task that has made `n` attempts before. -/
theorem TaskExecutor.delays_eq : ∀ {attempts : List Attempt} {taskRun : TaskRun}, (∀ a ∈ attempts, a.Fails) →
    delays policy taskRun attempts =
      (List.range (min attempts.length (policy.maxAttempts - 2 - taskRun.attempt).toNat)).map
        fun k => computeBackoffDelay policy (taskRun.attempt + k + 2)
  | [], _, _ => by simp [delays, runs]
  | a :: attempts, taskRun, hfails => by
    obtain ⟨hdelay, hattempt⟩ := @run_fails policy taskRun a (hfails a List.mem_cons_self)
    have ih := @delays_eq attempts { (run policy taskRun a).task with status := .queued }
      fun b hb => hfails b (List.mem_cons_of_mem _ hb)
    rw [delays] at ih ⊢
    rw [runs]
    dsimp only
    by_cases hlt : ((taskRun.attempt + 2 : Nat) : Int) < policy.maxAttempts
    · rw [if_pos hlt] at hdelay
      have hlength : min (a :: attempts).length (policy.maxAttempts - 2 - taskRun.attempt).toNat =
          min attempts.length (policy.maxAttempts - 2 - (taskRun.attempt + 1 : Nat)).toNat + 1 := by
        rw [List.length_cons]
        omega
      rw [hdelay, Option.isSome_some, if_pos rfl, List.filterMap_cons_some hdelay, ih, hlength, List.range_succ_eq_map,
        List.map_cons, List.map_map, hattempt]
      refine congrArg₂ List.cons rfl (List.map_congr_left fun k _ => ?_)
      simp only [Function.comp_apply, Nat.succ_eq_add_one]
      congr 1
      omega
    · rw [if_neg hlt] at hdelay
      have hlength : min (a :: attempts).length (policy.maxAttempts - 2 - taskRun.attempt).toNat = 0 := by omega
      rw [hdelay, hlength]
      simp [hdelay]

end

/-! ## Capped powers -/

section
variable {policy : RetryPolicy}

/-- `initialDelayMs` times the `k`-th power of the multiplier, rounded down and capped. -/
def RetryPolicy.cappedDelay (policy : RetryPolicy) (k : Nat) : Int :=
  min ((policy.initialDelayMs : Rat) * policy.backoffMultiplier ^ k).floor policy.maxDelayMs

theorem computeBackoffDelay_eq (policy : RetryPolicy) (k : Nat) :
    computeBackoffDelay policy (k + 1) = policy.cappedDelay k := by
  rw [computeBackoffDelay, if_neg (by omega), Nat.add_sub_cancel, RetryPolicy.cappedDelay]

theorem RetryPolicy.cappedDelay_zero (policy : RetryPolicy) :
    policy.cappedDelay 0 = min policy.initialDelayMs policy.maxDelayMs := by
  rw [cappedDelay, pow_zero, mul_one, Rat.floor_intCast]

theorem retryPolicySchema_backoff (h : retryPolicySchema policy = true) :
    0 ≤ policy.initialDelayMs ∧ 1 ≤ policy.backoffMultiplier := by
  simp only [retryPolicySchema, Bool.and_eq_true, decide_eq_true_eq] at h
  exact ⟨h.1.1.2, h.1.2⟩

/-- The powers grow, and so do the delays. -/
theorem RetryPolicy.cappedDelay_mono (h : retryPolicySchema policy = true) {j k : Nat} (hjk : j ≤ k) :
    policy.cappedDelay j ≤ policy.cappedDelay k := by
  obtain ⟨hinitial, hmultiplier⟩ := retryPolicySchema_backoff h
  refine monotone_nat_of_le_succ (fun k => ?_) hjk
  have hpow : policy.backoffMultiplier ^ k ≤ policy.backoffMultiplier ^ (k + 1) :=
    pow_le_pow_right₀ hmultiplier (Nat.le_succ k)
  have hmul : (policy.initialDelayMs : Rat) * policy.backoffMultiplier ^ k ≤
      policy.initialDelayMs * policy.backoffMultiplier ^ (k + 1) :=
    mul_le_mul_of_nonneg_left hpow (by exact_mod_cast hinitial)
  exact min_le_min_right _ (Rat.floor_monotone hmul)

/-- When the cap or the rounding keeps delay `r` at the first one. -/
theorem RetryPolicy.cappedDelay_eq_zero_iff (h : retryPolicySchema policy = true) (r : Nat) :
    policy.cappedDelay r = policy.cappedDelay 0 ↔ policy.maxDelayMs ≤ policy.initialDelayMs ∨
      (policy.initialDelayMs : Rat) * policy.backoffMultiplier ^ r < policy.initialDelayMs + 1 := by
  have hgrows := RetryPolicy.cappedDelay_mono h (Nat.zero_le r)
  have hfloor : ((policy.initialDelayMs : Rat) * policy.backoffMultiplier ^ r).floor ≤ policy.initialDelayMs ↔
      (policy.initialDelayMs : Rat) * policy.backoffMultiplier ^ r < policy.initialDelayMs + 1 := by
    rw [← Int.lt_add_one_iff, Rat.floor_lt_iff]
    push_cast
    rfl
  rw [cappedDelay_zero] at hgrows ⊢
  rw [← hfloor]
  unfold cappedDelay at hgrows ⊢
  omega

end

section
variable {policy : RetryPolicy} {taskRun : TaskRun} {attempts : List Attempt}

/-- Delay `k + 1` is returned where delay `k` is meant. -/
theorem TaskExecutor.delays_eq_cappedDelay (hnew : taskRun.attempt = 0) (hfails : ∀ a ∈ attempts, a.Fails) :
    delays policy taskRun attempts =
      (List.range (policy.retries attempts.length)).map fun k => policy.cappedDelay (k + 1) := by
  rw [delays_eq hfails, hnew, RetryPolicy.retries, Nat.cast_zero, Int.sub_zero]
  refine List.map_congr_left fun k _ => ?_
  rw [Nat.zero_add, computeBackoffDelay_eq]

/-- Under every policy the delays do not decrease, and the cap holds. -/
theorem TaskExecutor.delays_bounded (h : retryPolicySchema policy = true) (hnew : taskRun.attempt = 0)
    (hfails : ∀ a ∈ attempts, a.Fails) : (delays policy taskRun attempts).Pairwise (· ≤ ·) ∧
      ∀ delay ∈ delays policy taskRun attempts, delay ≤ policy.maxDelayMs := by
  rw [delays_eq_cappedDelay hnew hfails]
  constructor
  · refine List.pairwise_map.2 (List.pairwise_lt_range.imp fun hlt => RetryPolicy.cappedDelay_mono h ?_)
    omega
  · intro delay hdelay
    obtain ⟨k, -, rfl⟩ := List.mem_map.1 hdelay
    exact min_le_right _ _

/-- **When the backoff is the documented one**: the delays of a task whose attempts fail start at `initialDelayMs` and
follow its powers only if the cap or the rounding leaves the last of them at the first. -/
theorem keeps_backoff_iff (h : retryPolicySchema policy = true) (hnew : taskRun.attempt = 0)
    (hfails : ∀ a ∈ attempts, a.Fails) : KeepsBackoff policy (TaskExecutor.delays policy taskRun attempts) ↔
      policy.maxDelayMs ≤ policy.initialDelayMs ∨
        (policy.initialDelayMs : Rat) * policy.backoffMultiplier ^ policy.retries attempts.length <
          policy.initialDelayMs + 1 := by
  obtain ⟨hnondecreasing, hcapped⟩ := TaskExecutor.delays_bounded h hnew hfails
  have hget (k : Nat) (hk : k < policy.retries attempts.length) :
      (TaskExecutor.delays policy taskRun attempts)[k]? = some (policy.cappedDelay (k + 1)) := by
    rw [TaskExecutor.delays_eq_cappedDelay hnew hfails]
    simp [hk]
  rw [← RetryPolicy.cappedDelay_eq_zero_iff h]
  constructor
  · intro hkeeps
    have hstep (k : Nat) (hk : k < policy.retries attempts.length) :
        policy.cappedDelay (k + 1) = policy.cappedDelay k := hkeeps.formula k _ (hget k hk)
    have hflat : ∀ k, k ≤ policy.retries attempts.length → policy.cappedDelay k = policy.cappedDelay 0 := by
      intro k
      induction k with
      | zero => exact fun _ => rfl
      | succ k ih => exact fun hk => (hstep k hk).trans (ih (Nat.le_of_succ_le hk))
    exact hflat _ le_rfl
  · intro hlast
    have hflat (k : Nat) (hk : k ≤ policy.retries attempts.length) : policy.cappedDelay k = policy.cappedDelay 0 :=
      le_antisymm (hlast ▸ RetryPolicy.cappedDelay_mono h hk) (RetryPolicy.cappedDelay_mono h (Nat.zero_le k))
    refine ⟨fun k delay hdelay => ?_, hnondecreasing, hcapped⟩
    have hk : k < policy.retries attempts.length := by
      obtain ⟨hlt, -⟩ := List.getElem?_eq_some_iff.1 hdelay
      rwa [TaskExecutor.delays_eq_cappedDelay hnew hfails, List.length_map, List.length_range] at hlt
    rw [hget k hk, Option.some.injEq] at hdelay
    rw [← hdelay, hflat (k + 1) hk, ← hflat k hk.le, RetryPolicy.cappedDelay]

end

/-- A task whose calls all throw. -/
def sampleThrows : List Attempt := List.replicate 3 ⟨"t", .error "down", "t"⟩

theorem sampleThrows_fails : ∀ a ∈ sampleThrows, a.Fails := by
  intro a ha result hanswer
  rw [List.eq_of_mem_replicate ha] at hanswer
  cases hanswer

theorem keeps_backoff_sample : let policy : RetryPolicy := ⟨5, 100, 1, 1000⟩
    KeepsBackoff policy (TaskExecutor.delays policy (createTaskRun "task_1" "run_1" "a" "h") sampleThrows) :=
  (keeps_backoff_iff (by decide +kernel) rfl sampleThrows_fails).2 (.inr (by decide +kernel))

/-- The default policy has an initial delay of 500; the first retry waits 1000. -/
theorem first_retry_waits_twice : retryPolicySchema DEFAULT_RETRY_POLICY = true ∧
    DEFAULT_RETRY_POLICY.initialDelayMs = 500 ∧
    TaskExecutor.delays DEFAULT_RETRY_POLICY (createTaskRun "task_1" "run_1" "a" "h") sampleThrows = [1000] ∧
    ¬ KeepsBackoff DEFAULT_RETRY_POLICY
      (TaskExecutor.delays DEFAULT_RETRY_POLICY (createTaskRun "task_1" "run_1" "a" "h") sampleThrows) := by
  have hdelays : TaskExecutor.delays DEFAULT_RETRY_POLICY (createTaskRun "task_1" "run_1" "a" "h") sampleThrows =
      [1000] := by decide +kernel
  refine ⟨retryPolicySchema_default, rfl, hdelays, fun h => ?_⟩
  rw [hdelays] at h
  exact absurd (h.formula 0 1000 rfl) (by decide +kernel)

end Jobflow
