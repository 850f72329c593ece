import Mathlib.Algebra.Order.BigOperators.Group.List
import Mathlib.Algebra.Order.Group.Nat
import Jobflow.Executed

/-!
# What becomes of a run

Where an executed run comes to rest depends only on its definition and on what its handlers answer: on the first
task, in the order in which tasks are run, that uses up its attempts, and if there is none on what the `block`
constraints say of the outputs of all tasks.
-/

namespace Jobflow

open Js (Record)

/-! ## The outputs of a run in which every task succeeds -/

/-- The output of the first attempt that succeeds. -/
def World.firstOutput (world : World) (d : JobDefinition) (w₀ : WorkflowInstance) (taskId handler : String) :
    Option Record :=
  (List.range' 1 (allowedAttempts d.retryPolicy)).findSome? (world.attemptOutput w₀ taskId handler)

/-- The tasks of `w₀`, each with the output it ends with. -/
def World.finalTasks (world : World) (d : JobDefinition) (w₀ : WorkflowInstance) : List TaskRun :=
  w₀.tasks.map fun t => { t with output := world.firstOutput d w₀ t.definitionTaskId t.handler }

/-- Some `block` constraint is violated once every task has succeeded. -/
def World.BlocksFinally (world : World) (d : JobDefinition) (w₀ : WorkflowInstance) : Prop :=
  ConstraintValidator.blocked d.constraints
    { context := w₀.context, taskOutputs := RunContextFactory.taskOutputs (world.finalTasks d w₀) } = true

instance (world : World) (d : JobDefinition) (w₀ : WorkflowInstance) : Decidable (world.BlocksFinally d w₀) :=
  inferInstanceAs (Decidable (_ = true))

/-- The outputs of two lists of tasks that agree on what `taskOutputs` reads. -/
theorem taskOutputs_congr {tasks tasks' : List TaskRun}
    (h : tasks.map (fun t => (t.id, t.definitionTaskId, t.output)) =
      tasks'.map fun t => (t.id, t.definitionTaskId, t.output)) :
    RunContextFactory.taskOutputs tasks = RunContextFactory.taskOutputs tasks' := by
  have hread : ∀ l : List TaskRun, (l.filterMap fun t =>
      t.output.map fun output => (t.definitionTaskId, Js.Value.object (some t.id) output)) =
      (l.map fun t => (t.id, t.definitionTaskId, t.output)).filterMap fun x =>
        x.2.2.map fun output => (x.2.1, Js.Value.object (some x.1) output) := fun l => by
    rw [List.filterMap_map]
    rfl
  unfold RunContextFactory.taskOutputs
  rw [hread, hread, h]

section
variable {world : World} {d : JobDefinition} {w₀ w : WorkflowInstance} {done : List String} {c : TaskDefinition}

/-- The successful attempt is the first one that succeeds. -/
theorem Finished.output_eq {t : TaskRun} (h : Finished world d w₀ t) :
    t.output = world.firstOutput d w₀ t.definitionTaskId t.handler := by
  obtain ⟨hpos, hle⟩ := h.attempt
  obtain ⟨m, hm⟩ := Nat.exists_eq_add_of_le' hpos
  have hsplit : List.range' 1 (allowedAttempts d.retryPolicy) =
      List.range' 1 m ++ (m + 1) :: List.range' (m + 1 + 1) (allowedAttempts d.retryPolicy - (m + 1)) := by
    rw [← List.range'_succ, Nat.add_comm m 1, List.range'_append_1]
    congr 1
    omega
  have hnone : (List.range' 1 m).findSome? (world.attemptOutput w₀ t.definitionTaskId t.handler) = none := by
    rw [List.findSome?_eq_none_iff]
    intro a ha
    rw [List.mem_range'_1] at ha
    exact h.earlier a ha.1 (by omega)
  obtain ⟨output, ho⟩ := Option.isSome_iff_exists.1 h.isSome
  rw [World.firstOutput, hsplit, List.findSome?_append, hnone, Option.none_or, List.findSome?_cons, ← hm,
    ← h.output, ho]

theorem AllDone.blocked_iff (h : AllDone world d w₀ w) : Blocked d w ↔ world.BlocksFinally d w₀ := by
  have houtputs : RunContextFactory.taskOutputs w.tasks =
      RunContextFactory.taskOutputs (world.finalTasks d w₀) := by
    refine taskOutputs_congr ?_
    have hfinal : w.tasks.map (fun t => (t.id, t.definitionTaskId, t.output)) =
        (w.tasks.map TaskRun.identity).map fun x => (x.1, x.2.1, world.firstOutput d w₀ x.2.1 x.2.2) := by
      rw [List.map_map]
      exact List.map_congr_left fun t ht => by rw [(h.finished t ht).output_eq]; rfl
    rw [hfinal, h.later.identity, World.finalTasks, List.map_map, List.map_map]
    rfl
  unfold Blocked World.BlocksFinally
  rw [houtputs, h.later.context]

/-! ## Which task uses up its attempts -/

/-- Task `c` comes after those of `done`, which succeed, and is the first to use up its attempts. -/
structure FailsFirst (world : World) (d : JobDefinition) (w₀ : WorkflowInstance) (done : List String)
    (c : TaskDefinition) : Prop where
  scheduled : Scheduled d.tasks done
  ready : TaskScheduler.ready d.tasks done = some c
  before : ∀ b ∈ d.tasks, b.id ∈ done → world.SucceedsWithin w₀ b (allowedAttempts d.retryPolicy)
  fails : ¬ world.SucceedsWithin w₀ c (allowedAttempts d.retryPolicy)

theorem World.succeedsWithin_iff {n : Nat} :
    world.SucceedsWithin w₀ c n ↔ ∃ a, 1 ≤ a ∧ a ≤ n ∧ world.Succeeds w₀ c a := by
  simp only [World.SucceedsWithin, List.mem_range'_1]
  constructor
  · rintro ⟨a, ha, hs⟩
    exact ⟨a, ha.1, by omega, hs⟩
  · rintro ⟨a, h₁, h₂, hs⟩
    exact ⟨a, ⟨h₁, by omega⟩, hs⟩

/-- There is only one such task. -/
theorem FailsFirst.unique {done' : List String} {c' : TaskDefinition} (h : FailsFirst world d w₀ done c)
    (h' : FailsFirst world d w₀ done' c') : done = done' ∧ c = c' := by
  have hle : ∀ {done done' : List String} {c c' : TaskDefinition}, FailsFirst world d w₀ done c →
      FailsFirst world d w₀ done' c' → done'.length ≤ done.length := by
    intro done done' c c' h h'
    by_contra hlt
    -- otherwise `c` is among the tasks that succeed before `c'`
    have hp := Scheduled.order_prefix d.tasks (Nat.succ_le_of_lt (Nat.not_le.1 hlt))
    rw [← h'.scheduled.eq_order, TaskScheduler.order, ← h.scheduled.eq_order, h.ready] at hp
    exact h.fails (h'.before c (TaskScheduler.ready_mem h.ready) (hp.subset (by simp)))
  have hlen := Nat.le_antisymm (hle h' h) (hle h h')
  have hdone : done = done' := by rw [h.scheduled.eq_order, h'.scheduled.eq_order, hlen]
  subst hdone
  exact ⟨rfl, Option.some.inj (h.ready.symm.trans h'.ready)⟩

theorem Finished.succeedsWithin (ha : Accepted d) (hi : Instantiates d w₀) (hl : Later w₀ w) {t : TaskRun}
    (ht : t ∈ w.tasks) (hf : Finished world d w₀ t) (hc : c ∈ d.tasks) (htc : t.definitionTaskId = c.id) :
    world.SucceedsWithin w₀ c (allowedAttempts d.retryPolicy) := by
  refine World.succeedsWithin_iff.2 ⟨t.attempt, hf.attempt.1, hf.attempt.2, ?_⟩
  unfold World.Succeeds
  rw [← htc, ← hl.handler_eq ha hi ht hc htc, ← hf.output]
  exact hf.isSome

theorem AllDone.succeedsWithin (ha : Accepted d) (hi : Instantiates d w₀) (h : AllDone world d w₀ w)
    (hc : c ∈ d.tasks) : world.SucceedsWithin w₀ c (allowedAttempts d.retryPolicy) := by
  obtain ⟨t, ht, htc⟩ := exists_taskRun (h.later.definitionTaskIds hi) hc
  exact (h.finished t ht).succeedsWithin ha hi h.later ht hc htc

theorem Busy.failsFirst (ha : Accepted d) (hi : Instantiates d w₀) {status : TaskStatus}
    (h : Busy world d w₀ done c status (allowedAttempts d.retryPolicy) w) : FailsFirst world d w₀ done c where
  scheduled := h.scheduled
  ready := h.ready
  before := fun b hb hdone => by
    obtain ⟨t, ht, htb⟩ := Jobflow.exists_taskRun (h.later.definitionTaskIds hi) hb
    exact (h.finished t ht (htb ▸ hdone)).succeedsWithin ha hi h.later ht hb htb
  fails := fun hs => by
    obtain ⟨a, h₁, h₂, hs⟩ := World.succeedsWithin_iff.1 hs
    rw [World.Succeeds, h.failed a h₁ h₂] at hs
    cases hs

/-! ## The threshold of the dead-letter decision -/

theorem countP_mem {l m : List String} (hl : l.Nodup) (hm : m.Nodup) (h : ∀ x ∈ m, x ∈ l) :
    l.countP (· ∈ m) = m.length := by
  rw [List.countP_eq_length_filter]
  refine ((List.perm_ext_iff_of_nodup (hl.filter _) hm).2 fun x => ?_).length_eq
  rw [List.mem_filter, decide_eq_true_eq]
  exact ⟨fun hx => hx.2, fun hx => ⟨h x hx, hx⟩⟩

theorem sum_map_eq_countP {α : Type} {f : α → Nat} {p : α → Bool} :
    ∀ {l : List α}, (∀ x ∈ l, f x = if p x then 1 else 0) → (l.map f).sum = l.countP p
  | [], _ => rfl
  | x :: l, h => by
    rw [List.map_cons, List.sum_cons, List.countP_cons, h x List.mem_cons_self,
      sum_map_eq_countP fun y hy => h y (List.mem_cons_of_mem _ hy), Nat.add_comm]

/-- A task has made no attempt until it is reached. -/
theorem Busy.reached_iff (h : Busy world d w₀ done c .failed (allowedAttempts d.retryPolicy) w) {t : TaskRun}
    (ht : t ∈ w.tasks) : t.definitionTaskId ∈ done ++ [c.id] ↔ 1 ≤ t.attempt := by
  have hpos := allowedAttempts_pos d.retryPolicy
  by_cases hdone : t.definitionTaskId ∈ done
  · obtain ⟨hmin, -⟩ := (h.finished t ht hdone).attempt
    simp [hdone, hmin]
  · by_cases hc : t.definitionTaskId = c.id
    · obtain ⟨_, hatt, _⟩ := h.current t ht hc
      simp [hc, hatt, hpos]
    · have := (h.untouched t ht hdone hc).attempt
      simp [hdone, hc, this]

/-- A run that has failed reaches the threshold only if its policy allows no retry and its last task failed. -/
theorem Busy.overThreshold_iff (ha : Accepted d) (hi : Instantiates d w₀)
    (h : Busy world d w₀ done c .failed (allowedAttempts d.retryPolicy) w) :
    OverThreshold d w ↔ d.retryPolicy.maxAttempts = 1 ∧ done.length + 1 = d.tasks.length := by
  have hids := h.later.definitionTaskIds hi
  have hlen : w.tasks.length = d.tasks.length := by simpa using congrArg List.length hids
  have hne : 0 < d.tasks.length := List.length_pos_iff.2 ha.nonempty
  obtain ⟨hmin, _⟩ := retryPolicySchema_bounds ha.policy
  have hreached := h.scheduled.snoc h.ready
  have hlast := hreached.length_le
  rw [List.length_append, List.length_singleton] at hlast
  unfold OverThreshold ExecutionService.attempts
  by_cases hone : d.retryPolicy.maxAttempts = 1
  · -- each task that was reached has made its one attempt
    have hallowed : allowedAttempts d.retryPolicy = 1 := by simp [allowedAttempts, hone]
    have hsum : (w.tasks.map (·.attempt)).sum = done.length + 1 := by
      have hcount : (w.tasks.map (·.definitionTaskId)).countP (· ∈ done ++ [c.id]) = (done ++ [c.id]).length :=
        countP_mem (h.later.definitionTaskIds_nodup ha hi) hreached.nodup (hids ▸ hreached.subset)
      rw [List.length_append, List.length_singleton, List.countP_map] at hcount
      rw [← hcount]
      refine sum_map_eq_countP fun t ht => ?_
      have hle := h.attempt_le le_rfl ht
      have hiff := h.reached_iff ht
      rw [Function.comp_apply]
      by_cases hin : t.definitionTaskId ∈ done ++ [c.id]
      · have := hiff.1 hin
        rw [if_pos (decide_eq_true hin)]
        omega
      · have := mt hiff.2 hin
        rw [if_neg (by simpa using hin)]
        omega
    rw [hsum, hone]
    simp only [true_and]
    omega
  · -- one attempt less for each task than the threshold asks for
    have hallowed : (allowedAttempts d.retryPolicy : Int) = d.retryPolicy.maxAttempts - 1 := by
      unfold allowedAttempts
      omega
    have hsum : (w.tasks.map (·.attempt)).sum ≤ d.tasks.length * allowedAttempts d.retryPolicy := by
      have := List.sum_le_card_nsmul (w.tasks.map (·.attempt)) (allowedAttempts d.retryPolicy) fun x hx => by
        obtain ⟨t, ht, rfl⟩ := List.mem_map.1 hx
        exact h.attempt_le le_rfl ht
      rwa [List.length_map, hlen] at this
    refine ⟨fun hover => ?_, fun hx => absurd hx.1 hone⟩
    have hsum' : (((w.tasks.map (·.attempt)).sum : Nat) : Int) ≤
      d.tasks.length * (d.retryPolicy.maxAttempts - 1) := by
      rw [← hallowed, ← Int.natCast_mul]
      exact Int.ofNat_le.2 hsum
    have hlt : (d.tasks.length : Int) * (d.retryPolicy.maxAttempts - 1) <
        d.retryPolicy.maxAttempts * d.tasks.length := by
      rw [Int.mul_sub, Int.mul_comm]
      omega
    omega

end

/-! ## Where a run comes to rest -/

/-- What an executed run looks like when no call executes it, with the reason why. -/
inductive Fate (world : World) (d : JobDefinition) (w₀ w : WorkflowInstance) (dl : List DeadLetterEntry) :
    Prop where
  | blocked (hs : w.state = .running) (hw : AllDone world d w₀ w) (hb : world.BlocksFinally d w₀) (hdl : dl = [])
  | completed (hs : w.state = .completed) (hw : AllDone world d w₀ w) (hb : ¬ world.BlocksFinally d w₀)
      (hdl : dl = [])
  | failed {done : List String} {c : TaskDefinition} (hs : w.state = .failed) (hf : FailsFirst world d w₀ done c)
      (hw : Busy world d w₀ done c .failed (allowedAttempts d.retryPolicy) w)
      (hl : ¬ (d.retryPolicy.maxAttempts = 1 ∧ done.length + 1 = d.tasks.length)) (hdl : dl = [])
  | deadLettered {done : List String} {c : TaskDefinition} {entry : DeadLetterEntry} (hs : w.state = .deadLettered)
      (hf : FailsFirst world d w₀ done c) (hw : Busy world d w₀ done c .failed (allowedAttempts d.retryPolicy) w)
      (hl : d.retryPolicy.maxAttempts = 1 ∧ done.length + 1 = d.tasks.length) (hdl : dl = [entry])

section
variable {world : World} {k : Nat} {d : JobDefinition} {w₀ w : WorkflowInstance} {s s' : System}
  {dl : List DeadLetterEntry}

theorem Settled.fate (ha : Accepted d) (hi : Instantiates d w₀) (h : Settled world d w₀ w dl)
    (hne : w.state ≠ .pending) :
    Fate world d w₀ w dl := by
  cases h with
  | pending hs => exact absurd hs hne
  | blocked hs hw hb hdl => exact .blocked hs hw (hw.blocked_iff.1 hb) hdl
  | completed hs hw hb hdl => exact .completed hs hw (mt hw.blocked_iff.2 hb) hdl
  | failed hs hw ht hdl => exact .failed hs (hw.failsFirst ha hi) hw (mt (hw.overThreshold_iff ha hi).2 ht) hdl
  | deadLettered hs hw ht hdl =>
    exact .deadLettered hs (hw.failsFirst ha hi) hw ((hw.overThreshold_iff ha hi).1 ht) hdl

/-- The fate of a new run that has been executed. -/
theorem NewRun.fate (hq : world.Quiet) (h : NewRun world k d w₀ s) {events : List Event}
    (hok : ∀ e ∈ events, e.Undisturbed k w₀.runId d.id)
    (hs : EventSystem.exec (System.step world) s events = some s')
    (hx : s'.ExecutedSince s.calls.length k w₀.runId) (hrest : s'.executing w₀.runId = []) :
    ∃ w, Stored d (s'.stores.record w₀.runId) w w.state none ∧
      Fate world d w₀ w (s'.stores.record w₀.runId).deadLetters := by
  obtain ⟨hinv, hne⟩ := (h.executed hq hok hs hx).rest hrest
  cases hinv with
  | rest hr =>
    obtain ⟨w, hst, hset⟩ := hr
    exact ⟨w, hst, hset.fate h.accepted h.instantiates (hne rfl w hst.workflow)⟩

/-- A run has a first task that uses up its attempts, or every task succeeds. -/
theorem Fate.allDone_iff (ha : Accepted d) (hi : Instantiates d w₀) (h : Fate world d w₀ w dl) :
    (∀ c ∈ d.tasks, world.SucceedsWithin w₀ c (allowedAttempts d.retryPolicy)) ↔
      w.state = .running ∨ w.state = .completed := by
  cases h with
  | blocked hs hw | completed hs hw => simpa [hs] using fun c hc => hw.succeedsWithin ha hi hc
  | failed hs hf | deadLettered hs hf =>
    simpa [hs] using ⟨_, TaskScheduler.ready_mem hf.ready, hf.fails⟩

end

end Jobflow
