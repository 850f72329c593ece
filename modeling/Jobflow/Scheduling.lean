import Mathlib.Data.List.Find
import Mathlib.Data.List.Perm.Subperm
import Jobflow.Jobs
import Jobflow.Workers

/-!
# The order in which tasks are run

Which task `nextRunnable` picks depends only on the set of tasks that have succeeded, as long as the
others are still queued. So a run goes through the tasks in an order that the definition alone fixes,
`TaskScheduler.order`, whatever the order of declaration; for an accepted definition that order reaches
every task.
-/

namespace Jobflow

/-- The first task in declaration order that is not done and whose dependencies are. -/
def TaskScheduler.ready (tasks : List TaskDefinition) (done : List String) : Option TaskDefinition :=
  tasks.find? fun t => t.id ∉ done ∧ ∀ dep ∈ t.dependencies, dep ∈ done

/-- The ids of the first `n` tasks to be run. -/
def TaskScheduler.order (tasks : List TaskDefinition) : Nat → List String
  | 0 => []
  | n + 1 =>
    match ready tasks (order tasks n) with
    | none => order tasks n
    | some t => order tasks n ++ [t.id]

/-- `done` lists the tasks run so far, in the order in which they were run. -/
inductive Scheduled (tasks : List TaskDefinition) : List String → Prop where
  | nil : Scheduled tasks []
  | snoc {done : List String} {t : TaskDefinition} (h : Scheduled tasks done)
      (ht : TaskScheduler.ready tasks done = some t) : Scheduled tasks (done ++ [t.id])

namespace TaskScheduler

variable {tasks : List TaskDefinition} {done : List String} {t : TaskDefinition}

theorem ready_mem (h : ready tasks done = some t) : t ∈ tasks := List.mem_of_find?_eq_some h

theorem ready_not_done (h : ready tasks done = some t) : t.id ∉ done := by
  have := List.find?_some h
  simp only [decide_eq_true_eq] at this
  exact this.1

theorem ready_dependencies (h : ready tasks done = some t) : ∀ dep ∈ t.dependencies, dep ∈ done := by
  have := List.find?_some h
  simp only [decide_eq_true_eq] at this
  exact this.2

theorem ready_eq_none : ready tasks done = none ↔
    ∀ t ∈ tasks, t.id ∈ done ∨ ∃ dep ∈ t.dependencies, dep ∉ done := by
  simp only [ready, List.find?_eq_none, decide_eq_true_eq]
  refine forall₂_congr fun t _ => ?_
  rw [not_and_or, not_not]
  push Not
  rfl

end TaskScheduler

open TaskScheduler

/-- No deadlock: while a task of an accepted definition is not done, some task is ready. -/
theorem Accepted.all_done {d : JobDefinition} (ha : Accepted d) {done : List String}
    (h : ready d.tasks done = none) :
    ∀ t ∈ d.tasks, t.id ∈ done := by
  obtain ⟨finished, horder, hall⟩ := ha.order
  by_contra hne
  push Not at hne
  obtain ⟨t, ht, hnot⟩ := hne
  -- the first task in finishing order that is not done has all its dependencies done
  obtain ⟨a, _, ⟨⟨u, hu, rfl⟩, hpending⟩, hdeps⟩ := horder.exists_ready
    (fun a => (∃ u ∈ d.tasks, u.id = a) ∧ a ∉ done) ⟨t.id, hall t ht, ⟨t, ht, rfl⟩, hnot⟩
  rcases ready_eq_none.1 h u hu with hdone | ⟨dep, hdep, hmissing⟩
  · exact hpending hdone
  · rw [dependenciesById_of_mem ha.nodup hu] at hdeps
    exact hdeps dep hdep ⟨List.mem_map.1 (ha.known u hu dep hdep), hmissing⟩

namespace Scheduled

variable {tasks : List TaskDefinition} {done : List String}

theorem eq_order (h : Scheduled tasks done) : done = order tasks done.length := by
  induction h with
  | nil => rfl
  | @snoc done t _ ht ih =>
    rw [List.length_append, List.length_singleton, order, ← ih, ht]

theorem nodup (h : Scheduled tasks done) : done.Nodup := by
  induction h with
  | nil => exact List.nodup_nil
  | @snoc done t _ ht ih =>
    refine List.nodup_append.2 ⟨ih, by simp, fun a ha b hb => ?_⟩
    rw [List.mem_singleton.1 hb]
    exact fun he => ready_not_done ht (he ▸ ha)

theorem subset (h : Scheduled tasks done) : ∀ id ∈ done, id ∈ tasks.map (·.id) := by
  induction h with
  | nil => simp
  | @snoc done t _ ht ih =>
    intro id hid
    rcases List.mem_append.1 hid with hid | hid
    · exact ih id hid
    · rw [List.mem_singleton.1 hid]
      exact List.mem_map_of_mem (f := (·.id)) (ready_mem ht)

theorem length_le (h : Scheduled tasks done) : done.length ≤ tasks.length := by
  have := (h.nodup.subperm h.subset).length_le
  rwa [List.length_map] at this

/-- Every prefix of the order is scheduled. -/
theorem order_prefix (tasks : List TaskDefinition) {m n : Nat} (h : m ≤ n) : order tasks m <+: order tasks n := by
  induction n with
  | zero =>
    obtain rfl := Nat.le_zero.1 h
    exact List.prefix_refl _
  | succ n ih =>
    rcases Nat.lt_or_ge m (n + 1) with hlt | hge
    · refine (ih (by omega)).trans ?_
      rw [order]
      split
      · exact List.prefix_refl _
      · exact List.prefix_append _ _
    · obtain rfl := Nat.le_antisymm h hge
      exact List.prefix_refl _

end Scheduled

/-! ## What `nextRunnable` and `allDone` see -/

section
variable {d : JobDefinition} {tasks : List TaskRun}

/-- The status map has the status of every task. -/
theorem statusByDef_get (hn : (tasks.map (·.definitionTaskId)).Nodup) {t : TaskRun} (ht : t ∈ tasks) :
    (statusByDef tasks).get t.definitionTaskId = some t.status := by
  refine InsertionMap.get_ofList_of_mem ?_
    (List.mem_map_of_mem (f := fun t : TaskRun => (t.definitionTaskId, t.status)) ht)
  rw [List.map_map]
  exact hn

/-- While the tasks of `done` have succeeded and the others have not been tried or have failed, `nextRunnable` is the
ready task. A task of the definition that has no task run counts as one that has not been tried. -/
theorem nextRunnable_eq_ready {definitions : List TaskDefinition} (hn : (tasks.map (·.definitionTaskId)).Nodup)
    {done : List String} (hknown : ∀ id ∈ done, ∃ t ∈ tasks, t.definitionTaskId = id)
    (hdone : ∀ t ∈ tasks, t.definitionTaskId ∈ done → t.status = .succeeded)
    (hrest : ∀ t ∈ tasks, t.definitionTaskId ∉ done → t.status = .queued ∨ t.status = .failed) :
    nextRunnable tasks definitions = ready definitions done := by
  have hmet : ∀ id, (statusByDef tasks).get id = some .succeeded ↔ id ∈ done := fun id => by
    constructor
    · intro hget
      obtain ⟨t, ht, htid⟩ := List.mem_map.1 (InsertionMap.mem_of_get_ofList hget)
      obtain ⟨rfl, hs⟩ := Prod.mk.inj htid
      by_contra hnot
      rcases hrest t ht hnot with h | h <;> rw [h] at hs <;> cases hs
    · intro hid
      obtain ⟨t, ht, rfl⟩ := hknown id hid
      rw [statusByDef_get hn ht, hdone t ht hid]
  have hother : ∀ id, id ∉ done → (statusByDef tasks).get id ≠ some .skipped ∧
      (statusByDef tasks).get id ≠ some .running ∧ (statusByDef tasks).get id ≠ some .retrying := fun id hid => by
    by_cases hex : ∃ t ∈ tasks, t.definitionTaskId = id
    · obtain ⟨t, ht, rfl⟩ := hex
      rw [statusByDef_get hn ht]
      rcases hrest t ht hid with h | h <;> simp [h]
    · have hnone : (statusByDef tasks).get id = none := by
        cases hget : (statusByDef tasks).get id with
        | none => rfl
        | some status =>
          obtain ⟨t, ht, htid⟩ := List.mem_map.1 (InsertionMap.mem_of_get_ofList hget)
          exact absurd ⟨t, ht, congrArg Prod.fst htid⟩ hex
      simp [hnone]
  unfold nextRunnable ready
  refine List.find?_congr fun c _ => ?_
  have hdeps : dependenciesMet c (statusByDef tasks) = decide (∀ dep ∈ c.dependencies, dep ∈ done) := by
    rw [Bool.eq_iff_iff, decide_eq_true_eq]
    simp only [dependenciesMet, List.all_eq_true, Bool.or_eq_true, decide_eq_true_eq]
    refine forall₂_congr fun dep _ => ?_
    rw [hmet]
    refine ⟨fun h => ?_, .inl⟩
    by_contra hnot
    exact (hother dep hnot).1 (h.resolve_left hnot)
  unfold runnable
  rw [hdeps]
  by_cases hin : c.id ∈ done
  · simp [(hmet c.id).2 hin, hin]
  · obtain ⟨hskipped, hrunning, hretrying⟩ := hother c.id hin
    simp [mt (hmet c.id).1 hin, hskipped, hrunning, hretrying, hin]

variable (halign : tasks.map (·.definitionTaskId) = d.tasks.map (·.id))
include halign

theorem exists_taskRun {c : TaskDefinition} (hc : c ∈ d.tasks) : ∃ t ∈ tasks, t.definitionTaskId = c.id := by
  have : c.id ∈ tasks.map (·.definitionTaskId) := halign ▸ List.mem_map_of_mem (f := (·.id)) hc
  exact List.mem_map.1 this

variable (ha : Accepted d)
include ha

theorem exists_taskRun_of_dependency {c : TaskDefinition} (hc : c ∈ d.tasks) {dep : String}
    (hdep : dep ∈ c.dependencies) : ∃ t ∈ tasks, t.definitionTaskId = dep :=
  List.mem_map.1 (halign ▸ ha.known c hc dep hdep)

theorem allDone_of_succeeded (h : ∀ t ∈ tasks, t.status = .succeeded) : allDone tasks d.tasks = true := by
  have hn : (tasks.map (·.definitionTaskId)).Nodup := halign ▸ ha.nodup
  simp only [allDone, List.all_eq_true, List.mem_filter]
  rintro c ⟨hc, _⟩
  obtain ⟨t, ht, hid⟩ := exists_taskRun halign hc
  rw [← hid, statusByDef_get hn ht, h t ht]
  rfl

end

end Jobflow
