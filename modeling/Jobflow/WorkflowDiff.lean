import Jobflow.Domain
import Jobflow.Lib.InsertionMap

/-!
# Comparing two instances of a workflow (src/replay/diff.ts)

The comparison walks the tasks of the instance after, so a task that only the instance before has is not reported. It
is complete exactly when there is no such task (`diff_complete_iff`).
-/

namespace Jobflow

structure TaskDiff where
  taskId : String
  field : String
  before : String
  after : String
  deriving DecidableEq

structure WorkflowDiff where
  runId : RunId
  stateChanged : Bool
  fromState : WorkflowState
  toState : WorkflowState
  taskDiffs : List TaskDiff

/-- `beforeById` (diff.ts:21). -/
def WorkflowInstance.byId (w : WorkflowInstance) : InsertionMap String TaskRun :=
  .ofList (w.tasks.map fun t => (t.definitionTaskId, t))

/-- What the loop pushes for one task (diff.ts:23-47). -/
def taskDiffsOf (beforeById : InsertionMap String TaskRun) (t : TaskRun) : List TaskDiff :=
  match beforeById.get t.definitionTaskId with
  | none => [⟨t.definitionTaskId, "status", "missing", t.status.text⟩]
  | some prev =>
    (if prev.status ≠ t.status then [⟨t.definitionTaskId, "status", prev.status.text, t.status.text⟩] else []) ++
      (if prev.attempt ≠ t.attempt then [⟨t.definitionTaskId, "attempt", toString prev.attempt, toString t.attempt⟩]
        else []) ++
      (if prev.errorMessage ≠ t.errorMessage then
        [⟨t.definitionTaskId, "error", prev.errorMessage.getD "", t.errorMessage.getD ""⟩] else [])

/-- `diffWorkflows` (diff.ts:19-57). -/
def diffWorkflows (before after : WorkflowInstance) : WorkflowDiff where
  runId := after.runId
  stateChanged := before.state ≠ after.state
  fromState := before.state
  toState := after.state
  taskDiffs := after.tasks.flatMap (taskDiffsOf before.byId)

/-! ## What it is to report -/

def WorkflowInstance.comparedIds (w : WorkflowInstance) : List String := w.tasks.map (·.definitionTaskId)

/-- What is compared of a task. -/
def TaskRun.compared (t : TaskRun) : TaskStatus × Nat × Option String := (t.status, t.attempt, t.errorMessage)

/-- One of the two has a task with this id that the other does not have, or not with the same values. -/
def DisagreeOn (before after : WorkflowInstance) (id : String) : Prop :=
  (∃ t ∈ before.tasks, t.definitionTaskId = id ∧
      ∀ t' ∈ after.tasks, t'.definitionTaskId = id → t.compared ≠ t'.compared) ∨
    ∃ t' ∈ after.tasks, t'.definitionTaskId = id ∧
      ∀ t ∈ before.tasks, t.definitionTaskId = id → t.compared ≠ t'.compared

/-- The comparison is empty just for instances that agree, and names every task on which they do not. -/
structure DiffComplete (before after : WorkflowInstance) : Prop where
  empty : (diffWorkflows before after).taskDiffs = [] ↔
    (∀ id, id ∈ before.comparedIds ↔ id ∈ after.comparedIds) ∧
      ∀ t ∈ before.tasks, ∀ t' ∈ after.tasks, t.definitionTaskId = t'.definitionTaskId → t.compared = t'.compared
  named : ∀ id, DisagreeOn before after id → ∃ d ∈ (diffWorkflows before after).taskDiffs, d.taskId = id

section
variable {before after : WorkflowInstance} {beforeById : InsertionMap String TaskRun} {t : TaskRun} {id : String}

theorem mem_comparedIds {w : WorkflowInstance} : id ∈ w.comparedIds ↔ ∃ t ∈ w.tasks, t.definitionTaskId = id :=
  List.mem_map

theorem get_byId {w : WorkflowInstance} (h : w.comparedIds.Nodup) :
    w.byId.get id = some t ↔ t ∈ w.tasks ∧ t.definitionTaskId = id := by
  have hkeys : ((w.tasks.map fun t => (t.definitionTaskId, t)).map Prod.fst).Nodup := by
    rw [List.map_map]
    exact h
  rw [InsertionMap.get_eq_some, WorkflowInstance.byId, InsertionMap.entries_ofList hkeys, List.mem_map]
  constructor
  · rintro ⟨t', ht', heq⟩
    obtain ⟨rfl, rfl⟩ := Prod.mk.inj heq
    exact ⟨ht', rfl⟩
  · rintro ⟨ht, rfl⟩
    exact ⟨t, ht, rfl⟩

theorem taskDiffsOf_taskId {d : TaskDiff} (h : d ∈ taskDiffsOf beforeById t) : d.taskId = t.definitionTaskId := by
  unfold taskDiffsOf at h
  split at h
  · rw [List.mem_singleton.1 h]
  · simp only [List.mem_append] at h
    rcases h with (h | h) | h <;>
    · split at h
      · rw [List.mem_singleton.1 h]
      · cases h

/-- There are no entries for a task just if it was there with the same values. -/
theorem taskDiffsOf_eq_nil : taskDiffsOf beforeById t = [] ↔
    ∃ prev, beforeById.get t.definitionTaskId = some prev ∧ prev.compared = t.compared := by
  unfold taskDiffsOf
  cases beforeById.get t.definitionTaskId with
  | none => simp
  | some prev => simp [TaskRun.compared]

/-- A task is named just if the instance after has it, and the instance before not with the same values. -/
theorem diff_named_iff (hbefore : before.comparedIds.Nodup) :
    (∃ d ∈ (diffWorkflows before after).taskDiffs, d.taskId = id) ↔ ∃ t' ∈ after.tasks, t'.definitionTaskId = id ∧
      ∀ t ∈ before.tasks, t.definitionTaskId = id → t.compared ≠ t'.compared := by
  simp only [diffWorkflows, List.mem_flatMap]
  constructor
  · rintro ⟨d, ⟨t', ht', hd⟩, rfl⟩
    refine ⟨t', ht', (taskDiffsOf_taskId hd).symm, fun t ht hid hsame => ?_⟩
    rw [taskDiffsOf_taskId hd] at hid
    rw [taskDiffsOf_eq_nil.2 ⟨t, (get_byId hbefore).2 ⟨ht, hid⟩, hsame⟩] at hd
    cases hd
  · rintro ⟨t', ht', rfl, hdiffer⟩
    have hne : taskDiffsOf before.byId t' ≠ [] := by
      intro hnil
      obtain ⟨prev, hprev, hsame⟩ := taskDiffsOf_eq_nil.1 hnil
      obtain ⟨hmem, hid⟩ := (get_byId hbefore).1 hprev
      exact hdiffer prev hmem hid hsame
    obtain ⟨d, hd⟩ := List.exists_mem_of_ne_nil _ hne
    exact ⟨d, ⟨t', ht', hd⟩, taskDiffsOf_taskId hd⟩

/-- Tasks of one instance with the same id are the same. -/
theorem eq_of_comparedIds {w : WorkflowInstance} (h : w.comparedIds.Nodup) {t t' : TaskRun} (ht : t ∈ w.tasks)
    (ht' : t' ∈ w.tasks) (hid : t.definitionTaskId = t'.definitionTaskId) : t = t' :=
  List.inj_on_of_nodup_map h ht ht' hid

/-- **When a diff is complete**: where task ids are distinct, the comparison is empty just if the instances agree, and
names every task on which they do not, if and only if the instance after has all the tasks of the instance before. -/
theorem diff_complete_iff (hbefore : before.comparedIds.Nodup) :
    DiffComplete before after ↔ ∀ id ∈ before.comparedIds, id ∈ after.comparedIds := by
  constructor
  · intro hcomplete id hid
    obtain ⟨t, ht, htid⟩ := mem_comparedIds.1 hid
    by_contra hnone
    have hdisagree : DisagreeOn before after id :=
      .inl ⟨t, ht, htid, fun t' ht' htid' => absurd (mem_comparedIds.2 ⟨t', ht', htid'⟩) hnone⟩
    obtain ⟨t', ht', htid', -⟩ := (diff_named_iff hbefore).1 (hcomplete.named id hdisagree)
    exact hnone (mem_comparedIds.2 ⟨t', ht', htid'⟩)
  · intro hsub
    refine ⟨⟨fun hempty => ?_, ?_⟩, ?_⟩
    · -- every task after has its like before
      have hlike : ∀ t' ∈ after.tasks, ∃ t ∈ before.tasks, t.definitionTaskId = t'.definitionTaskId ∧
          t.compared = t'.compared := by
        intro t' ht'
        by_contra hnone
        have hnamed : ∃ d ∈ (diffWorkflows before after).taskDiffs, d.taskId = t'.definitionTaskId :=
          (diff_named_iff hbefore).2
            ⟨t', ht', rfl, fun t ht hid hsame => hnone ⟨t, ht, hid, hsame⟩⟩
        obtain ⟨d, hd, -⟩ := hnamed
        rw [hempty] at hd
        cases hd
      refine ⟨fun id => ⟨hsub id, fun hid => ?_⟩, fun t ht t' ht' hid => ?_⟩
      · obtain ⟨t', ht', rfl⟩ := mem_comparedIds.1 hid
        obtain ⟨t, ht, htid, -⟩ := hlike t' ht'
        exact mem_comparedIds.2 ⟨t, ht, htid⟩
      · obtain ⟨t₁, ht₁, hid₁, hsame⟩ := hlike t' ht'
        rwa [eq_of_comparedIds hbefore ht ht₁ (hid.trans hid₁.symm)]
    · rintro ⟨hids, hagree⟩
      refine List.eq_nil_iff_forall_not_mem.2 fun d hd => ?_
      obtain ⟨t', ht', hid, hdiffer⟩ := (diff_named_iff hbefore).1 ⟨d, hd, rfl⟩
      obtain ⟨t, ht, htid⟩ := mem_comparedIds.1 ((hids d.taskId).2 (mem_comparedIds.2 ⟨t', ht', hid⟩))
      exact hdiffer t ht htid (hagree t ht t' ht' (htid.trans hid.symm))
    · rintro id (⟨t, ht, htid, hdiffer⟩ | hright)
      · obtain ⟨t', ht', htid'⟩ := mem_comparedIds.1 (hsub id (mem_comparedIds.2 ⟨t, ht, htid⟩))
        refine (diff_named_iff hbefore).2 ⟨t', ht', htid', fun t₁ ht₁ htid₁ => ?_⟩
        rw [eq_of_comparedIds hbefore ht₁ ht (htid₁.trans htid.symm)]
        exact hdiffer t' ht' htid'
      · exact (diff_named_iff hbefore).2 hright

end

/-- An instance with these tasks. -/
def sampleInstance (tasks : List TaskRun) : WorkflowInstance where
  id := "wf_1"
  jobId := "job_1"
  runId := "run_1"
  state := .running
  context := []
  tasks := tasks
  history := []
  version := 1
  createdAt := "2026-01-01T00:00:00.000Z"
  updatedAt := "2026-01-01T00:00:00.000Z"

theorem diff_complete_sample :
    let before := sampleInstance [createTaskRun "t_1" "run_1" "extract" "h"]
    let after := sampleInstance [{ createTaskRun "t_1" "run_1" "extract" "h" with status := .failed, attempt := 1 },
      createTaskRun "t_2" "run_1" "load" "h"]
    DiffComplete before after :=
  (diff_complete_iff (by decide)).2 (by decide)

/-- A task that is gone is not named. -/
theorem removed_task_is_not_named : ¬ ∀ before after : WorkflowInstance, before.comparedIds.Nodup →
    after.comparedIds.Nodup → DiffComplete before after := by
  intro h
  have hcomplete := h (sampleInstance [createTaskRun "t_1" "run_1" "extract" "h"]) (sampleInstance []) (by decide)
    (by decide)
  have hdisagree : DisagreeOn (sampleInstance [createTaskRun "t_1" "run_1" "extract" "h"]) (sampleInstance [])
      "extract" := .inl ⟨_, List.mem_singleton_self _, rfl, by simp [sampleInstance]⟩
  obtain ⟨d, hd, -⟩ := hcomplete.named _ hdisagree
  cases hd

end Jobflow
