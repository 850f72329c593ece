import Jobflow.Dsl.Optimizer

/-!
# The order the optimizer puts the tasks in

In a workflow without circular dependencies the first sort puts every task after the tasks it depends on, so that the
depths the second one computes in this order are final: each is the length of the longest chain of dependencies
(`depths_isDepth`). A list sorted by these is in dependency order whatever the sort does with equal depths.
-/

namespace Jobflow.Dsl

open PostOrder (Edge DepsFirst IsDepth)

/-- The task that stands for an id: the last one declared under it. -/
def lastDeclared (tasks : List TaskDslNode) (id : String) : Option TaskDslNode :=
  tasks.reverse.find? fun t => t.id = id

theorem lastDeclared_id {tasks : List TaskDslNode} {id : String} {t : TaskDslNode}
    (h : lastDeclared tasks id = some t) : t.id = id := by
  simpa using List.find?_some h

theorem byId_get (tasks : List TaskDslNode) :
    (InsertionMap.ofList (tasks.map fun t => (t.id, t))).get = lastDeclared tasks := by
  funext id
  rw [InsertionMap.get_ofList_map, Option.map_id', lastDeclared]

/-! ## The first sort -/

theorem sortTasksTopologically_ok (tasks : List TaskDslNode) : ∃ out, sortTasksTopologically tasks = some out ∧
    (out.map (·.id)).Nodup ∧ (∀ t, t ∈ out ↔ lastDeclared tasks t.id = some t) ∧
    ((∀ id, ¬ Relation.TransGen (Edge (lastDeclared tasks) TaskDslNode.dependsOn) id id) →
      DepsFirst (lastDeclared tasks) TaskDslNode.dependsOn out) := by
  have hnode : ∀ {id t}, lastDeclared tasks id = some t → id ∈ (tasks.map (·.id)).dedup ∧ t.id = id := by
    intro id t h
    refine ⟨List.mem_dedup.2 (List.mem_map.2 ⟨t, ?_, lastDeclared_id h⟩), lastDeclared_id h⟩
    exact List.mem_reverse.1 (List.mem_of_find?_eq_some h)
  have hkeys : ((tasks.map (·.id)).dedup).length < tasks.length + 1 := by
    have := (List.dedup_sublist (tasks.map (·.id))).length_le
    rw [List.length_map] at this
    omega
  obtain ⟨s, hs, hnodup, hlisted, hreached⟩ :
      ∃ s, PostOrder.visitAll (lastDeclared tasks) TaskDslNode.dependsOn (tasks.length + 1) (tasks.map (·.id)) =
          some s ∧
        (s.out.map (·.id)).Nodup ∧ (∀ t ∈ s.out, lastDeclared tasks t.id = some t) ∧
        ∀ id ∈ tasks.map (·.id), ∀ t, lastDeclared tasks id = some t → t ∈ s.out :=
    PostOrder.visitAll_ok (List.nodup_dedup _) hnode hkeys _
  refine ⟨s.out, ?_, hnodup, fun t => ⟨hlisted t, fun ht => ?_⟩, fun hacyclic => ?_⟩
  · rw [sortTasksTopologically, byId_get, hs]
    rfl
  · exact hreached t.id (List.mem_dedup.1 (hnode ht).1) t ht
  · exact PostOrder.visitAll_depsFirst (List.nodup_dedup _) hnode hacyclic hkeys hs

/-! ## The depths -/

/-- The depth the second sort reads for an id. -/
def depthIn (tasks : List TaskDslNode) (id : String) : Nat := ((depths tasks).get id).getD 0

theorem foldl_max (l : List String) (f : String → Nat) (n : Nat) :
    l.foldl (fun m d => max m (f d)) n = max n (l.toFinset.sup f) := by
  induction l generalizing n with
  | nil => simp
  | cons d l ih =>
    rw [List.foldl_cons, ih, List.toFinset_cons, Finset.sup_insert]
    exact max_assoc _ _ _

theorem depths_snoc (tasks : List TaskDslNode) (t : TaskDslNode) :
    depths (tasks ++ [t]) = (depths tasks).set t.id (t.dependsOn.toFinset.sup (depthIn tasks) + 1) := by
  have hmax := foldl_max t.dependsOn (depthIn tasks) 0
  rw [Nat.zero_max] at hmax
  rw [← hmax, depths, List.foldl_append]
  rfl

theorem depthIn_snoc_self (tasks : List TaskDslNode) (t : TaskDslNode) :
    depthIn (tasks ++ [t]) t.id = t.dependsOn.toFinset.sup (depthIn tasks) + 1 := by
  rw [depthIn, depths_snoc, InsertionMap.get_set_self]
  rfl

theorem depthIn_snoc_ne (tasks : List TaskDslNode) {t : TaskDslNode} {id : String} (h : t.id ≠ id) :
    depthIn (tasks ++ [t]) id = depthIn tasks id := by
  rw [depthIn, depths_snoc, InsertionMap.get_set, if_neg h]
  rfl

theorem depthIn_unknown {tasks : List TaskDslNode} {id : String} (h : id ∉ tasks.map (·.id)) :
    depthIn tasks id = 0 := by
  induction tasks using List.reverseRecOn with
  | nil => rfl
  | append_singleton tasks t ih =>
    rw [List.map_append, List.mem_append, not_or] at h
    have hne : t.id ≠ id := fun he => h.2 (by simp [he])
    rw [depthIn_snoc_ne tasks hne]
    exact ih h.1

/-- In dependency order no depth is read before it is final. -/
theorem depthIn_known {node : String → Option TaskDslNode} {out : List TaskDslNode} (hnodup : (out.map (·.id)).Nodup)
    (hlisted : ∀ t ∈ out, node t.id = some t) (hfirst : DepsFirst node TaskDslNode.dependsOn out) :
    ∀ t ∈ out, depthIn out t.id = t.dependsOn.toFinset.sup (depthIn out) + 1 := by
  induction out using List.reverseRecOn with
  | nil => simp
  | append_singleton out u ih =>
    rw [List.map_append, List.nodup_append] at hnodup
    have hnew : ∀ t ∈ out, u.id ≠ t.id := fun t ht he =>
      hnodup.2.2 t.id (List.mem_map_of_mem ht) u.id (by simp) he.symm
    -- the id of the last task is no dependency of a task before it, nor its own
    have hlater : ∀ t ∈ out ++ [u], ∀ d ∈ t.dependsOn, u.id ≠ d := by
      rintro t ht d hd rfl
      have hu : node u.id = some u := hlisted u (by simp)
      obtain ⟨before, after, hsplit⟩ := List.append_of_mem ht
      have hmem : u ∈ before := hfirst before t after hsplit _ hd u hu
      have hinit : before <+: out := by
        refine List.prefix_of_prefix_length_le ⟨t :: after, hsplit.symm⟩ (List.prefix_append out [u]) ?_
        have := congrArg List.length hsplit
        simp at this
        omega
      exact hnew u (hinit.subset hmem) rfl
    have hsame : ∀ t ∈ out ++ [u], t.dependsOn.toFinset.sup (depthIn (out ++ [u])) =
        t.dependsOn.toFinset.sup (depthIn out) := fun t ht =>
      Finset.sup_congr rfl fun d hd => depthIn_snoc_ne out (hlater t ht d (List.mem_toFinset.1 hd))
    intro t ht
    rw [hsame t ht]
    rcases List.mem_append.1 ht with hold | hlast
    · rw [depthIn_snoc_ne out (hnew t hold)]
      exact ih hnodup.1 (fun t ht => hlisted t (List.mem_append_left _ ht)) hfirst.init t hold
    · rw [List.mem_singleton.1 hlast]
      exact depthIn_snoc_self out u

/-- The depths that the second sort goes by are the lengths of the longest chains of dependencies. -/
theorem depths_isDepth {node : String → Option TaskDslNode} (hid : ∀ {id t}, node id = some t → t.id = id)
    {out : List TaskDslNode} (hnodup : (out.map (·.id)).Nodup) (hout : ∀ t, t ∈ out ↔ node t.id = some t)
    (hfirst : DepsFirst node TaskDslNode.dependsOn out) : IsDepth node TaskDslNode.dependsOn (depthIn out) := by
  constructor
  · intro id hnone
    refine depthIn_unknown fun hmem => ?_
    obtain ⟨t, ht, rfl⟩ := List.mem_map.1 hmem
    rw [(hout t).1 ht] at hnone
    cases hnone
  · intro id t ht
    have hmem : t ∈ out := (hout t).2 (by rw [hid ht]; exact ht)
    rw [← hid ht]
    exact depthIn_known hnodup (fun t ht => (hout t).1 ht) hfirst t hmem

/-! ## Both sorts -/

theorem mergeParallelTasks_sorted (tasks : List TaskDslNode) :
    (mergeParallelTasks tasks).Pairwise fun t u => depthIn tasks t.id ≤ depthIn tasks u.id := by
  have hsorted : (mergeParallelTasks tasks).Pairwise fun t u =>
      decide (depthIn tasks t.id ≤ depthIn tasks u.id) = true := by
    refine List.pairwise_mergeSort ?_ ?_ tasks
    · intro a b c hab hbc
      simp only [decide_eq_true_eq] at hab hbc ⊢
      exact le_trans hab hbc
    · intro a b
      simp only [Bool.or_eq_true, decide_eq_true_eq]
      exact le_total _ _
  exact hsorted.imp fun h => of_decide_eq_true h

/-- In a workflow without circular dependencies, the optimizer puts out the task of each id, every task after the tasks
of the workflow that it depends on, and sorted by the one depth that tasks have. -/
theorem optimize_ordered {w : WorkflowDslNode}
    (hacyclic : ∀ id, ¬ Relation.TransGen (Edge (lastDeclared w.tasks) TaskDslNode.dependsOn) id id) :
    ∃ tasks, optimize w = some { w with tasks } ∧ (tasks.map (·.id)).Nodup ∧
      (∀ t, t ∈ tasks ↔ lastDeclared w.tasks t.id = some t) ∧
      DepsFirst (lastDeclared w.tasks) TaskDslNode.dependsOn tasks ∧
      (∃! depth, IsDepth (lastDeclared w.tasks) TaskDslNode.dependsOn depth) ∧
      ∀ depth, IsDepth (lastDeclared w.tasks) TaskDslNode.dependsOn depth →
        tasks.Pairwise fun t u => depth t.id ≤ depth u.id := by
  obtain ⟨out, hsort, hnodup, hout, hfirst⟩ := sortTasksTopologically_ok w.tasks
  have hfirst := hfirst hacyclic
  have hid : ∀ {id t}, lastDeclared w.tasks id = some t → t.id = id := lastDeclared_id
  have hdepth := depths_isDepth hid hnodup hout hfirst
  have hperm : (mergeParallelTasks out).Perm out := List.mergeSort_perm _ _
  have hmem : ∀ t, t ∈ mergeParallelTasks out ↔ lastDeclared w.tasks t.id = some t := fun t =>
    hperm.mem_iff.trans (hout t)
  have hunique : ∀ depth, IsDepth (lastDeclared w.tasks) TaskDslNode.dependsOn depth → depth = depthIn out :=
    fun depth h => h.unique hdepth hid hout hfirst
  refine ⟨mergeParallelTasks out, ?_, (hperm.map _).nodup_iff.2 hnodup, hmem, ?_, ⟨_, hdepth, hunique⟩, ?_⟩
  · rw [optimize, hsort]
    rfl
  · exact hdepth.depsFirst hid hmem (mergeParallelTasks_sorted out)
  · intro depth h
    rw [hunique depth h]
    exact mergeParallelTasks_sorted out

/-- Three tasks in a chain, declared in another order. -/
def sampleUnsorted : WorkflowDslNode where
  name := "w"
  version := .finite 1
  tasks := [⟨"c", "h", .finite 1000, ["b"], false⟩, ⟨"a", "h", .finite 1000, [], false⟩,
    ⟨"b", "h", .finite 1000, ["a"], false⟩]
  constraints := []

def sampleDepth (id : String) : Nat := if id = "a" then 1 else if id = "b" then 2 else if id = "c" then 3 else 0

theorem sampleUnsorted_isDepth : IsDepth (lastDeclared sampleUnsorted.tasks) TaskDslNode.dependsOn sampleDepth := by
  have hcases : ∀ id, (id = "a" ∨ id = "b" ∨ id = "c") ∨ (lastDeclared sampleUnsorted.tasks id = none ∧
      sampleDepth id = 0) := by
    intro id
    by_cases h : id = "a" ∨ id = "b" ∨ id = "c"
    · exact .inl h
    · obtain ⟨ha, hb, hc⟩ : id ≠ "a" ∧ id ≠ "b" ∧ id ≠ "c" := by simpa only [not_or] using h
      exact .inr ⟨by simp [lastDeclared, sampleUnsorted, ha.symm, hb.symm, hc.symm], by simp [sampleDepth, ha, hb, hc]⟩
  constructor
  · intro id hnone
    rcases hcases id with (rfl | rfl | rfl) | ⟨-, hzero⟩
    · cases hnone
    · cases hnone
    · cases hnone
    · exact hzero
  · intro id t ht
    rcases hcases id with (rfl | rfl | rfl) | ⟨hnone, -⟩
    · cases ht
      rfl
    · cases ht
      rfl
    · cases ht
      rfl
    · rw [hnone] at ht
      cases ht

theorem optimize_ordered_sample : ∃ tasks, optimize sampleUnsorted = some { sampleUnsorted with tasks } ∧
    (tasks.map (·.id)).Nodup ∧ (∀ t, t ∈ tasks ↔ lastDeclared sampleUnsorted.tasks t.id = some t) ∧
    DepsFirst (lastDeclared sampleUnsorted.tasks) TaskDslNode.dependsOn tasks ∧
    (∃! depth, IsDepth (lastDeclared sampleUnsorted.tasks) TaskDslNode.dependsOn depth) ∧
    ∀ depth, IsDepth (lastDeclared sampleUnsorted.tasks) TaskDslNode.dependsOn depth →
      tasks.Pairwise fun t u => depth t.id ≤ depth u.id :=
  optimize_ordered sampleUnsorted_isDepth.acyclic

end Jobflow.Dsl
