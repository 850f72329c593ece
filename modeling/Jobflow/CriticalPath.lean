import Jobflow.DagPlanner
import Jobflow.Js.Amounts
import Jobflow.Lib.LongestChain

/-!
# The critical path of a plan (src/engine/dag-planner.ts:62-95)

`longestFrom` is the library's two steps with a memo in between: a certificate for each name asked
(`longestFrom_spec`), the better one of two kept (`LongestPath.better`). Costs start at zero and are compared strictly,
which loses no chain because a validated task takes a positive time. Each sum is rounded, in the order of the chain;
rounded sums are monotone, so the path is the best one by what JavaScript makes of the sum (`critical_path_optimal`),
though not always by the exact sum (`critical_path_rounded`).
-/

namespace Jobflow

open Js (Number Amount)
open LongestChain (Chain Heaviest HeaviestOf)

/-! ## Certificates -/

def DagGraph.IsNode (graph : DagGraph) (id : String) : Prop := (graph.get id).isSome

/-- `graph.get(id)?.weightMs ?? 0`. -/
def DagGraph.weightMs (graph : DagGraph) (id : String) : Number :=
  ((graph.get id).map DagNode.weightMs).getD (.finite 0)

/-- No weight is negative or NaN. -/
def DagGraph.Timed (graph : DagGraph) : Prop := ∀ id, (graph.weightMs id).IsAmount

section
variable {graph : DagGraph}

/-- The weight of a node on top of what comes before it. -/
def DagGraph.Timed.add (ht : graph.Timed) (sum : Amount) (id : String) : Amount := sum.add ⟨graph.weightMs id, ht id⟩

theorem DagGraph.Timed.add_mono (ht : graph.Timed) (id : String) : Monotone fun sum => ht.add sum id :=
  Amount.add_mono _

/-- The cost of a path is the sum as the planner forms it. -/
theorem DagGraph.Timed.value_total (ht : graph.Timed) (path : List String) :
    (LongestChain.total ht.add path).value =
      path.foldl (fun sum id => sum.add (graph.weightMs id)) (.finite 0) := by
  induction path using List.reverseRecOn with
  | nil => rfl
  | append_singleton path id ih =>
    rw [LongestChain.total_concat, List.foldl_concat, ← ih]
    rfl

/-- What `longestFrom` answers for `id`: a heaviest chain that ends there, nothing if `id` is no node. -/
inductive LongestPath.Answers (ht : graph.Timed) (id : String) (result : LongestPath) : Prop where
  | node (hnode : graph.IsNode id) (cost : Amount) (hcost : cost.value = result.cost)
      (h : Heaviest graph.dependsOn graph.IsNode ht.add id cost result.path)
  | unknown (hnode : ¬ graph.IsNode id) (h : result = .empty)

/-- `best`, after the children `ids`. -/
def LongestPath.BestOf (ht : graph.Timed) (ids : List String) (best : LongestPath) : Prop :=
  ∃ cost : Amount, cost.value = best.cost ∧ HeaviestOf graph.dependsOn graph.IsNode ht.add ids cost best.path

/-- Every memoised path is a heaviest one. -/
def PathMemo.Ok (ht : graph.Timed) (memo : PathMemo) : Prop :=
  ∀ id result, memo.get id = some result → result.Answers ht id

variable {ht : graph.Timed}

theorem LongestPath.BestOf.empty : LongestPath.BestOf ht [] .empty := ⟨⊥, rfl, .nil⟩

theorem PathMemo.Ok.empty : PathMemo.Ok ht .empty := by
  intro id result h
  rw [InsertionMap.get_empty] at h
  cases h

theorem PathMemo.Ok.set {memo : PathMemo} (hmemo : memo.Ok ht) {id : String} {result : LongestPath}
    (h : result.Answers ht id) : PathMemo.Ok ht (memo.set id result) := by
  intro id' result' hget
  rw [InsertionMap.get_set] at hget
  split at hget
  · rename_i heq
    obtain rfl := Option.some.inj hget
    exact heq ▸ h
  · exact hmemo id' result' hget

/-- `if (child.cost > best.cost) best = child`. -/
theorem LongestPath.BestOf.better {best child : LongestPath} {ids : List String} {id : String}
    (hbest : best.BestOf ht ids) (hchild : child.Answers ht id) : (best.better child).BestOf ht (ids ++ [id]) := by
  obtain ⟨cost, hcost, hbest⟩ := hbest
  cases hchild with
  | node hnode cost' hcost' h =>
    have hsnoc := hbest.snoc h
    unfold LongestPath.better
    by_cases hlt : best.cost.lt child.cost = true
    · have hlt' : cost < cost' := by rwa [Amount.lt_iff, hcost, hcost']
      rw [if_pos hlt', if_pos hlt'] at hsnoc
      rw [if_pos hlt]
      exact ⟨cost', hcost', hsnoc⟩
    · have hlt' : ¬ cost < cost' := by rwa [Amount.lt_iff, hcost, hcost']
      rw [if_neg hlt', if_neg hlt'] at hsnoc
      rw [if_neg hlt]
      exact ⟨cost, hcost, hsnoc⟩
  | unknown hnode h =>
    subst h
    have hkeep : ¬ best.cost.lt LongestPath.empty.cost = true := by
      rw [← hcost]
      exact fun hlt => not_lt_bot (Amount.lt_iff.2 hlt)
    rw [LongestPath.better, if_neg hkeep]
    exact ⟨cost, hcost, hbest.snoc_unknown hnode⟩

/-- The loops over `node.dependsOn` and `graph.keys()`: they ask for each name in turn and keep the best answer. -/
theorem DagPlanner.bestOf_spec {ask : String → PathMemo → Option (LongestPath × PathMemo)}
    (hask : ∀ id memo result memo', memo.Ok ht → ask id memo = some (result, memo') →
      result.Answers ht id ∧ memo'.Ok ht) :
    ∀ (rest ids : List String) (acc acc' : LongestPath × PathMemo), acc.1.BestOf ht ids → acc.2.Ok ht →
      rest.foldlM (fun acc dep => do
        let (child, memo) ← ask dep acc.2
        some (acc.1.better child, memo)) acc = some acc' → acc'.1.BestOf ht (ids ++ rest) ∧ acc'.2.Ok ht := by
  intro rest
  induction rest with
  | nil =>
    intro ids acc acc' hbest hmemo h
    obtain rfl := Option.some.inj h
    rw [List.append_nil]
    exact ⟨hbest, hmemo⟩
  | cons id rest ih =>
    intro ids acc acc' hbest hmemo h
    rw [List.foldlM_cons] at h
    obtain ⟨acc₁, h₁, hrest⟩ := Option.bind_eq_some_iff.1 h
    obtain ⟨⟨child, memo⟩, hchild, hacc⟩ := Option.bind_eq_some_iff.1 h₁
    obtain rfl := Option.some.inj hacc
    obtain ⟨hanswer, hmemo'⟩ := hask id acc.2 child memo hmemo hchild
    rw [List.append_cons]
    exact ih (ids ++ [id]) _ acc' (hbest.better hanswer) hmemo' hrest

/-- **`longestFrom` finds a heaviest chain**, whatever the memo already holds. -/
theorem DagPlanner.longestFrom_spec : ∀ (fuel : Nat) (id : String) (memo : PathMemo) (result : LongestPath)
    (memo' : PathMemo), memo.Ok ht → longestFrom graph fuel id memo = some (result, memo') →
      result.Answers ht id ∧ memo'.Ok ht := by
  intro fuel
  induction fuel with
  | zero => intro _ _ _ _ _ h; cases h
  | succ fuel ih =>
    intro id memo result memo' hmemo h
    unfold longestFrom at h
    cases hcached : memo.get id with
    | some cached =>
      rw [hcached] at h
      obtain ⟨rfl, rfl⟩ := Prod.mk.inj (Option.some.inj h)
      exact ⟨hmemo id cached hcached, hmemo⟩
    | none =>
      rw [hcached] at h
      dsimp only at h
      cases hnode : graph.get id with
      | none =>
        rw [hnode] at h
        obtain ⟨rfl, rfl⟩ := Prod.mk.inj (Option.some.inj h)
        exact ⟨.unknown (by simp [DagGraph.IsNode, hnode]) rfl, hmemo⟩
      | some node =>
        rw [hnode] at h
        obtain ⟨⟨best, memo₁⟩, hfold, hresult⟩ := Option.bind_eq_some_iff.1 h
        obtain ⟨rfl, rfl⟩ := Prod.mk.inj (Option.some.inj hresult)
        obtain ⟨⟨cost, hcost, hbest⟩, hmemo₁⟩ := bestOf_spec ih node.dependsOn [] _ _ .empty hmemo hfold
        rw [List.nil_append, ← DagGraph.dependsOn_of_get hnode] at hbest
        have hid : graph.IsNode id := by simp [DagGraph.IsNode, hnode]
        have hsum : (ht.add cost id).value = node.weightMs.add best.cost := by
          rw [DagGraph.Timed.add, Amount.add_comm, Amount.value_add, hcost]
          simp [DagGraph.weightMs, hnode]
        have hanswer : LongestPath.Answers ht id ⟨node.weightMs.add best.cost, best.path ++ [id]⟩ :=
          .node hid (ht.add cost id) hsum (hbest.extend (ht.add_mono id) hid)
        exact ⟨hanswer, hmemo₁.set hanswer⟩

/-- The path that `criticalPath` returns is a heaviest chain of the graph. -/
theorem DagPlanner.criticalPath_spec (ht : graph.Timed) {path : List String} (h : criticalPath graph = some path) :
    Chain graph.dependsOn graph.IsNode path ∧
      IsGreatest {cost | ∃ l, Chain graph.dependsOn graph.IsNode l ∧ LongestChain.total ht.add l = cost}
        (LongestChain.total ht.add path) := by
  obtain ⟨⟨best, memo⟩, hfold, hpath⟩ := Option.bind_eq_some_iff.1 h
  obtain rfl := Option.some.inj hpath
  obtain ⟨⟨cost, -, hbest⟩, -⟩ := bestOf_spec (longestFrom_spec (graph.entries.length + 1)) graph.keys [] _ _
    LongestPath.BestOf.empty (@PathMemo.Ok.empty _ ht) hfold
  rw [List.nil_append] at hbest
  have hkeys (id : String) (hid : graph.IsNode id) : id ∈ graph.keys := by
    obtain ⟨node, hnode⟩ := Option.isSome_iff_exists.1 hid
    exact List.mem_map_of_mem (f := Prod.fst) (InsertionMap.get_eq_some.1 hnode)
  refine ⟨hbest.chain, ?_⟩
  rw [hbest.total]
  exact hbest.isGreatest hkeys

end

/-! ## Chains of tasks -/

/-- Tasks of the list, each a dependency of the next. -/
structure IsTaskChain (tasks chain : List TaskDefinition) : Prop where
  nonempty : chain ≠ []
  tasks : ∀ t ∈ chain, t ∈ tasks
  linked : chain.IsChain fun s t => s.id ∈ t.dependencies

/-- The sum of `timeoutMs` along a chain, rounded at each step. -/
def chainMs (chain : List TaskDefinition) : Number := chain.foldl (fun sum t => sum.add t.timeoutMs) (.finite 0)

/-- The exact sum of finite timeouts. -/
def exactMs (chain : List TaskDefinition) : Rat := (chain.map fun t => t.timeoutMs.toRat?.getD 0).sum

section
variable {tasks : List TaskDefinition}

theorem DagPlanner.get_nodes (hn : (tasks.map (·.id)).Nodup) {t : TaskDefinition} (ht : t ∈ tasks) :
    (nodes tasks).get t.id = some ⟨t.id, t.dependencies, t.timeoutMs⟩ := by
  rw [InsertionMap.get_eq_some, nodes_entries hn]
  exact List.mem_map_of_mem (f := fun t : TaskDefinition => (t.id, (⟨t.id, t.dependencies, t.timeoutMs⟩ : DagNode))) ht

theorem DagPlanner.exists_of_isNode (hn : (tasks.map (·.id)).Nodup) {id : String} (h : (nodes tasks).IsNode id) :
    ∃ t ∈ tasks, t.id = id := by
  obtain ⟨node, hnode⟩ := Option.isSome_iff_exists.1 h
  have hkey : id ∈ (nodes tasks).keys := List.mem_map_of_mem (f := Prod.fst) (InsertionMap.get_eq_some.1 hnode)
  rw [nodes_keys hn] at hkey
  exact List.mem_map.1 hkey

theorem DagPlanner.weightMs_nodes (hn : (tasks.map (·.id)).Nodup) {t : TaskDefinition} (ht : t ∈ tasks) :
    (nodes tasks).weightMs t.id = t.timeoutMs := by
  simp [DagGraph.weightMs, get_nodes hn ht]

/-- The validator lets no other time through than these, and NaN. -/
theorem DagPlanner.timed_nodes (hn : (tasks.map (·.id)).Nodup)
    (hpositive : ∀ t ∈ tasks, t.timeoutMs.le (.finite 0) = false) (hnan : ∀ t ∈ tasks, t.timeoutMs ≠ .nan) :
    (nodes tasks).Timed := by
  intro id
  by_cases hid : (nodes tasks).IsNode id
  · obtain ⟨t, ht, rfl⟩ := exists_of_isNode hn hid
    rw [weightMs_nodes hn ht]
    exact Number.isAmount_of_not_le (hpositive t ht) (hnan t ht)
  · have hnone : (nodes tasks).get id = none := by simpa [DagGraph.IsNode] using hid
    rw [DagGraph.weightMs, hnone]
    exact .finite le_rfl

/-- The cost of the ids of some tasks in the graph. -/
theorem DagPlanner.total_ids (hn : (tasks.map (·.id)).Nodup) (ht : (nodes tasks).Timed) {chain : List TaskDefinition}
    (hmem : ∀ t ∈ chain, t ∈ tasks) :
    (LongestChain.total ht.add (chain.map (·.id))).value = chainMs chain := by
  rw [ht.value_total, chainMs, List.foldl_map]
  refine List.foldl_ext _ _ _ fun sum t htask => ?_
  rw [weightMs_nodes hn (hmem t htask)]

/-- The chains of the graph are those of the tasks. -/
theorem DagPlanner.chain_ids_iff (hn : (tasks.map (·.id)).Nodup) {chain : List TaskDefinition}
    (hmem : ∀ t ∈ chain, t ∈ tasks) :
    Chain (nodes tasks).dependsOn (nodes tasks).IsNode (chain.map (·.id)) ↔
      chain.IsChain fun s t => s.id ∈ t.dependencies := by
  have hdeps (t : TaskDefinition) (ht : t ∈ chain) : (nodes tasks).dependsOn t.id = t.dependencies :=
    DagGraph.dependsOn_of_get (get_nodes hn (hmem t ht))
  have hlinked : (chain.map (·.id)).IsChain (fun a b => a ∈ (nodes tasks).dependsOn b) ↔
      chain.IsChain fun s t => s.id ∈ t.dependencies := by
    rw [List.isChain_map]
    constructor <;> refine List.IsChain.imp_of_mem_imp fun s t _ ht h => ?_
    · exact hdeps t ht ▸ h
    · exact (hdeps t ht).symm ▸ h
  refine ⟨fun h => hlinked.1 h.linked, fun h => ⟨fun id hid => ?_, hlinked.2 h⟩⟩
  obtain ⟨t, ht, rfl⟩ := List.mem_map.1 hid
  simp [DagGraph.IsNode, get_nodes hn (hmem t ht)]

/-- Every list of nodes is the ids of some tasks. -/
theorem DagPlanner.exists_tasks (hn : (tasks.map (·.id)).Nodup) : ∀ {ids : List String},
    (∀ id ∈ ids, (nodes tasks).IsNode id) → ∃ chain : List TaskDefinition, (∀ t ∈ chain, t ∈ tasks) ∧
      chain.map (·.id) = ids
  | [], _ => ⟨[], by simp⟩
  | id :: ids, h => by
    obtain ⟨t, ht, rfl⟩ := exists_of_isNode hn (h id List.mem_cons_self)
    obtain ⟨chain, hmem, rfl⟩ := exists_tasks hn fun x hx => h x (List.mem_cons_of_mem _ hx)
    exact ⟨t :: chain, List.forall_mem_cons.2 ⟨ht, hmem⟩, rfl⟩

theorem DagPlanner.plan_path {plan : DagPlan} (hgraph : buildGraph tasks = .ok (nodes tasks))
    (h : DagPlanner.plan tasks = .ok plan) : criticalPath (nodes tasks) = some plan.criticalPath ∧
      plan.estimatedMs = plan.criticalPath.foldl (fun sum id => sum.add ((nodes tasks).weightMs id)) (.finite 0) := by
  unfold DagPlanner.plan at h
  rw [hgraph] at h
  dsimp only [bind, Except.bind] at h
  split at h
  · rename_i levels path hlevels hpath
    obtain rfl := Except.ok.inj h
    exact ⟨hpath, rfl⟩
  · cases h

end

/-- The validator wants a task, and a time that is not zero or less for each. -/
theorem JobDefinitionValidator.validate_times {definition : JobDefinition} (h : validate definition = .ok ()) :
    definition.tasks ≠ [] ∧ ∀ t ∈ definition.tasks, t.timeoutMs.le (.finite 0) = false := by
  obtain ⟨hfront, -⟩ := List.append_eq_nil_iff.1 (validate_ok h)
  obtain ⟨hsome, hchecked⟩ := List.append_eq_nil_iff.1 hfront
  obtain ⟨heach, -⟩ := taskErrors_eq_nil hchecked
  refine ⟨fun hnil => ?_, fun t ht => validateTask_positive (heach t ht).2⟩
  rw [if_pos hnil] at hsome
  cases hsome

/-! ## Whole times -/

/-- Whole times are summed exactly up to `2 ^ 53`. -/
theorem chainMs_eq_exactMs {chain : List TaskDefinition} (hwhole : ∀ t ∈ chain, ∃ n : Nat, t.timeoutMs = .finite n)
    (hsmall : exactMs chain ≤ 2 ^ 53) : chainMs chain = .finite (exactMs chain) := by
  have hsum : ∃ n : Nat, exactMs chain = n ∧ (n ≤ 2 ^ 53 → chainMs chain = .finite n) := by
    clear hsmall
    induction chain using List.reverseRecOn with
    | nil => exact ⟨0, by simp [exactMs], fun _ => rfl⟩
    | append_singleton chain t ih =>
      obtain ⟨n, hn, hchain⟩ := ih fun s hs => hwhole s (List.mem_append_left _ hs)
      obtain ⟨m, hm⟩ := hwhole t (by simp)
      refine ⟨n + m, ?_, fun hle => ?_⟩
      · rw [exactMs, List.map_append, List.sum_append, ← exactMs, hn]
        simp [hm, Number.toRat?]
      · have hadd := congrArg Amount.value (Amount.ofNat_add hle)
        rw [chainMs, List.foldl_concat, ← chainMs, hchain (by omega), hm]
        exact hadd
  obtain ⟨n, hn, hchain⟩ := hsum
  rw [hn] at hsmall ⊢
  exact hchain (by exact_mod_cast hsmall)

/-! ## The path is optimal -/

/-- **The critical path is optimal**: for an accepted job whose times are not NaN, the plan's estimate is the largest
sum of `timeoutMs` over all chains of dependent tasks, as JavaScript adds them along the chain, and its critical path is
such a chain, of distinct tasks, with that sum. Where the times are whole and no chain takes more than `2 ^ 53`, it is
the largest exact sum. -/
theorem critical_path_optimal {definition : JobDefinition}
    (hvalid : JobDefinitionValidator.validate definition = .ok ())
    (horder : JobDefinitionValidator.validateDependencyOrder definition.tasks = .ok ())
    (hnumber : ∀ t ∈ definition.tasks, t.timeoutMs.IsBinary64) (hnan : ∀ t ∈ definition.tasks, t.timeoutMs ≠ .nan) :
    ∃ plan, DagPlanner.plan definition.tasks = .ok plan ∧
      (∀ chain, IsTaskChain definition.tasks chain → (chainMs chain).le plan.estimatedMs = true) ∧
      (∃ chain, IsTaskChain definition.tasks chain ∧ plan.criticalPath = chain.map (·.id) ∧
        (chain.map (·.id)).Nodup ∧ chainMs chain = plan.estimatedMs) ∧
      ((∀ t ∈ definition.tasks, ∃ n : Nat, t.timeoutMs = .finite n) →
        (∀ chain, IsTaskChain definition.tasks chain → exactMs chain ≤ 2 ^ 53) →
        ∃ ms, plan.estimatedMs = .finite ms ∧
          IsGreatest {ms | ∃ chain, IsTaskChain definition.tasks chain ∧ exactMs chain = ms} ms) := by
  have hchecked := checkedTasks hvalid horder
  have hn := hchecked.nodup
  obtain ⟨hsome, hpositive⟩ := JobDefinitionValidator.validate_times hvalid
  have ht := DagPlanner.timed_nodes hn hpositive hnan
  obtain ⟨plan, hplan, -⟩ := DagPlanner.plan_acyclic hchecked.acyclic
  obtain ⟨hpath, hestimate⟩ := DagPlanner.plan_path (DagPlanner.buildGraph_ok hchecked.acyclic).1 hplan
  obtain ⟨hchain, hgreatest⟩ := DagPlanner.criticalPath_spec ht hpath
  obtain ⟨chain, hmem, hids⟩ := DagPlanner.exists_tasks hn hchain.nodes
  have hcost : (LongestChain.total ht.add plan.criticalPath).value = plan.estimatedMs := by
    rw [ht.value_total, hestimate]
  have hms : chainMs chain = plan.estimatedMs := by rw [← DagPlanner.total_ids hn ht hmem, hids, hcost]
  have hbound (chain' : List TaskDefinition) (h : IsTaskChain definition.tasks chain') :
      (chainMs chain').le plan.estimatedMs = true := by
    rw [← DagPlanner.total_ids hn ht h.tasks, ← hcost]
    refine Amount.le_iff.1 (hgreatest.2 ⟨chain'.map (·.id), ?_, rfl⟩)
    exact (DagPlanner.chain_ids_iff hn h.tasks).2 h.linked
  have hnonempty : chain ≠ [] := by
    rintro rfl
    -- a single task takes longer than the empty chain
    obtain ⟨t, htask⟩ := List.exists_mem_of_ne_nil definition.tasks hsome
    have hsingle : IsTaskChain definition.tasks [t] := ⟨by simp, by simpa using htask, .singleton t⟩
    have hle := hbound [t] hsingle
    have htime := Number.isAmount_of_not_le (hpositive t htask) (hnan t htask)
    rw [← hms, chainMs, List.foldl_cons, List.foldl_nil, Number.zero_add htime (hnumber t htask)] at hle
    rw [chainMs, List.foldl_nil, hpositive t htask] at hle
    cases hle
  have hlinked : IsTaskChain definition.tasks chain :=
    ⟨hnonempty, hmem, (DagPlanner.chain_ids_iff hn hmem).1 (hids ▸ hchain)⟩
  refine ⟨plan, hplan, hbound, ⟨chain, hlinked, hids.symm, hids ▸ hchain.nodup hchecked.acyclic, hms⟩, ?_⟩
  intro hwhole hsmall
  have hexact (chain' : List TaskDefinition) (h : IsTaskChain definition.tasks chain') :
      chainMs chain' = .finite (exactMs chain') :=
    chainMs_eq_exactMs (fun t ht => hwhole t (h.tasks t ht)) (hsmall chain' h)
  have hfinite : plan.estimatedMs = .finite (exactMs chain) := by rw [← hms, hexact chain hlinked]
  refine ⟨exactMs chain, hfinite, ⟨chain, hlinked, rfl⟩, ?_⟩
  rintro _ ⟨chain', h, rfl⟩
  have hle := hbound chain' h
  rw [hexact chain' h, hfinite] at hle
  exact (Number.le_iff rfl rfl).1 hle

theorem times_sampleRepeated (deps : List String) : ∀ t ∈ (sampleRepeated deps).tasks, t.timeoutMs.IsBinary64 := by
  have hsecond : (Number.finite 1000).IsBinary64 := by
    rintro q ⟨⟩
    decide +kernel
  simp [sampleRepeated, hsecond]

/-- Two tasks in a row, of one second each. -/
theorem critical_path_optimal_sample :
    ∃ plan, DagPlanner.plan (sampleRepeated ["extract"]).tasks = .ok plan ∧
      (∀ chain, IsTaskChain (sampleRepeated ["extract"]).tasks chain → (chainMs chain).le plan.estimatedMs = true) ∧
      (∃ chain, IsTaskChain (sampleRepeated ["extract"]).tasks chain ∧ plan.criticalPath = chain.map (·.id) ∧
        (chain.map (·.id)).Nodup ∧ chainMs chain = plan.estimatedMs) ∧
      ((∀ t ∈ (sampleRepeated ["extract"]).tasks, ∃ n : Nat, t.timeoutMs = .finite n) →
        (∀ chain, IsTaskChain (sampleRepeated ["extract"]).tasks chain → exactMs chain ≤ 2 ^ 53) →
        ∃ ms, plan.estimatedMs = .finite ms ∧
          IsGreatest {ms | ∃ chain, IsTaskChain (sampleRepeated ["extract"]).tasks chain ∧ exactMs chain = ms} ms) :=
  critical_path_optimal (by decide) (by decide) (times_sampleRepeated ["extract"]) (by decide)

/-- Three tasks in a row, of which the first takes `2 ^ 53` and the others one each. -/
def sampleRounded : JobDefinition := { sampleRepeated [] with
  tasks := [⟨"a", "a", "report.aggregate", .finite (2 ^ 53), none, none⟩,
    ⟨"b", "b", "report.aggregate", .finite 1, none, some ["a"]⟩,
    ⟨"c", "c", "report.aggregate", .finite 1, none, some ["b"]⟩] }

/-- A task that takes NaN. -/
def sampleUntimed : JobDefinition :=
  { sampleRepeated [] with tasks := [⟨"a", "a", "report.aggregate", .nan, none, none⟩] }

/-- `2 ^ 53 + 1` is rounded to `2 ^ 53`, so the other two are left out of the path; and a cost that is NaN is never
better than none. -/
theorem critical_path_rounded :
    (JobDefinitionValidator.validate sampleRounded = .ok () ∧
      JobDefinitionValidator.validateDependencyOrder sampleRounded.tasks = .ok () ∧
      ∃ plan, DagPlanner.plan sampleRounded.tasks = .ok plan ∧ plan.criticalPath = ["a"] ∧
        plan.estimatedMs = .finite (2 ^ 53) ∧
        ¬ IsGreatest {ms | ∃ chain, IsTaskChain sampleRounded.tasks chain ∧ exactMs chain = ms} (2 ^ 53)) ∧
    JobDefinitionValidator.validate sampleUntimed = .ok () ∧
      JobDefinitionValidator.validateDependencyOrder sampleUntimed.tasks = .ok () ∧
      ∃ plan, DagPlanner.plan sampleUntimed.tasks = .ok plan ∧ plan.criticalPath = [] ∧
        ¬ ∃ chain, IsTaskChain sampleUntimed.tasks chain ∧ plan.criticalPath = chain.map (·.id) := by
  have hrounded : (DagPlanner.plan sampleRounded.tasks).map (fun plan => (plan.criticalPath, plan.estimatedMs)) =
      .ok (["a"], .finite (2 ^ 53)) := by decide +kernel
  have huntimed : (DagPlanner.plan sampleUntimed.tasks).map DagPlan.criticalPath = .ok [] := by decide +kernel
  refine ⟨⟨by decide +kernel, by decide, ?_⟩, by decide, by decide, ?_⟩
  · cases hplan : DagPlanner.plan sampleRounded.tasks with
    | error e => simp [hplan, Except.map] at hrounded
    | ok plan =>
      simp only [hplan, Except.map, Except.ok.injEq, Prod.mk.injEq] at hrounded
      refine ⟨plan, rfl, hrounded.1, hrounded.2, fun hgreatest => ?_⟩
      have hchain : IsTaskChain sampleRounded.tasks sampleRounded.tasks :=
        ⟨by simp [sampleRounded], fun t ht => ht, by simp [sampleRounded, TaskDefinition.dependencies]⟩
      have hsum : exactMs sampleRounded.tasks = 2 ^ 53 + 2 := by
        norm_num [exactMs, sampleRounded, Number.toRat?]
      have hle := hgreatest.2 ⟨sampleRounded.tasks, hchain, hsum⟩
      norm_num at hle
  · cases hplan : DagPlanner.plan sampleUntimed.tasks with
    | error e => simp [hplan, Except.map] at huntimed
    | ok plan =>
      simp only [hplan, Except.map, Except.ok.injEq] at huntimed
      refine ⟨plan, rfl, huntimed, ?_⟩
      rintro ⟨chain, hchain, hids⟩
      rw [huntimed] at hids
      exact hchain.nonempty (List.map_eq_nil_iff.1 hids.symm)

end Jobflow
