import Mathlib.Data.List.Perm.Basic
import Jobflow.Jobs
import Jobflow.Lib.LevelOrder

/-!
# Planning a job as levels (src/engine/dag-planner.ts)

`DagPlanner.plan` builds a graph of the tasks, checks it for cycles, groups the tasks in levels and looks for the
longest chain. The levels are those of `DependencyGraph.levelsFrom` (`topologicalLevels_eq`): the counter of a task
starts at the length of its `dependsOn`, entries that name a task twice included, but goes down once for each task
it depends on. `planned_levels_iff` says for which accepted task lists the levels cover the job.
-/

namespace Jobflow

open Js (Number)
open DependencyGraph (FinishOrder LevelSpec levelNumber)

structure DagNode where
  taskId : String
  dependsOn : List String
  weightMs : Number

structure DagPlan where
  levels : List (List String)
  criticalPath : List String
  estimatedMs : Number

abbrev DagGraph := InsertionMap String DagNode

/-- `graph.get(id)?.dependsOn ?? []`. -/
def DagGraph.dependsOn (graph : DagGraph) (id : String) : List String :=
  ((graph.get id).map DagNode.dependsOn).getD []

/-! ## `buildGraph` (dag-planner.ts:16-27, 97-111) -/

/-- The loop of `buildGraph`. -/
def DagPlanner.nodes (tasks : List TaskDefinition) : DagGraph :=
  InsertionMap.ofList (tasks.map fun t => (t.id, ⟨t.id, t.dependencies, t.timeoutMs⟩))

def DagPlanner.assertAcyclic (graph : DagGraph) : Except JobflowError Unit :=
  match DependencyGraph.visitAll graph.dependsOn (graph.entries.length + 1) graph.keys with
  | .ok _ => .ok ()
  | .error (.cycle id) => .error (.exception (.error ("cycle detected at task " ++ id)))
  | .error .outOfFuel => .error (.exception (.error "unreachable"))

def DagPlanner.buildGraph (tasks : List TaskDefinition) : Except JobflowError DagGraph := do
  assertAcyclic (nodes tasks)
  .ok (nodes tasks)

/-! ## `topologicalLevels` (dag-planner.ts:37-60) -/

/-- The counters, and the set `next`. -/
structure LevelSweep where
  inDegree : InsertionMap String Int
  next : List String

/-- The body of the loop over the graph, for the task `id` of the level. -/
def LevelSweep.visit (id : String) (st : LevelSweep) (entry : String × DagNode) : LevelSweep :=
  if id ∈ entry.2.dependsOn then
    let deg := (st.inDegree.get entry.1).getD 0 - 1
    { inDegree := st.inDegree.set entry.1 deg
      next := if deg = 0 ∧ entry.1 ∉ st.next then st.next ++ [entry.1] else st.next }
  else st

/-- `while (ready.length)`; each round emits at least one task, so `fuel` bounds their number. -/
def DagPlanner.levelLoop (graph : DagGraph) : Nat → InsertionMap String Int → List String →
    Option (List (List String))
  | 0, _, _ => none
  | fuel + 1, inDegree, ready =>
    if ready = [] then some []
    else
      let st := ready.foldl (fun st id => graph.entries.foldl (LevelSweep.visit id) st) ⟨inDegree, []⟩
      (levelLoop graph fuel st.inDegree st.next).map (ready :: ·)

/-- The counters before the first round. -/
def DagPlanner.initialInDegree (graph : DagGraph) : InsertionMap String Int :=
  graph.values.foldl (fun m node => m.set node.taskId node.dependsOn.length)
    (graph.keys.foldl (fun m id => m.set id 0) .empty)

def DagPlanner.topologicalLevels (graph : DagGraph) : Option (List (List String)) :=
  let inDegree := initialInDegree graph
  let ready := graph.keys.filter fun id => (inDegree.get id).getD 0 = 0
  levelLoop graph (graph.entries.length + 1) inDegree ready

/-! ## `criticalPath` (dag-planner.ts:62-95) -/

structure LongestPath where
  cost : Number
  path : List String

def LongestPath.empty : LongestPath := ⟨.finite 0, []⟩

/-- `if (child.cost > best.cost) best = child`. -/
def LongestPath.better (best child : LongestPath) : LongestPath :=
  if best.cost.lt child.cost then child else best

abbrev PathMemo := InsertionMap String LongestPath

/-- `longestFrom`, with the memo passed through. -/
def DagPlanner.longestFrom (graph : DagGraph) : Nat → String → PathMemo → Option (LongestPath × PathMemo)
  | 0, _, _ => none
  | fuel + 1, id, memo =>
    match memo.get id with
    | some cached => some (cached, memo)
    | none =>
      match graph.get id with
      | none => some (.empty, memo)
      | some node => do
        let (bestChild, memo) ← node.dependsOn.foldlM (fun acc dep => do
          let (child, memo) ← longestFrom graph fuel dep acc.2
          some (acc.1.better child, memo)) (LongestPath.empty, memo)
        let result : LongestPath := ⟨node.weightMs.add bestChild.cost, bestChild.path ++ [id]⟩
        some (result, memo.set id result)

def DagPlanner.criticalPath (graph : DagGraph) : Option (List String) := do
  let (best, _) ← graph.keys.foldlM (fun acc id => do
    let (result, memo) ← longestFrom graph (graph.entries.length + 1) id acc.2
    some (acc.1.better result, memo)) (LongestPath.empty, .empty)
  some best.path

/-- `plan` (dag-planner.ts:29-35). -/
def DagPlanner.plan (tasks : List TaskDefinition) : Except JobflowError DagPlan := do
  let graph ← buildGraph tasks
  match topologicalLevels graph, criticalPath graph with
  | some levels, some path =>
    let estimatedMs :=
      path.foldl (fun sum id => sum.add (((graph.get id).map DagNode.weightMs).getD (.finite 0))) (.finite 0)
    .ok { levels := levels, criticalPath := path, estimatedMs := estimatedMs }
  | _, _ => .error (.exception (.error "unreachable"))

/-! ## The levels are those of the library -/

/-- The counters as a function. -/
def LevelSweep.toSweep (st : LevelSweep) : DependencyGraph.Sweep String where
  degree := fun id => (st.inDegree.get id).getD 0
  next := st.next

section
variable {graph : DagGraph}

theorem DagGraph.dependsOn_of_get {id : String} {node : DagNode} (h : graph.get id = some node) :
    graph.dependsOn id = node.dependsOn := by
  simp [DagGraph.dependsOn, h]

theorem LevelSweep.toSweep_visit {entry : String × DagNode} (h : entry ∈ graph.entries) (id : String)
    (st : LevelSweep) : (st.visit id entry).toSweep = st.toSweep.relax graph.dependsOn id entry.1 := by
  have hdeps : graph.dependsOn entry.1 = entry.2.dependsOn :=
    DagGraph.dependsOn_of_get (InsertionMap.get_eq_some.2 h)
  unfold visit DependencyGraph.Sweep.relax
  rw [hdeps]
  by_cases hid : id ∈ entry.2.dependsOn
  · rw [if_pos hid, if_pos hid]
    simp only [toSweep, DependencyGraph.Sweep.mk.injEq]
    refine ⟨funext fun b => ?_, rfl⟩
    rw [InsertionMap.get_set]
    by_cases hb : b = entry.1
    · rw [if_pos hb, if_pos hb.symm, Option.getD_some]
    · rw [if_neg hb, if_neg (Ne.symm hb)]
  · rw [if_neg hid, if_neg hid]

theorem LevelSweep.toSweep_visits (id : String) : ∀ (entries : List (String × DagNode)) (st : LevelSweep),
    (∀ e ∈ entries, e ∈ graph.entries) → (entries.foldl (visit id) st).toSweep =
      (entries.map Prod.fst).foldl (DependencyGraph.Sweep.relax graph.dependsOn id) st.toSweep := by
  intro entries
  induction entries with
  | nil => simp
  | cons e entries ih =>
    intro st hmem
    rw [List.foldl_cons, List.map_cons, List.foldl_cons, ih _ fun x hx => hmem x (List.mem_cons_of_mem _ hx),
      toSweep_visit (hmem e List.mem_cons_self)]

theorem LevelSweep.toSweep_level (ready : List String) : ∀ (st : LevelSweep),
    (ready.foldl (fun st id => graph.entries.foldl (visit id) st) st).toSweep =
      ready.foldl (DependencyGraph.Sweep.place graph.keys graph.dependsOn) st.toSweep := by
  induction ready with
  | nil => simp
  | cons id ready ih =>
    intro st
    rw [List.foldl_cons, List.foldl_cons, ih, toSweep_visits id graph.entries st fun _ h => h]
    rfl

theorem DagPlanner.levelLoop_eq : ∀ (fuel : Nat) (inDegree : InsertionMap String Int) (ready : List String),
    levelLoop graph fuel inDegree ready =
      DependencyGraph.levelsFrom graph.keys graph.dependsOn fuel (fun id => (inDegree.get id).getD 0) ready := by
  intro fuel
  induction fuel with
  | zero => intro _ _; rfl
  | succ fuel ih =>
    intro inDegree ready
    have hlevel := @LevelSweep.toSweep_level graph ready ⟨inDegree, []⟩
    unfold levelLoop DependencyGraph.levelsFrom
    by_cases hready : ready = []
    · rw [if_pos hready, if_pos hready]
    · rw [if_neg hready, if_neg hready]
      dsimp only
      rw [ih]
      have hdegree := congrArg DependencyGraph.Sweep.degree hlevel
      have hnext := congrArg DependencyGraph.Sweep.next hlevel
      simp only [LevelSweep.toSweep] at hdegree hnext
      rw [hdegree, hnext]

/-- Every node is stored under its own id. -/
def DagGraph.Keyed (graph : DagGraph) : Prop := ∀ e ∈ graph.entries, e.2.taskId = e.1

theorem DagPlanner.initialInDegree_get (hk : graph.Keyed) {id : String} (hid : id ∈ graph.keys) :
    (initialInDegree graph).get id = some ((graph.dependsOn id).length : Int) := by
  have hfold : ∀ (entries : List (String × DagNode)) (m : InsertionMap String Int),
      (entries.map Prod.fst).Nodup → (∀ e ∈ entries, e ∈ graph.entries) → id ∈ entries.map Prod.fst →
      ((entries.map Prod.snd).foldl (fun m node => m.set node.taskId (node.dependsOn.length : Int)) m).get id =
        some ((graph.dependsOn id).length : Int) := by
    intro entries
    induction entries with
    | nil => simp
    | cons e entries ih =>
      intro m hn hmem hin
      rw [List.map_cons, List.nodup_cons] at hn
      rw [List.map_cons, List.foldl_cons]
      by_cases hrest : id ∈ entries.map Prod.fst
      · exact ih _ hn.2 (fun x hx => hmem x (List.mem_cons_of_mem _ hx)) hrest
      · have he : e.1 = id := by
          rw [List.map_cons, List.mem_cons] at hin
          exact (hin.resolve_right hrest).symm
        subst he
        -- the rest of the loop leaves this counter alone
        have hkeep : ∀ (fs : List (String × DagNode)) (m : InsertionMap String Int),
            (∀ x ∈ fs, x ∈ graph.entries) → e.1 ∉ fs.map Prod.fst →
            ((fs.map Prod.snd).foldl (fun m node => m.set node.taskId (node.dependsOn.length : Int)) m).get e.1 =
              m.get e.1 := by
          intro fs
          induction fs with
          | nil => simp
          | cons f fs ih =>
            intro m hfs hnot
            rw [List.map_cons, List.mem_cons, not_or] at hnot
            rw [List.map_cons, List.foldl_cons, ih _ (fun x hx => hfs x (List.mem_cons_of_mem _ hx)) hnot.2,
              InsertionMap.get_set_ne _ _ (hk f (hfs f List.mem_cons_self) ▸ Ne.symm hnot.1)]
        rw [hkeep entries _ (fun x hx => hmem x (List.mem_cons_of_mem _ hx)) hrest,
          hk e (hmem e List.mem_cons_self), InsertionMap.get_set_self,
          DagGraph.dependsOn_of_get (InsertionMap.get_eq_some.2 (hmem e List.mem_cons_self))]
  exact hfold graph.entries _ graph.nodup (fun _ h => h) hid

/-- What `topologicalLevels` computes; the loop ends before the fuel does. -/
theorem DagPlanner.topologicalLevels_spec (hk : graph.Keyed) :
    ∃ levels, topologicalLevels graph = some levels ∧ LevelSpec graph.keys graph.dependsOn [] levels := by
  unfold topologicalLevels
  dsimp only
  rw [levelLoop_eq]
  refine DependencyGraph.levelsFrom_spec graph.nodup _ [] _ _ ?_ (by simp) (fun b hb => ?_) (fun b => ?_) ?_
  · rw [List.nil_append]
    exact graph.nodup.filter _
  · simp [initialInDegree_get hk hb, DependencyGraph.placedDeps]
  · rw [List.mem_filter]
    refine and_congr_right fun hb => ?_
    simp [initialInDegree_get hk hb, DependencyGraph.Full, DependencyGraph.placedDeps, eq_comm]
  · simp

/-! ## The recursion of `longestFrom` ends -/

theorem foldlM_isSome {α β : Type} {f : β → α → Option β} : ∀ {l : List α} (b : β),
    (∀ b, ∀ a ∈ l, (f b a).isSome) → (l.foldlM f b).isSome
  | [], _, _ => rfl
  | a :: l, b, h => by
    obtain ⟨r, hr⟩ := Option.isSome_iff_exists.1 (h b a List.mem_cons_self)
    rw [List.foldlM_cons, hr]
    exact foldlM_isSome r fun b x hx => h b x (List.mem_cons_of_mem _ hx)

/-- `longestFrom` answers with one unit of fuel more than there are tasks at or below `id`. -/
theorem DagPlanner.longestFrom_answers {finished : List String} (ho : FinishOrder graph.dependsOn finished) :
    ∀ (fuel : Nat) (id : String) (memo : PathMemo), id ∈ finished →
      finished.countP graph.has < fuel → (longestFrom graph fuel id memo).isSome := by
  induction ho with
  | nil => simp
  | @cons a finished _ hdeps ho ih =>
    intro fuel id memo hid hfuel
    obtain ⟨fuel, rfl⟩ : ∃ f, fuel = f + 1 := ⟨fuel - 1, by omega⟩
    rcases List.mem_cons.1 hid with rfl | hid
    · unfold longestFrom
      cases hm : memo.get id with
      | some cached => rfl
      | none =>
        cases hg : graph.get id with
        | none => rfl
        | some node =>
          have hhas : graph.has id = true := by simp [InsertionMap.has, hg]
          rw [List.countP_cons_of_pos hhas] at hfuel
          rw [DagGraph.dependsOn_of_get hg] at hdeps
          obtain ⟨r, hr⟩ := Option.isSome_iff_exists.1 (foldlM_isSome (l := node.dependsOn)
            (f := fun (acc : LongestPath × PathMemo) dep => do
              let (child, memo) ← longestFrom graph fuel dep acc.2
              some (acc.1.better child, memo)) (LongestPath.empty, memo) fun acc b hb => by
            obtain ⟨r, hr⟩ := Option.isSome_iff_exists.1 (ih fuel b acc.2 (hdeps b hb) (by omega))
            rw [hr]
            rfl)
          dsimp only
          rw [hr]
          rfl
    · refine ih (fuel + 1) id memo hid (Nat.lt_of_le_of_lt ?_ hfuel)
      exact (List.sublist_cons_self a finished).countP_le

theorem DagPlanner.criticalPath_answers {finished : List String} (ho : FinishOrder graph.dependsOn finished)
    (hk : ∀ id ∈ graph.keys, id ∈ finished) : (criticalPath graph).isSome := by
  have hcount : finished.countP graph.has ≤ graph.entries.length := by
    have hsub : (finished.filter graph.has).Subperm graph.keys := by
      refine (ho.nodup.filter _).subperm fun id hid => ?_
      obtain ⟨node, hnode⟩ := Option.isSome_iff_exists.1 (List.mem_filter.1 hid).2
      exact List.mem_map_of_mem (f := Prod.fst) (InsertionMap.get_eq_some.1 hnode)
    rw [List.countP_eq_length_filter]
    simpa [InsertionMap.keys] using hsub.length_le
  obtain ⟨r, hr⟩ := Option.isSome_iff_exists.1 (foldlM_isSome (l := graph.keys)
    (f := fun (acc : LongestPath × PathMemo) id => do
      let (result, memo) ← longestFrom graph (graph.entries.length + 1) id acc.2
      some (acc.1.better result, memo)) (LongestPath.empty, .empty) fun acc id hid => by
    obtain ⟨r, hr⟩ := Option.isSome_iff_exists.1
      (longestFrom_answers ho (graph.entries.length + 1) id acc.2 (hk id hid) (by omega))
    rw [hr]
    rfl)
  unfold criticalPath
  rw [hr]
  rfl

end

/-! ## Accepted task lists -/

section
variable {tasks : List TaskDefinition}

theorem DagPlanner.nodes_keyed : (nodes tasks).Keyed := by
  intro ⟨id, node⟩ he
  obtain ⟨t, _, ht⟩ := List.mem_map.1 (InsertionMap.mem_of_get_ofList (InsertionMap.get_eq_some.2 he))
  cases ht
  rfl

/-- The loop of `buildGraph` stores one node for each task when the ids differ. -/
theorem DagPlanner.nodes_entries (hn : (tasks.map (·.id)).Nodup) :
    (nodes tasks).entries = tasks.map fun t => (t.id, ⟨t.id, t.dependencies, t.timeoutMs⟩) := by
  refine InsertionMap.entries_ofList ?_
  rw [List.map_map]
  exact hn

theorem DagPlanner.nodes_keys (hn : (tasks.map (·.id)).Nodup) : (nodes tasks).keys = tasks.map (·.id) := by
  rw [InsertionMap.keys, nodes_entries hn, List.map_map]
  rfl

/-- The graph and the validator look at the same dependencies. -/
theorem DagPlanner.nodes_dependsOn (tasks : List TaskDefinition) :
    (nodes tasks).dependsOn = dependenciesById tasks := by
  funext id
  rw [DagGraph.dependsOn, dependenciesById, nodes,
    InsertionMap.get_ofList_map (·.id) fun t : TaskDefinition => (⟨t.id, t.dependencies, t.timeoutMs⟩ : DagNode),
    InsertionMap.get_ofList_map (·.id) fun t : TaskDefinition => t, Option.map_map, Option.map_map]
  rfl

/-- What the validator has checked of a task list. -/
structure CheckedTasks (tasks : List TaskDefinition) : Prop where
  nodup : (tasks.map (·.id)).Nodup
  known : ∀ t ∈ tasks, ∀ dep ∈ t.dependencies, dep ∈ tasks.map (·.id)
  order : JobDefinitionValidator.validateDependencyOrder tasks = .ok ()

theorem checkedTasks {definition : JobDefinition} (hvalid : JobDefinitionValidator.validate definition = .ok ())
    (horder : JobDefinitionValidator.validateDependencyOrder definition.tasks = .ok ()) :
    CheckedTasks definition.tasks := by
  obtain ⟨hfront, _⟩ := List.append_eq_nil_iff.1 (JobDefinitionValidator.validate_ok hvalid)
  obtain ⟨heach, hn⟩ := JobDefinitionValidator.taskErrors_eq_nil (List.append_eq_nil_iff.1 hfront).2
  exact ⟨hn, fun t ht => JobDefinitionValidator.validateTask_known (heach t ht).2, horder⟩

/-- No task of the graph depends on itself, directly or through others. -/
def DagPlanner.Acyclic (tasks : List TaskDefinition) : Prop :=
  ∀ id, ¬ Relation.TransGen (fun x y => y ∈ (nodes tasks).dependsOn x) id id

theorem DagPlanner.mem_keys_of_dependsOn {id : String} (h : (nodes tasks).dependsOn id ≠ []) :
    id ∈ (nodes tasks).keys := by
  unfold DagGraph.dependsOn at h
  cases hg : (nodes tasks).get id with
  | none => simp [hg] at h
  | some node => exact List.mem_map_of_mem (f := Prod.fst) (InsertionMap.get_eq_some.1 hg)

/-- The planner's own search for cycles gets through an acyclic graph. -/
theorem DagPlanner.buildGraph_ok (h : Acyclic tasks) : buildGraph tasks = .ok (nodes tasks) ∧
    ∃ finished, FinishOrder (nodes tasks).dependsOn finished ∧ ∀ id ∈ (nodes tasks).keys, id ∈ finished := by
  unfold buildGraph assertAcyclic
  have hfuel : DependencyGraph.visitAll (nodes tasks).dependsOn ((nodes tasks).entries.length + 1)
      (nodes tasks).keys ≠ .error .outOfFuel := by
    refine DependencyGraph.visitAll_enough_fuel (nodes tasks).nodup (fun _ => mem_keys_of_dependsOn) ?_ _
    simp
  cases hv : DependencyGraph.visitAll (nodes tasks).dependsOn ((nodes tasks).entries.length + 1)
      (nodes tasks).keys with
  | ok marks => exact ⟨rfl, marks.visited, DependencyGraph.visitAll_finishOrder hv⟩
  | error stop =>
    cases stop with
    | cycle id => exact absurd (DependencyGraph.visitAll_cycle hv) (h id)
    | outOfFuel => exact absurd hv hfuel

/-- `plan` returns for an acyclic list, and its levels count dependencies as the library's do. -/
theorem DagPlanner.plan_acyclic (h : Acyclic tasks) : ∃ plan, DagPlanner.plan tasks = .ok plan ∧
    LevelSpec (nodes tasks).keys (nodes tasks).dependsOn [] plan.levels := by
  obtain ⟨hgraph, finished, ho, hfinished⟩ := buildGraph_ok h
  obtain ⟨levels, hlevels, hspec⟩ := topologicalLevels_spec (@nodes_keyed tasks)
  obtain ⟨path, hpath⟩ := Option.isSome_iff_exists.1 (criticalPath_answers ho hfinished)
  unfold plan
  rw [hgraph]
  dsimp only [bind, Except.bind]
  rw [hlevels, hpath]
  exact ⟨_, rfl, hspec⟩

/-- The levels have ids of tasks only. -/
theorem DagPlanner.planned_ids {plan : DagPlan}
    (hspec : LevelSpec (nodes tasks).keys (nodes tasks).dependsOn [] plan.levels) :
    ∀ id ∈ plan.levels.flatten, id ∈ tasks.map (·.id) := by
  intro id hid
  obtain ⟨⟨id', node⟩, he, rfl⟩ := List.mem_map.1 (hspec.of_mem hid).1
  obtain ⟨t, ht, heq⟩ := List.mem_map.1 (InsertionMap.mem_of_get_ofList (InsertionMap.get_eq_some.2 he))
  cases heq
  exact List.mem_map_of_mem (f := (·.id)) ht

/-- The validator's search for cycles looks at the same graph. -/
theorem CheckedTasks.acyclic (h : CheckedTasks tasks) : DagPlanner.Acyclic tasks := by
  obtain ⟨finished, ho, hfinished⟩ := JobDefinitionValidator.validateDependencyOrder_ok h.order
  rw [← DagPlanner.nodes_dependsOn tasks] at ho
  intro id hcycle
  obtain ⟨dep, hdep, _⟩ := Relation.TransGen.head'_iff.1 hcycle
  have hkey := DagPlanner.mem_keys_of_dependsOn (List.ne_nil_of_mem hdep)
  rw [DagPlanner.nodes_keys h.nodup] at hkey
  obtain ⟨t, ht, rfl⟩ := List.mem_map.1 hkey
  exact ho.acyclic t.id (hfinished t ht) hcycle

theorem DagPlanner.plan_spec (h : CheckedTasks tasks) : ∃ plan, DagPlanner.plan tasks = .ok plan ∧
    LevelSpec (tasks.map (·.id)) (dependenciesById tasks) [] plan.levels := by
  rw [← nodes_keys h.nodup, ← nodes_dependsOn tasks]
  exact plan_acyclic h.acyclic

end

/-! ## When the levels cover the job -/

/-- The levels are a partition of the task ids, and the number of a task's level is zero without dependencies, else
one more than the largest number of theirs. -/
structure DagPlan.Covers (plan : DagPlan) (tasks : List TaskDefinition) : Prop where
  partition : plan.levels.flatten.Perm (tasks.map (·.id))
  nonempty : ∀ level ∈ plan.levels, level ≠ []
  number : ∀ t ∈ tasks, levelNumber plan.levels t.id =
    ((t.dependencies.map (levelNumber plan.levels)).max?.map (· + 1)).getD 0

theorem max_levelNumber {levels : List (List String)} {t : TaskDefinition} {deps : String → List String}
    {nodes : List String} (h : LevelSpec nodes deps [] levels) (ht : t.id ∈ levels.flatten)
    (hdeps : deps t.id = t.dependencies) :
    levelNumber levels t.id = ((t.dependencies.map (levelNumber levels)).max?.map (· + 1)).getD 0 := by
  obtain ⟨hzero, hsucc⟩ := h.number ht
  rw [hdeps] at hzero hsucc
  by_cases hnil : t.dependencies = []
  · rw [hzero hnil, hnil]
    rfl
  · obtain ⟨b, hb, hnum, hmax⟩ := hsucc hnil
    have hm : (t.dependencies.map (levelNumber levels)).max? = some (levelNumber levels b) := by
      refine List.max?_eq_some_iff.2 ⟨List.mem_map_of_mem hb, fun n hn => ?_⟩
      obtain ⟨c, hc, rfl⟩ := List.mem_map.1 hn
      exact hmax c hc
    rw [hm, hnum]
    rfl

/-- The levels of an accepted task list cover it exactly when no task names a dependency twice. -/
theorem planned_levels_iff {definition : JobDefinition}
    (hvalid : JobDefinitionValidator.validate definition = .ok ())
    (horder : JobDefinitionValidator.validateDependencyOrder definition.tasks = .ok ()) :
    (∃ plan, DagPlanner.plan definition.tasks = .ok plan ∧ plan.Covers definition.tasks) ↔
      ∀ t ∈ definition.tasks, t.dependencies.Nodup := by
  have hchecked := checkedTasks hvalid horder
  obtain ⟨plan, hplan, hspec⟩ := DagPlanner.plan_spec hchecked
  have hdeps : ∀ t ∈ definition.tasks, dependenciesById definition.tasks t.id = t.dependencies :=
    fun t ht => dependenciesById_of_mem hchecked.nodup ht
  constructor
  · rintro ⟨plan', hplan', hcovers⟩ t ht
    rw [hplan, Except.ok.injEq] at hplan'
    subst hplan'
    have hmem : t.id ∈ plan.levels.flatten :=
      hcovers.partition.mem_iff.2 (List.mem_map_of_mem (f := (·.id)) ht)
    have := (hspec.of_mem hmem).2.1
    rwa [hdeps t ht] at this
  · intro hdup
    obtain ⟨finished, ho, hfinished⟩ := JobDefinitionValidator.validateDependencyOrder_ok horder
    have hall : ∀ t ∈ definition.tasks, t.id ∈ plan.levels.flatten := by
      intro t ht
      refine hspec.covers ho (fun id hid => ?_) t.id (hfinished t ht) (List.mem_map_of_mem (f := (·.id)) ht)
      obtain ⟨u, hu, rfl⟩ := List.mem_map.1 hid
      rw [hdeps u hu]
      exact ⟨hdup u hu, hchecked.known u hu⟩
    refine ⟨plan, hplan, ?_, hspec.ne_nil, fun t ht => max_levelNumber hspec (hall t ht) (hdeps t ht)⟩
    have hnodup := hspec.nodup List.nodup_nil
    rw [List.nil_append] at hnodup
    refine (List.perm_ext_iff_of_nodup hnodup hchecked.nodup).2 fun id => ⟨fun hid => (hspec.of_mem hid).1, ?_⟩
    intro hid
    obtain ⟨t, ht, rfl⟩ := List.mem_map.1 hid
    exact hall t ht

/-- `report` names `extract` twice; the validator accepts the list. -/
def sampleRepeated (deps : List String) : JobDefinition where
  id := "job_1"
  name := "job"
  version := 1
  tasks := [⟨"extract", "extract", "reconcile.extract", .finite 1000, none, none⟩,
    ⟨"report", "report", "report.aggregate", .finite 1000, none, some deps⟩]
  constraints := []
  retryPolicy := DEFAULT_RETRY_POLICY
  createdAt := "2024-01-01"
  updatedAt := "2024-01-01"

theorem planned_levels_iff_sample :
    (∃ plan, DagPlanner.plan (sampleRepeated ["extract"]).tasks = .ok plan ∧
      plan.Covers (sampleRepeated ["extract"]).tasks) ↔
      ∀ t ∈ (sampleRepeated ["extract"]).tasks, t.dependencies.Nodup :=
  planned_levels_iff (by decide) (by decide)

/-- The counter of `report` stops at one, and `report` is in no level. -/
theorem repeated_dependency_vanishes :
    JobDefinitionValidator.validate (sampleRepeated ["extract", "extract"]) = .ok () ∧
      JobDefinitionValidator.validateDependencyOrder (sampleRepeated ["extract", "extract"]).tasks = .ok () ∧
      (DagPlanner.plan (sampleRepeated ["extract", "extract"]).tasks).map DagPlan.levels = .ok [["extract"]] ∧
      ¬ ∃ plan, DagPlanner.plan (sampleRepeated ["extract", "extract"]).tasks = .ok plan ∧
        plan.Covers (sampleRepeated ["extract", "extract"]).tasks := by
  have hlevels : (DagPlanner.plan (sampleRepeated ["extract", "extract"]).tasks).map DagPlan.levels =
      .ok [["extract"]] := by decide
  refine ⟨by decide, by decide, hlevels, ?_⟩
  rintro ⟨plan, hplan, hcovers⟩
  rw [hplan, Except.map, Except.ok.injEq] at hlevels
  have hperm := hcovers.partition
  rw [hlevels] at hperm
  exact absurd hperm.length_eq (by decide)

end Jobflow
