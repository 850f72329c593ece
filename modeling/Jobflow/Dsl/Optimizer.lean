import Mathlib.Algebra.Ring.Int.Defs
import Jobflow.CycleCheck
import Jobflow.Lib.PostOrder
import Jobflow.Dsl.FrontEnd

/-!
# Workflow DSL: the optimizer and the compiler (src/dsl/optimizer.ts, src/dsl/compiler.ts)

The optimizer puts the tasks in dependency order and then sorts them by depth. It finds a task through a map keyed by
id, in which a later task of the same id has replaced an earlier one; `optimize_lossless_iff` says that repeated ids are
all that gets lost.
-/

namespace Jobflow.Dsl

open Js (Number)

/-! ## `WorkflowDslOptimizer` -/

/-- `sortTasksTopologically` (optimizer.ts:10-27). -/
def sortTasksTopologically (tasks : List TaskDslNode) : Option (List TaskDslNode) :=
  let byId := InsertionMap.ofList (tasks.map fun t => (t.id, t))
  (PostOrder.visitAll byId.get TaskDslNode.dependsOn (tasks.length + 1) (tasks.map (·.id))).map (·.out)

/-- The map that the loop of `mergeParallelTasks` fills (optimizer.ts:30-34). -/
def depths (tasks : List TaskDslNode) : InsertionMap String Nat :=
  tasks.foldl (fun depth t =>
    let depDepth := t.dependsOn.foldl (fun m d => max m ((depth.get d).getD 0)) 0
    depth.set t.id (depDepth + 1)) .empty

/-- `mergeParallelTasks` (optimizer.ts:29-36); the sort is stable. -/
def mergeParallelTasks (tasks : List TaskDslNode) : List TaskDslNode :=
  let depth := depths tasks
  tasks.mergeSort fun a b => (depth.get a.id).getD 0 ≤ (depth.get b.id).getD 0

/-- `optimize` (optimizer.ts:4-8). -/
def optimize (w : WorkflowDslNode) : Option WorkflowDslNode := do
  let tasks ← sortTasksTopologically w.tasks
  some { w with tasks := mergeParallelTasks tasks }

/-! ## `WorkflowDslCompiler` -/

/-- The version of the syntax tree as a field of a job. The parser reads digits, so it is whole, or infinite from 2^1024
on; both that and its sign are kept. -/
def wholeNumber : Number → Int
  | .finite q => q.ceil
  | .negZero => 0
  | .infinity negative => if negative then -2 ^ 1024 else 2 ^ 1024
  | .nan => 2 ^ 1024

/-- `name.replace(/\s+/g, "_")`; `inside` says that the last character was white space. -/
def underscored : Bool → List Char → List Char
  | _, [] => []
  | inside, c :: cs =>
    if Number.isSpace c then (if inside then [] else ['_']) ++ underscored true cs else c :: underscored false cs

/-- The fields of a task of the compiled job (compiler.ts:30-37). -/
def toTaskDefinition (t : TaskDslNode) : TaskDefinition where
  id := t.id
  name := t.id
  handler := t.handler
  timeoutMs := t.timeoutMs
  optional := some t.optional
  dependsOn := if t.dependsOn = [] then none else some t.dependsOn

/-- `toJobDefinition` (compiler.ts:23-53). -/
def toJobDefinition (ast : WorkflowDslNode) (jobId : Option String) (now : ISODateString) : JobDefinition where
  id := jobId.getD (String.ofList (underscored false ast.name.toList)).toLower
  name := ast.name
  version := wholeNumber ast.version
  tasks := ast.tasks.map toTaskDefinition
  constraints := ast.constraints.map fun c => ⟨c.id, c.expr, c.severity⟩
  retryPolicy := DEFAULT_RETRY_POLICY
  createdAt := now
  updatedAt := now

/-- `compile` (compiler.ts:12-16). -/
def compile (fuel : Nat) (source : String) (jobId : Option String) (now : ISODateString) :
    Except Halt JobDefinition := do
  let ast ← parse fuel source
  match optimize ast with
  | some optimized => .ok (toJobDefinition optimized jobId now)
  | none => .error .outOfFuel

/-! ## What the optimizer keeps -/

/-- The optimizer puts out one task of each id. -/
theorem optimize_ok (w : WorkflowDslNode) :
    ∃ tasks, optimize w = some { w with tasks } ∧ (tasks.map (·.id)).Nodup ∧
      (∀ t ∈ tasks, t ∈ w.tasks) ∧ ((w.tasks.map (·.id)).Nodup → tasks.Perm w.tasks) := by
  let byId := InsertionMap.ofList (w.tasks.map fun t => (t.id, t))
  have hget : ∀ {id t}, byId.get id = some t → t ∈ w.tasks ∧ t.id = id := by
    intro id t h
    obtain ⟨u, hu, heq⟩ := List.mem_map.1 (InsertionMap.mem_of_get_ofList h)
    cases heq
    exact ⟨hu, rfl⟩
  have hkeys : ((w.tasks.map (·.id)).dedup).length < w.tasks.length + 1 := by
    have := (List.dedup_sublist (w.tasks.map (·.id))).length_le
    rw [List.length_map] at this
    omega
  have hsearch : ∃ s, PostOrder.visitAll byId.get TaskDslNode.dependsOn (w.tasks.length + 1) (w.tasks.map (·.id)) =
      some s ∧ (s.out.map (·.id)).Nodup ∧ (∀ t ∈ s.out, byId.get t.id = some t) ∧
      ∀ id ∈ w.tasks.map (·.id), ∀ t, byId.get id = some t → t ∈ s.out :=
    PostOrder.visitAll_ok (List.nodup_dedup _)
      (fun h => ⟨List.mem_dedup.2 (List.mem_map.2 ⟨_, hget h⟩), (hget h).2⟩) hkeys _
  obtain ⟨s, hs, hnodup, hlisted, hreached⟩ := hsearch
  have hperm : (mergeParallelTasks s.out).Perm s.out := List.mergeSort_perm _ _
  refine ⟨mergeParallelTasks s.out, ?_, ?_, ?_, ?_⟩
  · have hsort : sortTasksTopologically w.tasks = some s.out := by
      simp only [sortTasksTopologically]
      rw [hs]
      rfl
    rw [optimize, hsort]
    rfl
  · exact (hperm.map _).nodup_iff.2 hnodup
  · intro t ht
    exact (hget (hlisted t (hperm.mem_iff.1 ht))).1
  · intro hn
    refine hperm.trans ?_
    rw [List.perm_ext_iff_of_nodup (hnodup.of_map _) (hn.of_map _)]
    intro t
    constructor
    · intro ht
      exact (hget (hlisted t ht)).1
    · intro ht
      refine hreached t.id (List.mem_map_of_mem ht) t ?_
      refine InsertionMap.get_ofList_of_mem ?_ (List.mem_map.2 ⟨t, ht, rfl⟩)
      rw [List.map_map]
      exact hn

/-- The compiler has a job for every source the parser accepts: the optimizer always comes to an end. -/
theorem compile_of_parse {fuel : Nat} {source : String} {w : WorkflowDslNode} (h : parse fuel source = .ok w)
    (jobId : Option String) (now : ISODateString) :
    ∃ out, optimize w = some out ∧ compile fuel source jobId now = .ok (toJobDefinition out jobId now) := by
  obtain ⟨tasks, hout, -⟩ := optimize_ok w
  exact ⟨_, hout, by simp [compile, h, hout]⟩

/-! ## What the validator still reports -/

theorem validateTask_congr {task : TaskDefinition} {ids ids' : List String} (h : ∀ id, id ∈ ids ↔ id ∈ ids') :
    JobDefinitionValidator.validateTask task ids = JobDefinitionValidator.validateTask task ids' := by
  simp only [JobDefinitionValidator.validateTask, h]

/-- Without repeated ids each task is checked. -/
theorem taskErrors_of_nodup {ids : List String} : ∀ {seen : List String} {tasks : List TaskDefinition},
    (tasks.map (·.id)).Nodup → (∀ t ∈ tasks, t.id ∉ seen) →
      JobDefinitionValidator.taskErrors ids seen tasks =
        tasks.flatMap fun t => JobDefinitionValidator.validateTask t ids
  | _, [], _, _ => rfl
  | seen, t :: tasks, hn, hseen => by
    rw [List.map_cons, List.nodup_cons] at hn
    rw [JobDefinitionValidator.taskErrors, if_neg (hseen t List.mem_cons_self), List.flatMap_cons]
    refine congrArg _ (taskErrors_of_nodup hn.2 fun u hu => ?_)
    rw [List.mem_cons, not_or]
    refine ⟨fun he => hn.1 (he ▸ List.mem_map_of_mem hu), hseen u (List.mem_cons_of_mem _ hu)⟩

/-- The errors of a definition are those of one with the same tasks in another order. -/
theorem errors_of_perm {d d' : JobDefinition} (hperm : d.tasks.Perm d'.tasks) (hn : (d.tasks.map (·.id)).Nodup)
    (hpolicy : d.retryPolicy = d'.retryPolicy) {e : String} (he : e ∈ JobDefinitionValidator.errors d) :
    e ∈ JobDefinitionValidator.errors d' := by
  have hn' : (d'.tasks.map (·.id)).Nodup := (hperm.map _).nodup_iff.1 hn
  have hempty : d.tasks = [] ↔ d'.tasks = [] := by
    rw [← List.length_eq_zero_iff, hperm.length_eq, List.length_eq_zero_iff]
  have hfresh : ∀ tasks : List TaskDefinition, ∀ t ∈ tasks, t.id ∉ ([] : List String) := by simp
  simp only [JobDefinitionValidator.errors, taskErrors_of_nodup hn (hfresh _), taskErrors_of_nodup hn' (hfresh _),
    List.mem_append, List.mem_flatMap, hpolicy, hempty] at he ⊢
  refine he.imp_left (Or.imp_right ?_)
  rintro ⟨t, ht, he⟩
  refine ⟨t, hperm.mem_iff.1 ht, ?_⟩
  rwa [validateTask_congr fun id => (hperm.map (·.id)).mem_iff.symm]

/-- So is a circle among its tasks. -/
theorem circular_of_perm {tasks tasks' : List TaskDefinition} (hperm : tasks.Perm tasks')
    (hn : (tasks.map (·.id)).Nodup) (h : Circular (LastOfId tasks)) : Circular (LastOfId tasks') := by
  have hsame : LastOfId tasks = LastOfId tasks' := by
    funext t
    rw [lastOfId_iff_mem hn, lastOfId_iff_mem ((hperm.map _).nodup_iff.1 hn), hperm.mem_iff]
  rwa [← hsame]

/-- The optimizer puts out the same tasks in some order, and every defect that the validator reports of the job in its
source order is still reported of the compiled one. -/
def Lossless (w : WorkflowDslNode) : Prop :=
  ∃ out, optimize w = some out ∧ out = { w with tasks := out.tasks } ∧ out.tasks.Perm w.tasks ∧
    ∀ jobId now,
      (∀ e ∈ JobDefinitionValidator.errors (toJobDefinition w jobId now),
        e ∈ JobDefinitionValidator.errors (toJobDefinition out jobId now)) ∧
      ((∃ e, JobDefinitionValidator.validateDependencyOrder (toJobDefinition w jobId now).tasks = .error e) →
        ∃ e, JobDefinitionValidator.validateDependencyOrder (toJobDefinition out jobId now).tasks = .error e)

theorem nodup_of_lossless {w : WorkflowDslNode} (h : Lossless w) : (w.tasks.map (·.id)).Nodup := by
  obtain ⟨out, hout, -, hperm, -⟩ := h
  obtain ⟨tasks, htasks, hnodup, -⟩ := optimize_ok w
  rw [htasks] at hout
  cases hout
  exact (hperm.map _).nodup_iff.1 hnodup

/-- Nothing gets lost on the way from a syntax tree to the optimized one if and only if no two tasks have one id. -/
theorem optimize_lossless_iff (w : WorkflowDslNode) : Lossless w ↔ (w.tasks.map (·.id)).Nodup := by
  constructor
  · exact nodup_of_lossless
  · intro hn
    obtain ⟨tasks, hout, -, -, hperm⟩ := optimize_ok w
    have hperm := hperm hn
    refine ⟨_, hout, rfl, hperm, fun jobId now => ?_⟩
    have hcompiled : (w.tasks.map toTaskDefinition).Perm (tasks.map toTaskDefinition) := (hperm.map _).symm
    have hids : ((w.tasks.map toTaskDefinition).map (·.id)).Nodup := by
      rw [List.map_map]
      exact hn
    constructor
    · intro e he
      refine errors_of_perm ?_ ?_ ?_ he
      · exact hcompiled
      · exact hids
      · rfl
    · intro he
      rw [JobDefinitionValidator.throws_iff_circular] at he ⊢
      exact circular_of_perm hcompiled hids he

/-- A source in which two tasks have one id. -/
def twice : String :=
  "workflow w: \x7b version: 1 task a: \x7b handler: \"h\" \x7d task a: \x7b handler: \"g\" \x7d \x7d"

/-- The tokens of `task a: { handler: "…" }`, with a literal of one character, from the column `c` on. -/
def taskTokens (handler : String) (c : Nat) : List DslToken :=
  [⟨.keyword, "task", ⟨1, c⟩⟩, ⟨.ident, "a", ⟨1, c + 5⟩⟩, ⟨.colon, ":", ⟨1, c + 6⟩⟩, ⟨.lbrace, "\x7b", ⟨1, c + 8⟩⟩] ++
    (([⟨.keyword, "handler", ⟨1, c + 10⟩⟩, ⟨.colon, ":", ⟨1, c + 17⟩⟩, ⟨.string, handler, ⟨1, c + 19⟩⟩] ++ []) ++
      [⟨.rbrace, "\x7d", ⟨1, c + 23⟩⟩])

theorem taskTokens_decl {handler : String} (h : handler ≠ "") (c : Nat) :
    TaskDecl ⟨"a", handler, .finite 30000, [], false⟩ (taskTokens handler c) :=
  .intro (f := { handler }) (.intro ⟨rfl, rfl⟩ rfl rfl rfl rfl)
    (.cons (.handler (.intro ⟨rfl, rfl⟩ rfl rfl)) (.nil _)) rfl h

/-- It is accepted, and one of the tasks gets lost; the compiled job has no repeated id to report. -/
theorem twice_loses_task : ∃ fuel w, parse fuel twice = .ok w ∧ ¬ Lossless w := by
  let decls : List DslToken := taskTokens "h" 26 ++ (taskTokens "g" 51 ++ [])
  have hlex : Lexes twice (((headerTokens ++ decls) ++ [⟨.rbrace, "\x7d", ⟨1, 76⟩⟩]) ++ [⟨.eof, "", ⟨1, 77⟩⟩]) :=
    ⟨25, by decide +kernel⟩
  have hdecls : TokenLoop.Seq Declaration {} ⟨[⟨"a", "h", .finite 30000, [], false⟩,
      ⟨"a", "g", .finite 30000, [], false⟩], []⟩ decls :=
    .cons (.task (taskTokens_decl (by decide) _)) (.cons (.task (taskTokens_decl (by decide) _)) (.nil _))
  have hw : WorkflowDecl _ ((headerTokens ++ decls) ++ [⟨.rbrace, "\x7d", ⟨1, 76⟩⟩]) :=
    .intro (headerTokens_open.append hdecls) rfl
  obtain ⟨fuel, hlength, hparse⟩ := parse_of_lexes hlex
  rw [parseTokens_complete hw _ (by rw [List.length_append] at hlength; omega)] at hparse
  refine ⟨fuel, _, hparse, fun hlossless => ?_⟩
  have hnodup := nodup_of_lossless hlossless
  simp at hnodup

end Jobflow.Dsl
