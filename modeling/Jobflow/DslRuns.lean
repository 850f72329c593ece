import Jobflow.Compensation
import Jobflow.SequentialRun
import Jobflow.Dsl.TaskOrder

/-!
# Running a workflow written in the DSL (src/services/dsl-service.ts)

`compileAndRegister` hands the compiled job to `JobService.register`. The optimizer has put its tasks in dependency
order, so the scheduler goes through them as they stand: what the handlers see of a run is the text of the workflow, its
tasks sorted by depth, read as a sequential program (`dsl_run_follows_source`).
-/

namespace Jobflow

/-! ## A list of tasks as a program -/

/-- The calls that tasks take one after the other, up to the first that uses up its attempts. -/
def World.inOrder (world : World) (policy : RetryPolicy) (w₀ : WorkflowInstance) : List TaskDefinition → List TaskCall
  | [] => []
  | c :: cs =>
    (world.attempts w₀ c (allowedAttempts policy) 1).map (w₀.callOf c) ++
      if world.SucceedsWithin w₀ c (allowedAttempts policy) then inOrder world policy w₀ cs else []

section
variable {world : World} {d : JobDefinition} {w₀ : WorkflowInstance}

/-- Only the ids and the handlers of the tasks matter. -/
theorem World.inOrder_map (policy : RetryPolicy) (f : TaskDefinition → TaskDefinition) (hid : ∀ c, (f c).id = c.id)
    (hhandler : ∀ c, (f c).handler = c.handler) (cs : List TaskDefinition) :
    world.inOrder policy w₀ (cs.map f) = world.inOrder policy w₀ cs := by
  have hsucceeds : ∀ c a, world.Succeeds w₀ (f c) a ↔ world.Succeeds w₀ c a := fun c a => by
    rw [Succeeds, Succeeds, hid, hhandler]
  have hwithin : ∀ c n, world.SucceedsWithin w₀ (f c) n ↔ world.SucceedsWithin w₀ c n := fun c n => by
    simp only [SucceedsWithin, hsucceeds]
  have hattempts : ∀ c n a, world.attempts w₀ (f c) n a = world.attempts w₀ c n a := fun c n => by
    induction n with
    | zero => exact fun _ => rfl
    | succ n ih => simp [attempts, hsucceeds, ih]
  have hcall : ∀ c, w₀.callOf (f c) = w₀.callOf c := fun c => by
    funext a
    rw [WorkflowInstance.callOf, WorkflowInstance.callOf, hid, hhandler]
  induction cs with
  | nil => rfl
  | cons c cs ih => simp only [List.map_cons, inOrder, hattempts, hcall, hwithin, ih]

/-- When the tasks before it are done, the next task of a job declared in order is ready. -/
theorem JobDefinition.DeclaredInOrder.ready (h : d.DeclaredInOrder) (hn : (d.tasks.map (·.id)).Nodup)
    {before after : List TaskDefinition} {c : TaskDefinition} (hsplit : d.tasks = before ++ c :: after) :
    TaskScheduler.ready d.tasks (before.map (·.id)) = some c := by
  have hbefore : before.find? (fun t => t.id ∉ before.map (·.id) ∧ ∀ dep ∈ t.dependencies, dep ∈ before.map (·.id)) =
      none := by
    rw [List.find?_eq_none]
    intro t ht hx
    exact (of_decide_eq_true hx).1 (List.mem_map_of_mem ht)
  have hnew : c.id ∉ before.map (·.id) := by
    rw [hsplit, List.map_append, List.nodup_append] at hn
    exact fun hin => hn.2.2 c.id hin c.id (by simp) rfl
  unfold TaskScheduler.ready
  rw [hsplit, List.find?_append, hbefore, Option.none_or, List.find?_cons_of_pos]
  exact decide_eq_true ⟨hnew, h before c after hsplit⟩

/-- So the program of the job is its list of tasks. -/
theorem JobDefinition.DeclaredInOrder.sequentialRun (h : d.DeclaredInOrder) (hn : (d.tasks.map (·.id)).Nodup) :
    world.sequentialRun d w₀ d.tasks.length [] = world.inOrder d.retryPolicy w₀ d.tasks := by
  have hrest : ∀ before after : List TaskDefinition, d.tasks = before ++ after →
      world.sequentialRun d w₀ after.length (before.map (·.id)) = world.inOrder d.retryPolicy w₀ after := by
    intro before after hsplit
    induction after generalizing before with
    | nil => rfl
    | cons c after ih =>
      have hnext := ih (before ++ [c]) (by simpa using hsplit)
      rw [List.map_append, List.map_singleton] at hnext
      rw [List.length_cons, World.sequentialRun, h.ready hn hsplit, World.inOrder, ← hnext]
      rfl
  exact hrest [] d.tasks rfl

end

namespace Dsl

open PostOrder (Edge DepsFirst IsDepth)

/-! ## `DslService` -/

/-- zod's `int` refuses an infinite number. -/
def finiteVersion (d : JobDefinition) : Bool := d.version < 2 ^ 1024

/-- `compileAndRegister` (dsl-service.ts:8-11) up to `store.save`: the definition it saves, or what it throws. There is
none if the parser does not come to an end within the fuel. -/
def DslService.compileAndRegister (handlers : List HandlerManifestEntry) (fuel : Nat) (source : String)
    (jobId : Option String) (compiledAt now : ISODateString) : Option (Except JobflowError JobDefinition) :=
  match compile fuel source jobId compiledAt with
  | .error .outOfFuel => none
  | .error (.threw e) => some (.error (.exception e))
  | .ok d => some (if finiteVersion d then JobService.register handlers d.input now else .error .zodError)

/-! ## What `register` keeps of a compiled job -/

section
variable {world : World} {handlers : List HandlerManifestEntry} {fuel : Nat} {source : String} {jobId : Option String}
  {compiledAt now : ISODateString} {d : JobDefinition}

theorem register_ok {input : JobDefinitionInput} (h : JobService.register handlers input now = .ok d) :
    d.tasks = input.tasks.map (HandlerResolver.resolveTask handlers) ∧
      d.retryPolicy = input.retryPolicy.getD DEFAULT_RETRY_POLICY ∧ CheckedTasks d.tasks := by
  unfold JobService.register at h
  obtain ⟨parsed, hparsed, h⟩ := JobService.bind_ok h
  obtain ⟨_, _, h⟩ := JobService.bind_ok h
  obtain ⟨_, hvalid, h⟩ := JobService.bind_ok h
  obtain ⟨_, horder, h⟩ := JobService.bind_ok h
  cases h
  obtain rfl : parsed = input := by
    unfold parseJobDefinitionInput at hparsed
    split at hparsed
    · cases hparsed
      rfl
    · cases hparsed
  exact ⟨rfl, rfl, checkedTasks hvalid horder⟩

theorem toTaskDefinition_dependencies (t : TaskDslNode) : (toTaskDefinition t).dependencies = t.dependsOn := by
  unfold TaskDefinition.dependencies toTaskDefinition
  by_cases h : t.dependsOn = [] <;> simp [h]

/-- The fields of a task of the registered job that decide how it runs. -/
def registered (handlers : List HandlerManifestEntry) (t : TaskDslNode) : TaskDefinition :=
  HandlerResolver.resolveTask handlers (toTaskDefinition t)

theorem registered_id (t : TaskDslNode) : (registered handlers t).id = t.id := HandlerResolver.resolveTask_id _

theorem registered_dependencies (t : TaskDslNode) : (registered handlers t).dependencies = t.dependsOn :=
  (HandlerResolver.resolveTask_dependencies _).trans (toTaskDefinition_dependencies t)

/-- The tasks that come out of the optimizer, whatever their dependencies. -/
theorem optimize_mem (w : WorkflowDslNode) : ∃ tasks, optimize w = some { w with tasks } ∧
    (tasks.map (·.id)).Nodup ∧ ∀ t, t ∈ tasks ↔ lastDeclared w.tasks t.id = some t := by
  obtain ⟨out, hsort, hnodup, hout, -⟩ := sortTasksTopologically_ok w.tasks
  have hperm : (mergeParallelTasks out).Perm out := List.mergeSort_perm _ _
  refine ⟨mergeParallelTasks out, ?_, (hperm.map _).nodup_iff.2 hnodup, fun t => hperm.mem_iff.trans (hout t)⟩
  rw [optimize, hsort]
  rfl

theorem compile_ok {d : JobDefinition} (h : compile fuel source jobId compiledAt = .ok d) :
    ∃ ast out, parse fuel source = .ok ast ∧ optimize ast = some out ∧ d = toJobDefinition out jobId compiledAt := by
  obtain ⟨ast, hparse, h⟩ := bind_ok h
  obtain ⟨tasks, hout, -⟩ := optimize_mem ast
  rw [hout] at h
  cases h
  exact ⟨ast, _, hparse, hout, rfl⟩

theorem compileAndRegister_registers
    (h : DslService.compileAndRegister handlers fuel source jobId compiledAt now = some (.ok d)) :
    ∃ compiled, compile fuel source jobId compiledAt = .ok compiled ∧
      JobService.register handlers compiled.input now = .ok d := by
  unfold DslService.compileAndRegister at h
  split at h
  · cases h
  · cases h
  · rename_i compiled hcompile
    split at h
    · exact ⟨compiled, hcompile, Option.some.inj h⟩
    · cases h

theorem compileAndRegister_ok
    (h : DslService.compileAndRegister handlers fuel source jobId compiledAt now = some (.ok d)) :
    ∃ ast out, parse fuel source = .ok ast ∧ optimize ast = some out ∧ d.tasks = out.tasks.map (registered handlers) ∧
      d.retryPolicy = DEFAULT_RETRY_POLICY ∧ CheckedTasks d.tasks := by
  obtain ⟨compiled, hcompile, hregister⟩ := compileAndRegister_registers h
  obtain ⟨ast, out, hparse, hout, rfl⟩ := compile_ok hcompile
  obtain ⟨htasks, hpolicy, hchecked⟩ := register_ok hregister
  exact ⟨ast, out, hparse, hout, by rw [htasks]; exact List.map_map, hpolicy, hchecked⟩

/-- A job that can be registered has no circular dependencies, and its tasks stand in dependency order. -/
theorem registered_ordered {ast out : WorkflowDslNode} (hout : optimize ast = some out)
    (htasks : d.tasks = out.tasks.map (registered handlers)) (hchecked : CheckedTasks d.tasks) :
    (∀ id, ¬ Relation.TransGen (Edge (lastDeclared ast.tasks) TaskDslNode.dependsOn) id id) ∧
      (DepsFirst (lastDeclared ast.tasks) TaskDslNode.dependsOn out.tasks → d.DeclaredInOrder) := by
  obtain ⟨tasks, hopt, -, hmem⟩ := optimize_mem ast
  obtain rfl := Option.some.inj (hopt.symm.trans hout)
  dsimp only at htasks
  constructor
  · have hacyclic : DagPlanner.Acyclic d.tasks := hchecked.acyclic
    unfold DagPlanner.Acyclic at hacyclic
    rw [DagPlanner.nodes_dependsOn] at hacyclic
    have hedge : ∀ k dep, Edge (lastDeclared ast.tasks) TaskDslNode.dependsOn k dep →
        dep ∈ dependenciesById d.tasks k := by
      rintro k dep ⟨t, ht, hdep⟩
      obtain rfl := lastDeclared_id ht
      have hin : registered handlers t ∈ d.tasks := by
        rw [htasks]
        exact List.mem_map_of_mem ((hmem t).2 ht)
      have hdeps := dependenciesById_of_mem hchecked.nodup hin
      rw [registered_id, registered_dependencies] at hdeps
      rwa [hdeps]
    exact fun id hcycle => hacyclic id (Relation.TransGen.mono hedge _ _ hcycle)
  · intro hfirst before c after hsplit dep hdep
    have hin : c ∈ d.tasks := by simp [hsplit]
    have hknown := hchecked.known c hin dep hdep
    rw [htasks] at hsplit
    obtain ⟨b, rest, hb, rfl, hrest⟩ := List.map_eq_append_iff.1 hsplit
    obtain ⟨t, a, rfl, rfl, rfl⟩ := List.map_eq_cons_iff.1 hrest
    rw [registered_dependencies] at hdep
    rw [htasks, List.map_map] at hknown
    obtain ⟨m, hm, hid⟩ := List.mem_map.1 hknown
    have hid : m.id = dep := (registered_id m).symm.trans hid
    have hbefore : m ∈ b := hfirst b t a hb dep hdep m (hid ▸ (hmem m).1 hm)
    rw [List.map_map]
    exact List.mem_map.2 ⟨m, hbefore, (registered_id m).trans hid⟩

end

/-! ## From the text to the handlers -/

/-- The handler calls of a new run of a job that was written in the DSL are those of its text: of the task of each id,
every task after those it depends on and sorted by the depth that tasks have, called until an attempt succeeds. They are
its first calls at every moment, and all of them when the run has been executed and has come to rest. -/
theorem dsl_run_follows_source {world : World} {fuel : Nat} {source : String} {jobId : Option String}
    {compiledAt now : ISODateString} {d : JobDefinition} {k : Nat} {w₀ : WorkflowInstance} {s s' : System}
    (hcompiled : DslService.compileAndRegister world.handlers fuel source jobId compiledAt now = some (.ok d))
    (hwired : world.Wired) (h : NewRun world k d w₀ s) {events : List Event}
    (hok : ∀ e ∈ events, e.Undisturbed k w₀.runId d.id)
    (hs : EventSystem.exec (System.step world) s events = some s') :
    ∃ ast tasks, parse fuel source = .ok ast ∧ (tasks.map (·.id)).Nodup ∧
      (∀ t, t ∈ tasks ↔ lastDeclared ast.tasks t.id = some t) ∧
      DepsFirst (lastDeclared ast.tasks) TaskDslNode.dependsOn tasks ∧
      (∀ depth, IsDepth (lastDeclared ast.tasks) TaskDslNode.dependsOn depth →
        tasks.Pairwise fun t u => depth t.id ≤ depth u.id) ∧
      s'.taskCalls w₀.runId <+: world.inOrder DEFAULT_RETRY_POLICY w₀ (tasks.map toTaskDefinition) ∧
      (s'.ExecutedSince s.calls.length k w₀.runId → s'.executing w₀.runId = [] →
        s'.taskCalls w₀.runId = world.inOrder DEFAULT_RETRY_POLICY w₀ (tasks.map toTaskDefinition)) := by
  obtain ⟨ast, out, hparse, hout, htasks, hpolicy, hchecked⟩ := compileAndRegister_ok hcompiled
  obtain ⟨hacyclic, horder⟩ := registered_ordered hout htasks hchecked
  obtain ⟨tasks, hopt, hnodup, hmem, hfirst, -, hsorted⟩ := optimize_ordered hacyclic
  obtain rfl := Option.some.inj (hopt.symm.trans hout)
  have hprogram : world.sequentialRun d w₀ d.tasks.length [] =
      world.inOrder DEFAULT_RETRY_POLICY w₀ (tasks.map toTaskDefinition) := by
    have hresolved : d.tasks = (tasks.map toTaskDefinition).map (HandlerResolver.resolveTask world.handlers) := by
      rw [htasks, List.map_map]
      rfl
    rw [(horder hfirst).sequentialRun hchecked.nodup, hpolicy, hresolved,
      World.inOrder_map _ _ HandlerResolver.resolveTask_id HandlerResolver.resolveTask_handler]
  obtain ⟨hbegins, hall⟩ := run_follows_program hwired h hok hs
  rw [hprogram] at hbegins hall
  exact ⟨ast, tasks, hparse, hnodup, hmem, hfirst, hsorted, hbegins, hall⟩

/-- Two tasks, the second declared first. -/
def sampleSource : String :=
  "workflow w: \x7b version: 1 task b: \x7b handler: 'report.aggregate' depends: [a] \x7d" ++
    " task a: \x7b handler: 'report.aggregate' \x7d \x7d"

def sampleTaskA : TaskDslNode := ⟨"a", "report.aggregate", .finite 30000, [], false⟩

def sampleTaskB : TaskDslNode := ⟨"b", "report.aggregate", .finite 30000, ["a"], false⟩

/-- The job it becomes. -/
def sampleCompiled : JobDefinition := toJobDefinition ⟨"w", .finite 1, [sampleTaskA, sampleTaskB], []⟩ (some "w") "t"

theorem sampleCompiled_registers :
    JobService.register BUILTIN_HANDLERS sampleCompiled.input "t" = .ok sampleCompiled := by decide +kernel

theorem sampleSource_compiles :
    DslService.compileAndRegister BUILTIN_HANDLERS 200 sampleSource (some "w") "t" "t" = some (.ok sampleCompiled) := by
  have hparse : parse 200 sampleSource = .ok ⟨"w", .finite 1, [sampleTaskB, sampleTaskA], []⟩ := by decide +kernel
  have hsort : sortTasksTopologically [sampleTaskB, sampleTaskA] = some [sampleTaskA, sampleTaskB] := by
    decide +kernel
  have hmerge : mergeParallelTasks [sampleTaskA, sampleTaskB] = [sampleTaskA, sampleTaskB] := by
    apply List.mergeSort_of_pairwise
    decide +kernel
  have hcompile : compile 200 sampleSource (some "w") "t" = .ok sampleCompiled := by
    rw [compile, hparse, ok_bind, optimize, hsort, Option.bind_eq_bind, Option.bind_some, hmerge]
    rfl
  have hfinite : finiteVersion sampleCompiled = true := by decide +kernel
  rw [DslService.compileAndRegister, hcompile]
  dsimp only
  rw [if_pos hfinite, sampleCompiled_registers]

/-- Its first run: the first attempt at the last task fails. -/
theorem dsl_run_follows_source_sample : ∃ s' ast, ∃ tasks : List TaskDslNode,
    sampleAfter (fun t a => t = "b" && a = 1) sampleCompiled 19 = some s' ∧
    (s'.taskCalls "run_1").map (fun x => (x.taskId, x.attempt)) = [("a", 1), ("b", 1), ("b", 2)] ∧
    parse 200 sampleSource = .ok ast ∧ (∀ t, t ∈ tasks ↔ lastDeclared ast.tasks t.id = some t) ∧
    s'.taskCalls "run_1" = (sampleWorld fun t a => t = "b" && a = 1).inOrder DEFAULT_RETRY_POLICY
      (sampleRun sampleCompiled) (tasks.map toTaskDefinition) := by
  obtain ⟨s', hs, hrest, hx, hcalls⟩ := sample_at_rest (fun t a => t = "b" && a = 1) sampleCompiled 19
    (p := fun s => (s.taskCalls "run_1").map (fun x => (x.taskId, x.attempt)) = [("a", 1), ("b", 1), ("b", 2)])
    (by decide +kernel)
  have hnew := sample_newRun (fun t a => t = "b" && a = 1) sampleCompiled_registers
  have hcompiled : DslService.compileAndRegister (sampleWorld fun t a => t = "b" && a = 1).handlers 200 sampleSource
    (some "w") "t" "t" = some (.ok sampleCompiled) := sampleSource_compiles
  obtain ⟨ast, tasks, hparse, -, hmem, -, -, -, hall⟩ := dsl_run_follows_source hcompiled (sampleWorld_wired _) hnew
    (sampleEvents_undisturbed sampleCompiled 19) hs
  exact ⟨s', ast, tasks, hs, of_decide_eq_true hcalls, hparse, hmem, hall hx hrest⟩

end Dsl

end Jobflow
