import Mathlib.Data.List.Dedup
import Jobflow.Domain
import Jobflow.Lib.DependencyGraph
import Jobflow.Lib.InsertionMap

/-!
# Registering jobs (src/services/job-service.ts, src/validators/job-definition-validator.ts)

`JobService.register` parses the input with the zod schema, checks and caps the handlers, and runs
both checks of `JobDefinitionValidator`. What every accepted definition satisfies is collected in
`Accepted`; `register_accepted` is the only fact about registration the executor's proofs use.
-/

namespace Jobflow

open Js (Number)

/-! ## The schema (config/schema.ts:3-8, 26-53) -/

/-- The input of `register` after zod has checked its shape: absent fields are `none`, and the
default for `constraints` has been filled in. -/
structure JobDefinitionInput where
  id : String
  name : String
  version : Int
  tasks : List TaskDefinition
  constraints : List JobConstraint
  retryPolicy : Option RetryPolicy

/-- `retryPolicySchema`. -/
def retryPolicySchema (p : RetryPolicy) : Bool :=
  1 ≤ p.maxAttempts && p.maxAttempts ≤ 20 && 0 ≤ p.initialDelayMs && 1 ≤ p.backoffMultiplier && 0 ≤ p.maxDelayMs

/-- The task schema inside `jobDefinitionInputSchema`. -/
def taskSchema (t : TaskDefinition) : Bool := t.id ≠ "" && t.name ≠ "" && t.handler ≠ "" &&
  t.timeoutMs.isInteger && (Number.finite 0).lt t.timeoutMs

/-- `jobDefinitionInputSchema`. -/
def jobDefinitionInputSchema (input : JobDefinitionInput) : Bool :=
  input.id ≠ "" && input.name ≠ "" && 0 < input.version && input.tasks ≠ [] && input.tasks.all taskSchema &&
    input.retryPolicy.all retryPolicySchema

/-- `jobDefinitionInputSchema.parse(input)`. -/
def parseJobDefinitionInput (input : JobDefinitionInput) : Except JobflowError JobDefinitionInput :=
  if jobDefinitionInputSchema input then .ok input else .error .zodError

/-! ## Handlers (handlers/registry.ts, handlers/resolver.ts, domain/handler-manifest.ts) -/

/-- The fields of a manifest entry that registration reads. -/
structure HandlerManifestEntry where
  name : String
  timeoutMs : Number

def BUILTIN_HANDLERS : List HandlerManifestEntry :=
  [⟨"invoice.fetch", .finite 30000⟩, ⟨"invoice.normalize", .finite 15000⟩, ⟨"invoice.post_gl", .finite 30000⟩,
   ⟨"reconcile.extract", .finite 90000⟩, ⟨"reconcile.match", .finite 60000⟩, ⟨"onboard.validate", .finite 20000⟩,
   ⟨"onboard.provision", .finite 45000⟩, ⟨"external.risky_notify", .finite 8000⟩, ⟨"report.aggregate", .finite 120000⟩]

/-- What an override is capped at. -/
def HandlerManifestEntry.cap (manifest : HandlerManifestEntry) : Number := manifest.timeoutMs.mul (.finite 2)

/-- `HandlerRegistry.get`. -/
def HandlerRegistry.get (handlers : List HandlerManifestEntry) (name : String) : Option HandlerManifestEntry :=
  handlers.find? fun h => h.name = name

/-- `HandlerRegistry.assertKnown`. -/
def HandlerRegistry.assertKnown (handlers : List HandlerManifestEntry) (handler : String) :
    Except JobflowError Unit :=
  if (get handlers handler).isSome then .ok ()
  else .error (.validationError ("unknown handler: " ++ handler) [handler])

/-- The body of the loop of `HandlerResolver.resolveTasks`: cap an override at twice the default. -/
def HandlerResolver.resolveTask (handlers : List HandlerManifestEntry) (t : TaskDefinition) : TaskDefinition :=
  match HandlerRegistry.get handlers t.handler with
  | none => t
  | some manifest => if manifest.cap.lt t.timeoutMs then { t with timeoutMs := manifest.cap } else t

/-! ## `JobDefinitionValidator` -/

/-- `validateTask` (job-definition-validator.ts:32-44): the errors it pushes. -/
def JobDefinitionValidator.validateTask (task : TaskDefinition) (taskIds : List String) : List String :=
  (if task.timeoutMs.le (.finite 0) then ["task " ++ task.id ++ ": timeoutMs must be positive"] else []) ++
  task.dependencies.flatMap fun dep =>
    (if dep ∉ taskIds then ["task " ++ task.id ++ ": depends on unknown task " ++ dep] else []) ++
    (if dep = task.id then ["task " ++ task.id ++ ": cannot depend on itself"] else [])

/-- The loop over `definition.tasks` (job-definition-validator.ts:14-21); a repeated id is reported
and its task is not looked at. -/
def JobDefinitionValidator.taskErrors (taskIds : List String) : List String → List TaskDefinition → List String
  | _, [] => []
  | seen, task :: tasks =>
    if task.id ∈ seen then ("duplicate task id: " ++ task.id) :: taskErrors taskIds seen tasks
    else validateTask task taskIds ++ taskErrors taskIds (task.id :: seen) tasks

def JobDefinitionValidator.errors (definition : JobDefinition) : List String :=
  (if definition.tasks = [] then ["job must define at least one task"] else []) ++
  taskErrors (definition.tasks.map (·.id)) [] definition.tasks ++
  (if definition.retryPolicy.maxAttempts < 1 then ["retryPolicy.maxAttempts must be >= 1"] else [])

/-- `validate` (job-definition-validator.ts:5-30). -/
def JobDefinitionValidator.validate (definition : JobDefinition) : Except JobflowError Unit :=
  if errors definition ≠ [] then .error (.validationError "job definition validation failed" (errors definition))
  else .ok ()

/-- `byId.get(id)?.dependsOn ?? []`, with `byId = new Map(tasks.map((t) => [t.id, t]))`. -/
def dependenciesById (tasks : List TaskDefinition) (id : String) : List String :=
  (((InsertionMap.ofList (tasks.map fun t => (t.id, t))).get id).map TaskDefinition.dependencies).getD []

/-- `validateDependencyOrder` (job-definition-validator.ts:46-68). -/
def JobDefinitionValidator.validateDependencyOrder (tasks : List TaskDefinition) : Except JobflowError Unit :=
  match DependencyGraph.visitAll (dependenciesById tasks) (tasks.length + 1) (tasks.map (·.id)) with
  | .ok _ => .ok ()
  | .error (.cycle id) => .error (.validationError "circular task dependency detected" [id])
  | .error .outOfFuel => .error (.exception (.error "unreachable"))

/-! ## `JobService.register` -/

/-- `register` (job-service.ts:25-53) up to `store.save`: the definition it saves, or what it throws. -/
def JobService.register (handlers : List HandlerManifestEntry) (input : JobDefinitionInput) (now : ISODateString) :
    Except JobflowError JobDefinition := do
  let parsed ← parseJobDefinitionInput input
  parsed.tasks.forM fun t => HandlerRegistry.assertKnown handlers t.handler
  let definition : JobDefinition :=
    { id := parsed.id
      name := parsed.name
      version := parsed.version
      tasks := parsed.tasks.map (HandlerResolver.resolveTask handlers)
      constraints := parsed.constraints
      retryPolicy := parsed.retryPolicy.getD DEFAULT_RETRY_POLICY
      createdAt := now
      updatedAt := now }
  JobDefinitionValidator.validate definition
  JobDefinitionValidator.validateDependencyOrder definition.tasks
  .ok definition

/-! ## What an accepted definition satisfies -/

/-- A definition that went through `register`. -/
structure Accepted (definition : JobDefinition) : Prop where
  nonempty : definition.tasks ≠ []
  nodup : (definition.tasks.map (·.id)).Nodup
  known : ∀ t ∈ definition.tasks, ∀ dep ∈ t.dependencies, dep ∈ definition.tasks.map (·.id)
  policy : retryPolicySchema definition.retryPolicy = true
  order : ∃ finished, DependencyGraph.FinishOrder (dependenciesById definition.tasks) finished ∧
    ∀ t ∈ definition.tasks, t.id ∈ finished

theorem retryPolicySchema_bounds {p : RetryPolicy} (h : retryPolicySchema p = true) :
    1 ≤ p.maxAttempts ∧ p.maxAttempts ≤ 20 := by
  simp only [retryPolicySchema, Bool.and_eq_true, decide_eq_true_eq] at h
  exact ⟨h.1.1.1.1, h.1.1.1.2⟩

theorem retryPolicySchema_default : retryPolicySchema DEFAULT_RETRY_POLICY = true := by decide +kernel

theorem JobDefinitionValidator.taskErrors_eq_nil {taskIds : List String} : ∀ {seen : List String}
    {tasks : List TaskDefinition}, taskErrors taskIds seen tasks = [] →
      (∀ t ∈ tasks, t.id ∉ seen ∧ validateTask t taskIds = []) ∧ (tasks.map (·.id)).Nodup
  | _, [], _ => by simp
  | seen, t :: ts, h => by
    simp only [taskErrors] at h
    split at h
    · cases h
    · rename_i hseen
      obtain ⟨ht, hts⟩ := List.append_eq_nil_iff.1 h
      obtain ⟨ih, hn⟩ := taskErrors_eq_nil hts
      refine ⟨fun x hx => ?_, ?_⟩
      · rcases List.mem_cons.1 hx with rfl | hx
        · exact ⟨hseen, ht⟩
        · exact ⟨fun hs => (ih x hx).1 (List.mem_cons_of_mem _ hs), (ih x hx).2⟩
      · rw [List.map_cons, List.nodup_cons]
        refine ⟨fun hmem => ?_, hn⟩
        obtain ⟨x, hx, hid⟩ := List.mem_map.1 hmem
        exact (ih x hx).1 (hid ▸ List.mem_cons_self)

theorem JobDefinitionValidator.validateTask_positive {task : TaskDefinition} {taskIds : List String}
    (h : validateTask task taskIds = []) : task.timeoutMs.le (.finite 0) = false := by
  have := (List.append_eq_nil_iff.1 h).1
  by_contra hne
  exact absurd this (by simp [hne])

theorem JobDefinitionValidator.validateTask_known {task : TaskDefinition} {taskIds : List String}
    (h : validateTask task taskIds = []) : ∀ dep ∈ task.dependencies, dep ∈ taskIds := by
  intro dep hdep
  have := List.flatMap_eq_nil_iff.1 (List.append_eq_nil_iff.1 h).2 dep hdep
  by_contra hne
  simp [hne] at this

section
variable {handlers : List HandlerManifestEntry}

/-- A task is left as it is, or capped. -/
theorem HandlerResolver.resolveTask_cases (t : TaskDefinition) : resolveTask handlers t = t ∨
    ∃ manifest, HandlerRegistry.get handlers t.handler = some manifest ∧ manifest.cap.lt t.timeoutMs = true ∧
      resolveTask handlers t = { t with timeoutMs := manifest.cap } := by
  unfold resolveTask
  cases h : HandlerRegistry.get handlers t.handler with
  | none => exact .inl rfl
  | some manifest =>
    by_cases hcap : manifest.cap.lt t.timeoutMs = true
    · exact .inr ⟨manifest, rfl, hcap, if_pos hcap⟩
    · exact .inl (if_neg hcap)

theorem HandlerResolver.resolveTask_id (t : TaskDefinition) : (resolveTask handlers t).id = t.id := by
  rcases @resolveTask_cases handlers t with h | ⟨_, _, _, h⟩ <;> rw [h]

theorem HandlerResolver.resolveTask_handler (t : TaskDefinition) : (resolveTask handlers t).handler = t.handler := by
  rcases @resolveTask_cases handlers t with h | ⟨_, _, _, h⟩ <;> rw [h]

theorem HandlerResolver.resolveTask_dependencies (t : TaskDefinition) :
    (resolveTask handlers t).dependencies = t.dependencies := by
  rcases @resolveTask_cases handlers t with h | ⟨_, _, _, h⟩
  · rw [h]
  · rw [h]
    rfl

end

theorem dependenciesById_of_mem {tasks : List TaskDefinition} (hn : (tasks.map (·.id)).Nodup) {t : TaskDefinition}
    (ht : t ∈ tasks) : dependenciesById tasks t.id = t.dependencies := by
  have hkeys : ((tasks.map fun t => (t.id, t)).map Prod.fst).Nodup := by
    rw [List.map_map]
    exact hn
  have hmem : (t.id, t) ∈ tasks.map fun t => (t.id, t) := List.mem_map_of_mem (f := fun t => (t.id, t)) ht
  rw [dependenciesById, InsertionMap.get_ofList_of_mem hkeys hmem]
  rfl

/-- Only ids of the list have dependencies. -/
theorem mem_of_dependenciesById {tasks : List TaskDefinition} {id : String} (h : dependenciesById tasks id ≠ []) :
    id ∈ tasks.map (·.id) := by
  unfold dependenciesById at h
  cases hg : (InsertionMap.ofList (tasks.map fun t => (t.id, t))).get id with
  | none => simp [hg] at h
  | some t =>
    obtain ⟨x, hx, he⟩ := List.mem_map.1 (InsertionMap.mem_of_get_ofList hg)
    cases he
    exact List.mem_map_of_mem (f := (·.id)) hx

/-- The search has fuel enough, so the third answer of `validateDependencyOrder` is never given. -/
theorem JobDefinitionValidator.validateDependencyOrder_answers (tasks : List TaskDefinition) :
    DependencyGraph.visitAll (dependenciesById tasks) (tasks.length + 1) (tasks.map (·.id)) ≠
      .error .outOfFuel := by
  refine DependencyGraph.visitAll_enough_fuel (List.nodup_dedup (tasks.map (·.id)))
    (fun id h => List.mem_dedup.2 (mem_of_dependenciesById h)) ?_ _
  have := (List.dedup_sublist (tasks.map (·.id))).length_le
  rw [List.length_map] at this
  omega

theorem JobDefinitionValidator.validateDependencyOrder_ok {tasks : List TaskDefinition}
    (h : validateDependencyOrder tasks = .ok ()) :
    ∃ finished, DependencyGraph.FinishOrder (dependenciesById tasks) finished ∧ ∀ t ∈ tasks, t.id ∈ finished := by
  unfold validateDependencyOrder at h
  split at h
  · rename_i m hm
    obtain ⟨ho, hmem⟩ := DependencyGraph.visitAll_finishOrder hm
    exact ⟨m.visited, ho, fun t ht => hmem _ (List.mem_map_of_mem (f := (·.id)) ht)⟩
  · cases h
  · cases h

theorem JobDefinitionValidator.validate_ok {definition : JobDefinition} (h : validate definition = .ok ()) :
    errors definition = [] := by
  by_contra hne
  simp [validate, hne] at h

/-- The two checks of the validator and the schema of the policy are all `Accepted` asks for. -/
theorem accepted_of_checks {definition : JobDefinition}
    (hvalid : JobDefinitionValidator.validate definition = .ok ())
    (horder : JobDefinitionValidator.validateDependencyOrder definition.tasks = .ok ())
    (hpolicy : retryPolicySchema definition.retryPolicy = true) : Accepted definition := by
  obtain ⟨hfront, _⟩ := List.append_eq_nil_iff.1 (JobDefinitionValidator.validate_ok hvalid)
  obtain ⟨hne, htasks⟩ := List.append_eq_nil_iff.1 hfront
  obtain ⟨heach, hn⟩ := JobDefinitionValidator.taskErrors_eq_nil htasks
  refine ⟨fun hnil => ?_, hn, fun t ht => JobDefinitionValidator.validateTask_known (heach t ht).2, hpolicy,
    JobDefinitionValidator.validateDependencyOrder_ok horder⟩
  simp [hnil] at hne

theorem JobService.bind_ok {α β : Type} {x : Except JobflowError α} {f : α → Except JobflowError β} {b : β}
    (h : (x >>= f) = .ok b) : ∃ a, x = .ok a ∧ f a = .ok b := by
  cases x with
  | error e => cases h
  | ok a => exact ⟨a, rfl, h⟩

/-- Registration only lets accepted definitions through, and keeps the id. -/
theorem JobService.register_accepted {handlers : List HandlerManifestEntry} {input : JobDefinitionInput}
    {now : ISODateString} {definition : JobDefinition} (h : register handlers input now = .ok definition) :
    Accepted definition ∧ definition.id = input.id := by
  unfold register at h
  obtain ⟨parsed, hparsed, h⟩ := bind_ok h
  obtain ⟨_, _, h⟩ := bind_ok h
  obtain ⟨_, hvalid, h⟩ := bind_ok h
  obtain ⟨_, horder, h⟩ := bind_ok h
  cases h
  obtain ⟨hinput, rfl⟩ : jobDefinitionInputSchema input = true ∧ parsed = input := by
    unfold parseJobDefinitionInput at hparsed
    split at hparsed
    · rename_i hs
      cases hparsed
      exact ⟨hs, rfl⟩
    · cases hparsed
  refine ⟨accepted_of_checks hvalid horder ?_, rfl⟩
  cases hp : parsed.retryPolicy with
  | none => simpa [hp] using retryPolicySchema_default
  | some p =>
    simp only [jobDefinitionInputSchema, hp, Option.all_some, Bool.and_eq_true] at hinput
    simpa [hp] using hinput.2

end Jobflow
