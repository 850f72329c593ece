import Jobflow.Jobs
import Jobflow.Js.JsonEquality
import Jobflow.Js.ParsedValues
import Jobflow.Zod

/-!
# Job documents (src/config/schema.ts, src/services/job-service.ts, src/domain/job-definition.ts)

`register` takes any JSON value. What the schema reads of it is registered with the caps and the checks of `Jobs`
(`register_document`), so what is registered is `Registrable`. Printed and registered again it is the same document, but
for the sign of a zero, unless its multiplier is infinite, which JSON prints as `null` (`job_document_round_trip`).
-/

namespace Jobflow

open Js (Value Record Number IsData IsFieldName)

/-! ## The source -/

/-- `RetryPolicy` (types.ts:37-42) with the numbers as they are. -/
structure RetryPolicyDocument where
  maxAttempts : Number
  initialDelayMs : Number
  backoffMultiplier : Number
  maxDelayMs : Number

/-- The policy the executor reads; an infinite multiplier is none of its. -/
def RetryPolicyDocument.policy (p : RetryPolicyDocument) : RetryPolicy where
  maxAttempts := wholeOf p.maxAttempts
  initialDelayMs := wholeOf p.initialDelayMs
  backoffMultiplier := p.backoffMultiplier.toRat?.getD 0
  maxDelayMs := wholeOf p.maxDelayMs

/-- What `jobDefinitionInputSchema` reads. -/
structure ParsedJobInput where
  id : String
  name : String
  version : Number
  description : Option String
  tasks : List TaskDefinition
  constraints : List JobConstraint
  retryPolicy : Option RetryPolicyDocument
  allowedTransitions : List String
  metadata : Dictionary String

/-- `JobDefinition` (job-definition.ts:18-30) with every field. -/
structure JobDocument where
  id : JobId
  name : String
  version : Number
  description : Option String
  tasks : List TaskDefinition
  constraints : List JobConstraint
  retryPolicy : RetryPolicyDocument
  allowedTransitions : List String
  metadata : Dictionary String
  createdAt : ISODateString
  updatedAt : ISODateString

def Severity.text : Severity → String
  | .warn => "warn"
  | .block => "block"

/-- What JSON keeps of a policy: a zero has no sign. -/
def RetryPolicyDocument.kept (p : RetryPolicyDocument) : RetryPolicyDocument where
  maxAttempts := p.maxAttempts.unsigned
  initialDelayMs := p.initialDelayMs.unsigned
  backoffMultiplier := p.backoffMultiplier.unsigned
  maxDelayMs := p.maxDelayMs.unsigned

/-- A document that is printed and registered again. -/
def JobDocument.again (d : JobDocument) (now : ISODateString) : JobDocument :=
  { d with retryPolicy := d.retryPolicy.kept, createdAt := now, updatedAt := now }

@[simp] theorem JobDocument.again_id (d : JobDocument) (now : ISODateString) : (d.again now).id = d.id := rfl

namespace JobDocument

section
variable (z : Zod)

def retryPolicyShape : Shape z.Schema RetryPolicyDocument :=
  Shape.done RetryPolicyDocument.mk
    |>.field "maxAttempts" (z.number [.int, .min 1, .max 20])
    |>.field "initialDelayMs" (z.number [.int, .min 0])
    |>.field "backoffMultiplier" (z.number [.min 1])
    |>.field "maxDelayMs" (z.number [.int, .min 0])

/-- `retryPolicySchema` (schema.ts:3-8). -/
def retryPolicySchema : z.Schema RetryPolicyDocument := z.object (retryPolicyShape z)

def taskShape : Shape z.Schema TaskDefinition :=
  Shape.done TaskDefinition.mk
    |>.field "id" (z.string 1)
    |>.field "name" (z.string 1)
    |>.field "handler" (z.string 1)
    |>.field "timeoutMs" (z.number [.int, .positive])
    |>.field "optional" (z.optional z.boolean)
    |>.field "dependsOn" (z.optional (z.array 0 (z.string 0)))

/-- An element of `tasks` (schema.ts:33-40). -/
def taskSchema : z.Schema TaskDefinition := z.object (taskShape z)

def severities : List (String × Severity) := [("warn", .warn), ("block", .block)]

def constraintShape : Shape z.Schema JobConstraint :=
  Shape.done JobConstraint.mk
    |>.field "id" (z.string 0)
    |>.field "expression" (z.string 0)
    |>.field "severity" (z.enumeration severities)

/-- An element of `constraints` (schema.ts:44-48). -/
def constraintSchema : z.Schema JobConstraint := z.object (constraintShape z)

def jobDefinitionInputShape : Shape z.Schema ParsedJobInput :=
  Shape.done ParsedJobInput.mk
    |>.field "id" (z.string 1)
    |>.field "name" (z.string 1)
    |>.field "version" (z.number [.int, .positive])
    |>.field "description" (z.optional (z.string 0))
    |>.field "tasks" (z.array 1 (taskSchema z))
    |>.field "constraints" (z.withDefault (.array none []) (z.array 0 (constraintSchema z)))
    |>.field "retryPolicy" (z.optional (retryPolicySchema z))
    |>.field "allowedTransitions" (z.withDefault (.array none []) (z.array 0 (z.string 0)))
    |>.field "metadata" (z.withDefault (.object none []) (z.record (z.string 0)))

/-- `jobDefinitionInputSchema` (schema.ts:26-53). -/
def jobDefinitionInputSchema : z.Schema ParsedJobInput := z.object (jobDefinitionInputShape z)

end

/-- `DEFAULT_RETRY_POLICY` (retry-policy.ts:3-8). -/
def DEFAULT_RETRY_POLICY : RetryPolicyDocument where
  maxAttempts := .finite 3
  initialDelayMs := .finite 500
  backoffMultiplier := .finite 2
  maxDelayMs := .finite 30000

/-- What the executor and the validator read of a document; no validator looks at the multiplier. -/
def definition (d : JobDocument) : JobDefinition where
  id := d.id
  name := d.name
  version := wholeOf d.version
  tasks := d.tasks
  constraints := d.constraints
  retryPolicy := d.retryPolicy.policy
  createdAt := d.createdAt
  updatedAt := d.updatedAt

/-- The document `register` makes (job-service.ts:30-42), its tasks capped. -/
def ofInput (handlers : List HandlerManifestEntry) (parsed : ParsedJobInput) (now : ISODateString) : JobDocument where
  id := parsed.id
  name := parsed.name
  version := parsed.version
  description := parsed.description
  tasks := parsed.tasks.map (HandlerResolver.resolveTask handlers)
  constraints := parsed.constraints
  retryPolicy := parsed.retryPolicy.getD DEFAULT_RETRY_POLICY
  allowedTransitions := parsed.allowedTransitions
  metadata := parsed.metadata
  createdAt := now
  updatedAt := now

/-- `jobDefinitionInputSchema.parse(input)`. -/
def parse (z : Zod) (input : Value) : Except JobflowError ParsedJobInput :=
  match z.parse (jobDefinitionInputSchema z) input with
  | some parsed => .ok parsed
  | none => .error .zodError

/-- `register` (job-service.ts:25-53) from the value on, up to `store.save`. -/
def register (z : Zod) (handlers : List HandlerManifestEntry) (input : Value) (now : ISODateString) :
    Except JobflowError JobDocument := do
  let parsed ← parse z input
  parsed.tasks.forM fun t => HandlerRegistry.assertKnown handlers t.handler
  let document := ofInput handlers parsed now
  JobDefinitionValidator.validate document.definition
  JobDefinitionValidator.validateDependencyOrder document.tasks
  .ok document

/-! ## Printing -/

def ofOptional {α : Type} (encode : α → Value) (a : Option α) : Value := (a.map encode).getD .undefined

def ofTexts (texts : List String) : Value := .array none (texts.map .string)

def policyFields (p : RetryPolicyDocument) : Record :=
  [("maxAttempts", .number p.maxAttempts), ("initialDelayMs", .number p.initialDelayMs),
   ("backoffMultiplier", .number p.backoffMultiplier), ("maxDelayMs", .number p.maxDelayMs)]

def taskFields (t : TaskDefinition) : Record :=
  [("id", .string t.id), ("name", .string t.name), ("handler", .string t.handler), ("timeoutMs", .number t.timeoutMs),
   ("optional", ofOptional .bool t.optional), ("dependsOn", ofOptional ofTexts t.dependsOn)]

def constraintFields (c : JobConstraint) : Record :=
  [("id", .string c.id), ("expression", .string c.expression), ("severity", .string c.severity.text)]

/-- The properties of a document in the order `register` sets them; the others are set in the order of their schemas. -/
def fields (d : JobDocument) : Record :=
  [("id", .string d.id), ("name", .string d.name), ("version", .number d.version),
   ("description", ofOptional .string d.description),
   ("tasks", .array none (d.tasks.map fun t => .object none (taskFields t))),
   ("constraints", .array none (d.constraints.map fun c => .object none (constraintFields c))),
   ("retryPolicy", .object none (policyFields d.retryPolicy)), ("allowedTransitions", ofTexts d.allowedTransitions),
   ("metadata", .object none (d.metadata.entries.map fun p => (p.1, .string p.2))), ("createdAt", .string d.createdAt),
   ("updatedAt", .string d.updatedAt)]

def toValue (d : JobDocument) : Value := .object none d.fields

/-- `JSON.stringify(def)`. -/
def print (d : JobDocument) : List Char := Js.textOf d.toValue

/-! ## Registrable documents -/

structure SoundTask (t : TaskDefinition) : Prop where
  id : t.id ≠ ""
  name : t.name ≠ ""
  handler : t.handler ≠ ""
  timeoutMs : Checked [.int, .positive] t.timeoutMs

structure SoundPolicy (p : RetryPolicyDocument) : Prop where
  maxAttempts : Checked [.int, .min 1, .max 20] p.maxAttempts
  initialDelayMs : Checked [.int, .min 0] p.initialDelayMs
  backoffMultiplier : Checked [.min 1] p.backoffMultiplier
  maxDelayMs : Checked [.int, .min 0] p.maxDelayMs

/-- What every registered document satisfies. -/
structure Registrable (handlers : List HandlerManifestEntry) (d : JobDocument) : Prop where
  id : d.id ≠ ""
  name : d.name ≠ ""
  version : Checked [.int, .positive] d.version
  nonempty : d.tasks ≠ []
  tasks : ∀ t ∈ d.tasks, SoundTask t
  known : d.tasks.forM (fun t => HandlerRegistry.assertKnown handlers t.handler) = .ok ()
  capped : d.tasks.map (HandlerResolver.resolveTask handlers) = d.tasks
  policy : SoundPolicy d.retryPolicy
  valid : JobDefinitionValidator.validate d.definition = .ok ()
  order : JobDefinitionValidator.validateDependencyOrder d.tasks = .ok ()

/-! ## What is registered is registrable -/

section
variable {z : Zod} {handlers : List HandlerManifestEntry} {v : Value}

theorem taskShape_proper : (taskShape z).Proper := by
  constructor <;> simp [taskShape, Shape.keys, IsFieldName, Value.objectPrototypeNames]

theorem retryPolicyShape_proper : (retryPolicyShape z).Proper := by
  constructor <;> simp [retryPolicyShape, Shape.keys, IsFieldName, Value.objectPrototypeNames]

theorem constraintShape_proper : (constraintShape z).Proper := by
  constructor <;> simp [constraintShape, Shape.keys, IsFieldName, Value.objectPrototypeNames]

theorem jobDefinitionInputShape_proper : (jobDefinitionInputShape z).Proper := by
  constructor <;> simp [jobDefinitionInputShape, Shape.keys, IsFieldName, Value.objectPrototypeNames]

theorem taskSchema_sound (hz : z.Laws) (hv : IsData v) {t : TaskDefinition} (h : z.parse (taskSchema z) v = some t) :
    SoundTask t := by
  obtain ⟨h, hdata⟩ := hz.object_spec hv taskShape_proper h
  simp only [taskShape, Zod.readFields, Option.bind_some, Option.bind_assoc, Option.bind_eq_some_iff,
    Option.some.injEq] at h
  obtain ⟨id, hid, name, hname, handler, hhandler, timeoutMs, htimeout, isOptional, -, dependsOn, -, rfl⟩ := h
  exact ⟨hz.string_ne hid, hz.string_ne hname, hz.string_ne hhandler,
    hz.number_spec (hdata (by decide)) htimeout⟩

theorem retryPolicySchema_sound (hz : z.Laws) (hv : IsData v) {p : RetryPolicyDocument}
    (h : z.parse (retryPolicySchema z) v = some p) : SoundPolicy p := by
  obtain ⟨h, hdata⟩ := hz.object_spec hv retryPolicyShape_proper h
  simp only [retryPolicyShape, Zod.readFields, Option.bind_some, Option.bind_assoc, Option.bind_eq_some_iff,
    Option.some.injEq] at h
  obtain ⟨attempts, hattempts, initial, hinitial, multiplier, hmultiplier, maxDelay, hmaxDelay, rfl⟩ := h
  exact ⟨hz.number_spec (hdata (by decide)) hattempts, hz.number_spec (hdata (by decide)) hinitial,
    hz.number_spec (hdata (by decide)) hmultiplier, hz.number_spec (hdata (by decide)) hmaxDelay⟩

theorem soundPolicy_default : SoundPolicy DEFAULT_RETRY_POLICY := by
  have hchecked {checks : List NumberCheck} {q : Rat} (h : checks.all (·.passes (.finite q)) = true)
      (hq : Number.ofRat q = .finite q) : Checked checks (.finite q) := by
    refine ⟨h, ?_, by simp⟩
    rintro _ ⟨⟩
    exact hq
  exact ⟨hchecked (by decide) (by decide +kernel), hchecked (by decide) (by decide +kernel),
    hchecked (by decide) (by decide +kernel), hchecked (by decide) (by decide +kernel)⟩

/-- A capped task is within its cap. -/
theorem resolveTask_resolveTask (t : TaskDefinition) :
    HandlerResolver.resolveTask handlers (HandlerResolver.resolveTask handlers t) =
      HandlerResolver.resolveTask handlers t := by
  rcases @HandlerResolver.resolveTask_cases handlers t with h | ⟨manifest, hmanifest, hcap, h⟩
  · rw [h, h]
  · have hself : manifest.cap.lt manifest.cap = false := by
      cases hvalue : manifest.cap with
      | infinity s => cases s <;> rfl
      | nan | negZero => rfl
      | finite q => simp [Number.lt]
    rw [h, HandlerResolver.resolveTask, hmanifest]
    simp [hself]

theorem soundTask_resolveTask (hcaps : ∀ h ∈ handlers, h.cap.isInteger = true) {t : TaskDefinition} (ht : SoundTask t)
    (hpositive : (HandlerResolver.resolveTask handlers t).timeoutMs.le (.finite 0) = false) :
    SoundTask (HandlerResolver.resolveTask handlers t) := by
  rcases @HandlerResolver.resolveTask_cases handlers t with h | ⟨manifest, hmanifest, -, h⟩
  · rwa [h]
  · rw [h] at hpositive ⊢
    have hwhole := hcaps manifest (List.mem_of_find?_eq_some hmanifest)
    have hvalue := isInteger_eq hwhole
    rw [← Bool.not_eq_true, Number.le_iff hvalue rfl, not_le] at hpositive
    have hlt : (Number.finite 0).lt manifest.cap = true := (Number.lt_iff rfl hvalue).2 hpositive
    refine ⟨ht.id, ht.name, ht.handler, ?_, Number.isBinary64_mul _ _, fun hnan => ?_⟩
    · simp [NumberCheck.passes, hwhole, hlt]
    · have hnone := congrArg Number.toRat? hnan
      cases hvalue.symm.trans hnone

/-- What the schema read is bound to the schema of each field. -/
structure SoundInput (parsed : ParsedJobInput) : Prop where
  id : parsed.id ≠ ""
  name : parsed.name ≠ ""
  version : Checked [.int, .positive] parsed.version
  nonempty : parsed.tasks ≠ []
  tasks : ∀ t ∈ parsed.tasks, SoundTask t
  policy : ∀ p ∈ parsed.retryPolicy, SoundPolicy p

theorem jobDefinitionInputSchema_sound (hz : z.Laws) (hv : IsData v) {parsed : ParsedJobInput}
    (h : z.parse (jobDefinitionInputSchema z) v = some parsed) : SoundInput parsed := by
  obtain ⟨h, hdata⟩ := hz.object_spec hv jobDefinitionInputShape_proper h
  simp only [jobDefinitionInputShape, Zod.readFields, Option.bind_some, Option.bind_assoc, Option.bind_eq_some_iff,
    Option.some.injEq] at h
  obtain ⟨id, hid, name, hname, version, hversion, description, -, tasks, htasks, constraints, -, policy, hpolicy,
    transitions, -, metadata, -, rfl⟩ := h
  obtain ⟨hsome, htasks⟩ := hz.array_spec (fun hv => taskSchema_sound hz hv) (hdata (by decide)) htasks
  exact ⟨hz.string_ne hid, hz.string_ne hname, hz.number_spec (hdata (by decide)) hversion,
    List.ne_nil_of_length_pos hsome, htasks,
    hz.optional_spec (retryPolicySchema_sound hz (hdata (by decide))) hpolicy⟩

/-- What `register` has gone through when it returns. -/
theorem register_ok {now : ISODateString} {d : JobDocument} (h : register z handlers v now = .ok d) :
    ∃ parsed, z.parse (jobDefinitionInputSchema z) v = some parsed ∧
      parsed.tasks.forM (fun t => HandlerRegistry.assertKnown handlers t.handler) = .ok () ∧
      d = ofInput handlers parsed now ∧ JobDefinitionValidator.validate d.definition = .ok () ∧
      JobDefinitionValidator.validateDependencyOrder d.tasks = .ok () := by
  unfold register at h
  obtain ⟨parsed, hparsed, h⟩ := JobService.bind_ok h
  obtain ⟨_, hknown, h⟩ := JobService.bind_ok h
  obtain ⟨_, hvalid, h⟩ := JobService.bind_ok h
  obtain ⟨_, horder, h⟩ := JobService.bind_ok h
  obtain rfl := Except.ok.inj h
  unfold parse at hparsed
  split at hparsed
  · rename_i hread
    obtain rfl := Except.ok.inj hparsed
    exact ⟨_, hread, hknown, rfl, hvalid, horder⟩
  · cases hparsed

theorem assertKnown_resolveTasks (tasks : List TaskDefinition) :
    (tasks.map (HandlerResolver.resolveTask handlers)).forM
        (fun t => HandlerRegistry.assertKnown handlers t.handler) =
      tasks.forM fun t => HandlerRegistry.assertKnown handlers t.handler := by
  induction tasks with
  | nil => rfl
  | cons t tasks ih =>
    show (HandlerRegistry.assertKnown handlers (HandlerResolver.resolveTask handlers t).handler >>= fun _ => _) = _
    rw [HandlerResolver.resolveTask_handler, ih]
    rfl

theorem register_registrable (hz : z.Laws) (hcaps : ∀ h ∈ handlers, h.cap.isInteger = true) (hv : IsData v)
    {now : ISODateString} {d : JobDocument} (h : register z handlers v now = .ok d) : Registrable handlers d := by
  obtain ⟨parsed, hparsed, hknown, rfl, hvalid, horder⟩ := register_ok h
  have hinput := jobDefinitionInputSchema_sound hz hv hparsed
  obtain ⟨hfront, _⟩ := List.append_eq_nil_iff.1 (JobDefinitionValidator.validate_ok hvalid)
  obtain ⟨hne, htasks⟩ := List.append_eq_nil_iff.1 hfront
  have heach := (JobDefinitionValidator.taskErrors_eq_nil htasks).1
  refine
    { id := hinput.id, name := hinput.name, version := hinput.version, nonempty := ?_, tasks := ?_, known := ?_,
      capped := ?_, policy := ?_, valid := hvalid, order := horder }
  · simpa [ofInput] using hinput.nonempty
  · intro t ht
    have hpositive := JobDefinitionValidator.validateTask_positive (heach t ht).2
    obtain ⟨t', ht', rfl⟩ := List.mem_map.1 ht
    exact soundTask_resolveTask hcaps (hinput.tasks t' ht') hpositive
  · rw [ofInput, assertKnown_resolveTasks]
    exact hknown
  · rw [ofInput, List.map_map]
    exact List.map_congr_left fun t _ => resolveTask_resolveTask t
  · cases hpolicy : parsed.retryPolicy with
    | none =>
      rw [ofInput, hpolicy]
      exact soundPolicy_default
    | some p =>
      rw [ofInput, hpolicy]
      exact hinput.policy p hpolicy

end

/-! ## Through a text and back -/

section
variable {z : Zod} {handlers : List HandlerManifestEntry} {t : TaskDefinition} {p : RetryPolicyDocument}
  {d : JobDocument}

theorem isData_ofOptional {α : Type} {encode : α → Value} (h : ∀ a, IsData (encode a)) (a : Option α) :
    IsData (ofOptional encode a) := by
  cases a with
  | none => exact .undefined
  | some a => exact h a

theorem isData_map {α : Type} {encode : α → Value} {as : List α} (h : ∀ a ∈ as, IsData (encode a)) :
    IsData (.array none (as.map encode)) := by
  refine .array fun v hv => ?_
  obtain ⟨a, ha, rfl⟩ := List.mem_map.1 hv
  exact h a ha

theorem isData_ofTexts (texts : List String) : IsData (ofTexts texts) := isData_map fun s _ => .string s

theorem SoundTask.isData (h : SoundTask t) : IsData (.object none (taskFields t)) := by
  refine .object (by simp [taskFields]) ?_
  simp only [taskFields, List.forall_mem_cons]
  exact ⟨.string _, .string _, .string _, h.timeoutMs.isData, isData_ofOptional .bool _,
    isData_ofOptional isData_ofTexts _, List.forall_mem_nil _⟩

theorem SoundPolicy.isData (h : SoundPolicy p) : IsData (.object none (policyFields p)) := by
  refine .object (by simp [policyFields]) ?_
  simp only [policyFields, List.forall_mem_cons]
  exact ⟨h.maxAttempts.isData, h.initialDelayMs.isData, h.backoffMultiplier.isData, h.maxDelayMs.isData,
    List.forall_mem_nil _⟩

theorem isData_constraint (c : JobConstraint) : IsData (.object none (constraintFields c)) := by
  refine .object (by simp [constraintFields]) ?_
  simp only [constraintFields, List.forall_mem_cons]
  exact ⟨.string _, .string _, .string _, List.forall_mem_nil _⟩

theorem isData_texts (d : Dictionary String) : IsData (.object none (d.entries.map fun p => (p.1, .string p.2))) := by
  refine .object ?_ fun p hp => ?_
  · rw [List.map_map]
    exact d.nodup
  · obtain ⟨q, _, rfl⟩ := List.mem_map.1 hp
    exact .string q.2

theorem Registrable.isData (h : Registrable handlers d) : IsData d.toValue := by
  refine .object (by simp [fields]) ?_
  simp only [fields, List.forall_mem_cons]
  exact ⟨.string _, .string _, h.version.isData, isData_ofOptional .string _,
    isData_map fun t ht => (h.tasks t ht).isData, isData_map fun c _ => isData_constraint c, h.policy.isData,
    isData_ofTexts _, isData_texts _, .string _, .string _, List.forall_mem_nil _⟩

open Zod.Laws (field_kept)

theorem readsBack_ofTexts (hz : z.Laws) (texts : List String) :
    z.ReadsBack (z.array 0 (z.string 0)) (ofTexts texts) texts :=
  hz.readsBack_array (Nat.zero_le _) fun s _ => hz.readsBack_text s

theorem SoundTask.readsBack (hz : z.Laws) (h : SoundTask t) :
    z.ReadsBack (taskSchema z) (.object none (taskFields t)) t := by
  refine hz.readsBack_object taskShape_proper ?_
  have hkeys : ((taskFields t).map Prod.fst).Nodup := by simp [taskFields]
  have htimeout := hz.readsBack_whole h.timeoutMs (by simp)
  rw [h.timeoutMs.unsigned_eq (by simp)] at htimeout
  simp only [taskShape, Zod.readFields, Option.bind_some, Option.bind_assoc, Option.bind_eq_some_iff,
    Option.some.injEq]
  exact ⟨_, field_kept hkeys (by decide) (by simp [taskFields]) (hz.readsBack_nonempty h.id), _,
    field_kept hkeys (by decide) (by simp [taskFields]) (hz.readsBack_nonempty h.name), _,
    field_kept hkeys (by decide) (by simp [taskFields]) (hz.readsBack_nonempty h.handler), _,
    field_kept hkeys (by decide) (by simp [taskFields]) htimeout, _,
    hz.optional_kept hkeys (by decide) (by simp [taskFields, ofOptional]) fun b _ => hz.readsBack_boolean b, _,
    hz.optional_kept hkeys (by decide) (by simp [taskFields, ofOptional]) fun ts _ => readsBack_ofTexts hz ts, rfl⟩

theorem readsBack_constraint (hz : z.Laws) (c : JobConstraint) :
    z.ReadsBack (constraintSchema z) (.object none (constraintFields c)) c := by
  refine hz.readsBack_object constraintShape_proper ?_
  have hkeys : ((constraintFields c).map Prod.fst).Nodup := by simp [constraintFields]
  have hseverity : (c.severity.text, c.severity) ∈ severities := by
    cases c.severity <;> simp [severities, Severity.text]
  have hread := hz.readsBack_enumeration hseverity (by simp [severities])
  simp only [constraintShape, Zod.readFields, Option.bind_some, Option.bind_assoc, Option.bind_eq_some_iff,
    Option.some.injEq]
  exact ⟨_, field_kept hkeys (by decide) (by simp [constraintFields]) (hz.readsBack_text c.id), _,
    field_kept hkeys (by decide) (by simp [constraintFields]) (hz.readsBack_text c.expression), _,
    field_kept hkeys (by decide) (by simp [constraintFields]) hread, rfl⟩

theorem SoundPolicy.readsBack (hz : z.Laws) (h : SoundPolicy p) (hfinite : p.backoffMultiplier.toRat?.isSome = true) :
    z.ReadsBack (retryPolicySchema z) (.object none (policyFields p)) p.kept := by
  refine hz.readsBack_object retryPolicyShape_proper ?_
  have hkeys : ((policyFields p).map Prod.fst).Nodup := by simp [policyFields]
  simp only [retryPolicyShape, Zod.readFields, Option.bind_some, Option.bind_assoc, Option.bind_eq_some_iff,
    Option.some.injEq]
  exact ⟨_, field_kept hkeys (by decide) (by simp [policyFields]) (hz.readsBack_whole h.maxAttempts (by simp)), _,
    field_kept hkeys (by decide) (by simp [policyFields]) (hz.readsBack_whole h.initialDelayMs (by simp)), _,
    field_kept hkeys (by decide) (by simp [policyFields]) (hz.readsBack_number hfinite h.backoffMultiplier), _,
    field_kept hkeys (by decide) (by simp [policyFields]) (hz.readsBack_whole h.maxDelayMs (by simp)), rfl⟩

/-- An infinite multiplier is printed as `null`, which is no number. -/
theorem policy_lost (hz : z.Laws) {s : Bool} (hinfinite : p.backoffMultiplier = .infinity s) :
    z.parse (retryPolicySchema z) (.object none (Js.inKeyOrder (Js.canonicalProps (policyFields p)))) = none := by
  have hkeys : ((policyFields p).map Prod.fst).Nodup := by simp [policyFields]
  have hnull : (Value.object none (Js.inKeyOrder (Js.canonicalProps (policyFields p)))).get "backoffMultiplier" =
      .null := by
    rw [Zod.Laws.get_kept hkeys (by decide) (v := .number p.backoffMultiplier) (by simp [policyFields]), hinfinite]
    rfl
  have hrefused : z.parse (z.number [.min 1]) .null = none := by
    rw [Option.eq_none_iff_forall_ne_some]
    intro n hn
    cases (hz.number_only hn).1
  rw [retryPolicySchema, hz.object_of _ _ retryPolicyShape_proper]
  simp only [retryPolicyShape, Zod.readFields, hnull, hrefused, Option.bind_none, Option.bind_fun_none]

/-- What the schema is to read of a printed document. -/
def input (d : JobDocument) : ParsedJobInput where
  id := d.id
  name := d.name
  version := d.version
  description := d.description
  tasks := d.tasks
  constraints := d.constraints
  retryPolicy := some d.retryPolicy.kept
  allowedTransitions := d.allowedTransitions
  metadata := d.metadata

theorem keys_fields (d : JobDocument) : (d.fields.map Prod.fst).Nodup := by simp [fields]

theorem Registrable.readsBack (hz : z.Laws) (h : Registrable handlers d)
    (hfinite : d.retryPolicy.backoffMultiplier.toRat?.isSome = true)
    (hproto : ∀ p ∈ d.metadata.entries, p.1 ≠ "__proto__") :
    z.ReadsBack (jobDefinitionInputSchema z) d.toValue d.input := by
  refine hz.readsBack_object jobDefinitionInputShape_proper ?_
  have hkeys := keys_fields d
  have hversion := hz.readsBack_whole h.version (by simp)
  rw [h.version.unsigned_eq (by simp)] at hversion
  have htasks : z.ReadsBack (z.array 1 (taskSchema z)) (.array none (d.tasks.map fun t => .object none (taskFields t)))
      d.tasks :=
    hz.readsBack_array (List.length_pos_of_ne_nil h.nonempty) fun t ht => (h.tasks t ht).readsBack hz
  have hpolicy := h.policy.readsBack hz hfinite
  have hdescription (s : String) : z.ReadsBack (z.string 0) (.string s) s := hz.readsBack_text s
  simp only [jobDefinitionInputShape, Zod.readFields, Option.bind_some, Option.bind_assoc, Option.bind_eq_some_iff,
    Option.some.injEq]
  exact ⟨_, field_kept hkeys (by decide) (by simp [fields]) (hz.readsBack_nonempty h.id), _,
    field_kept hkeys (by decide) (by simp [fields]) (hz.readsBack_nonempty h.name), _,
    field_kept hkeys (by decide) (by simp [fields]) hversion, _,
    hz.optional_kept hkeys (by decide) (by simp [fields, ofOptional]) fun s _ => hdescription s, _,
    field_kept hkeys (by decide) (by simp [fields]) htasks, _,
    hz.default_kept hkeys (by decide) (by simp [fields])
      (hz.readsBack_array (Nat.zero_le _) fun c _ => readsBack_constraint hz c), _,
    hz.present_kept hkeys (by decide) (by simp [fields]) hpolicy, _,
    hz.default_kept hkeys (by decide) (by simp [fields]) (readsBack_ofTexts hz d.allowedTransitions), _,
    hz.default_kept hkeys (by decide) (by simp [fields]) (hz.readsBack_record hproto), rfl⟩

theorem lost (hz : z.Laws) {s : Bool} (hinfinite : d.retryPolicy.backoffMultiplier = .infinity s) :
    z.parse (jobDefinitionInputSchema z) (.object none (Js.inKeyOrder (Js.canonicalProps d.fields))) = none := by
  have hpolicy : z.parse (z.optional (retryPolicySchema z))
      ((Value.object none (Js.inKeyOrder (Js.canonicalProps d.fields))).get "retryPolicy") = none := by
    rw [Zod.Laws.get_kept (keys_fields d) (by decide) (v := .object none (policyFields d.retryPolicy))
      (by simp [fields]), Js.canonical, Option.getD_some, hz.optional_of _ (by simp), policy_lost hz hinfinite]
    rfl
  rw [jobDefinitionInputSchema, hz.object_of _ _ jobDefinitionInputShape_proper]
  simp only [jobDefinitionInputShape, Zod.readFields, hpolicy, Option.bind_none, Option.bind_fun_none]

/-- A sound policy has a finite multiplier or `Infinity`. -/
theorem SoundPolicy.multiplier_cases (h : SoundPolicy p) :
    p.backoffMultiplier.toRat?.isSome = true ∨ p.backoffMultiplier = .infinity false := by
  have hleast := h.backoffMultiplier.pass List.mem_cons_self
  cases hn : p.backoffMultiplier with
  | finite q => exact .inl rfl
  | negZero => exact .inl rfl
  | infinity s =>
    rw [hn] at hleast
    cases s with
    | false => exact .inr rfl
    | true => cases hleast
  | nan => exact absurd hn h.backoffMultiplier.ne_nan

/-- The executor's policy obeys the schema of `Jobs`. -/
theorem SoundPolicy.policy (h : SoundPolicy p) (hfinite : p.backoffMultiplier.toRat?.isSome = true) :
    Jobflow.retryPolicySchema p.policy = true := by
  obtain ⟨q, hq⟩ := Option.isSome_iff_exists.1 hfinite
  have hleast := (Number.le_iff rfl hq).1 (h.backoffMultiplier.pass List.mem_cons_self)
  have hlow := h.maxAttempts.le_whole (b := 1) (by simp) (by simp)
  have hhigh := h.maxAttempts.whole_le (b := 20) (by simp) (by simp)
  have hinitial := h.initialDelayMs.le_whole (b := 0) (by simp) (by simp)
  have hmaxDelay := h.maxDelayMs.le_whole (b := 0) (by simp) (by simp)
  simp [Jobflow.retryPolicySchema, RetryPolicyDocument.policy, hq, hleast, hlow, hhigh, hinitial, hmaxDelay]

/-- What is registered of a document whose multiplier is finite is registered as `Jobs` has it. -/
theorem register_document (hz : z.Laws) {v : Value} (hv : IsData v) {now : ISODateString}
    (h : register z handlers v now = .ok d) (hfinite : d.retryPolicy.backoffMultiplier.toRat?.isSome = true) :
    ∃ input, JobService.register handlers input now = .ok d.definition := by
  obtain ⟨parsed, hparsed, hknown, rfl, hvalid, horder⟩ := register_ok h
  have hinput := jobDefinitionInputSchema_sound hz hv hparsed
  let input : JobDefinitionInput :=
    { id := parsed.id, name := parsed.name, version := wholeOf parsed.version, tasks := parsed.tasks,
      constraints := parsed.constraints, retryPolicy := parsed.retryPolicy.map RetryPolicyDocument.policy }
  have htasks : parsed.tasks.all Jobflow.taskSchema = true := List.all_eq_true.2 fun t ht => by
    have hsound := hinput.tasks t ht
    have hint : t.timeoutMs.isInteger = true := hsound.timeoutMs.pass (c := .int) (by simp)
    have hpositive : (Number.finite 0).lt t.timeoutMs = true := hsound.timeoutMs.pass (c := .positive) (by simp)
    simp [Jobflow.taskSchema, hsound.id, hsound.name, hsound.handler, hint, hpositive]
  have hpolicy : (parsed.retryPolicy.map RetryPolicyDocument.policy).all Jobflow.retryPolicySchema = true := by
    cases hp : parsed.retryPolicy with
    | none => rfl
    | some p =>
      have hmultiplier : p.backoffMultiplier.toRat?.isSome = true := by simpa [ofInput, hp] using hfinite
      exact (hinput.policy p hp).policy hmultiplier
  have hversion : 0 < wholeOf parsed.version := hinput.version.whole_pos (by simp) (by simp)
  have hschema : Jobflow.jobDefinitionInputSchema input = true := by
    simp [Jobflow.jobDefinitionInputSchema, input, hinput.id, hinput.name, hversion, hinput.nonempty, htasks, hpolicy]
  have hdefault : DEFAULT_RETRY_POLICY.policy = Jobflow.DEFAULT_RETRY_POLICY := by decide +kernel
  have hsame : (parsed.retryPolicy.getD DEFAULT_RETRY_POLICY).policy =
      (parsed.retryPolicy.map RetryPolicyDocument.policy).getD Jobflow.DEFAULT_RETRY_POLICY := by
    cases parsed.retryPolicy with
    | none => exact hdefault
    | some p => rfl
  have hdefinition : (ofInput handlers parsed now).definition =
      { id := input.id, name := input.name, version := input.version,
        tasks := input.tasks.map (HandlerResolver.resolveTask handlers), constraints := input.constraints,
        retryPolicy := input.retryPolicy.getD Jobflow.DEFAULT_RETRY_POLICY, createdAt := now, updatedAt := now } := by
    rw [← hsame]
    rfl
  refine ⟨input, ?_⟩
  rw [hdefinition] at hvalid ⊢
  unfold JobService.register parseJobDefinitionInput
  rw [if_pos hschema]
  show (input.tasks.forM (fun t => HandlerRegistry.assertKnown handlers t.handler) >>= fun _ => _) = _
  have hknown' : input.tasks.forM (fun t => HandlerRegistry.assertKnown handlers t.handler) = .ok () := hknown
  have horder' : JobDefinitionValidator.validateDependencyOrder
      (input.tasks.map (HandlerResolver.resolveTask handlers)) = .ok () := horder
  rw [hknown']
  simp only [bind, Except.bind, hvalid, horder']

/-- The executor does not see the sign of a zero. -/
theorem policy_kept (p : RetryPolicyDocument) : p.kept.policy = p.policy := by
  simp only [RetryPolicyDocument.policy, RetryPolicyDocument.kept, wholeOf, Number.toRat?_unsigned]

/-- A registrable document passes every check again. -/
theorem Registrable.register_input (h : Registrable handlers d) {v : Value}
    (hread : z.parse (jobDefinitionInputSchema z) v = some d.input) (now : ISODateString) :
    register z handlers v now = .ok (d.again now) := by
  have hsame : ofInput handlers d.input now = d.again now := by
    have hcapped : d.input.tasks.map (HandlerResolver.resolveTask handlers) = d.tasks := h.capped
    rw [ofInput, hcapped]
    rfl
  have hdefinition : (d.again now).definition = { d.definition with createdAt := now, updatedAt := now } := by
    have hpolicy := policy_kept d.retryPolicy
    simp only [definition, again, hpolicy]
  have hknown : d.input.tasks.forM (fun t => HandlerRegistry.assertKnown handlers t.handler) = .ok () := h.known
  have hvalid : JobDefinitionValidator.validate (ofInput handlers d.input now).definition = .ok () := by
    rw [hsame, hdefinition]
    exact h.valid
  have horder : JobDefinitionValidator.validateDependencyOrder (ofInput handlers d.input now).tasks = .ok () := by
    rw [hsame]
    exact h.order
  rw [← hsame]
  simp only [register, parse, hread, hknown, hvalid, horder, bind, Except.bind]

end

end JobDocument

/-! ## A file of a job -/

/-- What goes wrong with the text of a job. -/
inductive ImportError where
  | unreadable
  | syntaxError
  | rejected (e : JobflowError)

/-- `jobs.register(JSON.parse(text))`. -/
def JobDocument.registerText (z : Zod) (handlers : List HandlerManifestEntry) (text : List Char)
    (now : ISODateString) : Except ImportError JobDocument :=
  match Js.parse text with
  | none => .error .syntaxError
  | some input => (register z handlers input now).mapError .rejected

open JobDocument

section
variable {z : Zod} {handlers : List HandlerManifestEntry} {text : List Char} {now : ISODateString} {d : JobDocument}

theorem ok_of_toOption {x : Except ImportError JobDocument} (h : x.toOption = some d) : x = .ok d := by
  cases x with
  | error e => cases h
  | ok d' => exact congrArg _ (Option.some.inj h)

theorem registerText_ok (h : registerText z handlers text now = .ok d) :
    ∃ input, IsData input ∧ register z handlers input now = .ok d := by
  unfold registerText at h
  cases hparse : Js.parse text with
  | none => simp [hparse] at h
  | some input =>
    rw [hparse] at h
    refine ⟨input, Js.isData_of_parse hparse, ?_⟩
    cases hregister : register z handlers input now with
    | error e => simp [hregister, Except.mapError] at h
    | ok d' => simpa [hregister, Except.mapError] using h

/-- What is parsed of a printed document. -/
theorem JobDocument.Registrable.parse_print (h : Registrable handlers d) :
    Js.parse d.print = some (.object none (Js.inKeyOrder (Js.canonicalProps d.fields))) := by
  have hprinted : (Js.serialize d.toValue).isSome = true := by
    rw [← Js.JsonParser.canonical_isSome]
    rfl
  obtain ⟨text, htext⟩ := Option.isSome_iff_exists.1 hprinted
  obtain ⟨w, hw, hparse⟩ := Js.parse_serialize h.isData.isValue htext
  obtain rfl := Option.some.inj hw
  rw [print, Js.textOf, htext]
  exact hparse

/-- **A registered job comes back from its text**: registered again, the printed definition is the same but for its
times and the sign of a zero, or refused if its multiplier is infinite. -/
theorem job_document_round_trip (hz : z.Laws) (hcaps : ∀ h ∈ handlers, h.cap.isInteger = true)
    (h : registerText z handlers text now = .ok d) (hproto : ∀ p ∈ d.metadata.entries, p.1 ≠ "__proto__")
    (later : ISODateString) :
    registerText z handlers d.print later =
      if d.retryPolicy.backoffMultiplier = .infinity false then .error (.rejected .zodError)
      else .ok (d.again later) := by
  obtain ⟨input, hinput, hregister⟩ := registerText_ok h
  have hd := register_registrable hz hcaps hinput hregister
  rw [registerText, hd.parse_print]
  rcases hd.policy.multiplier_cases with hfinite | hinfinite
  · obtain ⟨w, hw, hread⟩ := hd.readsBack hz hfinite hproto
    obtain rfl := Option.some.inj hw
    have hne : d.retryPolicy.backoffMultiplier ≠ .infinity false := by
      intro hinfinite
      rw [hinfinite] at hfinite
      cases hfinite
    rw [if_neg hne]
    dsimp only
    rw [hd.register_input hread later]
    rfl
  · have hlost := lost hz hinfinite
    rw [if_pos hinfinite]
    simp [register, parse, hlost, bind, Except.bind, Except.mapError]

end

/-- A job whose multiplier is as given. -/
def sampleJobText (multiplier : String) : List Char :=
  "\x7b\"id\":\"j\",\"name\":\"J\",\"version\":1,\"tasks\":[\x7b\"id\":\"a\",\"name\":\"A\",".toList ++
    "\"handler\":\"invoice.fetch\",\"timeoutMs\":90000\x7d],\"metadata\":\x7b\"b\":\"x\",\"7\":\"y\"\x7d,".toList ++
    "\"retryPolicy\":\x7b\"maxAttempts\":2,\"initialDelayMs\":-0,\"backoffMultiplier\":".toList ++
    multiplier.toList ++ ",\"maxDelayMs\":10\x7d\x7d".toList

theorem caps_builtin : ∀ h ∈ BUILTIN_HANDLERS, h.cap.isInteger = true := by decide +kernel

/-- The same job twice, with a multiplier and with one no number is; its delay is a negative zero. -/
theorem job_document_round_trip_sample :
    (∃ d, registerText .plain BUILTIN_HANDLERS (sampleJobText "1.5") "t" = .ok d ∧
      d.retryPolicy.initialDelayMs = .negZero ∧ registerText .plain BUILTIN_HANDLERS d.print "u" = .ok (d.again "u")) ∧
    ∃ d, registerText .plain BUILTIN_HANDLERS (sampleJobText "1e400") "t" = .ok d ∧
      registerText .plain BUILTIN_HANDLERS d.print "u" = .error (.rejected .zodError) := by
  have hfinite : (registerText .plain BUILTIN_HANDLERS (sampleJobText "1.5") "t").toOption.any (fun d =>
      d.retryPolicy.backoffMultiplier ≠ .infinity false ∧ d.retryPolicy.initialDelayMs = .negZero ∧
        ∀ p ∈ d.metadata.entries, p.1 ≠ "__proto__") = true := by decide +kernel
  have hinfinite : (registerText .plain BUILTIN_HANDLERS (sampleJobText "1e400") "t").toOption.any (fun d =>
      d.retryPolicy.backoffMultiplier = .infinity false ∧ ∀ p ∈ d.metadata.entries, p.1 ≠ "__proto__") = true := by
    decide +kernel
  obtain ⟨d, hd, hsample⟩ := (Option.any_eq_true _ _).1 hfinite
  obtain ⟨e, he, hsample'⟩ := (Option.any_eq_true _ _).1 hinfinite
  obtain ⟨hmultiplier, hdelay, hproto⟩ := of_decide_eq_true hsample
  obtain ⟨hmultiplier', hproto'⟩ := of_decide_eq_true hsample'
  refine ⟨⟨d, ok_of_toOption hd, hdelay, ?_⟩, e, ok_of_toOption he, ?_⟩
  · rw [job_document_round_trip Zod.laws_plain caps_builtin (ok_of_toOption hd) hproto "u", if_neg hmultiplier]
  · rw [job_document_round_trip Zod.laws_plain caps_builtin (ok_of_toOption he) hproto' "u", if_pos hmultiplier']

end Jobflow
