import Jobflow.Js.KeptFields
import Jobflow.Redaction

/-!
# Run bundles (src/lib/run-serializer.ts)

`serialize` prints a run and its workflow, whatever objects hold them; `deserialize` parses a text and looks at its
version only. What such an object says is read by its fields (`JobRun.read`, `WorkflowInstance.read`), in any order and
beside any others. All of it comes back, but for what JSON does not keep of an input, a context or an output
(`bundle_round_trip`).
-/

namespace Jobflow

open Js (Value Record Number IsValue IsData)

/-! ## The source -/

namespace RunSerializer

/-- The object `serialize` makes (run-serializer.ts:13-18). -/
def bundleObject (run workflow : Value) (now : ISODateString) : Record :=
  [("version", .number (.finite 1)), ("run", run), ("workflow", workflow), ("exportedAt", .string now)]

/-- `serialize` (run-serializer.ts:12-20). -/
def serialize (run workflow : Value) (now : ISODateString) : List Char :=
  (Js.stringify [' ', ' '] [] (.object none (bundleObject run workflow now))).getD "undefined".toList

/-- What `deserialize` throws. -/
inductive BundleError where
  | syntaxError
  | thrown (e : Js.Exception)

/-- `parsed.version`. -/
def versionOf : Value → Except Js.Exception Value
  | .null => .error (.typeError "Cannot read properties of null (reading 'version')")
  | v => .ok (v.get "version")

/-- `v !== 1`. -/
def isNotOne : Value → Bool
  | .number n => !n.eq (.finite 1)
  | _ => true

/-- `deserialize` (run-serializer.ts:22-26). -/
def deserialize (raw : List Char) : Except BundleError Value :=
  match Js.parse raw with
  | none => .error .syntaxError
  | some parsed =>
    match versionOf parsed with
    | .error e => .error (.thrown e)
    | .ok version =>
      if isNotOne version then
        match version.toText with
        | .error e => .error (.thrown e)
        | .ok text => .error (.thrown (.error ("unsupported bundle version " ++ text)))
      else .ok parsed

end RunSerializer

/-! ## What an object says -/

def textAt (props : Record) (key : String) : Option String :=
  match Value.own props key with
  | some (.string s) => some s
  | _ => none

/-- A field that may be missing. -/
def optionalAt {α : Type} (read : Value → Option α) (props : Record) (key : String) : Option (Option α) :=
  match Value.own props key with
  | none | some .undefined => some none
  | some v => (read v).map some

def asText : Value → Option String
  | .string s => some s
  | _ => none

def asRecord : Value → Option Record
  | .object _ props => some props
  | _ => none

def recordAt (props : Record) (key : String) : Option Record := (Value.own props key).bind asRecord

def countAt (props : Record) (key : String) : Option Nat :=
  match Value.own props key with
  | some (.number (.finite q)) => if q.den = 1 ∧ 0 ≤ q.num then some q.num.toNat else none
  | _ => none

def itemsAt {α : Type} (read : Value → Option α) (props : Record) (key : String) : Option (List α) :=
  match Value.own props key with
  | some (.array _ items) => items.mapM read
  | _ => none

def WorkflowState.ofText (text : String) : Option WorkflowState :=
  [.draft, .pending, .running, .waiting, .completed, .failed, .cancelled, .deadLettered].find? (·.text = text)

def TaskStatus.ofText (text : String) : Option TaskStatus :=
  [.queued, .running, .succeeded, .failed, .skipped, .retrying].find? (·.text = text)

def JobRun.read : Value → Option JobRun
  | .object _ props => do
    some { id := ← textAt props "id"
           jobId := ← textAt props "jobId"
           workflowId := ← textAt props "workflowId"
           status := ← (textAt props "status").bind WorkflowState.ofText
           startedAt := ← textAt props "startedAt"
           finishedAt := ← optionalAt asText props "finishedAt"
           trigger := ← textAt props "trigger"
           input := ← recordAt props "input" }
  | _ => none

def TaskRun.read : Value → Option TaskRun
  | .object _ props => do
    some { id := ← textAt props "id"
           runId := ← textAt props "runId"
           definitionTaskId := ← textAt props "definitionTaskId"
           handler := ← textAt props "handler"
           status := ← (textAt props "status").bind TaskStatus.ofText
           attempt := ← countAt props "attempt"
           startedAt := ← optionalAt asText props "startedAt"
           finishedAt := ← optionalAt asText props "finishedAt"
           output := ← optionalAt asRecord props "output"
           errorMessage := ← optionalAt asText props "errorMessage" }
  | _ => none

def WorkflowHistoryEntry.read : Value → Option WorkflowHistoryEntry
  | .object _ props => do
    some { timestamp := ← textAt props "at"
           fromState := ← (textAt props "from").bind WorkflowState.ofText
           toState := ← (textAt props "to").bind WorkflowState.ofText
           event := ← textAt props "event"
           actor := ← textAt props "actor"
           note := ← optionalAt asText props "note" }
  | _ => none

def WorkflowInstance.read : Value → Option WorkflowInstance
  | .object _ props => do
    some { id := ← textAt props "id"
           jobId := ← textAt props "jobId"
           runId := ← textAt props "runId"
           state := ← (textAt props "state").bind WorkflowState.ofText
           context := ← recordAt props "context"
           tasks := ← itemsAt TaskRun.read props "tasks"
           history := ← itemsAt WorkflowHistoryEntry.read props "history"
           version := ← countAt props "version"
           createdAt := ← textAt props "createdAt"
           updatedAt := ← textAt props "updatedAt" }
  | _ => none

def SerializedRunBundle.read : Value → Option SerializedRunBundle
  | .object _ props => do
    some { version := ← countAt props "version"
           run := ← (Value.own props "run").bind JobRun.read
           workflow := ← (Value.own props "workflow").bind WorkflowInstance.read
           exportedAt := ← textAt props "exportedAt" }
  | _ => none

/-! ## What JSON keeps of it -/

def keptRecord (props : Record) : Record := Js.inKeyOrder (Js.canonicalProps props)

def JobRun.kept (r : JobRun) : JobRun := { r with input := keptRecord r.input }

def TaskRun.kept (t : TaskRun) : TaskRun := { t with output := t.output.map keptRecord }

def WorkflowInstance.kept (w : WorkflowInstance) : WorkflowInstance :=
  { w with context := keptRecord w.context, tasks := w.tasks.map TaskRun.kept }

section
variable {props : Record} {key : String} {v : Value}

theorem own_keptRecord (h : (props.map Prod.fst).Nodup) :
    Value.own (keptRecord props) key = (Value.own props key).bind Js.canonical := Js.own_kept h

theorem textAt_kept {text : String} (hkeys : (props.map Prod.fst).Nodup) (h : textAt props key = some text) :
    textAt (keptRecord props) key = some text := by
  unfold textAt at h ⊢
  rw [own_keptRecord hkeys]
  split at h
  · rename_i s hown
    rw [hown]
    exact h
  · cases h

theorem recordAt_kept {inner : Record} (hkeys : (props.map Prod.fst).Nodup) (h : recordAt props key = some inner) :
    recordAt (keptRecord props) key = some (keptRecord inner) := by
  unfold recordAt at h ⊢
  obtain ⟨v, hown, hv⟩ := Option.bind_eq_some_iff.1 h
  rw [own_keptRecord hkeys, hown]
  cases v with
  | object ref inner' =>
    obtain rfl := Option.some.inj hv
    rfl
  | _ => cases hv

theorem countAt_kept {n : Nat} (hkeys : (props.map Prod.fst).Nodup) (h : countAt props key = some n) :
    countAt (keptRecord props) key = some n := by
  unfold countAt at h ⊢
  rw [own_keptRecord hkeys]
  split at h
  · rename_i q hown
    rw [hown]
    exact h
  · cases h

theorem optionalAt_kept {α : Type} {read : Value → Option α} {keep : α → α} {a : Option α}
    (hkeys : (props.map Prod.fst).Nodup) (hread : ∀ {v a}, v ≠ .undefined → read v = some a →
      ∃ w, Js.canonical v = some w ∧ w ≠ .undefined ∧ read w = some (keep a)) (h : optionalAt read props key = some a) :
    optionalAt read (keptRecord props) key = some (a.map keep) := by
  unfold optionalAt at h ⊢
  rw [own_keptRecord hkeys]
  split at h
  · rename_i hown
    obtain rfl := Option.some.inj h
    simp [hown]
  · rename_i hown
    obtain rfl := Option.some.inj h
    simp [hown, Js.canonical]
  · rename_i v hne hown
    obtain ⟨b, hb, rfl⟩ := Option.map_eq_some_iff.1 h
    obtain ⟨w, hw, hdefined, hread'⟩ := hread (fun heq => hne heq) hb
    rw [hown, Option.bind_some, hw]
    cases w <;> simp_all

theorem optionalText_kept {text : Option String} (hkeys : (props.map Prod.fst).Nodup)
    (h : optionalAt asText props key = some text) : optionalAt asText (keptRecord props) key = some text := by
  have hkept := @optionalAt_kept props key _ asText id text hkeys (fun {v a} _ hv => ?_) h
  · rwa [Option.map_id] at hkept
  · cases v with
    | string s => exact ⟨.string s, rfl, by simp, hv⟩
    | _ => cases hv

theorem optionalRecord_kept {inner : Option Record} (hkeys : (props.map Prod.fst).Nodup)
    (h : optionalAt asRecord props key = some inner) :
    optionalAt asRecord (keptRecord props) key = some (inner.map keptRecord) := by
  refine optionalAt_kept hkeys (fun {v a} _ hv => ?_) h
  cases v with
  | object ref inner' =>
    obtain rfl := Option.some.inj hv
    exact ⟨_, rfl, by simp, rfl⟩
  | _ => cases hv

end

/-! ## What comes back -/

/-- Of a value of an object, what is read comes back kept. -/
def ComesBack {α : Type} (read : Value → Option α) (keep : α → α) : Prop :=
  ∀ {v : Value} {a : α}, IsValue v → read v = some a → ∃ w, Js.canonical v = some w ∧ read w = some (keep a)

theorem keys_nodup_of_isValue {ref : Option String} {props : Record} (h : IsValue (.object ref props)) :
    (props.map Prod.fst).Nodup := by
  cases h with
  | object hkeys _ => exact hkeys

theorem JobRun.read_kept : ComesBack JobRun.read JobRun.kept := by
  intro v r hv h
  cases v with
  | object ref props =>
    have hkeys := keys_nodup_of_isValue hv
    refine ⟨_, rfl, ?_⟩
    simp only [JobRun.read, Option.bind_eq_bind, Option.bind_eq_some_iff, Option.some.injEq] at h ⊢
    obtain ⟨id, hid, jobId, hjobId, workflowId, hworkflowId, status, ⟨text, htext, hstatus⟩, startedAt, hstartedAt,
      finishedAt, hfinishedAt, trigger, htrigger, input, hinput, rfl⟩ := h
    exact ⟨id, textAt_kept hkeys hid, jobId, textAt_kept hkeys hjobId, workflowId, textAt_kept hkeys hworkflowId,
      status, ⟨text, textAt_kept hkeys htext, hstatus⟩, startedAt, textAt_kept hkeys hstartedAt, finishedAt,
      optionalText_kept hkeys hfinishedAt, trigger, textAt_kept hkeys htrigger, _, recordAt_kept hkeys hinput, rfl⟩
  | _ => cases h

theorem TaskRun.read_kept : ComesBack TaskRun.read TaskRun.kept := by
  intro v t hv h
  cases v with
  | object ref props =>
    have hkeys := keys_nodup_of_isValue hv
    refine ⟨_, rfl, ?_⟩
    simp only [TaskRun.read, Option.bind_eq_bind, Option.bind_eq_some_iff, Option.some.injEq] at h ⊢
    obtain ⟨id, hid, runId, hrunId, taskId, htaskId, handler, hhandler, status, ⟨text, htext, hstatus⟩, attempt,
      hattempt, startedAt, hstartedAt, finishedAt, hfinishedAt, output, houtput, message, hmessage, rfl⟩ := h
    exact ⟨id, textAt_kept hkeys hid, runId, textAt_kept hkeys hrunId, taskId, textAt_kept hkeys htaskId, handler,
      textAt_kept hkeys hhandler, status, ⟨text, textAt_kept hkeys htext, hstatus⟩, attempt,
      countAt_kept hkeys hattempt, startedAt, optionalText_kept hkeys hstartedAt, finishedAt, optionalText_kept hkeys hfinishedAt, _,
      optionalRecord_kept hkeys houtput, message, optionalText_kept hkeys hmessage, rfl⟩
  | _ => cases h

theorem WorkflowHistoryEntry.read_kept : ComesBack WorkflowHistoryEntry.read id := by
  intro v e hv h
  cases v with
  | object ref props =>
    have hkeys := keys_nodup_of_isValue hv
    refine ⟨_, rfl, ?_⟩
    simp only [WorkflowHistoryEntry.read, Option.bind_eq_bind, Option.bind_eq_some_iff, Option.some.injEq] at h ⊢
    obtain ⟨timestamp, htimestamp, fromState, ⟨text, htext, hfrom⟩, toState, ⟨text', htext', hto⟩, event, hevent, actor,
      hactor, note, hnote, rfl⟩ := h
    exact ⟨timestamp, textAt_kept hkeys htimestamp, fromState, ⟨text, textAt_kept hkeys htext, hfrom⟩, toState,
      ⟨text', textAt_kept hkeys htext', hto⟩, event, textAt_kept hkeys hevent, actor, textAt_kept hkeys hactor, note,
      optionalText_kept hkeys hnote, rfl⟩
  | _ => cases h

theorem mapM_kept {α : Type} {read : Value → Option α} {keep : α → α} (hread : ComesBack read keep) :
    ∀ {items : List Value} {as : List α}, (∀ v ∈ items, IsValue v) → items.mapM read = some as →
      (Js.canonicalItems items).mapM read = some (as.map keep)
  | [], as, _, h => by
    obtain rfl := Option.some.inj h
    rfl
  | v :: items, as, hvalues, h => by
    simp only [List.mapM_cons, Option.bind_eq_bind, Option.bind_eq_some_iff, Option.pure_def, Option.some.injEq] at h
    obtain ⟨a, ha, as', has', rfl⟩ := h
    obtain ⟨w, hw, hread'⟩ := hread (hvalues v List.mem_cons_self) ha
    have ih := mapM_kept hread (fun v hv => hvalues v (List.mem_cons_of_mem _ hv)) has'
    simp [Js.canonicalItems, hw, hread', ih]

theorem itemsAt_kept {α : Type} {read : Value → Option α} {keep : α → α} (hread : ComesBack read keep)
    {ref : Option String} {props : Record} {key : String} {as : List α} (hv : IsValue (.object ref props))
    (h : itemsAt read props key = some as) : itemsAt read (keptRecord props) key = some (as.map keep) := by
  have hkeys := keys_nodup_of_isValue hv
  unfold itemsAt at h ⊢
  rw [own_keptRecord hkeys]
  split at h
  · rename_i ref' items hown
    have hitems : ∀ v ∈ items, IsValue v := by
      cases hv with
      | object _ hprops =>
        have hvalue := hprops _ ((Js.own_eq_some_iff hkeys).1 hown)
        cases hvalue with
        | array hitems => exact hitems
    rw [hown]
    exact mapM_kept hread hitems h
  · cases h

theorem WorkflowInstance.read_kept : ComesBack WorkflowInstance.read WorkflowInstance.kept := by
  intro v w hv h
  cases v with
  | object ref props =>
    have hkeys := keys_nodup_of_isValue hv
    refine ⟨_, rfl, ?_⟩
    simp only [WorkflowInstance.read, Option.bind_eq_bind, Option.bind_eq_some_iff, Option.some.injEq] at h ⊢
    obtain ⟨id, hid, jobId, hjobId, runId, hrunId, state, ⟨text, htext, hstate⟩, context, hcontext, tasks, htasks,
      history, hhistory, version, hversion, createdAt, hcreatedAt, updatedAt, hupdatedAt, rfl⟩ := h
    have hhistory' := itemsAt_kept WorkflowHistoryEntry.read_kept hv hhistory
    rw [List.map_id] at hhistory'
    exact ⟨id, textAt_kept hkeys hid, jobId, textAt_kept hkeys hjobId, runId, textAt_kept hkeys hrunId, state,
      ⟨text, textAt_kept hkeys htext, hstate⟩, _, recordAt_kept hkeys hcontext, _,
      itemsAt_kept TaskRun.read_kept hv htasks, history, hhistory', version, countAt_kept hkeys hversion, createdAt,
      textAt_kept hkeys hcreatedAt, updatedAt, textAt_kept hkeys hupdatedAt, rfl⟩
  | _ => cases h

open RunSerializer

section
variable {run workflow : Value} {now : ISODateString}

theorem isValue_bundleObject (hrun : IsValue run) (hworkflow : IsValue workflow) :
    IsValue (.object none (bundleObject run workflow now)) := by
  refine .object (by simp [bundleObject]) fun p hp => ?_
  simp only [bundleObject, List.mem_cons, List.not_mem_nil, or_false] at hp
  rcases hp with rfl | rfl | rfl | rfl
  · exact .number fun q h => by cases h; decide +kernel
  · exact hrun
  · exact hworkflow
  · exact .string now

/-- A bundle of what JSON keeps is what it keeps of the bundle. -/
theorem canonical_bundleObject {run' workflow' : Value} (hrun : Js.canonical run = some run')
    (hworkflow : Js.canonical workflow = some workflow') :
    Js.canonical (.object none (bundleObject run workflow now)) =
      some (.object none (bundleObject run' workflow' now)) := by
  have hprops : Js.canonicalProps (bundleObject run workflow now) = bundleObject run' workflow' now := by
    simp [bundleObject, Js.canonicalProps, hrun, hworkflow, Js.canonical, Number.unsigned]
  have horder : Js.inKeyOrder (bundleObject run' workflow' now) = bundleObject run' workflow' now := by
    refine @Js.inKeyOrder_append _ [] _ (List.forall_mem_nil _) ?_ List.Pairwise.nil
    simp only [List.forall_mem_cons]
    exact ⟨by decide, by decide, by decide, by decide, List.forall_mem_nil _⟩
  rw [Js.canonical, hprops, horder]

theorem serialize_eq (run workflow : Value) (now : ISODateString) :
    Js.stringify [' ', ' '] [] (.object none (bundleObject run workflow now)) = some (serialize run workflow now) := rfl

theorem deserialize_bundle {text : List Char}
    (h : Js.parse text = some (.object none (bundleObject run workflow now))) :
    deserialize text = .ok (.object none (bundleObject run workflow now)) := by
  rw [deserialize, h]
  rfl

/-- **A run bundle comes back**, if run and workflow are plain data: as what JSON keeps of them, which prints the same
again; and no text that lacks its end is taken for a bundle. -/
theorem bundle_round_trip (hrun : IsData run) (hworkflow : IsData workflow) {r : JobRun} {w : WorkflowInstance}
    (hr : JobRun.read run = some r) (hw : WorkflowInstance.read workflow = some w) (now : ISODateString) :
    (∃ bundle, deserialize (serialize run workflow now) = .ok bundle ∧
      SerializedRunBundle.read bundle = some ⟨1, r.kept, w.kept, now⟩ ∧
      serialize (bundle.get "run") (bundle.get "workflow") now = serialize run workflow now) ∧
    ∀ t, t <+: serialize run workflow now → t ≠ serialize run workflow now →
      deserialize t = .error .syntaxError := by
  obtain ⟨run', hrun', hr'⟩ := JobRun.read_kept hrun.isValue hr
  obtain ⟨workflow', hworkflow', hw'⟩ := WorkflowInstance.read_kept hworkflow.isValue hw
  have hvalue := @isValue_bundleObject run workflow now hrun.isValue hworkflow.isValue
  have hcanonical := @canonical_bundleObject run workflow now run' workflow' hrun' hworkflow'
  have htext := serialize_eq run workflow now
  constructor
  · obtain ⟨v, hv, hparse⟩ := Js.parse_stringify Js.JsonParser.blank_spaces hvalue htext
    rw [hcanonical] at hv
    obtain rfl := Option.some.inj hv
    refine ⟨_, deserialize_bundle hparse, ?_, ?_⟩
    · simp [SerializedRunBundle.read, bundleObject, countAt, textAt, hr', hw']
    · have hsame := @Js.stringify_canonical [' ', ' '] _ _ [] hcanonical
      rw [htext] at hsame
      exact Option.some.inj ((serialize_eq run' workflow' now).symm.trans hsame)
  · intro t ht hne
    rw [deserialize, Js.parse_prefix_of_stringify Js.JsonParser.blank_spaces hvalue htext ht hne]

end

/-- Only version 1 is read. -/
theorem deserialize_version {raw : List Char} {bundle : Value} (h : deserialize raw = .ok bundle) :
    bundle.get "version" = .number (.finite 1) := by
  unfold deserialize at h
  split at h
  · cases h
  · rename_i parsed _
    split at h
    · cases h
    · rename_i version hversion
      split at h
      · split at h <;> cases h
      · rename_i hone
        obtain rfl := Except.ok.inj h
        have hget : parsed.get "version" = version := by
          cases parsed <;> first | exact Except.ok.inj hversion | cases hversion
        rw [hget]
        cases version with
        | number n =>
          cases n with
          | finite q =>
            simp only [isNotOne, Number.eq, Number.toRat?, Option.getD_some, Bool.not_eq_true,
              Bool.not_eq_false'] at hone
            rw [of_decide_eq_true hone]
          | _ => simp [isNotOne, Number.eq, Number.toRat?] at hone
        | _ => simp [isNotOne] at hone

/-! ## A bundle -/

/-- A run as an object; its input has a field that JSON does not keep. -/
def runSample : Value :=
  .object none
    [("id", .string "run_1"), ("jobId", .string "job_1"), ("workflowId", .string "wf_1"),
      ("status", .string "completed"), ("startedAt", .string "2026-01-01T00:00:00.000Z"),
      ("finishedAt", .undefined), ("trigger", .string "manual"),
      ("input", .object none [("ok", .bool true), ("token", .undefined)])]

def workflowSample : Value :=
  .object none
    [("id", .string "wf_1"), ("jobId", .string "job_1"), ("runId", .string "run_1"), ("state", .string "completed"),
      ("context", .object none [("secret", .string "x")]), ("tasks", .array none []), ("history", .array none []),
      ("version", .number (.finite 1)), ("createdAt", .string "2026-01-01T00:00:00.000Z"),
      ("updatedAt", .string "2026-01-01T00:00:00.000Z")]

theorem isData_samples : IsData runSample ∧ IsData workflowSample := by
  have hinput : IsData (.object none [("ok", .bool true), ("token", .undefined)]) :=
    .object (by decide) (by simp [IsData.bool, IsData.undefined])
  have hcontext : IsData (.object none [("secret", .string "x")]) := .object (by decide) (by simp [IsData.string])
  have hempty : IsData (.array none []) := .array (by simp)
  have hone : IsData (.number (.finite 1)) := .number fun q h => by cases h; decide +kernel
  constructor
  · exact .object (by decide) (by simp [IsData.string, IsData.undefined, hinput])
  · exact .object (by decide) (by simp [IsData.string, hcontext, hempty, hone])

theorem bundle_round_trip_sample : ∃ r w bundle, JobRun.read runSample = some r ∧ r.kept.input = [("ok", .bool true)] ∧
    WorkflowInstance.read workflowSample = some w ∧
    deserialize (serialize runSample workflowSample "2026-06-01T00:00:00.000Z") = .ok bundle ∧
    SerializedRunBundle.read bundle = some ⟨1, r.kept, w.kept, "2026-06-01T00:00:00.000Z"⟩ := by
  obtain ⟨⟨bundle, hbundle, hread, _⟩, _⟩ :=
    bundle_round_trip isData_samples.1 isData_samples.2 rfl rfl "2026-06-01T00:00:00.000Z"
  exact ⟨_, _, bundle, rfl, rfl, rfl, hbundle, hread⟩

end Jobflow
