import Jobflow.ObjectDiff
import Jobflow.Workers

/-!
# Redaction (src/lib/run-serializer.ts, src/handlers/implementations/onboard-validate.ts)

`redact` deletes keys from the context and the input of a copy of the bundle. What one of the keys holds further down,
or in the output of a task, stays (`redact_hides_iff`).
-/

namespace Jobflow

open Js (Value Record Exception IsValue)

/-! ## The source -/

/-- `SerializedRunBundle` (run-serializer.ts:4-9). -/
structure SerializedRunBundle where
  version : Nat
  run : JobRun
  workflow : WorkflowInstance
  exportedAt : ISODateString

mutual

/-- `structuredClone(v)`: the same contents in new objects. It throws on a function. -/
def structuredClone : Value → Option Value
  | .native (.function _) => none
  | .native .objectPrototype => some (.object none [])
  | .native .arrayPrototype => some (.array none [])
  | .array _ items => (cloneItems items).map (.array none)
  | .object _ props => (cloneProps props).map (.object none)
  | .undefined => some .undefined
  | .null => some .null
  | .bool b => some (.bool b)
  | .number n => some (.number n)
  | .string s => some (.string s)

def cloneItems : List Value → Option (List Value)
  | [] => some []
  | v :: vs => do
    let item ← structuredClone v
    some (item :: (← cloneItems vs))

def cloneProps : Record → Option Record
  | [] => some []
  | (key, v) :: props => do
    let value ← structuredClone v
    some ((key, value) :: (← cloneProps props))

end

def cloneTask (t : TaskRun) : Option TaskRun :=
  match t.output with
  | none => some t
  | some output => do some { t with output := some (← cloneProps output) }

def cloneTasks : List TaskRun → Option (List TaskRun)
  | [] => some []
  | t :: ts => do
    let task ← cloneTask t
    some (task :: (← cloneTasks ts))

/-- `structuredClone` of a bundle. -/
def SerializedRunBundle.clone (b : SerializedRunBundle) : Option SerializedRunBundle := do
  let input ← cloneProps b.run.input
  let context ← cloneProps b.workflow.context
  let tasks ← cloneTasks b.workflow.tasks
  some { b with run := { b.run with input }, workflow := { b.workflow with context, tasks } }

/-- `delete props[key]`: own properties only. -/
def deleteKey (key : String) (props : Record) : Record := props.filter (·.1 ≠ key)

/-- What one round of the loop does to the clone. -/
def SerializedRunBundle.redactKey (key : String) (clone : SerializedRunBundle) : SerializedRunBundle :=
  let clone :=
    if hasKey key (.object none clone.workflow.context) then
      { clone with workflow := { clone.workflow with context := deleteKey key clone.workflow.context } }
    else clone
  if hasKey key (.object none clone.run.input) then
    { clone with run := { clone.run with input := deleteKey key clone.run.input } }
  else clone

/-- Bundles by their addresses. Each has its own objects, and no object is in two places of a bundle: its input, its
context and its outputs share none. So it is in a bundle that was deserialized. -/
abbrev Memory := List SerializedRunBundle

/-- `RunSerializer.redact` (run-serializer.ts:28-35) of the bundle at an address; it returns the clone's address.
`structuredClone` would keep what input and context share, so a key deleted from one would go from the other too. -/
def redact (m : Memory) (bundle : Nat) (keys : List String) : Option (Memory × Nat) := do
  let clone ← (← m[bundle]?).clone
  let address := m.length
  some (keys.foldl (fun m key => m.modify address (·.redactKey key)) (m ++ [clone]), address)

/-- `OnboardValidateHandler.computeRiskScore` (onboard-validate.ts:15-20). -/
def computeRiskScore (customerId : String) (input : Record) : Nat :=
  let score := Value.utf16Length customerId % 40
  let score :=
    match (Value.object none input).get "country" with
    | .string "XX" => score + 30
    | _ => score
  let score :=
    match (Value.object none input).get "highRiskIndustry" with
    | .bool true => score + 25
    | _ => score
  min 100 score

/-- `String(ctx.input.customerId ?? "")`. -/
def customerIdOf (input : Record) : Except Exception String :=
  match (Value.object none input).get "customerId" with
  | .undefined | .null => .ok ""
  | v => v.toText

/-- `OnboardValidateHandler.execute` (onboard-validate.ts:7-13). -/
def OnboardValidateHandler.execute (ctx : HandlerContext) (now : ISODateString) : Except Exception HandlerResult := do
  let customerId ← customerIdOf ctx.input
  let fail (message : String) : HandlerResult := ⟨false, [("error", .string message)]⟩
  if customerId = "" then return fail "customerId required"
  let riskScore := computeRiskScore customerId ctx.input
  if riskScore > 85 then return fail s!"risk score {riskScore} exceeds threshold"
  return ⟨true, [("customerId", .string customerId), ("riskScore", .number (.finite riskScore)),
    ("validatedAt", .string now)]⟩

/-- The output of a validated customer names the customer. -/
theorem execute_customerId {ctx : HandlerContext} {now : ISODateString} {r : HandlerResult}
    (h : OnboardValidateHandler.execute ctx now = .ok r) (hsuccess : r.success = true) :
    ∃ customerId, customerIdOf ctx.input = .ok customerId ∧
      Value.own r.output "customerId" = some (.string customerId) := by
  unfold OnboardValidateHandler.execute at h
  cases hid : customerIdOf ctx.input with
  | error e =>
    rw [hid] at h
    cases h
  | ok customerId =>
    rw [hid] at h
    dsimp only [bind, Except.bind, pure, Except.pure] at h
    split_ifs at h
    · obtain rfl := Except.ok.inj h
      cases hsuccess
    · obtain rfl := Except.ok.inj h
      cases hsuccess
    · obtain rfl := Except.ok.inj h
      exact ⟨customerId, rfl, rfl⟩

/-! ## Contents -/

mutual

/-- The contents of a value, whatever objects they are in, with nothing under the keys at any depth. -/
def masked (keys : List String) : Value → Value
  | .native .objectPrototype => .object none []
  | .native .arrayPrototype => .array none []
  | .array _ items => .array none (maskedItems keys items)
  | .object _ props => .object none (maskedProps keys props)
  | v => v

def maskedItems (keys : List String) : List Value → List Value
  | [] => []
  | v :: vs => masked keys v :: maskedItems keys vs

def maskedProps (keys : List String) : Record → Record
  | [] => []
  | (key, v) :: props => (key, if key ∈ keys then .undefined else masked keys v) :: maskedProps keys props

end

def maskedTask (keys : List String) (t : TaskRun) : TaskRun := { t with output := t.output.map (maskedProps keys) }

def SerializedRunBundle.masked (keys : List String) (b : SerializedRunBundle) : SerializedRunBundle :=
  { b with
    run := { b.run with input := maskedProps keys b.run.input }
    workflow :=
      { b.workflow with
        context := maskedProps keys b.workflow.context
        tasks := b.workflow.tasks.map (maskedTask keys) } }

mutual

/-- A function is somewhere in it. -/
def hasFunction : Value → Bool
  | .native (.function _) => true
  | .array _ items => itemsHaveFunction items
  | .object _ props => propsHaveFunction props
  | _ => false

def itemsHaveFunction : List Value → Bool
  | [] => false
  | v :: vs => hasFunction v || itemsHaveFunction vs

def propsHaveFunction : Record → Bool
  | [] => false
  | (_, v) :: props => hasFunction v || propsHaveFunction props

end

def SerializedRunBundle.hasFunction (b : SerializedRunBundle) : Bool :=
  propsHaveFunction b.run.input || propsHaveFunction b.workflow.context ||
    b.workflow.tasks.any fun t => t.output.any propsHaveFunction

mutual

/-- A clone has the contents. -/
theorem structuredClone_eq : ∀ v, structuredClone v = if hasFunction v then none else some (masked [] v)
  | .native (.function _) | .native .objectPrototype | .native .arrayPrototype | .undefined | .null | .bool _
  | .number _ | .string _ => rfl
  | .array _ items => by
    rw [structuredClone, cloneItems_eq items, hasFunction, masked]
    split_ifs <;> rfl
  | .object _ props => by
    rw [structuredClone, cloneProps_eq props, hasFunction, masked]
    split_ifs <;> rfl

theorem cloneItems_eq : ∀ items,
    cloneItems items = if itemsHaveFunction items then none else some (maskedItems [] items)
  | [] => rfl
  | v :: vs => by
    rw [cloneItems, structuredClone_eq v, cloneItems_eq vs, itemsHaveFunction, maskedItems]
    cases hasFunction v <;> cases itemsHaveFunction vs <;> rfl

theorem cloneProps_eq : ∀ props,
    cloneProps props = if propsHaveFunction props then none else some (maskedProps [] props)
  | [] => rfl
  | (_, v) :: props => by
    rw [cloneProps, structuredClone_eq v, cloneProps_eq props, propsHaveFunction, maskedProps]
    cases hasFunction v <;> cases propsHaveFunction props <;> rfl

end

theorem cloneTask_eq (t : TaskRun) :
    cloneTask t = if t.output.any propsHaveFunction then none else some (maskedTask [] t) := by
  obtain ⟨_, _, _, _, _, _, _, _, output, _⟩ := t
  cases output with
  | none => rfl
  | some output =>
    rw [cloneTask]
    dsimp only [Option.any_some]
    rw [cloneProps_eq]
    split_ifs <;> rfl

theorem cloneTasks_eq (ts : List TaskRun) :
    cloneTasks ts =
      if ts.any fun t => t.output.any propsHaveFunction then none else some (ts.map (maskedTask [])) := by
  induction ts with
  | nil => rfl
  | cons t ts ih =>
    rw [cloneTasks, cloneTask_eq, ih, List.any_cons, List.map_cons]
    cases t.output.any propsHaveFunction <;> cases ts.any fun t => t.output.any propsHaveFunction <;> rfl

theorem SerializedRunBundle.clone_eq (b : SerializedRunBundle) :
    b.clone = if b.hasFunction then none else some (b.masked []) := by
  rw [clone, cloneProps_eq, cloneProps_eq, cloneTasks_eq, hasFunction]
  cases propsHaveFunction b.run.input <;> cases propsHaveFunction b.workflow.context <;>
    cases b.workflow.tasks.any fun t => t.output.any propsHaveFunction <;> rfl

/-! ## What the loop does -/

def withoutKeys (keys : List String) (props : Record) : Record := props.filter (·.1 ∉ keys)

/-- The bundle without the properties of its context and its input that have one of the keys. -/
def SerializedRunBundle.withoutKeys (keys : List String) (b : SerializedRunBundle) : SerializedRunBundle :=
  { b with
    run := { b.run with input := Jobflow.withoutKeys keys b.run.input }
    workflow := { b.workflow with context := Jobflow.withoutKeys keys b.workflow.context } }

/-- The deletion is of no effect where the test fails. -/
theorem deleteKey_of_not_hasKey {key : String} {props : Record} (h : hasKey key (.object none props) = false) :
    deleteKey key props = props := by
  have hown : key ∉ props.map Prod.fst := by
    rw [← InsertionMap.lookupIn_eq_none]
    simp only [hasKey, Bool.or_eq_false_iff, Option.isSome_eq_false_iff, Option.isNone_iff_eq_none] at h
    exact h.1.1
  refine List.filter_eq_self.2 fun p hp => decide_eq_true ?_
  rintro rfl
  exact hown (List.mem_map_of_mem hp)

theorem SerializedRunBundle.redactKey_eq (key : String) (b : SerializedRunBundle) :
    b.redactKey key = b.withoutKeys [key] := by
  have hdelete : ∀ props, Jobflow.withoutKeys [key] props = deleteKey key props := by
    intro props
    unfold Jobflow.withoutKeys deleteKey
    simp
  unfold redactKey withoutKeys
  rw [hdelete, hdelete]
  by_cases hcontext : hasKey key (.object none b.workflow.context) = true <;>
    by_cases hinput : hasKey key (.object none b.run.input) = true
  · simp [hcontext, hinput]
  · simp [hcontext, hinput, deleteKey_of_not_hasKey (Bool.not_eq_true _ ▸ hinput)]
  · simp [hcontext, hinput, deleteKey_of_not_hasKey (Bool.not_eq_true _ ▸ hcontext)]
  · simp [hcontext, hinput, deleteKey_of_not_hasKey (Bool.not_eq_true _ ▸ hcontext),
      deleteKey_of_not_hasKey (Bool.not_eq_true _ ▸ hinput)]

theorem withoutKeys_withoutKeys (key : String) (keys : List String) (props : Record) :
    withoutKeys keys (withoutKeys [key] props) = withoutKeys (key :: keys) props := by
  unfold withoutKeys
  rw [List.filter_filter]
  refine List.filter_congr fun p _ => ?_
  simp [Bool.and_comm]

theorem SerializedRunBundle.redact_loop (keys : List String) (m : Memory) (clone : SerializedRunBundle) :
    keys.foldl (fun m' key => m'.modify m.length (·.redactKey key)) (m ++ [clone]) = m ++ [clone.withoutKeys keys] := by
  induction keys generalizing clone with
  | nil =>
    have hall : ∀ props, Jobflow.withoutKeys [] props = props := fun props =>
      List.filter_eq_self.2 fun p _ => decide_eq_true List.not_mem_nil
    rw [List.foldl_nil, withoutKeys, hall, hall]
  | cons key keys ih =>
    have hmodify : (m ++ [clone]).modify m.length (·.redactKey key) = m ++ [clone.withoutKeys [key]] := by
      rw [← redactKey_eq]
      exact List.modifyTailIdx_add _ 0 m [clone]
    rw [List.foldl_cons, hmodify, ih]
    simp only [withoutKeys, withoutKeys_withoutKeys]

/-- The redacted clone is a new bundle, and the others are as they were. -/
theorem redact_eq {m : Memory} {i : Nat} {b : SerializedRunBundle} (hi : m[i]? = some b) (keys : List String) :
    redact m i keys =
      if b.hasFunction then none else some (m ++ [(b.masked []).withoutKeys keys], m.length) := by
  rw [redact, hi]
  dsimp only [Option.bind_eq_bind, Option.bind_some]
  rw [b.clone_eq]
  cases b.hasFunction with
  | true => rfl
  | false => exact congrArg (fun m' => some (m', m.length)) (SerializedRunBundle.redact_loop keys m (b.masked []))

/-! ## Noninterference -/

/-- The bundles differ only in values under the keys, at any depth of the input, the context and the outputs. -/
def DifferUnder (keys : List String) (b b' : SerializedRunBundle) : Prop := b.masked keys = b'.masked keys

def SameContents (v v' : Option Value) : Prop := v.map (masked []) = v'.map (masked [])

/-- And only in properties of the input and of the context themselves. -/
structure DifferAtTop (keys : List String) (b b' : SerializedRunBundle) : Prop where
  input : ∀ key ∉ keys, SameContents (Value.own b.run.input key) (Value.own b'.run.input key)
  context : ∀ key ∉ keys, SameContents (Value.own b.workflow.context key) (Value.own b'.workflow.context key)
  outputs : b.workflow.tasks.map (maskedTask []) = b'.workflow.tasks.map (maskedTask [])

theorem map_fst_maskedProps (keys : List String) (props : Record) :
    (maskedProps keys props).map Prod.fst = props.map Prod.fst := by
  induction props with
  | nil => rfl
  | cons p props ih =>
    obtain ⟨key, v⟩ := p
    rw [maskedProps, List.map_cons, List.map_cons, ih]

theorem withoutKeys_eq_iff {keys : List String} {props props' : Record} (hkeys : (props.map Prod.fst).Nodup)
    (hsame : maskedProps keys props = maskedProps keys props') :
    withoutKeys keys (maskedProps [] props) = withoutKeys keys (maskedProps [] props') ↔
      ∀ key ∉ keys, SameContents (Value.own props key) (Value.own props' key) := by
  induction props generalizing props' with
  | nil =>
    cases props' with
    | nil => exact iff_of_true rfl fun key _ => rfl
    | cons p props' => cases hsame
  | cons p props ih =>
    obtain ⟨key, v⟩ := p
    cases props' with
    | nil => cases hsame
    | cons p' props' =>
      obtain ⟨key', v'⟩ := p'
      rw [maskedProps, maskedProps, List.cons.injEq, Prod.mk.injEq] at hsame
      obtain ⟨⟨rfl, _⟩, hsame⟩ := hsame
      rw [List.map_cons, List.nodup_cons] at hkeys
      have ih := ih hkeys.2 hsame
      -- the others do not have this key
      have hnone : Value.own props key = none ∧ Value.own props' key = none := by
        have hsamekeys := congrArg (List.map Prod.fst) hsame
        rw [map_fst_maskedProps, map_fst_maskedProps] at hsamekeys
        exact ⟨InsertionMap.lookupIn_eq_none.2 hkeys.1, InsertionMap.lookupIn_eq_none.2 (hsamekeys ▸ hkeys.1)⟩
      have hown : ∀ (u : Value) (us : Record) key', Value.own ((key, u) :: us) key' =
          if key = key' then some u else Value.own us key' := fun u us key' =>
        InsertionMap.lookupIn_cons (key, u) us key'
      by_cases hlisted : key ∈ keys
      · have hdrop : ∀ u us, withoutKeys keys (maskedProps [] ((key, u) :: us)) =
            withoutKeys keys (maskedProps [] us) := fun u us => by
          simp [withoutKeys, maskedProps, hlisted]
        rw [hdrop, hdrop, ih]
        refine forall₂_congr fun key' hkey' => ?_
        have hne : key ≠ key' := fun h => hkey' (h ▸ hlisted)
        rw [hown, hown, if_neg hne, if_neg hne]
      · have hkeep : ∀ u us, withoutKeys keys (maskedProps [] ((key, u) :: us)) =
            (key, masked [] u) :: withoutKeys keys (maskedProps [] us) := fun u us => by
          simp [withoutKeys, maskedProps, hlisted]
        rw [hkeep, hkeep, List.cons.injEq, Prod.mk.injEq, ih]
        constructor
        · rintro ⟨⟨_, hv⟩, hrest⟩ key' hkey'
          rw [hown, hown]
          split_ifs with he
          · exact congrArg some hv
          · exact hrest key' hkey'
        · intro h
          refine ⟨⟨rfl, ?_⟩, fun key' hkey' => ?_⟩
          · have hkey := h key hlisted
            rw [hown, hown, if_pos rfl, if_pos rfl] at hkey
            exact Option.some.inj hkey
          · by_cases he : key = key'
            · rw [← he, hnone.1, hnone.2]
              rfl
            · have hkey := h key' hkey'
              rwa [hown, hown, if_neg he, if_neg he] at hkey

theorem redacted_eq_iff {b b' : SerializedRunBundle} {keys : List String} (hinput : (b.run.input.map Prod.fst).Nodup)
    (hcontext : (b.workflow.context.map Prod.fst).Nodup) (hdiffer : DifferUnder keys b b') :
    (b.masked []).withoutKeys keys = (b'.masked []).withoutKeys keys ↔ DifferAtTop keys b b' := by
  simp only [DifferUnder, SerializedRunBundle.masked, SerializedRunBundle.mk.injEq, JobRun.mk.injEq,
    WorkflowInstance.mk.injEq] at hdiffer
  obtain ⟨_, ⟨_, _, _, _, _, _, _, hinputs⟩, ⟨_, _, _, _, hcontexts, _⟩, _⟩ := id hdiffer
  simp only [SerializedRunBundle.withoutKeys, SerializedRunBundle.masked, SerializedRunBundle.mk.injEq, JobRun.mk.injEq,
    WorkflowInstance.mk.injEq, hdiffer, true_and, and_true]
  rw [withoutKeys_eq_iff hinput hinputs, withoutKeys_eq_iff hcontext hcontexts]
  exact ⟨fun h => ⟨h.1, h.2.1, h.2.2⟩, fun h => ⟨h.input, h.context, h.outputs⟩⟩

/-- The redactions of two bundles are equal, and the bundles themselves are as before. -/
def RedactsAlike (m : Memory) (i j : Nat) (keys : List String) : Prop :=
  ∃ m₁ m₂ k l c, redact m i keys = some (m₁, k) ∧ redact m₁ j keys = some (m₂, l) ∧ m₂[k]? = some c ∧ m₂[l]? = some c ∧
    ∀ a < m.length, m₂[a]? = m[a]?

theorem redactsAlike_iff {m : Memory} {i j : Nat} {b b' : SerializedRunBundle} (hi : m[i]? = some b)
    (hj : m[j]? = some b') (keys : List String) :
    RedactsAlike m i j keys ↔ b.hasFunction = false ∧ b'.hasFunction = false ∧
      (b.masked []).withoutKeys keys = (b'.masked []).withoutKeys keys := by
  generalize hc : (b.masked []).withoutKeys keys = c
  generalize hc' : (b'.masked []).withoutKeys keys = c'
  have hlast : ∀ (m : Memory) c, (m ++ [c])[m.length]? = some c := fun m c => by simp
  have hbefore : ∀ {m : Memory} {a x} c, m[a]? = some x → (m ++ [c])[a]? = some x := fun c ha =>
    (List.getElem?_append_left (List.getElem?_eq_some_iff.1 ha).1).trans ha
  unfold RedactsAlike
  rw [redact_eq hi, hc]
  constructor
  · rintro ⟨m₁, m₂, k, l, d, h, h', hk, hl, _⟩
    split_ifs at h with hfunction
    obtain ⟨rfl, rfl⟩ := Prod.mk.inj (Option.some.inj h)
    rw [redact_eq (hbefore c hj), hc'] at h'
    split_ifs at h' with hfunction'
    obtain ⟨rfl, rfl⟩ := Prod.mk.inj (Option.some.inj h')
    rw [hbefore c' (hlast m c)] at hk
    rw [hlast] at hl
    exact ⟨by simpa using hfunction, by simpa using hfunction', Option.some.inj (hk.trans hl.symm)⟩
  · rintro ⟨hfunction, hfunction', rfl⟩
    refine ⟨m ++ [c], m ++ [c] ++ [c], m.length, (m ++ [c]).length, c, ?_, ?_, hbefore c (hlast m c), hlast _ c,
      fun a ha => ?_⟩
    · rw [hfunction]
      rfl
    · rw [redact_eq (hbefore c hj), hc', hfunction']
      rfl
    · rw [List.append_assoc]
      exact List.getElem?_append_left ha

/-- **The redactions of bundles that differ under the keys are equal just if they differ at the top level.** -/
theorem redact_hides_iff {m : Memory} {i j : Nat} {b b' : SerializedRunBundle} {keys : List String}
    (hi : m[i]? = some b) (hj : m[j]? = some b') (hinput : IsValue (.object none b.run.input))
    (hcontext : IsValue (.object none b.workflow.context)) (hdiffer : DifferUnder keys b b') :
    RedactsAlike m i j keys ↔ b.hasFunction = false ∧ b'.hasFunction = false ∧ DifferAtTop keys b b' := by
  have hnodup : ∀ {props : Record}, IsValue (.object none props) → (props.map Prod.fst).Nodup := by
    intro props h
    cases h with
    | object hkeys _ => exact hkeys
  rw [redactsAlike_iff hi hj, redacted_eq_iff (hnodup hinput) (hnodup hcontext) hdiffer]

/-- The bundle of a run for a customer, with the output of its one task. -/
def validated (customerId : String) (output : Record) : SerializedRunBundle where
  version := 1
  run :=
    { id := "run_1"
      jobId := "job_1"
      workflowId := "wf_1"
      status := .completed
      startedAt := "2026-01-01T00:00:00.000Z"
      finishedAt := none
      trigger := "api"
      input := [("customerId", .string customerId)] }
  workflow :=
    { id := "wf_1"
      jobId := "job_1"
      runId := "run_1"
      state := .completed
      context := [("customerId", .string customerId)]
      tasks := [{ createTaskRun "task_1" "run_1" "validate" "onboard.validate" with output := some output }]
      history := []
      version := 1
      createdAt := "2026-01-01T00:00:00.000Z"
      updatedAt := "2026-01-01T00:00:00.000Z" }
  exportedAt := "2026-01-02T00:00:00.000Z"

theorem isValue_customer (customerId : String) : IsValue (.object none [("customerId", .string customerId)]) :=
  .object (by simp) (by simp [IsValue.string])

theorem redact_hides_customer :
    RedactsAlike [validated "a" [("valid", .bool true)], validated "b" [("valid", .bool true)]] 0 1 ["customerId"] := by
  have hother : ∀ customerId, ∀ key ∉ ["customerId"], Value.own [("customerId", .string customerId)] key = none :=
    fun _ _ hkey => InsertionMap.lookupIn_eq_none.2 hkey
  have hsame : ∀ key ∉ ["customerId"], SameContents (Value.own [("customerId", .string "a")] key)
      (Value.own [("customerId", .string "b")] key) := fun key hkey => by
    rw [hother _ key hkey, hother _ key hkey]
    rfl
  refine (redact_hides_iff (by rfl) (by rfl) (isValue_customer "a") (isValue_customer "a") ?_).2
    ⟨by decide, by decide, hsame, hsame, by rfl⟩
  simp [DifferUnder, SerializedRunBundle.masked, validated, maskedProps]

/-- A validated customer's id stays in the output of the task. -/
theorem redact_keeps_output :
    let ctx (customerId : String) : HandlerContext := ⟨"run_1", "task_1", [("customerId", .string customerId)], []⟩
    ∃ r r' : HandlerResult,
      OnboardValidateHandler.execute (ctx "a") "2026-01-01T00:00:00.000Z" = .ok r ∧
      OnboardValidateHandler.execute (ctx "b") "2026-01-01T00:00:00.000Z" = .ok r' ∧
      DifferUnder ["customerId"] (validated "a" r.output) (validated "b" r'.output) ∧
      ¬ RedactsAlike [validated "a" r.output, validated "b" r'.output] 0 1 ["customerId"] := by
  refine ⟨_, _, by rfl, by rfl, ?_, ?_⟩
  · have hscore : computeRiskScore "a" [("customerId", .string "a")] =
        computeRiskScore "b" [("customerId", .string "b")] := by rfl
    simp [DifferUnder, SerializedRunBundle.masked, validated, maskedProps, masked, maskedTask, hscore]
  · rw [redactsAlike_iff (by rfl) (by rfl)]
    rintro ⟨_, _, hsame⟩
    have htasks := congrArg (fun c => c.workflow.tasks) hsame
    simp [SerializedRunBundle.withoutKeys, SerializedRunBundle.masked, validated, maskedTask, maskedProps,
      masked] at htasks

end Jobflow
