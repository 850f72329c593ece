import Jobflow.Domain
import Jobflow.Expressions.Evaluator
import Jobflow.Lib.InsertionMap

/-!
# Transition rules and constraints (src/validators, src/services/rule-engine.ts)
-/

namespace Jobflow

open Js (Value Record)

/-! ## `TransitionValidator` (transition-validator.ts) -/

structure TransitionRule where
  fromState : WorkflowState
  toState : WorkflowState
  event : String
  deriving DecidableEq

def DEFAULT_TRANSITION_RULES : List TransitionRule :=
  [⟨.draft, .pending, "submit"⟩,
   ⟨.pending, .running, "start"⟩,
   ⟨.running, .waiting, "await"⟩,
   ⟨.waiting, .running, "resume"⟩,
   ⟨.running, .completed, "complete"⟩,
   ⟨.running, .failed, "fail"⟩,
   ⟨.waiting, .failed, "fail"⟩,
   ⟨.failed, .running, "retry"⟩,
   ⟨.failed, .deadLettered, "dead_letter"⟩,
   ⟨.pending, .cancelled, "cancel"⟩,
   ⟨.running, .cancelled, "cancel"⟩]

def TransitionValidator.canTransition (rules : List TransitionRule) (fromState toState : WorkflowState)
    (event : String) : Bool :=
  rules.any fun r => r.fromState = fromState && r.toState = toState && r.event = event

def TransitionValidator.assertTransition (rules : List TransitionRule) (fromState toState : WorkflowState)
    (event : String) : Except JobflowError Unit :=
  if canTransition rules fromState toState event then .ok ()
  else .error (.transitionError
    ("transition denied: " ++ fromState.text ++ " -[" ++ event ++ "]-> " ++ toState.text))

theorem TransitionValidator.canTransition_iff {rules : List TransitionRule} {f t : WorkflowState} {e : String} :
    canTransition rules f t e = true ↔ (⟨f, t, e⟩ : TransitionRule) ∈ rules := by
  simp only [canTransition, List.any_eq_true, Bool.and_eq_true, decide_eq_true_eq]
  constructor
  · rintro ⟨r, hr, ⟨rfl, rfl⟩, rfl⟩
    exact hr
  · exact fun h => ⟨_, h, ⟨rfl, rfl⟩, rfl⟩

/-! ## `ConstraintValidator` (constraint-validator.ts) -/

/-- `taskOutputs` maps a task id to its output object. -/
structure ConstraintContext where
  context : Record
  taskOutputs : Record

/-- `RunContextFactory.taskOutputs` (run-context.ts:23-31). -/
def RunContextFactory.taskOutputs (tasks : List TaskRun) : Record :=
  (InsertionMap.ofList (tasks.filterMap fun t =>
    t.output.map fun output => (t.definitionTaskId, Value.object (some t.id) output))).entries

/-- The `evalCtx` object of `evaluateExpression`. -/
def ConstraintValidator.evalCtx (ctx : ConstraintContext) : Record :=
  [("ctx", .object (some "ctx") ctx.context), ("output", .object (some "output") ctx.taskOutputs)]

/-- `ctx.context[key]`. -/
def ConstraintContext.lookup (ctx : ConstraintContext) (key : String) : Value :=
  (Value.object (some "ctx") ctx.context).get key

/-- The `catch` branch (constraint-validator.ts:49-55). -/
def ConstraintValidator.fallback (expr : String) (ctx : ConstraintContext) : Bool :=
  if "ctx.".toList.isPrefixOf expr.toList then (ctx.lookup (String.ofList (expr.toList.drop 4))).isMissing
  else false

/-- `evaluateExpression` (constraint-validator.ts:41-57): is the constraint violated? -/
def ConstraintValidator.evaluateExpression (expr : String) (ctx : ConstraintContext) : Bool :=
  if expr = "always" then true
  else match Expressions.evaluateBoolean expr (evalCtx ctx) with
    | .ok b => b
    | .error _ => fallback expr ctx

structure ConstraintReport where
  warnings : List String
  blocks : List String

/-- `evaluate` (constraint-validator.ts:14-29). -/
def ConstraintValidator.evaluate (constraints : List JobConstraint) (ctx : ConstraintContext) : ConstraintReport :=
  let violated := constraints.filter fun c => evaluateExpression c.expression ctx
  { warnings := (violated.filter fun c => c.severity = .warn).map (·.id)
    blocks := (violated.filter fun c => c.severity ≠ .warn).map (·.id) }

/-- `assertPassing` (constraint-validator.ts:31-39). -/
def ConstraintValidator.assertPassing (constraints : List JobConstraint) (ctx : ConstraintContext) :
    Except JobflowError Unit :=
  let blocks := (evaluate constraints ctx).blocks
  if blocks ≠ [] then
    .error (.executionError .constraintViolation ("constraints blocked: " ++ ", ".intercalate blocks))
  else .ok ()

/-- `RuleEngine.apply` (rule-engine.ts:10-16); the warnings only go to the log. -/
def RuleEngine.apply (definition : JobDefinition) (ctx : ConstraintContext) : Except JobflowError Unit :=
  ConstraintValidator.assertPassing definition.constraints ctx

/-- Some `block` constraint is reported violated. -/
def ConstraintValidator.blocked (constraints : List JobConstraint) (ctx : ConstraintContext) : Bool :=
  constraints.any fun c => c.severity ≠ .warn && evaluateExpression c.expression ctx

theorem ConstraintValidator.blocks_eq_nil {constraints : List JobConstraint} {ctx : ConstraintContext} :
    (evaluate constraints ctx).blocks = [] ↔ blocked constraints ctx = false := by
  simp only [evaluate, blocked, List.map_eq_nil_iff, List.filter_eq_nil_iff, List.mem_filter, List.any_eq_false]
  constructor
  · intro h c hc
    simpa [and_comm] using fun hs he => h c ⟨hc, he⟩ (by simpa using hs)
  · rintro h c ⟨hc, he⟩
    have := h c hc
    simp_all

/-- The rule engine throws exactly when a `block` constraint is violated. -/
theorem RuleEngine.apply_ok {definition : JobDefinition} {ctx : ConstraintContext} :
    (RuleEngine.apply definition ctx = .ok () ↔
      ConstraintValidator.blocked definition.constraints ctx = false) := by
  rw [← ConstraintValidator.blocks_eq_nil, RuleEngine.apply, ConstraintValidator.assertPassing]
  by_cases h : (ConstraintValidator.evaluate definition.constraints ctx).blocks = [] <;> simp [h]

end Jobflow
