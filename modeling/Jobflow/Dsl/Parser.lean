import Jobflow.Lib.TokenLoop
import Jobflow.Domain
import Jobflow.Dsl.Lexer

/-!
# Workflow DSL: the parser (src/dsl/parser.ts, src/dsl/ast.ts)

The parser's `i` is kept as the tokens that are left. No function below takes the `eof` token, so the list is never
empty. Each `while` loop is a `loopUntil`, and the four nested loops share one bound `fuel`.
-/

namespace Jobflow.Dsl

open Js (Exception Number)
open TokenLoop

/-! ## Syntax trees -/

structure TaskDslNode where
  id : String
  handler : String
  timeoutMs : Number
  dependsOn : List String
  optional : Bool
  deriving DecidableEq

structure ConstraintDslNode where
  id : String
  expr : String
  severity : Severity
  deriving DecidableEq

structure WorkflowDslNode where
  name : String
  version : Number
  tasks : List TaskDslNode
  constraints : List ConstraintDslNode
  deriving DecidableEq

/-! ## Single tokens -/

def peek : List DslToken → DslToken
  | [] => ⟨.eof, "", ⟨0, 0⟩⟩
  | t :: _ => t

def peekKeyword (kw : String) (ts : List DslToken) : Bool :=
  (peek ts).type = .keyword && (peek ts).value = kw

/-- `expect` (parser.ts:125-130). -/
def expect (type : DslTokenType) (ts : List DslToken) : Except Halt (DslToken × List DslToken) :=
  let t := peek ts
  if t.type ≠ type then
    .error (.error ("expected " ++ type.text ++ ", got " ++ t.type.text ++ " (" ++ t.value ++ ")"))
  else .ok (t, ts.tail)

def expectKeyword (kw : String) (ts : List DslToken) : Except Halt (List DslToken) := do
  let (t, ts) ← expect .keyword ts
  if t.value ≠ kw then .error (.error ("expected keyword " ++ kw)) else .ok ts

def expectIdent (ts : List DslToken) : Except Halt (String × List DslToken) := do
  let (t, ts) ← expect .ident ts
  .ok (t.value, ts)

def expectIdentOrString (ts : List DslToken) : Except Halt (String × List DslToken) :=
  let t := peek ts
  if t.type = .ident ∨ t.type = .string then .ok (t.value, ts.tail)
  else .error (.error ("expected ident or string, got " ++ t.type.text))

/-- The test of a loop `while (this.peek().type !== type)`. -/
def peekIs (type : DslTokenType) (ts : List DslToken) : Bool := (peek ts).type = type

/-- The four lines each declaration begins with: `expectKeyword(kw)`, `expectIdent()`, `expect("colon")`,
`expect("lbrace")`. -/
def opening (kw : String) (ts : List DslToken) : Except Halt (String × List DslToken) := do
  let ts ← expectKeyword kw ts
  let (id, ts) ← expectIdent ts
  let (_, ts) ← expect .colon ts
  let (_, ts) ← expect .lbrace ts
  .ok (id, ts)

/-- `expectKeyword(kw)`, `expect("colon")`, `expect(type)`: a field `kw: value`. -/
def field (kw : String) (type : DslTokenType) (ts : List DslToken) : Except Halt (DslToken × List DslToken) := do
  let ts ← expectKeyword kw ts
  let (_, ts) ← expect .colon ts
  expect type ts

/-! ## `parseTask` -/

/-- The local variables of `parseTask` that its loop sets. -/
structure TaskFields where
  handler : String := ""
  timeoutMs : Number := .finite 30000
  dependsOn : List String := []
  optional : Bool := false

/-- One round of the loop over a `depends` list (parser.ts:54-57). -/
def dependsItem (dependsOn : List String) (ts : List DslToken) : Except Halt (List String × List DslToken) := do
  let (id, ts) ← expectIdentOrString ts
  if (peek ts).type = .comma then do
    let (_, ts) ← expect .comma ts
    .ok (dependsOn ++ [id], ts)
  else .ok (dependsOn ++ [id], ts)

/-- One round of the loop of `parseTask` (parser.ts:43-65). -/
def taskField (fuel : Nat) (f : TaskFields) (ts : List DslToken) : Except Halt (TaskFields × List DslToken) :=
  if peekKeyword "handler" ts then do
    let (t, ts) ← field "handler" .string ts
    .ok ({ f with handler := t.value }, ts)
  else if peekKeyword "timeout" ts then do
    let (t, ts) ← field "timeout" .number ts
    .ok ({ f with timeoutMs := .parse t.value }, ts)
  else if peekKeyword "depends" ts then do
    let (_, ts) ← field "depends" .lbracket ts
    let (dependsOn, ts) ← loopUntil .outOfFuel (peekIs .rbracket) dependsItem fuel f.dependsOn ts
    let (_, ts) ← expect .rbracket ts
    .ok ({ f with dependsOn }, ts)
  else if peekKeyword "optional" ts then do
    let ts ← expectKeyword "optional" ts
    .ok ({ f with optional := true }, ts)
  else .error (.error ("unknown task field near " ++ (peek ts).value))

/-- `parseTask` (parser.ts:34-69). -/
def parseTask (fuel : Nat) (ts : List DslToken) : Except Halt (TaskDslNode × List DslToken) := do
  let (id, ts) ← opening "task" ts
  let (f, ts) ← loopUntil .outOfFuel (peekIs .rbrace) (taskField fuel) fuel {} ts
  let (_, ts) ← expect .rbrace ts
  if f.handler = "" then .error (.error ("task " ++ id ++ " missing handler"))
  else .ok (⟨id, f.handler, f.timeoutMs, f.dependsOn, f.optional⟩, ts)

/-! ## `parseConstraint` -/

/-- The local variables of `parseConstraint` that its loop sets. -/
structure ConstraintFields where
  expr : String := ""
  severity : Severity := .block

/-- One round of the loop of `parseConstraint` (parser.ts:78-90). There is no last `else`: any other token stays. -/
def constraintField (c : ConstraintFields) (ts : List DslToken) : Except Halt (ConstraintFields × List DslToken) :=
  if peekKeyword "expr" ts then do
    let (t, ts) ← field "expr" .string ts
    .ok ({ c with expr := t.value }, ts)
  else if peekKeyword "warn" ts then do
    let ts ← expectKeyword "warn" ts
    .ok ({ c with severity := .warn }, ts)
  else if peekKeyword "block" ts then do
    let ts ← expectKeyword "block" ts
    .ok ({ c with severity := .block }, ts)
  else .ok (c, ts)

/-- `parseConstraint` (parser.ts:71-93). -/
def parseConstraint (fuel : Nat) (ts : List DslToken) : Except Halt (ConstraintDslNode × List DslToken) := do
  let (id, ts) ← opening "constraint" ts
  let (c, ts) ← loopUntil .outOfFuel (peekIs .rbrace) constraintField fuel {} ts
  let (_, ts) ← expect .rbrace ts
  .ok (⟨id, c.expr, c.severity⟩, ts)

/-! ## `parse` -/

/-- What the loop of `parse` collects. -/
structure WorkflowBody where
  tasks : List TaskDslNode := []
  constraints : List ConstraintDslNode := []

/-- One round of the loop of `parse` (parser.ts:20-28). -/
def declaration (fuel : Nat) (b : WorkflowBody) (ts : List DslToken) : Except Halt (WorkflowBody × List DslToken) :=
  if peekKeyword "task" ts then do
    let (task, ts) ← parseTask fuel ts
    .ok ({ b with tasks := b.tasks ++ [task] }, ts)
  else if peekKeyword "constraint" ts then do
    let (c, ts) ← parseConstraint fuel ts
    .ok ({ b with constraints := b.constraints ++ [c] }, ts)
  else .error (.error ("unexpected token in workflow body: " ++ (peek ts).value))

/-- `parse` after the source is tokenized. What is left of the tokens at the end is not looked at. -/
def parseTokens (fuel : Nat) (ts : List DslToken) : Except Halt (WorkflowDslNode × List DslToken) := do
  let (name, ts) ← opening "workflow" ts
  let (version, ts) ← field "version" .number ts
  let (b, ts) ← loopUntil .outOfFuel (peekIs .rbrace) (declaration fuel) fuel {} ts
  let (_, ts) ← expect .rbrace ts
  .ok (⟨name, .parse version.value, b.tasks, b.constraints⟩, ts)

/-- `WorkflowDslParser.parse` (parser.ts:9-32). -/
def parse (fuel : Nat) (source : String) : Except Halt WorkflowDslNode := do
  let ts ← tokenize fuel source
  let (node, _) ← parseTokens fuel ts
  .ok node

end Jobflow.Dsl
