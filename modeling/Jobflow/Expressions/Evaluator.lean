import Mathlib.Data.List.Infix
import Jobflow.Expressions.Syntax

/-!
# Evaluating constraint expressions (src/expressions/evaluator.ts, builtins.ts)

`evalNode` follows `ExpressionEvaluator.evalNode` (evaluator.ts:18-38). Names are looked up as
JavaScript does, through the prototype chain, both in the context and in the `BUILTINS` object.
-/

namespace Jobflow.Expressions

open Js

/-! ## Builtins -/

/-- `args[i]`. -/
def argument (args : List Value) (i : Nat) : Value := (args[i]?).getD .undefined

/-- `String(v ?? "")`. -/
def textOrEmpty (v : Value) : Except Exception String :=
  match v with
  | .undefined | .null => .ok ""
  | v => v.toText

/-- `hay.includes(needle)`. -/
def includes (hay needle : String) : Bool := needle.toList <:+: hay.toList

def isempty (args : List Value) : Value := .bool (argument args 0).isMissing

def length (args : List Value) : Value :=
  match argument args 0 with
  | .string s => .number (.ofInt (Value.utf16Length s))
  | .array _ items => .number (.ofInt items.length)
  | _ => .number (.finite 0)

def contains (args : List Value) : Except Exception Value := do
  let hay ← textOrEmpty (argument args 0)
  let needle ← textOrEmpty (argument args 1)
  .ok (.bool (includes hay needle))

def coalesce (args : List Value) : Value := (args.find? (fun v => !v.isMissing)).getD .null

def unknownFunction (name : String) : Exception := .error ("unknown function: " ++ name)

/-- What `BUILTINS[name]` gives and the call `fn(args, ctx)` does with it (evaluator.ts:29-34): the
four builtins are own properties, any other name is looked up in `Object.prototype`, whose functions
are then called without a receiver. -/
def callBuiltin (name : String) : Except Exception (List Value → Except Exception Value) :=
  if name = "isempty" then .ok fun args => .ok (isempty args)
  else if name = "length" then .ok fun args => .ok (length args)
  else if name = "contains" then .ok contains
  else if name = "coalesce" then .ok fun args => .ok (coalesce args)
  else if name = "__proto__" then .ok fun _ => .error (.typeError "fn is not a function")
  else if name = "constructor" then .ok fun args => .ok (.array none args)
  else if name = "toString" then .ok fun _ => .ok (.string "[object Undefined]")
  else if name ∈ Value.objectPrototypeNames then
    .ok fun _ => .error (.typeError "Cannot convert undefined or null to object")
  else .error (unknownFunction name)

/-! ## Names -/

/-- The loop of `resolveIdent` (evaluator.ts:43-46): a step from anything but an object gives `undefined`. -/
def resolvePath : Value → List String → Value
  | cur, [] => cur
  | cur, p :: ps =>
    if cur matches .null | .undefined || !cur.isObjectType then .undefined else resolvePath (cur.get p) ps

/-- `name.split(".")`. -/
def splitDots (name : String) : List String := (name.toList.splitOn '.').map String.ofList

/-- `resolveIdent` (evaluator.ts:40-48). -/
def resolveIdent (name : String) (ctx : Record) : Value := resolvePath (.object none ctx) (splitDots name)

/-! ## Evaluation -/

/-- `Number(v) || 0`. -/
def numberOrZero (v : Value) : Except Exception Number := do
  let n ← v.toNumber
  .ok (if n.truthy then n else .finite 0)

/-- The `switch` of `evalBinary` (evaluator.ts:53-80), both operands already evaluated. -/
def applyBinary (op : String) (l r : Value) : Except Exception Value :=
  let numeric (f : Number → Number → Value) : Except Exception Value := do
    .ok (f (← l.toNumber) (← r.toNumber))
  match op with
  | "==" => do .ok (.bool (← l.looseEq r))
  | "!=" => do .ok (.bool !(← l.looseEq r))
  | "<" => numeric fun x y => .bool (x.lt y)
  | "<=" => numeric fun x y => .bool (x.le y)
  | ">" => numeric fun x y => .bool (y.lt x)
  | ">=" => numeric fun x y => .bool (y.le x)
  | "&&" => .ok (.bool (l.truthy && r.truthy))
  | "||" => .ok (.bool (l.truthy || r.truthy))
  | "+" => numeric fun x y => .number (x.add y)
  | "-" => numeric fun x y => .number (x.sub y)
  | "*" => numeric fun x y => .number (x.mul y)
  | "/" => numeric fun x y => .number (x.div y)
  | op => .error (.error ("unknown operator " ++ op))

mutual

/-- `evalNode`. -/
def evalNode (ctx : Record) : ExprNode → Except Exception Value
  | .literal value => .ok value
  | .ident name => .ok (resolveIdent name ctx)
  | .unary .not arg => do .ok (.bool !(← evalNode ctx arg).truthy)
  | .unary .neg arg => do .ok (.number (← numberOrZero (← evalNode ctx arg)).neg)
  | .binary op left right => do
    let l ← evalNode ctx left
    let r ← evalNode ctx right
    applyBinary op l r
  | .call name args => do
    let fn ← callBuiltin name
    fn (← evalArgs ctx args)

/-- `node.args.map((a) => this.evalNode(a, ctx))`. -/
def evalArgs (ctx : Record) : List ExprNode → Except Exception (List Value)
  | [] => .ok []
  | a :: as => do
    let v ← evalNode ctx a
    let vs ← evalArgs ctx as
    .ok (v :: vs)

end

/-- `ExpressionEvaluator.evaluate` (evaluator.ts:8-11). -/
def evaluate (expression : String) (context : Record) : Except Exception Value := do
  evalNode context (← parse expression)

/-- `ExpressionEvaluator.evaluateBoolean` (evaluator.ts:13-15). -/
def evaluateBoolean (expression : String) (context : Record) : Except Exception Bool := do
  .ok (← evaluate expression context).truthy

/-! ## The path of a name -/

/-- A first part without dots. -/
theorem splitDots_dot {root : String} (hroot : '.' ∉ root.toList) (rest : String) :
    splitDots (root ++ "." ++ rest) = root :: splitDots rest := by
  have hchars : (root ++ "." ++ rest).toList = root.toList ++ '.' :: rest.toList := by simp [String.toList_append]
  have hsplit : (root.toList ++ '.' :: rest.toList).splitOn '.' = root.toList :: rest.toList.splitOn '.' :=
    List.splitOn_append_cons_self_of_not_mem hroot rest.toList
  rw [splitDots, hchars, hsplit, List.map_cons, String.ofList_toList, splitDots]

theorem splitDots_of_not_mem {name : String} (h : '.' ∉ name.toList) : splitDots name = [name] := by
  rw [splitDots, List.splitOn_eq_singleton h]
  simp

end Jobflow.Expressions
