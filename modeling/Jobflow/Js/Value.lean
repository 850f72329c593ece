import Jobflow.Js.Number

/-!
# JavaScript values

The values an interpreter of JSON data meets: `undefined`, JSON values, and the few built-in objects
and functions that property lookup reaches through a prototype. An object lists its own properties
in order; `ref` names the heap object, so that `==` on objects compares identities (`none` is a
fresh object nothing else refers to).

`Value.get` is `v[key]` on objects: own properties first, then the prototype chain.
-/

namespace Js

/-- A thrown exception: its constructor's name and its message. -/
structure Exception where
  name : String
  message : String
  deriving DecidableEq

def Exception.error (message : String) : Exception := ⟨"Error", message⟩
def Exception.typeError (message : String) : Exception := ⟨"TypeError", message⟩

/-- Built-in objects reachable from plain data. -/
inductive Native where
  | function (name : String)
  | objectPrototype
  | arrayPrototype
  deriving DecidableEq

inductive Value where
  | undefined
  | null
  | bool (b : Bool)
  | number (n : Number)
  | string (s : String)
  | array (ref : Option String) (items : List Value)
  | object (ref : Option String) (props : List (String × Value))
  | native (n : Native)

/-- The own properties of an object. -/
abbrev Record := List (String × Value)

namespace Value

/-! ## Types and truth -/

/-- `typeof v === "object"` (true of `null` too). -/
def isObjectType : Value → Bool
  | .null | .array _ _ | .object _ _ | .native .objectPrototype | .native .arrayPrototype => true
  | _ => false

/-- `Boolean(v)`. -/
def truthy : Value → Bool
  | .undefined | .null => false
  | .bool b => b
  | .number n => n.truthy
  | .string s => s ≠ ""
  | _ => true

/-- `v === undefined || v === null || v === ""`. -/
def isMissing : Value → Bool
  | .undefined | .null => true
  | .string s => s = ""
  | _ => false

/-! ## Property lookup -/

/-- Own property names of `Object.prototype`; all but `__proto__` hold functions. -/
def objectPrototypeNames : List String :=
  ["constructor", "__defineGetter__", "__defineSetter__", "hasOwnProperty", "__lookupGetter__",
   "__lookupSetter__", "isPrototypeOf", "propertyIsEnumerable", "toString", "valueOf", "toLocaleString"]

/-- Own function properties of `Array.prototype`. -/
def arrayPrototypeNames : List String :=
  ["at", "concat", "constructor", "copyWithin", "entries", "every", "fill", "filter", "find", "findIndex",
   "findLast", "findLastIndex", "flat", "flatMap", "forEach", "includes", "indexOf", "join", "keys",
   "lastIndexOf", "map", "pop", "push", "reduce", "reduceRight", "reverse", "shift", "slice", "some", "sort",
   "splice", "toLocaleString", "toReversed", "toSorted", "toSpliced", "toString", "unshift", "values", "with"]

/-- The own property `key` of a property list. -/
def own (props : Record) (key : String) : Option Value := (props.find? (fun p => p.1 = key)).map Prod.snd

/-- Lookup that ends in `Object.prototype`; `proto` is what the `__proto__` getter answers. -/
def getFromObjectPrototype (proto : Value) (key : String) : Value :=
  if key = "__proto__" then proto
  else if key ∈ objectPrototypeNames then .native (.function ("Object.prototype." ++ key))
  else .undefined

def getFromArrayPrototype (proto : Value) (key : String) : Value :=
  if key ∈ arrayPrototypeNames then .native (.function ("Array.prototype." ++ key))
  else getFromObjectPrototype proto key

/-- The array index a property key spells in canonical decimal form. -/
def arrayIndex (key : String) : Option Nat :=
  match Number.digitsIn 10 key.toList with
  | some n => if Nat.toDigits 10 n = key.toList then some n else none
  | none => none

/-- `v[key]` for a `v` of object type (`undefined` elsewhere, where the callers do not ask). -/
def get (v : Value) (key : String) : Value :=
  match v with
  | .object _ props => (own props key).getD (getFromObjectPrototype (.native .objectPrototype) key)
  | .array _ items =>
    if key = "length" then .number (.ofInt items.length)
    else match (arrayIndex key).bind (items[·]?) with
      | some item => item
      | none => getFromArrayPrototype (.native .arrayPrototype) key
  | .native .objectPrototype => getFromObjectPrototype .null key
  | .native .arrayPrototype =>
    if key = "length" then .number (.finite 0) else getFromArrayPrototype (.native .objectPrototype) key
  | _ => .undefined

/-! ## Conversions -/

def cannotConvert : Exception := .typeError "Cannot convert object to primitive value"

/-- The name of a function known by its dotted path; a prototype's constructor has a name of its own. -/
def functionName (path : String) : String :=
  if path = "Object.prototype.constructor" then "Object"
  else if path = "Array.prototype.constructor" then "Array"
  else (path.splitOn ".").getLast?.getD path

/-- `function name() { [native code] }`. -/
def functionText (path : String) : String := "function " ++ functionName path ++ "() { [native code] }"

mutual

/-- `String(v)`: data objects print through `Object.prototype.toString` unless an own, and then
uncallable, `toString` is in the way; arrays join their items. -/
def toText : Value → Except Exception String
  | .undefined => .ok "undefined"
  | .null => .ok "null"
  | .bool b => .ok (if b then "true" else "false")
  | .number n => .ok n.toText
  | .string s => .ok s
  | .object _ props => if (own props "toString").isSome then .error cannotConvert else .ok "[object Object]"
  | .array _ items => do .ok (",".intercalate (← itemTexts items))
  | .native (.function path) => .ok (functionText path)
  | .native .objectPrototype => .ok "[object Object]"
  | .native .arrayPrototype => .ok ""

/-- The pieces `Array.prototype.join` puts together: `null` and `undefined` print as nothing. -/
def itemTexts : List Value → Except Exception (List String)
  | [] => .ok []
  | v :: vs => do
    let t ← match v with
      | .undefined | .null => .ok ""
      | v => toText v
    let ts ← itemTexts vs
    .ok (t :: ts)

end

/-- `Number(v)`. -/
def toNumber : Value → Except Exception Number
  | .undefined => .ok .nan
  | .null => .ok (.finite 0)
  | .bool b => .ok (.finite (if b then 1 else 0))
  | .number n => .ok n
  | .string s => .ok (.parse s)
  | v => do .ok (.parse (← toText v))

def sameRef : Option String → Option String → Bool
  | some r, some r' => r = r'
  | _, _ => false

/-- `l == r`. -/
def looseEq (l r : Value) : Except Exception Bool :=
  match l, r with
  | .undefined, .undefined | .undefined, .null | .null, .undefined | .null, .null => .ok true
  | .undefined, _ | .null, _ | _, .undefined | _, .null => .ok false
  | .number x, .number y => .ok (x.eq y)
  | .string s, .string t => .ok (s = t)
  | .bool a, .bool b => .ok (a = b)
  | .native m, .native n => .ok (m = n)
  | .object i _, .object j _ | .array i _, .array j _ => .ok (sameRef i j)
  | .object _ _, .array _ _ | .array _ _, .object _ _ => .ok false
  | .native _, .object _ _ | .native _, .array _ _ | .object _ _, .native _ | .array _ _, .native _ => .ok false
  | .string s, v | v, .string s =>
    match v with
    | .number n => .ok ((Number.parse s).eq n)
    | .bool b => .ok ((Number.parse s).eq (.finite (if b then 1 else 0)))
    | v => do .ok ((← toText v) = s)
  | l, r => do .ok ((← toNumber l).eq (← toNumber r))

/-- `text.length`, in UTF-16 code units. -/
def utf16Length (s : String) : Nat := s.toList.foldl (fun n c => n + if c.toNat ≤ 0xFFFF then 1 else 2) 0

/-! ## Reading back -/

@[simp] theorem get_object (ref : Option String) (props : Record) (key : String) :
    (Value.object ref props).get key =
      (own props key).getD (getFromObjectPrototype (.native .objectPrototype) key) := rfl

@[simp] theorem own_cons (p : String × Value) (props : Record) (key : String) :
    own (p :: props) key = if p.1 = key then some p.2 else own props key := by
  by_cases h : p.1 = key <;> simp [own, h]

/-- A value that is neither missing nor truthy is `false`, a zero or NaN. -/
theorem not_truthy_not_missing {v : Value} :
    v.truthy = false ∧ v.isMissing = false ↔ v = .bool false ∨ ∃ n, v = .number n ∧ (n.isNaN ∨ n.isZero) := by
  cases v with
  | number n => cases hn : n.isNaN <;> simp [truthy, isMissing, Number.truthy, hn]
  | _ => simp [truthy, isMissing]

theorem missing_not_truthy {v : Value} (h : v.isMissing = true) : v.truthy = false := by
  cases v <;> simp_all [truthy, isMissing]

end Value

end Js
