import Jobflow.Expressions.Evaluator

/-!
# What names mean in an expression (src/expressions/evaluator.ts, builtins.ts)

A name is looked up with `cur[p]` and a function with `BUILTINS[name]`, and both go on from own properties to the
prototypes. So a name that neither the context nor the builtins define means nothing unless it leads to an inherited
member (`names_mean_nothing_iff`), and the paths that do are a short list (`inheritedPaths`).
-/

namespace Js.Value

/-- Values that JSON text has. -/
inductive Json : Value → Prop where
  | null : Json .null
  | bool (b : Bool) : Json (.bool b)
  | number (n : Number) : Json (.number n)
  | string (s : String) : Json (.string s)
  | array {ref : Option String} {items : List Value} (h : ∀ v ∈ items, Json v) : Json (.array ref items)
  | object {ref : Option String} {props : Record} (h : ∀ p ∈ props, Json p.2) : Json (.object ref props)

/-- The own property `key` of an object or an array. -/
def ownProperty : Value → String → Option Value
  | .object _ props, key => own props key
  | .array _ items, key =>
    if key = "length" then some (.number (.ofInt items.length)) else (arrayIndex key).bind (items[·]?)
  | _, _ => none

/-- What a path of own properties leads to. -/
def ownPath : Value → List String → Option Value
  | v, [] => some v
  | v, p :: ps => (v.ownProperty p).bind (·.ownPath ps)

theorem own_mem {props : Record} {key : String} {v : Value} (h : own props key = some v) : ∃ k, (k, v) ∈ props := by
  obtain ⟨p, hp, rfl⟩ := Option.map_eq_some_iff.1 h
  exact ⟨p.1, List.mem_of_find?_eq_some hp⟩

theorem ownPath_cons (v : Value) (p : String) (ps : List String) :
    v.ownPath (p :: ps) = (v.ownProperty p).bind (·.ownPath ps) := rfl

theorem Json.ownProperty {v u : Value} {key : String} (hv : v.Json) (h : v.ownProperty key = some u) : u.Json := by
  cases hv with
  | object hprops =>
    obtain ⟨k, hmem⟩ := own_mem h
    exact hprops _ hmem
  | @array ref items hitems =>
    simp only [Value.ownProperty] at h
    split at h
    · obtain rfl := Option.some.inj h
      exact .number _
    · obtain ⟨i, -, hi⟩ := Option.bind_eq_some_iff.1 h
      exact hitems u (List.mem_of_getElem? hi)
  | _ => cases h

/-- Own properties come first. -/
theorem get_of_ownProperty {v u : Value} {key : String} (h : v.ownProperty key = some u) : v.get key = u := by
  cases v with
  | object ref props =>
    rw [get_object, show own props key = some u from h]
    rfl
  | array ref items =>
    simp only [ownProperty] at h
    simp only [get]
    split at h
    · rename_i hlength
      rw [if_pos hlength]
      exact Option.some.inj h
    · rename_i hlength
      rw [if_neg hlength, h]
  | _ => cases h

theorem isObjectType_of_ownProperty {v u : Value} {key : String} (h : v.ownProperty key = some u) :
    v.isObjectType = true := by
  cases v with
  | object | array => rfl
  | _ => cases h

end Js.Value

namespace Jobflow.Expressions

open Js

/-! ## Inherited members -/

/-- The paths to the functions `members` of a prototype, and through its `__proto__` to what is behind it. -/
def through (members : List String) (behind : List (List String)) : List (List String) :=
  members.map ([·]) ++ ["__proto__"] :: behind.map ("__proto__" :: ·)

/-- The paths that lead somewhere from a prototype. -/
def prototypePaths : Native → List (List String)
  | .objectPrototype => through Value.objectPrototypeNames []
  | .arrayPrototype =>
    through ("length" :: Value.arrayPrototypeNames ++ Value.objectPrototypeNames)
      (through Value.objectPrototypeNames [])
  | .function _ => []

/-- The paths from an object or an array that lead somewhere, but not through its own properties. -/
def inheritedPaths : Value → List (List String)
  | .object _ _ => through Value.objectPrototypeNames (prototypePaths .objectPrototype)
  | .array _ _ => through (Value.arrayPrototypeNames ++ Value.objectPrototypeNames) (prototypePaths .arrayPrototype)
  | _ => []

/-- The path leaves the own properties for an inherited member. -/
def Inherits : Value → List String → Prop
  | _, [] => False
  | v, p :: ps => match v.ownProperty p with
    | some u => Inherits u ps
    | none => p :: ps ∈ inheritedPaths v

section
variable {ps : List String}

@[simp] theorem mem_through {members : List String} {behind : List (List String)} {p : String} :
    p :: ps ∈ through members behind ↔ p ∈ members ∧ ps = [] ∨ p = "__proto__" ∧ (ps = [] ∨ ps ∈ behind) := by
  simp only [through, List.mem_append, List.mem_map, List.mem_cons, List.cons.injEq]
  constructor
  · rintro (⟨m, hm, rfl, rfl⟩ | ⟨rfl, rfl⟩ | ⟨qs, hqs, rfl, rfl⟩)
    · exact .inl ⟨hm, rfl⟩
    · exact .inr ⟨rfl, .inl rfl⟩
    · exact .inr ⟨rfl, .inr hqs⟩
  · rintro (⟨hp, rfl⟩ | ⟨rfl, rfl | hps⟩)
    · exact .inl ⟨p, hp, rfl, rfl⟩
    · exact .inr (.inl ⟨rfl, rfl⟩)
    · exact .inr (.inr ⟨ps, hps, rfl, rfl⟩)

@[simp] theorem resolvePath_undefined : resolvePath .undefined ps = .undefined := by
  cases ps <;> simp [resolvePath]

theorem resolvePath_null : resolvePath .null ps ≠ .undefined ↔ ps = [] := by
  cases ps <;> simp [resolvePath]

theorem resolvePath_function {name : String} :
    resolvePath (.native (.function name)) ps ≠ .undefined ↔ ps = [] := by
  cases ps <;> simp [resolvePath, Value.isObjectType]

/-- A lookup that ends in `Object.prototype`, and where the path leads from there. -/
theorem resolvePath_fromObjectPrototype {proto : Value} {behind : List (List String)} {p : String}
    (hproto : resolvePath proto ps ≠ .undefined ↔ ps = [] ∨ ps ∈ behind) :
    resolvePath (Value.getFromObjectPrototype proto p) ps ≠ .undefined ↔
      p :: ps ∈ through Value.objectPrototypeNames behind := by
  rw [mem_through, Value.getFromObjectPrototype]
  by_cases hp : p = "__proto__"
  · subst hp
    have hnot : "__proto__" ∉ Value.objectPrototypeNames := by decide
    rw [if_pos rfl, hproto]
    simp [hnot]
  · rw [if_neg hp]
    by_cases hmem : p ∈ Value.objectPrototypeNames
    · rw [if_pos hmem, resolvePath_function]
      simp [hp, hmem]
    · rw [if_neg hmem]
      simp [hp, hmem]

theorem resolvePath_fromArrayPrototype {proto : Value} {behind : List (List String)} {p : String}
    (hproto : resolvePath proto ps ≠ .undefined ↔ ps = [] ∨ ps ∈ behind) :
    resolvePath (Value.getFromArrayPrototype proto p) ps ≠ .undefined ↔
      p :: ps ∈ through (Value.arrayPrototypeNames ++ Value.objectPrototypeNames) behind := by
  rw [Value.getFromArrayPrototype]
  by_cases hmem : p ∈ Value.arrayPrototypeNames
  · have hp : p ≠ "__proto__" := by
      rintro rfl
      revert hmem
      decide
    rw [if_pos hmem, resolvePath_function]
    simp [hp, hmem]
  · rw [if_neg hmem, resolvePath_fromObjectPrototype hproto]
    simp [hmem]

theorem resolvePath_objectPrototype :
    resolvePath (.native .objectPrototype) ps ≠ .undefined ↔ ps = [] ∨ ps ∈ prototypePaths .objectPrototype := by
  cases ps with
  | nil => simp [resolvePath]
  | cons p ps =>
    have hstep : resolvePath (.native .objectPrototype) (p :: ps) =
        resolvePath (Value.getFromObjectPrototype .null p) ps := by simp [resolvePath, Value.isObjectType, Value.get]
    rw [hstep, resolvePath_fromObjectPrototype (resolvePath_null.trans (by simp : ps = [] ↔ ps = [] ∨ ps ∈ []))]
    simp [prototypePaths]

theorem resolvePath_arrayPrototype :
    resolvePath (.native .arrayPrototype) ps ≠ .undefined ↔ ps = [] ∨ ps ∈ prototypePaths .arrayPrototype := by
  cases ps with
  | nil => simp [resolvePath]
  | cons p ps =>
    have hstep : resolvePath (.native .arrayPrototype) (p :: ps) =
        resolvePath (Value.get (.native .arrayPrototype) p) ps := by simp [resolvePath, Value.isObjectType]
    rw [hstep, Value.get]
    by_cases hlength : p = "length"
    · subst hlength
      have hnumber : resolvePath (.number (.finite 0)) ps ≠ .undefined ↔ ps = [] := by
        cases ps <;> simp [resolvePath, Value.isObjectType]
      rw [if_pos rfl, hnumber]
      simp [prototypePaths]
    · rw [if_neg hlength, resolvePath_fromArrayPrototype resolvePath_objectPrototype]
      simp [prototypePaths, hlength]

/-- Past the own properties of JSON data, a lookup finds what the prototype of an object or an array holds. -/
theorem resolvePath_of_not_own {v : Value} {p : String} (hv : v.Json) (hown : v.ownProperty p = none) :
    resolvePath v (p :: ps) ≠ .undefined ↔ p :: ps ∈ inheritedPaths v := by
  cases hv with
  | @object ref props hprops =>
    have hstep : resolvePath (.object ref props) (p :: ps) =
        resolvePath (Value.getFromObjectPrototype (.native .objectPrototype) p) ps := by
      simp [resolvePath, Value.isObjectType, show Value.own props p = none from hown]
    rw [hstep, resolvePath_fromObjectPrototype resolvePath_objectPrototype, inheritedPaths]
  | @array ref items hitems =>
    have hlength : p ≠ "length" := by
      rintro rfl
      simp [Value.ownProperty] at hown
    rw [Value.ownProperty, if_neg hlength] at hown
    have hstep : resolvePath (.array ref items) (p :: ps) =
        resolvePath (Value.getFromArrayPrototype (.native .arrayPrototype) p) ps := by
      simp [resolvePath, Value.isObjectType, Value.get, hlength, hown]
    rw [hstep, resolvePath_fromArrayPrototype resolvePath_arrayPrototype, inheritedPaths]
  | _ => simp [resolvePath, Value.isObjectType, inheritedPaths]

/-- **Where a lookup goes**: a path that own properties do not have leads to `undefined`, unless it leaves them
for an inherited member. -/
theorem resolvePath_ne_undefined_iff {v : Value} (hv : v.Json) (hown : v.ownPath ps = none) :
    resolvePath v ps ≠ .undefined ↔ Inherits v ps := by
  induction ps generalizing v with
  | nil => cases hown
  | cons p ps ih =>
    cases hp : v.ownProperty p with
    | none =>
      rw [resolvePath_of_not_own hv hp]
      simp [Inherits, hp]
    | some u =>
      rw [Value.ownPath_cons, hp, Option.bind_some] at hown
      have hstep : resolvePath v (p :: ps) = resolvePath u ps := by
        have htype := Value.isObjectType_of_ownProperty hp
        cases v <;> simp_all [resolvePath, Value.get_of_ownProperty hp, Value.isObjectType, Value.ownProperty]
      rw [hstep, ih (hv.ownProperty hp) hown]
      simp [Inherits, hp]

/-- A path that leads through own properties to the end inherits nothing. -/
theorem not_inherits_of_ownPath {v w : Value} (h : v.ownPath ps = some w) : ¬ Inherits v ps := by
  induction ps generalizing v with
  | nil => exact id
  | cons p ps ih =>
    rw [Value.ownPath_cons] at h
    obtain ⟨u, hu, hw⟩ := Option.bind_eq_some_iff.1 h
    simpa [Inherits, hu] using ih hw

end

/-! ## Errors that name a function -/

section
variable {name : String} {α β : Type}

/-- The outcome is not the error for an unknown function `name`. -/
def NotUnknown (name : String) (r : Except Exception α) : Prop := r ≠ .error (unknownFunction name)

theorem NotUnknown.ok {a : α} : NotUnknown name (.ok a) := by simp [NotUnknown]

theorem NotUnknown.typeError {message : String} :
    NotUnknown name (.error (.typeError message) : Except Exception α) := by
  simp [NotUnknown, unknownFunction, Exception.typeError, Exception.error]

theorem NotUnknown.bind {x : Except Exception α} {f : α → Except Exception β} (hx : NotUnknown name x)
    (hf : ∀ a, NotUnknown name (f a)) : NotUnknown name (x >>= f) := by
  cases x with
  | ok a => exact hf a
  | error err =>
    intro h
    exact hx (congrArg Except.error (Except.error.inj h))

mutual

theorem toText_notUnknown (name : String) : (v : Value) → NotUnknown name v.toText
  | .array _ items => by
    rw [Value.toText]
    exact (itemTexts_notUnknown name items).bind fun _ => .ok
  | .object _ props => by
    rw [Value.toText]
    split
    · exact .typeError
    · exact .ok
  | .undefined | .null | .bool _ | .number _ | .string _ => by
    rw [Value.toText]
    exact .ok
  | .native (.function _) | .native .objectPrototype | .native .arrayPrototype => by
    rw [Value.toText]
    exact .ok

theorem itemTexts_notUnknown (name : String) : (vs : List Value) → NotUnknown name (Value.itemTexts vs)
  | [] => by
    rw [Value.itemTexts]
    exact .ok
  | v :: vs => by
    have htail (t : String) : NotUnknown name (do .ok (t :: (← Value.itemTexts vs))) :=
      (itemTexts_notUnknown name vs).bind fun _ => .ok
    unfold Value.itemTexts
    cases v with
    | undefined | null => exact htail ""
    | _ => exact (toText_notUnknown name _).bind htail

end

theorem toNumber_notUnknown (name : String) (v : Value) : NotUnknown name v.toNumber := by
  rw [Value.toNumber.eq_def]
  split
  case h_6 => exact (toText_notUnknown name v).bind fun _ => .ok
  all_goals exact .ok

theorem looseEq_notUnknown (name : String) (l r : Value) : NotUnknown name (l.looseEq r) := by
  rw [Value.looseEq.eq_def]
  split
  any_goals exact .ok
  · split
    any_goals exact .ok
    exact (toText_notUnknown name _).bind fun _ => .ok
  · split
    any_goals exact .ok
    exact (toText_notUnknown name _).bind fun _ => .ok
  · exact (toNumber_notUnknown name l).bind fun _ => (toNumber_notUnknown name r).bind fun _ => .ok

theorem applyBinary_notUnknown (name op : String) (l r : Value) : NotUnknown name (applyBinary op l r) := by
  have hnumeric (f : Number → Number → Value) :
      NotUnknown name (do .ok (f (← l.toNumber) (← r.toNumber))) :=
    (toNumber_notUnknown name l).bind fun _ => (toNumber_notUnknown name r).bind fun _ => .ok
  have hequal (f : Bool → Bool) : NotUnknown name (do .ok (Value.bool (f (← l.looseEq r)))) :=
    (looseEq_notUnknown name l r).bind fun _ => .ok
  rw [applyBinary.eq_def]
  split
  case h_1 => exact hequal id
  case h_2 => exact hequal not
  case h_7 => exact .ok
  case h_8 => exact .ok
  case h_13 =>
    simp only [NotUnknown, unknownFunction, Exception.error, ne_eq, Except.error.injEq, Exception.mk.injEq, true_and]
    intro h
    have := congrArg String.toList h
    simp [String.toList_append] at this
  all_goals exact hnumeric _

theorem textOrEmpty_notUnknown (name : String) (v : Value) : NotUnknown name (textOrEmpty v) := by
  cases v with
  | undefined | null => exact .ok
  | _ => exact toText_notUnknown name _

/-- The names `BUILTINS` has as own properties. -/
def builtinNames : List String := ["isempty", "length", "contains", "coalesce"]

/-- Every name `BUILTINS[name]` finds something for, but not as an own property. -/
def inheritedCalls : List String := "__proto__" :: Value.objectPrototypeNames

/-- The function table refuses a name in one way, and exactly the names it does not find. -/
theorem callBuiltin_eq_error_iff {n : String} {err : Exception} :
    callBuiltin n = .error err ↔ n ∉ builtinNames ∧ n ∉ inheritedCalls ∧ err = unknownFunction n := by
  have hconstructor : "constructor" ∈ inheritedCalls := by decide
  have htoString : "toString" ∈ inheritedCalls := by decide
  have hmem : n ∈ inheritedCalls ↔ n = "__proto__" ∨ n ∈ Value.objectPrototypeNames := List.mem_cons
  rw [callBuiltin]
  split_ifs with h₁ h₂ h₃ h₄ h₅ h₆ h₇ h₈
  · simp [builtinNames, h₁]
  · simp [builtinNames, h₂]
  · simp [builtinNames, h₃]
  · simp [builtinNames, h₄]
  · simp [inheritedCalls, h₅]
  · simp [h₆, hconstructor]
  · simp [h₇, htoString]
  · simp [hmem, h₈]
  · simp [builtinNames, hmem, h₁, h₂, h₃, h₄, h₅, h₈, eq_comm]

theorem callBuiltin_notUnknown {n : String} {f : List Value → Except Exception Value} (h : callBuiltin n = .ok f)
    (name : String) (args : List Value) : NotUnknown name (f args) := by
  have hcontains : NotUnknown name (contains args) :=
    (textOrEmpty_notUnknown name _).bind fun _ => (textOrEmpty_notUnknown name _).bind fun _ => .ok
  rw [callBuiltin] at h
  split_ifs at h <;> obtain rfl := Except.ok.inj h
  all_goals first | exact hcontains | exact .ok | exact .typeError

theorem unknownFunction_injective {n m : String} (h : unknownFunction n = unknownFunction m) : n = m := by
  have htext : "unknown function: " ++ n = "unknown function: " ++ m := congrArg Exception.message h
  have hchars := congrArg String.toList htext
  simp only [String.toList_append] at hchars
  exact String.toList_injective (List.append_cancel_left hchars)

theorem lookup_notUnknown {name : String} (hname : ∃ f, callBuiltin name = .ok f) (n : String) :
    NotUnknown name (callBuiltin n) := by
  intro h
  obtain ⟨f, hf⟩ := hname
  obtain ⟨-, -, herr⟩ := callBuiltin_eq_error_iff.1 h
  obtain rfl := unknownFunction_injective herr
  cases hf.symm.trans h

mutual

/-- **No evaluation reports a name that `BUILTINS[name]` finds**, inherited or not, as an unknown function. -/
theorem evalNode_notUnknown {name : String} (hname : ∃ f, callBuiltin name = .ok f) (ctx : Record) :
    (e : ExprNode) → NotUnknown name (evalNode ctx e)
  | .literal _ | .ident _ => by
    rw [evalNode]
    exact .ok
  | .unary .not arg => by
    rw [evalNode]
    exact (evalNode_notUnknown hname ctx arg).bind fun _ => .ok
  | .unary .neg arg => by
    rw [evalNode]
    exact (evalNode_notUnknown hname ctx arg).bind fun v =>
      ((toNumber_notUnknown name v).bind fun _ => .ok).bind fun _ => .ok
  | .binary op left right => by
    rw [evalNode]
    exact (evalNode_notUnknown hname ctx left).bind fun _ => (evalNode_notUnknown hname ctx right).bind fun _ =>
      applyBinary_notUnknown name op _ _
  | .call n args => by
    rw [evalNode]
    have hlookup := lookup_notUnknown hname n
    cases hf : callBuiltin n with
    | error err =>
      rw [hf] at hlookup
      intro h
      exact hlookup (congrArg Except.error (Except.error.inj h))
    | ok f => exact (evalArgs_notUnknown hname ctx args).bind (callBuiltin_notUnknown hf name)

theorem evalArgs_notUnknown {name : String} (hname : ∃ f, callBuiltin name = .ok f) (ctx : Record) :
    (es : List ExprNode) → NotUnknown name (evalArgs ctx es)
  | [] => by
    rw [evalArgs]
    exact .ok
  | e :: es => by
    rw [evalArgs]
    exact (evalNode_notUnknown hname ctx e).bind fun _ => (evalArgs_notUnknown hname ctx es).bind fun _ => .ok

end

end

/-! ## What names mean -/

/-- The expression `node` is `e` or occurs in it. -/
inductive Occurs (node : ExprNode) : ExprNode → Prop where
  | self : Occurs node node
  | unary {op arg} (h : Occurs node arg) : Occurs node (.unary op arg)
  | left {op left right} (h : Occurs node left) : Occurs node (.binary op left right)
  | right {op left right} (h : Occurs node right) : Occurs node (.binary op left right)
  | argument {name args arg} (hmem : arg ∈ args) (h : Occurs node arg) : Occurs node (.call name args)

/-- What the node evaluates to if its name is neither in the context nor a builtin: `undefined` for an identifier, the
error for an unknown function for a call. -/
def MeansNothing (ctx : Record) : ExprNode → Prop
  | .ident name =>
    (Value.object none ctx).ownPath (splitDots name) = none → evalNode ctx (.ident name) = .ok .undefined
  | .call name args => name ∉ builtinNames → evalNode ctx (.call name args) = .error (unknownFunction name)
  | _ => True

/-- The node's name leads to an inherited member, of a value in the context or of the function table. -/
def InheritedName (ctx : Record) : ExprNode → Prop
  | .ident name => Inherits (.object none ctx) (splitDots name)
  | .call name _ => name ∈ inheritedCalls
  | _ => False

theorem ident_meansNothing_iff {ctx : Record} (hctx : (Value.object none ctx).Json) (name : String) :
    MeansNothing ctx (.ident name) ↔ ¬ InheritedName ctx (.ident name) := by
  simp only [MeansNothing, InheritedName, evalNode, resolveIdent, Except.ok.injEq]
  cases hown : (Value.object none ctx).ownPath (splitDots name) with
  | none => simpa using not_congr (resolvePath_ne_undefined_iff hctx hown)
  | some w => simpa using not_inherits_of_ownPath hown

theorem call_meansNothing_iff (ctx : Record) (name : String) (args : List ExprNode) :
    MeansNothing ctx (.call name args) ↔ ¬ InheritedName ctx (.call name args) := by
  have hdisjoint : ∀ n ∈ inheritedCalls, n ∉ builtinNames := by decide
  simp only [MeansNothing, InheritedName]
  constructor
  · intro h hinherited
    have hbuiltin := hdisjoint name hinherited
    cases hf : callBuiltin name with
    | ok f => exact evalNode_notUnknown ⟨f, hf⟩ ctx (.call name args) (h hbuiltin)
    | error err => exact (callBuiltin_eq_error_iff.1 hf).2.1 hinherited
  · intro hinherited hbuiltin
    rw [evalNode, callBuiltin_eq_error_iff.2 ⟨hbuiltin, hinherited, rfl⟩]
    rfl

/-- **Names mean nothing exactly where nothing is inherited**: in a JSON context, an expression's identifiers that own
properties do not have evaluate to `undefined`, and its calls of anything but a builtin report an unknown function,
if and only if no name in it leads to a member of `Object.prototype` or `Array.prototype`. -/
theorem names_mean_nothing_iff {ctx : Record} (hctx : (Value.object none ctx).Json) (e : ExprNode) :
    (∀ node, Occurs node e → MeansNothing ctx node) ↔ ∀ node, Occurs node e → ¬ InheritedName ctx node := by
  have hnode (node : ExprNode) : MeansNothing ctx node ↔ ¬ InheritedName ctx node := by
    cases node with
    | ident name => exact ident_meansNothing_iff hctx name
    | call name args => exact call_meansNothing_iff ctx name args
    | _ => simp [MeansNothing, InheritedName]
  exact forall_congr' fun node => imp_congr_right fun _ => hnode node

/-- `task == coalesce(missing, owner.name)` in a context with a task and no owner. -/
theorem names_mean_nothing_sample :
    let ctx : Record := [("task", .string "extract")]
    let e : ExprNode := .binary "==" (.ident "task") (.call "coalesce" [.ident "missing", .ident "owner.name"])
    (Value.object none ctx).Json ∧
      ((∀ node, Occurs node e → MeansNothing ctx node) ↔ ∀ node, Occurs node e → ¬ InheritedName ctx node) := by
  have hctx : (Value.object none [("task", .string "extract")]).Json := by
    refine .object fun p hp => ?_
    obtain rfl := List.mem_singleton.1 hp
    exact .string _
  exact ⟨hctx, names_mean_nothing_iff hctx _⟩

/-- In the empty context `constructor` is a function and `toString()` a text. -/
theorem inherited_names_mean_something :
    parse "constructor" = .ok (.ident "constructor") ∧ parse "toString()" = .ok (.call "toString" []) ∧
      evalNode [] (.ident "constructor") = .ok (.native (.function "Object.prototype.constructor")) ∧
      evalNode [] (.call "toString" []) = .ok (.string "[object Undefined]") ∧
      ¬ MeansNothing [] (.ident "constructor") ∧ ¬ MeansNothing [] (.call "toString" []) := by
  have hname : tokenize "constructor" = .ok [⟨.ident, "constructor", 11⟩, ⟨.eof, "", 11⟩] := by rfl
  have hcall : tokenize "toString()" =
      .ok [⟨.ident, "toString", 8⟩, ⟨.lparen, "(", 8⟩, ⟨.rparen, ")", 9⟩, ⟨.eof, "", 10⟩] := by rfl
  have hpath : splitDots "constructor" = ["constructor"] :=
    splitDots_of_not_mem (of_decide_eq_true (by decide +kernel))
  have hconstructor : evalNode [] (.ident "constructor") =
      .ok (.native (.function "Object.prototype.constructor")) := by
    rw [evalNode, resolveIdent, hpath]
    simp [resolvePath, Value.isObjectType, Value.getFromObjectPrototype, Value.objectPrototypeNames, Value.own]
  have htoString : evalNode [] (.call "toString" []) = .ok (.string "[object Undefined]") := by
    have hfunction : callBuiltin "toString" = .ok fun _ => .ok (.string "[object Undefined]") := by simp [callBuiltin]
    rw [evalNode, evalArgs, hfunction]
    rfl
  refine ⟨by rw [parse, hname]; rfl, by rw [parse, hcall]; rfl, hconstructor, htoString, ?_, ?_⟩
  · intro h
    have hown : (Value.object none []).ownPath (splitDots "constructor") = none := by rw [hpath]; rfl
    cases hconstructor.symm.trans (h hown)
  · intro h
    cases htoString.symm.trans (h (by decide))

end Jobflow.Expressions
