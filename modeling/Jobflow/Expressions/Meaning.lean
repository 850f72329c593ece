import Mathlib.Algebra.Ring.Rat
import Jobflow.Expressions.Names
import Jobflow.Lib.Settles

/-!
# What an expression means

`Throws` and `Holds` say of a tree, operand by operand, when it has no value and when its value counts as true, in terms
of what the names in it lead to; `value` is the value. `evaluates` says that the evaluator computes them. No operator
skips an operand, so a tree throws as soon as one of its parts does.
-/

namespace Js.Value

/-! ## Values without a primitive form -/

/-- Objects with a `toString` of their own, and arrays that such a value is in. -/
inductive NoText : Value → Prop where
  | object {ref : Option String} {props : Record} (h : (own props "toString").isSome = true) :
      NoText (.object ref props)
  | array {ref : Option String} {items : List Value} {v : Value} (hv : v ∈ items) (h : NoText v) :
      NoText (.array ref items)

/-- `String(v)`, where it has one. -/
def text (v : Value) : String := v.toText.toOption.getD ""

/-- `Number(v)`, where it has one. -/
def numeral (v : Value) : Number := v.toNumber.toOption.getD .nan

/-- `l == r`, where it has an answer. -/
def equals (l r : Value) : Bool := (l.looseEq r).toOption.getD false

/-- What `Array.prototype.join` prints for an item. -/
def itemText : Value → Except Exception String
  | .undefined | .null => .ok ""
  | v => v.toText

theorem itemTexts_cons (v : Value) (vs : List Value) :
    itemTexts (v :: vs) = itemText v >>= fun t => itemTexts vs >>= fun ts => .ok (t :: ts) := by
  conv => lhs; unfold itemTexts
  cases v <;> rfl

theorem itemText_ok {v : Value} (h : ∃ s, v.toText = .ok s) : ∃ s, itemText v = .ok s := by
  cases v with
  | undefined | null => exact ⟨"", rfl⟩
  | _ => exact h

theorem itemText_error {v : Value} (h : ∃ err, v.toText = .error err) : ∃ err, itemText v = .error err := by
  cases v with
  | undefined | null =>
    obtain ⟨err, herr⟩ := h
    rw [Value.toText] at herr
    cases herr
  | _ => exact h

theorem itemTexts_error {items : List Value} {v : Value} (hv : v ∈ items) (h : ∃ err, v.toText = .error err) :
    ∃ err, itemTexts items = .error err := by
  induction items with
  | nil => cases hv
  | cons u items ih =>
    rw [itemTexts_cons]
    cases hu : itemText u with
    | error err => exact ⟨err, rfl⟩
    | ok t =>
      rcases List.mem_cons.1 hv with rfl | hv
      · obtain ⟨err, herr⟩ := itemText_error h
        rw [hu] at herr
        cases herr
      · obtain ⟨err, herr⟩ := ih hv
        exact ⟨err, by rw [herr]; rfl⟩

theorem NoText.toText {v : Value} (h : v.NoText) : ∃ err, v.toText = .error err := by
  induction h with
  | object h => exact ⟨cannotConvert, by rw [Value.toText, if_pos h]⟩
  | array hv _ ih =>
    obtain ⟨err, herr⟩ := itemTexts_error hv ih
    exact ⟨err, by rw [Value.toText, herr]; rfl⟩

mutual

theorem toText_ok : (v : Value) → ¬ v.NoText → ∃ s, v.toText = .ok s
  | .array _ items, h => by
    obtain ⟨ts, hts⟩ := itemTexts_ok items fun v hv hno => h (.array hv hno)
    rw [Value.toText, hts]
    exact ⟨_, rfl⟩
  | .object _ props, h => by
    rw [Value.toText, if_neg fun hown => h (.object hown)]
    exact ⟨_, rfl⟩
  | .undefined, _ | .null, _ | .bool _, _ | .number _, _ | .string _, _ => by
    rw [Value.toText]
    exact ⟨_, rfl⟩
  | .native (.function _), _ | .native .objectPrototype, _ | .native .arrayPrototype, _ => by
    rw [Value.toText]
    exact ⟨_, rfl⟩

theorem itemTexts_ok : (vs : List Value) → (∀ v ∈ vs, ¬ v.NoText) → ∃ ts, itemTexts vs = .ok ts
  | [], _ => ⟨[], by rw [itemTexts]⟩
  | v :: vs, h => by
    obtain ⟨ts, hts⟩ := itemTexts_ok vs fun u hu => h u (List.mem_cons_of_mem _ hu)
    obtain ⟨t, ht⟩ := itemText_ok (toText_ok v (h v List.mem_cons_self))
    exact ⟨t :: ts, by rw [itemTexts_cons, ht, hts]; rfl⟩

end

section
variable {l r v : Value}

theorem settles_toText (v : Value) : Settles v.toText v.NoText v.text := by
  refine .of_error_iff ⟨fun h => ?_, NoText.toText⟩ ""
  by_contra hno
  obtain ⟨err, herr⟩ := h
  obtain ⟨s, hs⟩ := toText_ok v hno
  rw [herr] at hs
  cases hs

/-- A conversion that goes through the text throws when there is none. -/
theorem error_iff_noText {α : Type} (f : String → α) :
    (∃ err, (v.toText >>= fun s => .ok (f s) : Except Exception α) = .error err) ↔ v.NoText :=
  ((settles_toText v).map f).error_iff

theorem settles_toNumber (v : Value) : Settles v.toNumber v.NoText v.numeral := by
  refine .of_error_iff ?_ Number.nan
  cases v with
  | array | object | native => exact error_iff_noText _
  | _ => exact iff_of_false (by simp [Value.toNumber]) nofun

/-- A primitive value other than `undefined` and `null`. -/
def IsScalar : Value → Prop
  | .bool _ | .number _ | .string _ => True
  | _ => False

/-- They are compared by converting one that cannot be converted. -/
def Clashes (l r : Value) : Prop := l.IsScalar ∧ r.NoText ∨ r.IsScalar ∧ l.NoText

theorem error_iff_noNumber {α : Type} (f : Number → Number → α) :
    (∃ err, (l.toNumber >>= fun x => r.toNumber >>= fun y => .ok (f x y) : Except Exception α) = .error err) ↔
      l.NoText ∨ r.NoText :=
  ((settles_toNumber l).bind ((settles_toNumber r).map (f l.numeral))).error_iff

@[simp] theorem not_noText_undefined : ¬ NoText .undefined := nofun
@[simp] theorem not_noText_null : ¬ NoText .null := nofun
@[simp] theorem not_noText_bool {b : Bool} : ¬ NoText (.bool b) := nofun
@[simp] theorem not_noText_number {n : Number} : ¬ NoText (.number n) := nofun
@[simp] theorem not_noText_string {s : String} : ¬ NoText (.string s) := nofun
@[simp] theorem not_noText_native {n : Native} : ¬ NoText (.native n) := nofun

/-- Two values of one kind, or with `undefined` or `null` among them, are compared as they are; a scalar and another
value by way of their numbers, or of the other's text. -/
theorem settles_looseEq (l r : Value) : Settles (l.looseEq r) (Clashes l r) (l.equals r) := by
  refine .of_error_iff ?_ false
  cases l with
  | undefined | null => cases r <;> exact iff_of_false (by simp [looseEq]) (by simp [Clashes, IsScalar])
  | bool b =>
    cases r with
    | number | array | object | native => exact (error_iff_noNumber Number.eq).trans (by simp [Clashes, IsScalar])
    | _ => exact iff_of_false (by simp [looseEq]) (by simp [Clashes, IsScalar])
  | number n =>
    cases r with
    | bool | array | object | native => exact (error_iff_noNumber Number.eq).trans (by simp [Clashes, IsScalar])
    | _ => exact iff_of_false (by simp [looseEq]) (by simp [Clashes, IsScalar])
  | string s =>
    cases r with
    | array | object | native => exact (error_iff_noText fun t => decide (t = s)).trans (by simp [Clashes, IsScalar])
    | _ => exact iff_of_false (by simp [looseEq]) (by simp [Clashes, IsScalar])
  | array | object | native =>
    cases r with
    | bool | number => exact (error_iff_noNumber Number.eq).trans (by simp [Clashes, IsScalar])
    | string s => exact (error_iff_noText fun t => decide (t = s)).trans (by simp [Clashes, IsScalar])
    | _ => exact iff_of_false (by simp [looseEq]) (by simp [Clashes, IsScalar])

end

end Js.Value

namespace Jobflow.Expressions

open Js

/-! ## Operators and functions -/

/-- What an operator makes of two values, where it takes them. -/
def operate (op : String) (l r : Value) : Value :=
  match op with
  | "==" => .bool (l.equals r)
  | "!=" => .bool !(l.equals r)
  | "<" => .bool (l.numeral.lt r.numeral)
  | "<=" => .bool (l.numeral.le r.numeral)
  | ">" => .bool (r.numeral.lt l.numeral)
  | ">=" => .bool (r.numeral.le l.numeral)
  | "&&" => .bool (l.truthy && r.truthy)
  | "||" => .bool (l.truthy || r.truthy)
  | "+" => .number (l.numeral.add r.numeral)
  | "-" => .number (l.numeral.sub r.numeral)
  | "*" => .number (l.numeral.mul r.numeral)
  | "/" => .number (l.numeral.div r.numeral)
  | _ => .undefined

/-- An operator that takes two values does not take these. -/
def Refuses (op : String) (l r : Value) : Prop :=
  match op with
  | "&&" | "||" => False
  | "==" | "!=" => l.Clashes r
  | "<" | "<=" | ">" | ">=" | "+" | "-" | "*" | "/" => l.NoText ∨ r.NoText
  | _ => True

theorem settles_applyBinary (op : String) (l r : Value) :
    Settles (applyBinary op l r) (Refuses op l r) (operate op l r) := by
  have hequal (f : Bool → Value) : Settles (l.looseEq r >>= fun b => .ok (f b)) (l.Clashes r) (f (l.equals r)) :=
    (Value.settles_looseEq l r).map f
  have hnumeric (f : Number → Number → Value) :
      Settles (l.toNumber >>= fun x => r.toNumber >>= fun y => .ok (f x y)) (l.NoText ∨ r.NoText)
        (f l.numeral r.numeral) :=
    (Value.settles_toNumber l).bind ((Value.settles_toNumber r).map (f l.numeral))
  rw [applyBinary.eq_def]
  split
  case h_1 => exact hequal .bool
  case h_2 => exact hequal fun b => .bool !b
  case h_7 => exact .returns _
  case h_8 => exact .returns _
  case h_13 =>
    rw [operate, Refuses]
    · exact .throws _ _
    all_goals assumption
  all_goals exact hnumeric _

/-- `String(v ?? "")`. -/
def textOr (v : Value) : String :=
  match v with
  | .undefined | .null => ""
  | v => v.text

theorem settles_textOrEmpty (v : Value) : Settles (textOrEmpty v) v.NoText (textOr v) := by
  cases v with
  | undefined | null => exact (Settles.returns "").congr (by simp)
  | _ => exact Value.settles_toText _

/-- What a function that there is makes of its arguments, where it takes them. -/
def answer (name : String) (args : List Value) : Value :=
  match name with
  | "isempty" => isempty args
  | "length" => length args
  | "contains" => .bool (includes (textOr (argument args 0)) (textOr (argument args 1)))
  | "coalesce" => coalesce args
  | "constructor" => .array none args
  | "toString" => .string "[object Undefined]"
  | _ => .undefined

/-- The functions that do not throw whatever they are given: the others of `Object.prototype` miss their receiver. -/
def callableNames : List String := builtinNames ++ ["constructor", "toString"]

/-- A call of the name with these arguments throws. -/
def CallRefuses (name : String) (args : List Value) : Prop :=
  name ∉ callableNames ∨ name = "contains" ∧ ((argument args 0).NoText ∨ (argument args 1).NoText)

theorem not_callRefuses {name : String} {args : List Value} (hcallable : name ∈ callableNames)
    (hname : name ≠ "contains") : ¬ CallRefuses name args := by
  rintro (h | ⟨h, -⟩)
  · exact h hcallable
  · exact hname h

/-- The function is looked up before the arguments are evaluated, and called after. -/
theorem settles_callBuiltin (name : String) (args : List Value) {p : Prop} {x : Except Exception (List Value)}
    (hx : Settles x p args) :
    Settles (callBuiltin name >>= fun fn => x >>= fun args => fn args) (p ∨ CallRefuses name args)
      (answer name args) := by
  have hreturns (fn : List Value → Value) (hcallable : name ∈ callableNames) (hname : name ≠ "contains") :
      Settles (x >>= fun args => .ok (fn args)) (p ∨ CallRefuses name args) (fn args) :=
    (hx.map fn).congr (or_iff_left (not_callRefuses hcallable hname)).symm
  have hthrows (err : Exception) (hname : name ∉ callableNames) :
      Settles (x >>= fun _ => .error err) (p ∨ CallRefuses name args) (answer name args) :=
    (hx.bind (.throws err _)).congr (by simp [CallRefuses, hname])
  rw [callBuiltin]
  split_ifs with h₁ h₂ h₃ h₄ h₅ h₆ h₇ h₈
  · subst h₁
    exact hreturns isempty (by decide) (by decide)
  · subst h₂
    exact hreturns length (by decide) (by decide)
  · subst h₃
    have hcontains : Settles (contains args) ((argument args 0).NoText ∨ (argument args 1).NoText)
        (answer "contains" args) :=
      (settles_textOrEmpty _).bind
        ((settles_textOrEmpty _).map fun needle => Value.bool (includes (textOr (argument args 0)) needle))
    refine (hx.bind hcontains).congr (or_congr_right ?_)
    simp [CallRefuses, callableNames, builtinNames]
  · subst h₄
    exact hreturns coalesce (by decide) (by decide)
  · subst h₅
    exact hthrows _ (by decide)
  · subst h₆
    exact hreturns (.array none) (by decide) (by decide)
  · subst h₇
    exact hreturns (fun _ => .string "[object Undefined]") (by decide) (by decide)
  · exact hthrows _ (by simp [callableNames, builtinNames, h₁, h₂, h₃, h₄, h₆, h₇])
  · refine (Settles.throws (unknownFunction name) (answer name args)).congr ?_
    simp [CallRefuses, callableNames, builtinNames, h₁, h₂, h₃, h₄, h₆, h₇]

/-! ## Trees -/

mutual

/-- What a tree stands for, unless it throws. -/
def value (ctx : Record) : ExprNode → Value
  | .literal v => v
  | .ident name => resolveIdent name ctx
  | .unary .not e => .bool !(value ctx e).truthy
  | .unary .neg e => .number (if (value ctx e).numeral.truthy then (value ctx e).numeral else .finite 0).neg
  | .binary op l r => operate op (value ctx l) (value ctx r)
  | .call name args => answer name (values ctx args)

def values (ctx : Record) : List ExprNode → List Value
  | [] => []
  | e :: es => value ctx e :: values ctx es

end

mutual

/-- One of its parts cannot be evaluated, or what is made of the parts cannot. -/
def Throws (ctx : Record) : ExprNode → Prop
  | .literal _ | .ident _ => False
  | .unary .not e => Throws ctx e
  | .unary .neg e => Throws ctx e ∨ (value ctx e).NoText
  | .binary op l r => Throws ctx l ∨ Throws ctx r ∨ Refuses op (value ctx l) (value ctx r)
  | .call name args => AnyThrows ctx args ∨ CallRefuses name (values ctx args)

def AnyThrows (ctx : Record) : List ExprNode → Prop
  | [] => False
  | e :: es => Throws ctx e ∨ AnyThrows ctx es

end

mutual

/-- **The evaluator computes the meaning.** -/
theorem evaluates (ctx : Record) : (e : ExprNode) → Settles (evalNode ctx e) (Throws ctx e) (value ctx e)
  | .literal v => by
    rw [evalNode, Throws, value]
    exact .returns v
  | .ident name => by
    rw [evalNode, Throws, value]
    exact .returns _
  | .unary .not e => by
    rw [evalNode, Throws, value]
    exact (evaluates ctx e).map _
  | .unary .neg e => by
    rw [evalNode, Throws, value]
    exact (evaluates ctx e).bind (((Value.settles_toNumber _).map _).map _)
  | .binary op l r => by
    rw [evalNode, Throws, value]
    exact (evaluates ctx l).bind ((evaluates ctx r).bind (settles_applyBinary op _ _))
  | .call name args => by
    rw [evalNode, Throws, value]
    exact settles_callBuiltin name _ (evaluates_args ctx args)

theorem evaluates_args (ctx : Record) : (es : List ExprNode) →
    Settles (evalArgs ctx es) (AnyThrows ctx es) (values ctx es)
  | [] => by
    rw [evalArgs, AnyThrows, values]
    exact .returns []
  | e :: es => by
    rw [evalArgs, AnyThrows, values]
    exact (evaluates ctx e).bind ((evaluates_args ctx es).map _)

end

/-- **When the value of a tree counts as true**, in terms of its parts. -/
def Holds (ctx : Record) : ExprNode → Prop
  | .literal v => v.truthy = true
  | .ident name => (resolveIdent name ctx).truthy = true
  | .unary .not e => ¬ Holds ctx e
  | .unary .neg e => (value ctx e).numeral.truthy = true
  | .binary op l r =>
    if op = "&&" then Holds ctx l ∧ Holds ctx r
    else if op = "||" then Holds ctx l ∨ Holds ctx r
    else (operate op (value ctx l) (value ctx r)).truthy = true
  | .call name args => (answer name (values ctx args)).truthy = true

theorem truthy_neg (n : Number) : (if n.truthy then n else .finite 0 : Number).neg.truthy = n.truthy := by
  cases hn : n.truthy with
  | false => rfl
  | true =>
    rw [if_pos rfl]
    cases n with
    | nan => cases hn
    | infinity s => rfl
    | negZero => cases hn
    | finite q =>
      have hq : q ≠ 0 := by
        rintro rfl
        cases hn
      simp [Number.neg, Number.truthy, Number.isNaN, Number.isZero, hq]

theorem truthy_value_iff (ctx : Record) : (e : ExprNode) → ((value ctx e).truthy = true ↔ Holds ctx e)
  | .literal _ | .ident _ | .call _ _ => by rw [value, Holds]
  | .unary .not e => by
    rw [value, Holds, ← truthy_value_iff ctx e]
    simp [Value.truthy]
  | .unary .neg e => by
    rw [value, Holds, Value.truthy, truthy_neg]
  | .binary op l r => by
    rw [value, Holds]
    split_ifs with hand hor
    · rw [← truthy_value_iff ctx l, ← truthy_value_iff ctx r, hand]
      simp [operate, Value.truthy]
    · rw [← truthy_value_iff ctx l, ← truthy_value_iff ctx r, hor]
      simp [operate, Value.truthy]
    · rfl

end Jobflow.Expressions
