import Mathlib.Data.List.Sort
import Jobflow.Js.Digits
import Jobflow.Js.Value
import Jobflow.Lib.InsertionMap

/-!
# JSON

`JSON.stringify` of a value: no spaces, and the properties of an object in the order of `Object.keys`. `IsData` says
what values have no functions in them, `IsJson` what values JSON has, `JsonEq` when two of these are equal.
-/

namespace Js

/-! ## Property order -/

/-- An array index orders its property. -/
def keyIndex (key : String) : Option Nat := (Value.arrayIndex key).filter (· < 4294967295)

/-- The order of `Object.keys` and `Object.entries`: array indices first, ascending, then the others as they were
set. -/
def inKeyOrder {α : Type} (entries : List (String × α)) : List (String × α) :=
  (entries.filter fun e => (keyIndex e.1).isSome).insertionSort
      (fun a b => (keyIndex a.1).getD 0 ≤ (keyIndex b.1).getD 0) ++
    entries.filter fun e => (keyIndex e.1).isNone

theorem perm_inKeyOrder {α : Type} (entries : List (String × α)) : (inKeyOrder entries).Perm entries := by
  refine ((List.perm_insertionSort _ _).append_right _).trans ?_
  have hnone : (entries.filter fun e => (keyIndex e.1).isNone) = entries.filter fun e => !(keyIndex e.1).isSome := by
    simp
  rw [hnone]
  exact List.filter_append_perm _ _

/-- The order depends on the keys alone. -/
theorem inKeyOrder_map {α β : Type} (f : α → β) (entries : List (String × α)) :
    inKeyOrder (entries.map fun e => (e.1, f e.2)) = (inKeyOrder entries).map fun e => (e.1, f e.2) := by
  unfold inKeyOrder
  rw [List.map_append, List.filter_map, List.filter_map]
  congr 1
  exact (List.map_insertionSort (fun a b : String × α => (keyIndex a.1).getD 0 ≤ (keyIndex b.1).getD 0)
    (s := fun a b : String × β => (keyIndex a.1).getD 0 ≤ (keyIndex b.1).getD 0) (fun e : String × α => (e.1, f e.2)) _
    fun _ _ _ _ => Iff.rfl).symm

section
variable {props props' : Record} {key : String} {v : Value}

theorem own_eq_some_iff (hkeys : (props.map Prod.fst).Nodup) : Value.own props key = some v ↔ (key, v) ∈ props :=
  ⟨InsertionMap.mem_of_lookupIn, InsertionMap.lookupIn_of_mem hkeys⟩

theorem own_isSome_iff : (Value.own props key).isSome = true ↔ key ∈ props.map Prod.fst := by
  rw [← not_iff_not, Bool.not_eq_true, Option.isSome_eq_false_iff, Option.isNone_iff_eq_none]
  exact InsertionMap.lookupIn_eq_none

/-- The order of properties is no matter to lookup. -/
theorem own_congr (hkeys : (props.map Prod.fst).Nodup) (hperm : props'.Perm props) :
    Value.own props' key = Value.own props key := by
  have hkeys' : (props'.map Prod.fst).Nodup := (hperm.map _).nodup_iff.2 hkeys
  refine Option.ext fun v => ?_
  rw [own_eq_some_iff hkeys', own_eq_some_iff hkeys, hperm.mem_iff]

end

/-! ## Texts -/

/-- A character inside a string. -/
def quoteChar (c : Char) : List Char :=
  if c = '"' then ['\\', '"']
  else if c = '\\' then ['\\', '\\']
  else if c = '\x08' then ['\\', 'b']
  else if c = '\x0c' then ['\\', 'f']
  else if c = '\n' then ['\\', 'n']
  else if c = '\r' then ['\\', 'r']
  else if c = '\t' then ['\\', 't']
  else if c.toNat < 0x20 then ['\\', 'u', '0', '0', Nat.digitChar (c.toNat / 16), Nat.digitChar (c.toNat % 16)]
  else [c]

def quote (s : String) : List Char := '"' :: s.toList.flatMap quoteChar ++ ['"']

/-- A number that is not finite has no text of its own. -/
def numberText : Number → List Char
  | .nan | .infinity _ => "null".toList
  | n => n.toText.toList

def member (m : String × List Char) : List Char := quote m.1 ++ ':' :: m.2

def arrayText (items : List (List Char)) : List Char := '[' :: [','].intercalate items ++ [']']

def objectText (members : List (String × List Char)) : List Char :=
  '{' :: [','].intercalate (members.map member) ++ ['}']

mutual

/-- `JSON.stringify(v)` by its characters; `none` is `undefined`. No `toJSON` is called: data has none to call. -/
def serialize : Value → Option (List Char)
  | .undefined | .native (.function _) => none
  | .null => some "null".toList
  | .bool b => some (if b then "true".toList else "false".toList)
  | .number n => some (numberText n)
  | .string s => some (quote s)
  | .array _ items => some (arrayText (serializeItems items))
  | .object _ props => some (objectText (inKeyOrder (serializeProps props)))
  | .native .objectPrototype => some (objectText [])
  | .native .arrayPrototype => some (arrayText [])

/-- What has no text is `null` in an array. -/
def serializeItems : List Value → List (List Char)
  | [] => []
  | v :: vs => (serialize v).getD "null".toList :: serializeItems vs

/-- And is left out of an object. -/
def serializeProps : Record → List (String × List Char)
  | [] => []
  | (key, v) :: props =>
    match serialize v with
    | some text => (key, text) :: serializeProps props
    | none => serializeProps props

end

/-! ## Values -/

/-- A value of the language: numbers are binary64, and no object has a key twice. -/
inductive IsValue : Value → Prop where
  | undefined : IsValue .undefined
  | native (n : Native) : IsValue (.native n)
  | null : IsValue .null
  | bool (b : Bool) : IsValue (.bool b)
  | number {n : Number} (h : n.IsBinary64) : IsValue (.number n)
  | string (s : String) : IsValue (.string s)
  | array {ref : Option String} {items : List Value} (h : ∀ v ∈ items, IsValue v) : IsValue (.array ref items)
  | object {ref : Option String} {props : Record} (hkeys : (props.map Prod.fst).Nodup) (h : ∀ p ∈ props, IsValue p.2) :
    IsValue (.object ref props)

/-- Plain data: a value without functions. -/
inductive IsData : Value → Prop where
  | undefined : IsData .undefined
  | null : IsData .null
  | bool (b : Bool) : IsData (.bool b)
  | number {n : Number} (h : n.IsBinary64) : IsData (.number n)
  | string (s : String) : IsData (.string s)
  | array {ref : Option String} {items : List Value} (h : ∀ v ∈ items, IsData v) : IsData (.array ref items)
  | object {ref : Option String} {props : Record} (hkeys : (props.map Prod.fst).Nodup) (h : ∀ p ∈ props, IsData p.2) :
    IsData (.object ref props)

/-- What `JSON.parse` makes. -/
inductive IsJson : Value → Prop where
  | null : IsJson .null
  | bool (b : Bool) : IsJson (.bool b)
  | number {n : Number} (h : n.IsDouble) : IsJson (.number n)
  | string (s : String) : IsJson (.string s)
  | array {ref : Option String} {items : List Value} (h : ∀ v ∈ items, IsJson v) : IsJson (.array ref items)
  | object {ref : Option String} {props : Record} (hkeys : (props.map Prod.fst).Nodup) (h : ∀ p ∈ props, IsJson p.2) :
    IsJson (.object ref props)

theorem IsData.isValue {v : Value} (h : IsData v) : IsValue v := by
  induction h with
  | undefined => exact .undefined
  | null => exact .null
  | bool b => exact .bool b
  | number h => exact .number h
  | string s => exact .string s
  | array _ ih => exact .array ih
  | object hkeys _ ih => exact .object hkeys ih

theorem IsJson.isValue {v : Value} (h : IsJson v) : IsValue v := by
  induction h with
  | null => exact .null
  | bool b => exact .bool b
  | number h => exact .number h.isBinary64
  | string s => exact .string s
  | array _ ih => exact .array ih
  | object hkeys _ ih => exact .object hkeys ih

/-- Equal as JSON values, whatever the order of keys. -/
inductive JsonEq : Value → Value → Prop where
  | null : JsonEq .null .null
  | bool (b : Bool) : JsonEq (.bool b) (.bool b)
  | number {m n : Number} (h : m.eq n = true) : JsonEq (.number m) (.number n)
  | string (s : String) : JsonEq (.string s) (.string s)
  | array {ref ref' : Option String} {items items' : List Value} (hlength : items.length = items'.length)
    (h : ∀ (i : Nat) v v', items[i]? = some v → items'[i]? = some v' → JsonEq v v') :
    JsonEq (.array ref items) (.array ref' items')
  | object {ref ref' : Option String} {props props' : Record}
    (hkeys : ∀ key, (Value.own props key).isSome = (Value.own props' key).isSome)
    (h : ∀ key v v', Value.own props key = some v → Value.own props' key = some v' → JsonEq v v') :
    JsonEq (.object ref props) (.object ref' props')

end Js
