import Jobflow.Js.JsonEquality

/-!
# Object diffs (src/lib/object-diff.ts)

`diffObjects` recurses into plain objects, property by property, and compares everything else by its JSON text.
-/

namespace Jobflow

open Js (Value Record IsJson JsonEq)

/-! ## The source -/

inductive DiffOp where
  | add
  | remove
  | change
  deriving DecidableEq

structure DiffEntry where
  path : String
  op : DiffOp
  before : Option Value
  after : Option Value

/-- `isPlainObject` (object-diff.ts:36-38). -/
def isPlainObject : Value → Bool
  | .object _ _ | .native .objectPrototype => true
  | _ => false

/-- `deepEqual` (object-diff.ts:40-42). -/
def deepEqual (a b : Value) : Bool := Js.serialize a = Js.serialize b

/-- `Object.keys` of a plain object. -/
def objectKeys : Value → List String
  | .object _ props => (Js.inKeyOrder props).map Prod.fst
  | _ => []

/-- `key in v` for a plain object. -/
def hasKey (key : String) : Value → Bool
  | .object _ props => (Value.own props key).isSome || key = "__proto__" || key ∈ Value.objectPrototypeNames
  | .native .objectPrototype => key = "__proto__" || key ∈ Value.objectPrototypeNames
  | _ => false

/-- `new Set([...Object.keys(before), ...Object.keys(after)])`. -/
def diffKeys (before after : Value) : List String :=
  objectKeys before ++ (objectKeys after).filter (· ∉ objectKeys before)

theorem sizeOf_own {props : Record} {key : String} {v : Value} (h : Value.own props key = some v) :
    sizeOf v < sizeOf props := by
  have hmem : (key, v) ∈ props := InsertionMap.mem_of_lookupIn h
  have hlt := List.sizeOf_lt_of_mem hmem
  simp only [Prod.mk.sizeOf_spec] at hlt
  omega

theorem not_isPlainObject_inherited {v : Value} {key : String} (hv : isPlainObject v = false) :
    isPlainObject (Value.getFromObjectPrototype v key) = false := by
  unfold Value.getFromObjectPrototype
  split_ifs
  · exact hv
  · rfl
  · rfl

/-- A property is no larger than what it is looked up in. -/
theorem sizeOf_get_le {v : Value} {key : String} (h : isPlainObject (v.get key) = true) :
    sizeOf (v.get key) ≤ sizeOf v := by
  have hproto : ∀ {v : Value} {key : String}, isPlainObject (Value.getFromObjectPrototype v key) = true →
      Value.getFromObjectPrototype v key = v := by
    intro v key h
    unfold Value.getFromObjectPrototype at h ⊢
    split_ifs at h ⊢
    · rfl
    · cases h
    · cases h
  cases v with
  | object ref props =>
    rw [Value.get_object] at h ⊢
    cases hown : Value.own props key with
    | some w =>
      have hlt := sizeOf_own hown
      simp only [Option.getD_some, Value.object.sizeOf_spec]
      omega
    | none =>
      rw [hown, Option.getD_none] at h
      rw [Option.getD_none, hproto h]
      have hsize : sizeOf (Value.native .objectPrototype) = 2 := rfl
      have hprops : 0 < sizeOf props := by cases props <;> simp
      have href : 0 < sizeOf ref := by cases ref <;> simp
      rw [hsize, Value.object.sizeOf_spec]
      omega
  | array ref items =>
    unfold Value.get at h ⊢
    dsimp only at h ⊢
    split_ifs at h ⊢ with hlength
    · cases h
    · split at h
      · rename_i w hitem
        obtain ⟨i, _, hi⟩ := Option.bind_eq_some_iff.1 hitem
        have hlt := List.sizeOf_lt_of_mem (List.mem_of_getElem? hi)
        rw [Value.array.sizeOf_spec]
        omega
      · unfold Value.getFromArrayPrototype at h
        split_ifs at h
        · cases h
        · rw [not_isPlainObject_inherited rfl] at h
          cases h
  | native n =>
    cases n with
    | function name => cases h
    | objectPrototype =>
      rw [Value.get, not_isPlainObject_inherited rfl] at h
      cases h
    | arrayPrototype =>
      unfold Value.get Value.getFromArrayPrototype at h ⊢
      split_ifs at h ⊢
      · cases h
      · cases h
      · rw [hproto h]
        exact le_rfl
  | _ => cases h

theorem sizeOf_get {before after : Value} {key : String} (hkey : key ∈ diffKeys before after)
    (hplain : isPlainObject (before.get key) = true ∧ isPlainObject (after.get key) = true) :
    sizeOf (before.get key) + sizeOf (after.get key) < sizeOf before + sizeOf after := by
  have hown : ∀ {v : Value}, key ∈ objectKeys v → sizeOf (v.get key) < sizeOf v := by
    intro v hkey
    cases v with
    | object ref props =>
      have hmem : key ∈ props.map Prod.fst := ((Js.perm_inKeyOrder props).map Prod.fst).mem_iff.1 hkey
      obtain ⟨w, hw⟩ := Option.isSome_iff_exists.1 (Js.own_isSome_iff.2 hmem)
      have hlt := sizeOf_own hw
      rw [Value.get_object, hw, Option.getD_some, Value.object.sizeOf_spec]
      omega
    | _ => cases hkey
  have hbefore := sizeOf_get_le hplain.1
  have hafter := sizeOf_get_le hplain.2
  rcases List.mem_append.1 hkey with hkey | hkey
  · have hlt := hown hkey
    omega
  · have hlt := hown (List.mem_of_mem_filter hkey)
    omega

/-- The path of a property (object-diff.ts:14). -/
def diffPath (pathPrefix key : String) : String := if pathPrefix = "" then key else pathPrefix ++ "." ++ key

/-- `diffObjects` (object-diff.ts:10-34). -/
def diffObjects (before after : Value) (pathPrefix : String) : List DiffEntry :=
  (diffKeys before after).attach.flatMap fun ⟨key, hkey⟩ =>
    let path := diffPath pathPrefix key
    let a := before.get key
    let b := after.get key
    if !hasKey key before then [⟨path, .add, none, some b⟩]
    else if !hasKey key after then [⟨path, .remove, some a, none⟩]
    else if hplain : isPlainObject a ∧ isPlainObject b then
      have _ := sizeOf_get hkey hplain
      diffObjects a b path
    else if !deepEqual a b then [⟨path, .change, some a, some b⟩]
    else []
termination_by sizeOf before + sizeOf after
decreasing_by assumption

/-- What one round of the loop adds. -/
def entriesAt (before after : Value) (pathPrefix key : String) : List DiffEntry :=
  let path := diffPath pathPrefix key
  let a := before.get key
  let b := after.get key
  if !hasKey key before then [⟨path, .add, none, some b⟩]
  else if !hasKey key after then [⟨path, .remove, some a, none⟩]
  else if isPlainObject a ∧ isPlainObject b then diffObjects a b path
  else if !deepEqual a b then [⟨path, .change, some a, some b⟩]
  else []

theorem diffObjects_eq (before after : Value) (pathPrefix : String) :
    diffObjects before after pathPrefix = (diffKeys before after).flatMap (entriesAt before after pathPrefix) := by
  rw [diffObjects]
  conv_rhs => rw [← List.attach_map_subtype_val (diffKeys before after), List.flatMap_map]
  rfl

/-! ## No spurious differences -/

section
variable {ref ref' : Option String} {props props' : Record} {key : String} {v w : Value}

theorem hasKey_of_own (h : Value.own props key = some v) : hasKey key (.object ref props) = true := by
  simp [hasKey, h]

theorem get_of_own (h : Value.own props key = some v) : (Value.object ref props).get key = v := by
  rw [Value.get_object, h, Option.getD_some]

theorem mem_objectKeys : key ∈ objectKeys (.object ref props) ↔ (Value.own props key).isSome = true := by
  rw [Js.own_isSome_iff]
  exact ((Js.perm_inKeyOrder props).map Prod.fst).mem_iff

theorem mem_diffKeys :
    key ∈ diffKeys (.object ref props) (.object ref' props') ↔
      (Value.own props key).isSome = true ∨ (Value.own props' key).isSome = true := by
  rw [diffKeys, List.mem_append, List.mem_filter, decide_eq_true_eq, mem_objectKeys, mem_objectKeys]
  tauto

theorem deepEqual_iff (hv : IsJson v) (hw : IsJson w) : deepEqual v w = true ↔ Js.textOf v = Js.textOf w := by
  rw [deepEqual, decide_eq_true_eq, Js.serialize_eq_textOf hv, Js.serialize_eq_textOf hw, Option.some.injEq]

/-- A property that both have. -/
theorem entriesAt_both (hv : Value.own props key = some v) (hw : Value.own props' key = some w) (path : String) :
    entriesAt (.object ref props) (.object ref' props') path key =
      if isPlainObject v ∧ isPlainObject w then diffObjects v w (diffPath path key)
      else if !deepEqual v w then [⟨diffPath path key, .change, some v, some w⟩]
      else [] := by
  simp [entriesAt, hasKey_of_own hv, hasKey_of_own hw, get_of_own hv, get_of_own hw]

/-- Inside arrays, and only there, objects list their keys in the same order. -/
inductive ArraysInOrder : Value → Value → Prop where
  | leaf {v w : Value} (hplain : isPlainObject v = false) (h : Js.SameOrder v w) : ArraysInOrder v w
  | object {ref ref' : Option String} {props props' : Record}
    (h : ∀ key v w, Value.own props key = some v → Value.own props' key = some w → ArraysInOrder v w) :
    ArraysInOrder (.object ref props) (.object ref' props')

theorem isPlainObject_of_jsonEq (h : JsonEq v w) : isPlainObject v = isPlainObject w := by
  cases h <;> rfl

theorem arraysInOrder_iff (hplain : isPlainObject v = false) : ArraysInOrder v w ↔ Js.SameOrder v w := by
  constructor
  · intro h
    cases h with
    | leaf _ h => exact h
    | object _ => cases hplain
  · exact .leaf hplain

end

/-- **Equal JSON objects have an empty diff just if their keys are in the same order inside arrays.** -/
theorem diffObjects_eq_nil_iff {before after : Value} (hbefore : IsJson before) (hafter : IsJson after)
    (hobject : isPlainObject before = true) (heq : JsonEq before after) (path : String) :
    diffObjects before after path = [] ↔ ArraysInOrder before after := by
  induction heq generalizing path with
  | @object ref ref' props props' hkeys hvalues ih =>
    have hat : ∀ key v w, Value.own props key = some v → Value.own props' key = some w →
        (entriesAt (.object ref props) (.object ref' props') path key = [] ↔ ArraysInOrder v w) := by
      intro key v w hv hw
      have hjson := hbefore.of_own hv
      have hjson' := hafter.of_own hw
      have hsame := hvalues key v w hv hw
      rw [entriesAt_both hv hw]
      by_cases hplain : isPlainObject v = true
      · rw [if_pos ⟨hplain, isPlainObject_of_jsonEq hsame ▸ hplain⟩]
        exact ih key v w hv hw hjson hjson' hplain _
      · have hdeep := (deepEqual_iff hjson hjson').trans (Js.textOf_eq_iff hjson hjson' hsame)
        rw [if_neg fun h => hplain h.1, arraysInOrder_iff (by simpa using hplain), ← hdeep]
        by_cases h : deepEqual v w = true <;> simp [h]
    rw [diffObjects_eq, List.flatMap_eq_nil_iff]
    constructor
    · intro h
      exact .object fun key v w hv hw =>
        (hat key v w hv hw).1 (h key (mem_diffKeys.2 (.inl (by rw [hv]; rfl))))
    · intro horder key hkey
      have hboth : (Value.own props key).isSome = true ∧ (Value.own props' key).isSome = true := by
        have hsame := hkeys key
        rcases mem_diffKeys.1 hkey with h | h
        · exact ⟨h, hsame ▸ h⟩
        · exact ⟨hsame ▸ h, h⟩
      obtain ⟨v, hv⟩ := Option.isSome_iff_exists.1 hboth.1
      obtain ⟨w, hw⟩ := Option.isSome_iff_exists.1 hboth.2
      cases horder with
      | leaf h => cases h
      | object h => exact (hat key v w hv hw).2 (h key v w hv hw)
  | _ => cases hobject

/-- Two objects whose keys were set in different orders. -/
theorem diffObjects_reordered :
    diffObjects (.object none [("x", .string "1"), ("y", .string "2")])
      (.object none [("y", .string "2"), ("x", .string "1")]) "" = [] := by
  have hbefore : IsJson (.object none [("x", .string "1"), ("y", .string "2")]) :=
    .object (by simp) (by simp [IsJson.string])
  have hafter : IsJson (.object none [("y", .string "2"), ("x", .string "1")]) :=
    .object (by simp) (by simp [IsJson.string])
  refine (diffObjects_eq_nil_iff hbefore hafter rfl (.of_perm hbefore (List.Perm.swap _ _ _)) "").2 ?_
  refine .object fun key v w hv hw => ?_
  have hstring : isPlainObject v = false ∧ v.isObjectType = false := by
    have hmem := InsertionMap.mem_of_lookupIn hv
    simp only [List.mem_cons, Prod.mk.injEq, List.not_mem_nil, or_false] at hmem
    rcases hmem with ⟨_, rfl⟩ | ⟨_, rfl⟩ <;> exact ⟨rfl, rfl⟩
  exact .leaf hstring.1 (.scalar (.inl hstring.2))

/-- Inside an array the same two objects differ. -/
theorem diffObjects_reordered_in_array :
    let before := .object none [("a", .array none [.object none [("x", .string "1"), ("y", .string "2")]])]
    let after := .object none [("a", .array none [.object none [("y", .string "2"), ("x", .string "1")]])]
    IsJson before ∧ IsJson after ∧ JsonEq before after ∧ diffObjects before after "" ≠ [] := by
  have hitem : IsJson (.object none [("x", .string "1"), ("y", .string "2")]) :=
    .object (by simp) (by simp [IsJson.string])
  have hitem' : IsJson (.object none [("y", .string "2"), ("x", .string "1")]) :=
    .object (by simp) (by simp [IsJson.string])
  refine ⟨.object (by simp) (by simpa using .array (by simpa using hitem)),
    .object (by simp) (by simpa using .array (by simpa using hitem')), ?_, fun h => ?_⟩
  · refine .object (fun key => ?_) fun key v w hv hw => ?_
    · rw [Bool.eq_iff_iff, Js.own_isSome_iff, Js.own_isSome_iff]
      rfl
    · have hmem := InsertionMap.mem_of_lookupIn hv
      have hmem' := InsertionMap.mem_of_lookupIn hw
      simp only [List.mem_singleton, Prod.mk.injEq] at hmem hmem'
      rw [hmem.2, hmem'.2]
      refine .array rfl fun i u u' hu hu' => ?_
      cases i with
      | zero =>
        obtain rfl := Option.some.inj hu
        obtain rfl := Option.some.inj hu'
        exact .of_perm hitem (List.Perm.swap _ _ _)
      | succ i => cases hu
  · have hkey := List.flatMap_eq_nil_iff.1 ((diffObjects_eq _ _ "").symm.trans h) "a"
      (mem_diffKeys.2 (.inl (by rfl)))
    rw [entriesAt_both (by rfl) (by rfl)] at hkey
    have hdeep : deepEqual (.array none [.object none [("x", .string "1"), ("y", .string "2")]])
        (.array none [.object none [("y", .string "2"), ("x", .string "1")]]) = false := by decide +kernel
    rw [hdeep] at hkey
    cases hkey

end Jobflow
