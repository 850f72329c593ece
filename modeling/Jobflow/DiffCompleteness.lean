import Jobflow.Lib.Delimiters
import Jobflow.ObjectDiff

/-!
# What a diff determines (src/lib/object-diff.ts)

Under different paths for different places the diff and `before` determine `after` (`diff_determines`). Keys that are
not empty and have no dot have such paths (`dottedPath_inj`).
-/

namespace Jobflow

open Js (Value Record IsJson JsonEq)

/-! ## The difference at a place -/

structure Change where
  op : DiffOp
  before : Option Value
  after : Option Value

/-- What is said of the place that a list of keys leads to, through plain objects. -/
def changeAt (before after : Value) : List String → Option Change
  | [] => none
  | key :: rest =>
    let a := before.get key
    let b := after.get key
    if key ∉ diffKeys before after then none
    else if hasKey key before ∧ hasKey key after ∧ isPlainObject a ∧ isPlainObject b then changeAt a b rest
    else if rest ≠ [] then none
    else if !hasKey key before then some ⟨.add, none, some b⟩
    else if !hasKey key after then some ⟨.remove, some a, none⟩
    else if !deepEqual a b then some ⟨.change, some a, some b⟩
    else none

/-- The path an entry has for a place. -/
def dottedPath (pathPrefix : String) (place : List String) : String := place.foldl diffPath pathPrefix

def Change.entry (c : Change) (path : String) : DiffEntry := ⟨path, c.op, c.before, c.after⟩

/-- **The diff lists the differences at all places**, each under its dotted path. -/
theorem mem_diffObjects {e : DiffEntry} : ∀ {n : Nat} {before after : Value}, sizeOf before + sizeOf after = n →
    ∀ {path : String}, e ∈ diffObjects before after path ↔
      ∃ place c, changeAt before after place = some c ∧ e = c.entry (dottedPath path place) := by
  intro n
  induction n using Nat.strong_induction_on with
  | _ n ih =>
    intro before after hsize path
    have hat : ∀ key ∈ diffKeys before after, e ∈ entriesAt before after path key ↔
        ∃ rest c, changeAt before after (key :: rest) = some c ∧ e = c.entry (dottedPath path (key :: rest)) := by
      intro key hkey
      by_cases hplain : hasKey key before = true ∧ hasKey key after = true ∧ isPlainObject (before.get key) = true ∧
          isPlainObject (after.get key) = true
      · have hlt := sizeOf_get hkey hplain.2.2
        simp only [entriesAt, changeAt, hkey, hplain, not_true_eq_false, and_self, if_true, if_false, Bool.not_true,
          Bool.false_eq_true]
        exact ih _ (hsize ▸ hlt) rfl
      · -- the entry is about the property itself
        have hrest : ∀ rest, changeAt before after (key :: rest) =
            if rest ≠ [] then none
            else if !hasKey key before then some ⟨.add, none, some (after.get key)⟩
            else if !hasKey key after then some ⟨.remove, some (before.get key), none⟩
            else if !deepEqual (before.get key) (after.get key) then
              some ⟨.change, some (before.get key), some (after.get key)⟩
            else none := fun rest => by
          rw [changeAt, if_neg (not_not.2 hkey), if_neg hplain]
        have hsingle : (∃ rest c, changeAt before after (key :: rest) = some c ∧
            e = c.entry (dottedPath path (key :: rest))) ↔
              ∃ c, changeAt before after [key] = some c ∧ e = c.entry (diffPath path key) := by
          constructor
          · rintro ⟨rest, c, hc, he⟩
            by_cases hnil : rest = []
            · subst hnil
              exact ⟨c, hc, he⟩
            · rw [hrest, if_pos hnil] at hc
              cases hc
          · rintro ⟨c, hc, he⟩
            exact ⟨[], c, hc, he⟩
        rw [hsingle, hrest]
        unfold entriesAt
        by_cases hbefore : hasKey key before = true <;> by_cases hafter : hasKey key after = true
        · have hplain' : ¬ (isPlainObject (before.get key) = true ∧ isPlainObject (after.get key) = true) :=
            fun h => hplain ⟨hbefore, hafter, h⟩
          by_cases hdeep : deepEqual (before.get key) (after.get key) = true <;>
            simp [hbefore, hafter, hplain', hdeep, Change.entry]
        · simp [hbefore, hafter, Change.entry]
        · simp [hbefore, Change.entry]
        · simp [hbefore, Change.entry]
    rw [diffObjects_eq, List.mem_flatMap]
    constructor
    · rintro ⟨key, hkey, he⟩
      obtain ⟨rest, c, hc, he⟩ := (hat key hkey).1 he
      exact ⟨key :: rest, c, hc, he⟩
    · rintro ⟨place, c, hc, he⟩
      cases place with
      | nil => cases hc
      | cons key rest =>
        have hkey : key ∈ diffKeys before after := by
          by_contra hkey
          simp [changeAt, hkey] at hc
        exact ⟨key, hkey, (hat key hkey).2 ⟨rest, c, hc, he⟩⟩

/-! ## Places -/

/-- What a list of keys leads to, through plain objects. -/
def objectAt : Value → List String → Option Value
  | v, [] => some v
  | .object _ props, key :: rest => (Value.own props key).bind fun v => objectAt v rest
  | _, _ :: _ => none

/-- A list of keys that leads somewhere in one of the values. -/
def IsPlace (vs : List Value) (place : List String) : Prop := place ≠ [] ∧ ∃ v ∈ vs, (objectAt v place).isSome = true

theorem objectAt_of_get {v : Value} {key : String} {rest : List String} (hplain : isPlainObject v = true)
    (hne : rest ≠ []) (h : (objectAt (v.get key) rest).isSome = true) : (objectAt v (key :: rest)).isSome = true := by
  obtain ⟨key', rest, rfl⟩ := List.exists_cons_of_ne_nil hne
  -- what is inherited leads nowhere
  have hinherited : ∀ proto, (∀ rest, objectAt proto (key' :: rest) = none) →
      objectAt (Value.getFromObjectPrototype proto key) (key' :: rest) = none := by
    intro proto hproto
    unfold Value.getFromObjectPrototype
    split_ifs
    · exact hproto rest
    · rfl
    · rfl
  cases v with
  | object ref props =>
    rw [Value.get_object] at h
    cases hown : Value.own props key with
    | none =>
      rw [hown, Option.getD_none, hinherited _ fun _ => rfl] at h
      cases h
    | some w =>
      rw [hown, Option.getD_some] at h
      rwa [objectAt, hown, Option.bind_some]
  | native n =>
    cases n with
    | objectPrototype =>
      rw [Value.get, hinherited _ fun _ => rfl] at h
      cases h
    | _ => cases hplain
  | _ => cases hplain

theorem isPlace_of_mem {v : Value} {key : String} (h : key ∈ objectKeys v) : (objectAt v [key]).isSome = true := by
  cases v with
  | object ref props =>
    obtain ⟨w, hw⟩ := Option.isSome_iff_exists.1 (mem_objectKeys.1 h)
    rw [objectAt, hw]
    rfl
  | _ => cases h

/-- Only places differ. -/
theorem isPlace_of_changeAt {c : Change} : ∀ {place : List String} {before after : Value},
    isPlainObject before = true → isPlainObject after = true → changeAt before after place = some c →
      IsPlace [before, after] place
  | [], _, _, _, _, h => by cases h
  | key :: rest, before, after, hbefore, hafter, h => by
    rw [changeAt] at h
    split_ifs at h with hkey hplain hrest
    · obtain ⟨hne, v, hv, hplace⟩ := isPlace_of_changeAt hplain.2.2.1 hplain.2.2.2 h
      refine ⟨List.cons_ne_nil _ _, ?_⟩
      simp only [List.mem_cons, List.not_mem_nil, or_false] at hv
      rcases hv with rfl | rfl
      · exact ⟨before, by simp, objectAt_of_get hbefore hne hplace⟩
      · exact ⟨after, by simp, objectAt_of_get hafter hne hplace⟩
    all_goals
      rw [not_not.1 hrest]
      refine ⟨List.cons_ne_nil _ _, ?_⟩
      rcases List.mem_append.1 hkey with hkey | hkey
      · exact ⟨before, by simp, isPlace_of_mem hkey⟩
      · exact ⟨after, by simp, isPlace_of_mem (List.mem_of_mem_filter hkey)⟩

/-! ## The changes of one property -/

section
variable {ref ref' : Option String} {props props' : Record} {key : String} {v w : Value}

theorem changeAt_absent (hv : Value.own props key = none) (hw : Value.own props' key = none) (rest : List String) :
    changeAt (.object ref props) (.object ref' props') (key :: rest) = none := by
  have hkey : key ∉ diffKeys (.object ref props) (.object ref' props') := by
    rw [mem_diffKeys, hv, hw]
    simp
  rw [changeAt, if_pos hkey]

/-- What a plain object has of a key that is not its own: nothing, or a function. -/
theorem inherited (hproto : key ≠ "__proto__") (hv : Value.own props key = none) :
    hasKey key (.object ref props) = false ∨
      hasKey key (.object ref props) = true ∧
        ∃ name, (Value.object ref props).get key = .native (.function name) := by
  by_cases hname : key ∈ Value.objectPrototypeNames
  · refine .inr ⟨by simp [hasKey, hname], "Object.prototype." ++ key, ?_⟩
    rw [Value.get_object, hv, Option.getD_none, Value.getFromObjectPrototype, if_neg hproto, if_pos hname]
  · exact .inl (by simp [hasKey, hv, hproto, hname])

theorem changeAt_new (hproto : key ≠ "__proto__") (hv : Value.own props key = none)
    (hw : Value.own props' key = some w) (hjson : IsJson w) :
    ∃ c, changeAt (.object ref props) (.object ref' props') [key] = some c ∧ c.after = some w := by
  have hkey : key ∈ diffKeys (.object ref props) (.object ref' props') := mem_diffKeys.2 (.inr (by rw [hw]; rfl))
  rcases @inherited ref props key hproto hv with hnone | ⟨hsome, name, hget⟩
  · exact ⟨⟨.add, none, some w⟩, by simp [changeAt, hkey, hnone, get_of_own hw], rfl⟩
  · refine ⟨⟨.change, some (.native (.function name)), some w⟩, ?_, rfl⟩
    have hdeep : deepEqual (.native (.function name)) w = false := by
      rw [deepEqual, Js.serialize_eq_textOf hjson]
      rfl
    simp [changeAt, hkey, hsome, hasKey_of_own hw, hget, get_of_own hw, isPlainObject, hdeep]

theorem changeAt_gone (hproto : key ≠ "__proto__") (hv : Value.own props key = some v)
    (hw : Value.own props' key = none) (hjson : IsJson v) :
    ∃ c, changeAt (.object ref props) (.object ref' props') [key] = some c ∧
      (c.after = none ∨ ∃ name, c.after = some (.native (.function name))) := by
  have hkey : key ∈ diffKeys (.object ref props) (.object ref' props') := mem_diffKeys.2 (.inl (by rw [hv]; rfl))
  rcases @inherited ref' props' key hproto hw with hnone | ⟨hsome, name, hget⟩
  · exact ⟨⟨.remove, some v, none⟩, by simp [changeAt, hkey, hnone, hasKey_of_own hv, get_of_own hv], .inl rfl⟩
  · refine ⟨⟨.change, some v, some (.native (.function name))⟩, ?_, .inr ⟨name, rfl⟩⟩
    have hdeep : deepEqual v (.native (.function name)) = false := by
      rw [deepEqual, Js.serialize_eq_textOf hjson]
      rfl
    simp [changeAt, hkey, hsome, hasKey_of_own hv, hget, get_of_own hv, isPlainObject, hdeep]

theorem changeAt_both (hv : Value.own props key = some v) (hw : Value.own props' key = some w) (hjson : IsJson v)
    (hjson' : IsJson w) :
    changeAt (.object ref props) (.object ref' props') [key] =
      if isPlainObject v ∧ isPlainObject w then none
      else if Js.textOf v = Js.textOf w then none
      else some ⟨.change, some v, some w⟩ := by
  have hkey : key ∈ diffKeys (.object ref props) (.object ref' props') := mem_diffKeys.2 (.inl (by rw [hv]; rfl))
  have hdeep := deepEqual_iff hjson hjson'
  by_cases hplain : isPlainObject v = true ∧ isPlainObject w = true
  · simp [changeAt, hkey, hasKey_of_own hv, hasKey_of_own hw, get_of_own hv, get_of_own hw, hplain]
  · by_cases htext : Js.textOf v = Js.textOf w <;>
      simp [changeAt, hkey, hasKey_of_own hv, hasKey_of_own hw, get_of_own hv, get_of_own hw, hplain, htext, hdeep]

theorem changeAt_under (hv : Value.own props key = some v) (hw : Value.own props' key = some w)
    (hplain : isPlainObject v = true) (hplain' : isPlainObject w = true) (rest : List String) :
    changeAt (.object ref props) (.object ref' props') (key :: rest) = changeAt v w rest := by
  have hkey : key ∈ diffKeys (.object ref props) (.object ref' props') := mem_diffKeys.2 (.inl (by rw [hv]; rfl))
  simp [changeAt, hkey, hasKey_of_own hv, hasKey_of_own hw, get_of_own hv, get_of_own hw, hplain, hplain']

end

/-! ## Paths that tell places apart -/

/-- The three objects have no key `__proto__`, and different places in them have different paths. -/
structure Unambiguous (vs : List Value) : Prop where
  noProto : ∀ place, IsPlace vs place → "__proto__" ∉ place
  injective : ∀ p q, IsPlace vs p → IsPlace vs q → dottedPath "" p = dottedPath "" q → p = q

theorem IsPlace.mono {vs ws : List Value} {place : List String} (hsub : vs ⊆ ws) (h : IsPlace vs place) :
    IsPlace ws place :=
  ⟨h.1, h.2.imp fun _ hv => ⟨hsub hv.1, hv.2⟩⟩

structure PathKey (key : String) : Prop where
  nonempty : key ≠ ""
  noDot : '.' ∉ key.toList
  noProto : key ≠ "__proto__"

theorem dottedPath_from {path : String} (hpath : path ≠ "") (place : List String) :
    (dottedPath path place).toList = path.toList ++ place.flatMap fun key => '.' :: key.toList := by
  induction place generalizing path with
  | nil => simp [dottedPath]
  | cons key rest ih =>
    have hstep : diffPath path key = path ++ "." ++ key := if_neg hpath
    have hne : diffPath path key ≠ "" := by
      rw [hstep, ← String.toList_inj.ne]
      simp
    have hfold : dottedPath path (key :: rest) = dottedPath (diffPath path key) rest := rfl
    rw [hfold, ih hne, hstep]
    simp

theorem dottedPath_eq_intercalate {place : List String} (hkeys : ∀ key ∈ place, PathKey key) :
    (dottedPath "" place).toList = ['.'].intercalate (place.map String.toList) := by
  cases place with
  | nil => rfl
  | cons key rest =>
    have hfold : dottedPath "" (key :: rest) = dottedPath key rest := rfl
    rw [hfold, dottedPath_from (hkeys key List.mem_cons_self).nonempty, List.map_cons, Delimiters.intercalate_cons,
      List.flatMap_map]

/-- Keys that are not empty and have no dot can be read off their path. -/
theorem dottedPath_inj {p q : List String} (hp : p ≠ []) (hq : q ≠ []) (hkeysp : ∀ key ∈ p, PathKey key)
    (hkeysq : ∀ key ∈ q, PathKey key) (h : dottedPath "" p = dottedPath "" q) : p = q := by
  have hsplit : ∀ {place : List String}, place ≠ [] → (∀ key ∈ place, PathKey key) →
      (dottedPath "" place).toList.splitOn '.' = place.map String.toList := by
    intro place hne hkeys
    rw [dottedPath_eq_intercalate hkeys]
    refine List.splitOn_intercalate _ ?_ (by simpa using hne)
    intro chars hchars
    obtain ⟨key, hkey, rfl⟩ := List.mem_map.1 hchars
    exact (hkeys key hkey).noDot
  have hchars := hsplit hp hkeysp
  rw [h, hsplit hq hkeysq] at hchars
  exact (List.map_injective_iff.2 (fun _ _ h => String.toList_injective h) hchars).symm

/-- The keys of an object, and of those in it. -/
inductive PathKeys : Value → Prop where
  | leaf {v : Value} (h : isPlainObject v = false) : PathKeys v
  | object {ref : Option String} {props : Record} (hkeys : ∀ p ∈ props, PathKey p.1) (h : ∀ p ∈ props, PathKeys p.2) :
    PathKeys (.object ref props)

theorem PathKeys.objectAt {v : Value} {place : List String} (h : PathKeys v)
    (hplace : (Jobflow.objectAt v place).isSome = true) : ∀ key ∈ place, PathKey key := by
  induction place generalizing v with
  | nil => simp
  | cons key rest ih =>
    cases h with
    | leaf h =>
      cases v with
      | object => cases h
      | _ => cases hplace
    | object hkeys h =>
      rename_i ref props
      rw [Jobflow.objectAt] at hplace
      obtain ⟨w, hw⟩ := Option.isSome_iff_exists.1 hplace
      obtain ⟨u, hu, hrest⟩ := Option.bind_eq_some_iff.1 hw
      have hmem : (key, u) ∈ props := InsertionMap.mem_of_lookupIn hu
      rw [List.forall_mem_cons]
      exact ⟨hkeys _ hmem, ih (h _ hmem) (by rw [hrest]; rfl)⟩

theorem unambiguous_of_pathKeys {vs : List Value} (h : ∀ v ∈ vs, PathKeys v) : Unambiguous vs := by
  have hkeys : ∀ {place}, IsPlace vs place → ∀ key ∈ place, PathKey key := by
    rintro place ⟨_, v, hv, hplace⟩
    exact (h v hv).objectAt hplace
  refine ⟨fun place hplace hmem => (hkeys hplace _ hmem).noProto rfl, fun p q hp hq hpath => ?_⟩
  exact dottedPath_inj hp.1 hq.1 (hkeys hp) (hkeys hq) hpath

/-! ## Determination -/

/-- Identical, or equal as JSON values. -/
def SameValue : Option Value → Option Value → Prop
  | none, none => True
  | some v, some w => v = w ∨ JsonEq v w
  | _, _ => False

structure SameChange (c c' : Change) : Prop where
  op : c.op = c'.op
  before : SameValue c.before c'.before
  after : SameValue c.after c'.after

structure SameEntry (e e' : DiffEntry) : Prop where
  path : e.path = e'.path
  op : e.op = e'.op
  before : SameValue e.before e'.before
  after : SameValue e.after e'.after

theorem SameValue.symm {x y : Option Value} (h : SameValue x y) : SameValue y x := by
  cases x <;> cases y
  · exact h
  · exact h
  · exact h
  · exact h.imp Eq.symm JsonEq.symm

theorem SameChange.symm {c c' : Change} (h : SameChange c c') : SameChange c' c :=
  ⟨h.op.symm, h.before.symm, h.after.symm⟩

theorem jsonEq_of_sameValue {v w : Value} (hv : IsJson v) (h : SameValue (some v) (some w)) : JsonEq v w := by
  rcases h with rfl | h
  · exact JsonEq.refl hv
  · exact h

/-- Both say nothing, or the same. -/
def SameAt (x y : Option Change) : Prop := Option.Rel SameChange x y

theorem SameAt.symm {x y : Option Change} (h : SameAt x y) : SameAt y x := by
  cases h with
  | none => exact .none
  | some h => exact .some h.symm

section
variable {ref ref' ref'' : Option String} {props props' props'' : Record} {key : String} {v w : Value}

/-- A property of one that the other lacks shows. -/
theorem not_sameAt_of_own (hbefore : IsJson (.object ref props)) (hproto : key ≠ "__proto__")
    (hv : Value.own props' key = some v) (hjson : IsJson v) (hw : Value.own props'' key = none) :
    ¬ SameAt (changeAt (.object ref props) (.object ref' props') [key])
      (changeAt (.object ref props) (.object ref'' props'') [key]) := by
  intro hsame
  cases hu : Value.own props key with
  | none =>
    obtain ⟨c, hc, _⟩ := @changeAt_new ref ref' props props' key v hproto hu hv hjson
    rw [hc, changeAt_absent hu hw] at hsame
    cases hsame
  | some u =>
    have hjson' := hbefore.of_own hu
    obtain ⟨c', hc', hafter⟩ := @changeAt_gone ref ref'' props props'' key u hproto hu hw hjson'
    rw [hc', changeAt_both hu hv hjson' hjson] at hsame
    split_ifs at hsame
    · cases hsame
    · cases hsame
    · cases hsame with
      | some h =>
        have hsame := h.after
        rcases hafter with hnone | ⟨name, hname⟩
        · rw [hnone] at hsame
          exact hsame
        · rw [hname] at hsame
          rcases hsame with rfl | hsame
          · cases hjson
          · cases hsame

/-- A property that both have, where one of them is not a plain object next to a plain `u`. -/
theorem jsonEq_of_sameAt {u : Value} (hbefore : IsJson u) (hu : Value.own props key = some u)
    (hv : Value.own props' key = some v) (hw : Value.own props'' key = some w) (hjson : IsJson v) (hjson' : IsJson w)
    (hplain : ¬ (isPlainObject u = true ∧ isPlainObject v = true ∧ isPlainObject w = true))
    (hsame : SameAt (changeAt (.object ref props) (.object ref' props') [key])
      (changeAt (.object ref props) (.object ref'' props'') [key])) : JsonEq v w := by
  -- the text of a plain object is not that of anything else
  have hkind : ∀ {x : Value}, IsJson x → isPlainObject u = true → Js.textOf u = Js.textOf x →
      isPlainObject x = true := fun hx hu htext =>
    isPlainObject_of_jsonEq (Js.jsonEq_of_text hbefore hx htext) ▸ hu
  rw [changeAt_both hu hv hbefore hjson, changeAt_both hu hw hbefore hjson'] at hsame
  by_cases htv : Js.textOf u = Js.textOf v <;> by_cases htw : Js.textOf u = Js.textOf w
  · exact Js.jsonEq_of_text hjson hjson' (htv.symm.trans htw)
  · rw [if_pos htv, if_neg htw, ite_self] at hsame
    split_ifs at hsame with hw
    · exact absurd ⟨hw.1, hkind hjson hw.1 htv, hw.2⟩ hplain
    · cases hsame
  · rw [if_neg htv, if_pos htw, ite_self] at hsame
    split_ifs at hsame with hv
    · exact absurd ⟨hv.1, hv.2, hkind hjson' hv.1 htw⟩ hplain
    · cases hsame
  · rw [if_neg htv, if_neg htw] at hsame
    split_ifs at hsame with hv hw hw
    · exact absurd ⟨hv.1, hv.2, hw.2⟩ hplain
    · cases hsame
    · cases hsame
    · cases hsame with
      | some h => exact jsonEq_of_sameValue hjson h.after

end

theorem isPlace_under {vs ws : List Value} {key : String} {place : List String}
    (hunder : ∀ x ∈ ws, ∃ ref props, Value.object ref props ∈ vs ∧ Value.own props key = some x)
    (h : IsPlace ws place) : IsPlace vs (key :: place) := by
  obtain ⟨_, x, hx, hplace⟩ := h
  obtain ⟨ref, props, hmem, hown⟩ := hunder x hx
  refine ⟨List.cons_ne_nil _ _, _, hmem, ?_⟩
  rwa [objectAt, hown, Option.bind_some]

/-- The same differences from `before` are those to equal objects. -/
theorem jsonEq_of_changes {before a a' : Value} (hbefore : IsJson before) (ha : IsJson a) (ha' : IsJson a')
    (hplain : isPlainObject before = true) (hplaina : isPlainObject a = true) (hplaina' : isPlainObject a' = true)
    (hproto : ∀ place, IsPlace [before, a, a'] place → "__proto__" ∉ place)
    (hsame : ∀ place, SameAt (changeAt before a place) (changeAt before a' place)) : JsonEq a a' := by
  induction hbefore generalizing a a' with
  | @object ref props hkeys hprops ih =>
    have hbefore : IsJson (.object ref props) := .object hkeys hprops
    obtain ⟨ref', props', rfl⟩ : ∃ ref' props', a = .object ref' props' := by
      cases ha with
      | object => exact ⟨_, _, rfl⟩
      | _ => cases hplaina
    obtain ⟨ref'', props'', rfl⟩ : ∃ ref'' props'', a' = .object ref'' props'' := by
      cases ha' with
      | object => exact ⟨_, _, rfl⟩
      | _ => cases hplaina'
    have hproto' : ∀ {key x}, Value.own props' key = some x ∨ Value.own props'' key = some x → key ≠ "__proto__" := by
      rintro key x hown rfl
      refine hproto ["__proto__"] ⟨List.cons_ne_nil _ _, ?_⟩ List.mem_cons_self
      rcases hown with hown | hown
      · exact ⟨_, List.mem_cons_of_mem _ List.mem_cons_self, by rw [objectAt, hown]; rfl⟩
      · exact ⟨_, List.mem_cons_of_mem _ (List.mem_cons_of_mem _ List.mem_cons_self), by rw [objectAt, hown]; rfl⟩
    refine .object (fun key => ?_) fun key v w hv hw => ?_
    · cases hv : Value.own props' key with
      | none =>
        cases hw : Value.own props'' key with
        | none => rfl
        | some w =>
          exact absurd (hsame [key]).symm (not_sameAt_of_own hbefore (hproto' (.inr hw)) hw (ha'.of_own hw) hv)
      | some v =>
        cases hw : Value.own props'' key with
        | none => exact absurd (hsame [key]) (not_sameAt_of_own hbefore (hproto' (.inl hv)) hv (ha.of_own hv) hw)
        | some w => rfl
    · have hjson := ha.of_own hv
      have hjson' := ha'.of_own hw
      cases hu : Value.own props key with
      | none =>
        obtain ⟨c, hc, hafter⟩ := @changeAt_new ref ref' props props' key v (hproto' (.inl hv)) hu hv hjson
        obtain ⟨c', hc', hafter'⟩ := @changeAt_new ref ref'' props props'' key w (hproto' (.inr hw)) hu hw hjson'
        have hkey := hsame [key]
        rw [hc, hc'] at hkey
        cases hkey with
        | some h =>
          refine jsonEq_of_sameValue hjson ?_
          rw [← hafter, ← hafter']
          exact h.after
      | some u =>
        by_cases hall : isPlainObject u = true ∧ isPlainObject v = true ∧ isPlainObject w = true
        · refine ih (key, u) ((Js.own_eq_some_iff hkeys).1 hu) hjson hjson' hall.1 hall.2.1 hall.2.2
            (fun place hplace hmem => ?_) fun place => ?_
          · refine hproto (key :: place) (isPlace_under ?_ hplace) (List.mem_cons_of_mem _ hmem)
            simp only [List.mem_cons, List.not_mem_nil, or_false]
            rintro x (rfl | rfl | rfl)
            · exact ⟨ref, props, .inl rfl, hu⟩
            · exact ⟨ref', props', .inr (.inl rfl), hv⟩
            · exact ⟨ref'', props'', .inr (.inr rfl), hw⟩
          · rw [← changeAt_under hu hv hall.1 hall.2.1, ← changeAt_under hu hw hall.1 hall.2.2]
            exact hsame (key :: place)
        · exact jsonEq_of_sameAt (hbefore.of_own hu) hu hv hw hjson hjson' hall (hsame [key])
  | _ => cases hplain

theorem SameEntry.symm {e e' : DiffEntry} (h : SameEntry e e') : SameEntry e' e :=
  ⟨h.path.symm, h.op.symm, h.before.symm, h.after.symm⟩

theorem SameEntry.refl (e : DiffEntry) : SameEntry e e := by
  have hsame : ∀ x, SameValue x x := by
    intro x
    cases x with
    | none => trivial
    | some v => exact .inl rfl
  exact ⟨rfl, rfl, hsame _, hsame _⟩

theorem exists_of_forall₂ {α : Type} {R : α → α → Prop} {xs ys : List α} (h : List.Forall₂ R xs ys) :
    ∀ x ∈ xs, ∃ y ∈ ys, R x y := by
  induction h with
  | nil =>
    intro x hx
    cases hx
  | cons hxy _ ih =>
    intro x hx
    rcases List.mem_cons.1 hx with rfl | hx
    · exact ⟨_, List.mem_cons_self, hxy⟩
    · obtain ⟨y, hy, hxy⟩ := ih x hx
      exact ⟨y, List.mem_cons_of_mem _ hy, hxy⟩

/-- A difference that one list has the other has too, at the same place. -/
theorem changeAt_of_entries {vs : List Value} {before a a' : Value} {place : List String} {c : Change}
    (hpaths : Unambiguous vs) (hobject : ∀ v ∈ vs, isPlainObject v = true) (hbefore : before ∈ vs) (ha : a ∈ vs)
    (ha' : a' ∈ vs) (hmem : ∀ e ∈ diffObjects before a "", ∃ e' ∈ diffObjects before a' "", SameEntry e e')
    (hc : changeAt before a place = some c) : ∃ c', changeAt before a' place = some c' ∧ SameChange c c' := by
  obtain ⟨e', he', hsame⟩ := hmem _ ((mem_diffObjects rfl).2 ⟨place, c, hc, rfl⟩)
  obtain ⟨place', c', hc', rfl⟩ := (mem_diffObjects rfl).1 he'
  have hplace : IsPlace vs place :=
    (isPlace_of_changeAt (hobject _ hbefore) (hobject _ ha) hc).mono (by simp [hbefore, ha])
  have hplace' : IsPlace vs place' :=
    (isPlace_of_changeAt (hobject _ hbefore) (hobject _ ha') hc').mono (by simp [hbefore, ha'])
  obtain rfl := hpaths.injective _ _ hplace hplace' hsame.path
  exact ⟨c', hc', hsame.op, hsame.before, hsame.after⟩

/-- **The diff determines `after`**, where paths tell places apart. -/
theorem diff_determines {before a a' : Value} (hbefore : IsJson before) (ha : IsJson a) (ha' : IsJson a')
    (hobject : ∀ v ∈ [before, a, a'], isPlainObject v = true) (hpaths : Unambiguous [before, a, a'])
    (hsame : List.Forall₂ SameEntry (diffObjects before a "") (diffObjects before a' "")) : JsonEq a a' := by
  have hforth : ∀ {place c}, changeAt before a place = some c →
      ∃ c', changeAt before a' place = some c' ∧ SameChange c c' :=
    changeAt_of_entries hpaths hobject (by simp) (by simp) (by simp) (exists_of_forall₂ hsame)
  have hback : ∀ {place c}, changeAt before a' place = some c →
      ∃ c', changeAt before a place = some c' ∧ SameChange c c' := by
    refine changeAt_of_entries hpaths hobject (by simp) (by simp) (by simp) fun e he => ?_
    obtain ⟨e', he', h⟩ := exists_of_forall₂ (R := flip SameEntry) hsame.flip e he
    exact ⟨e', he', SameEntry.symm h⟩
  refine jsonEq_of_changes hbefore ha ha' (hobject _ (by simp)) (hobject _ (by simp)) (hobject _ (by simp))
    hpaths.noProto fun place => ?_
  cases hc : changeAt before a place with
  | some c =>
    obtain ⟨c', hc', hchange⟩ := hforth hc
    rw [hc']
    exact .some hchange
  | none =>
    cases hc' : changeAt before a' place with
    | none => exact .none
    | some c' =>
      obtain ⟨c, hnew, _⟩ := hback hc'
      rw [hc] at hnew
      cases hnew

/-- Two objects whose keys were set in different orders. -/
theorem diff_determines_reordered :
    JsonEq (.object none [("x", .string "2"), ("y", .string "3")])
      (.object none [("y", .string "3"), ("x", .string "2")]) := by
  have hstring : ∀ s, IsJson (.string s) ∧ PathKeys (.string s) := fun s => ⟨.string s, .leaf rfl⟩
  have hx : PathKey "x" := by refine ⟨?_, ?_, ?_⟩ <;> decide
  have hy : PathKey "y" := by refine ⟨?_, ?_, ?_⟩ <;> decide
  have hdiff : ∀ {props : Record}, diffKeys (.object none [("x", .string "1")]) (.object none props) = ["x", "y"] →
      Value.own props "x" = some (.string "2") → Value.own props "y" = some (.string "3") →
        diffObjects (.object none [("x", .string "1")]) (.object none props) "" =
          [⟨"x", .change, some (.string "1"), some (.string "2")⟩, ⟨"y", .add, none, some (.string "3")⟩] := by
    intro props hkeys hx hy
    have hdeep : deepEqual (.string "1") (.string "2") = false := by decide +kernel
    have hnew : entriesAt (.object none [("x", .string "1")]) (.object none props) "" "y" =
        [⟨"y", .add, none, some (.string "3")⟩] := by
      simp [entriesAt, hasKey, Value.own, Value.objectPrototypeNames, get_of_own hy, diffPath]
    rw [diffObjects_eq, hkeys, List.flatMap_cons, List.flatMap_cons, List.flatMap_nil, hnew,
      entriesAt_both (by rfl) hx, hdeep]
    rfl
  refine @diff_determines (.object none [("x", .string "1")]) _ _ ?_ ?_ ?_ (by simp [isPlainObject])
    (unambiguous_of_pathKeys ?_) ?_
  · exact .object (by simp) (by simp [hstring])
  · exact .object (by simp) (by simp [hstring])
  · exact .object (by simp) (by simp [hstring])
  · have hb : PathKeys (.object none [("x", .string "1")]) := .object (by simp [hx]) (by simp [hstring])
    have ha : PathKeys (.object none [("x", .string "2"), ("y", .string "3")]) :=
      .object (by simp [hx, hy]) (by simp [hstring])
    have ha' : PathKeys (.object none [("y", .string "3"), ("x", .string "2")]) :=
      .object (by simp [hx, hy]) (by simp [hstring])
    simp [hb, ha, ha']
  · rw [hdiff (by decide +kernel) (by rfl) (by rfl), hdiff (by decide +kernel) (by rfl) (by rfl)]
    exact List.forall₂_same.2 fun e _ => SameEntry.refl e

structure Undetermined (before a a' : Value) : Prop where
  json : ∀ v ∈ [before, a, a'], IsJson v
  object : ∀ v ∈ [before, a, a'], isPlainObject v = true
  same : diffObjects before a "" = diffObjects before a' ""
  differ : ¬ JsonEq a a'

theorem diffObjects_empty (path : String) : diffObjects (.object none []) (.object none []) path = [] := by
  rw [diffObjects_eq]
  rfl

/-- Not every diff determines `after`: `b` in `a` has the path of `a.b`, and `__proto__` is in everything. -/
theorem dots_collide :
    Undetermined (.object none [("a", .object none [])]) (.object none [("a", .object none [("b", .string "1")])])
        (.object none [("a", .object none []), ("a.b", .string "1")]) ∧
      Undetermined (.object none []) (.object none []) (.object none [("__proto__", .object none [])]) := by
  have hempty : IsJson (.object none []) := .object .nil (by simp)
  constructor
  · refine ⟨?_, by simp [isPlainObject], ?_, ?_⟩
    · have hb : IsJson (.object none [("b", .string "1")]) := .object (by simp) (by simpa using .string "1")
      simp only [List.forall_mem_cons, List.not_mem_nil, false_implies, implies_true, and_true]
      exact ⟨.object (by simp) (by simpa using hempty), .object (by simp) (by simpa using hb),
        .object (by simp) (by simpa using ⟨hempty, .string "1"⟩)⟩
    · have hkeys : diffKeys (.object none [("a", .object none [])])
          (.object none [("a", .object none [("b", .string "1")])]) = ["a"] := by decide +kernel
      have hkeys' : diffKeys (.object none [("a", .object none [])])
          (.object none [("a", .object none []), ("a.b", .string "1")]) = ["a", "a.b"] := by decide +kernel
      have hnested : diffKeys (.object none []) (.object none [("b", .string "1")]) = ["b"] := by decide +kernel
      have hb : entriesAt (.object none []) (.object none [("b", .string "1")]) "a" "b" =
          [⟨"a.b", .add, none, some (.string "1")⟩] := by
        simp [entriesAt, hasKey, Value.own, Value.objectPrototypeNames, Value.get, diffPath]
      have hdot : entriesAt (.object none [("a", .object none [])])
          (.object none [("a", .object none []), ("a.b", .string "1")]) "" "a.b" =
            [⟨"a.b", .add, none, some (.string "1")⟩] := by
        simp [entriesAt, hasKey, Value.own, Value.objectPrototypeNames, Value.get, diffPath]
      rw [diffObjects_eq, hkeys, diffObjects_eq _ _ "", hkeys', List.flatMap_cons, List.flatMap_nil, List.flatMap_cons,
        List.flatMap_cons, List.flatMap_nil, hdot, entriesAt_both (by rfl) (by rfl), entriesAt_both (by rfl) (by rfl),
        if_pos ⟨rfl, rfl⟩, if_pos ⟨rfl, rfl⟩, diffPath, if_pos rfl, diffObjects_empty, diffObjects_eq, hnested,
        List.flatMap_cons, List.flatMap_nil, hb]
      rfl
    · intro h
      cases h with
      | object hkeys => exact absurd (hkeys "a.b") (by decide)
  · refine ⟨?_, by simp [isPlainObject], ?_, ?_⟩
    · simp only [List.forall_mem_cons, List.not_mem_nil, false_implies, implies_true, and_true]
      exact ⟨hempty, hempty, .object (by simp) (by simpa using hempty)⟩
    · have hkeys : diffKeys (.object none []) (.object none [("__proto__", .object none [])]) = ["__proto__"] := by
        decide +kernel
      rw [diffObjects_empty, diffObjects_eq, hkeys, List.flatMap_cons, List.flatMap_nil]
      -- what both have of `__proto__` is an object without keys
      exact (List.append_nil _).trans (diffObjects_eq (.native .objectPrototype) (.object none []) "__proto__") |>.symm
    · intro h
      cases h with
      | object hkeys => exact absurd (hkeys "__proto__") (by decide)

end Jobflow
