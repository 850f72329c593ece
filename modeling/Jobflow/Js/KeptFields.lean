import Jobflow.Js.JsonIndented

/-!
# The fields of an object, as JSON keeps them

A field of plain data is what the object has under its name, or `undefined`, unless every object has a property of that
name. JSON keeps of a field what it keeps of its value.
-/

namespace Js

/-! ## Fields -/

/-- A name that no object inherits a property of. -/
def IsFieldName (key : String) : Prop := key ≠ "__proto__" ∧ key ∉ Value.objectPrototypeNames

instance (key : String) : Decidable (IsFieldName key) := inferInstanceAs (Decidable (_ ∧ _))

section
variable {ref : Option String} {props : Record} {key : String}

theorem get_fieldName (h : IsFieldName key) :
    (Value.object ref props).get key = (Value.own props key).getD .undefined := by
  rw [Value.get_object, Value.getFromObjectPrototype, if_neg h.1, if_neg h.2]

/-- A field of plain data is plain data. -/
theorem IsData.get (h : IsData (.object ref props)) (hkey : IsFieldName key) :
    IsData ((Value.object ref props).get key) := by
  rw [get_fieldName hkey]
  cases h with
  | object hkeys hprops =>
    cases hown : Value.own props key with
    | none => exact .undefined
    | some v => exact hprops _ ((own_eq_some_iff hkeys).1 hown)

end

/-! ## Objects as JSON keeps them -/

section
variable {props : Record} {key : String}

theorem own_canonicalProps : ∀ {props : Record}, (props.map Prod.fst).Nodup →
    Value.own (canonicalProps props) key = (Value.own props key).bind canonical
  | [], _ => rfl
  | (k, v) :: props, h => by
    obtain ⟨hk, hkeys⟩ := List.nodup_cons.1 h
    have ih := own_canonicalProps hkeys
    rw [canonicalProps, Value.own_cons]
    by_cases hkey : k = key
    · subst hkey
      have hnone : Value.own props k = none := by
        rw [← Option.isNone_iff_eq_none, ← Option.isSome_eq_false_iff, ← Bool.not_eq_true, own_isSome_iff]
        exact hk
      cases hv : canonical v with
      | none => simp [hv, ih, hnone]
      | some w => simp [hv]
    · cases hv : canonical v with
      | none => simp [ih, hkey]
      | some w => simp [ih, hkey]

theorem keys_canonicalProps_nodup (h : (props.map Prod.fst).Nodup) : ((canonicalProps props).map Prod.fst).Nodup := by
  rw [JsonParser.canonicalProps_eq, List.map_map]
  exact h.sublist (JsonParser.keys_members_sublist props)

/-- A field is kept as JSON keeps its value. -/
theorem own_kept (h : (props.map Prod.fst).Nodup) :
    Value.own (inKeyOrder (canonicalProps props)) key = (Value.own props key).bind canonical := by
  rw [own_congr (keys_canonicalProps_nodup h) (perm_inKeyOrder _), own_canonicalProps h]

end

theorem canonical_ne_undefined {v : Value} : canonical v ≠ some .undefined := by
  intro h
  cases v with
  | number n => cases n <;> cases h
  | native n => cases n <;> cases h
  | _ => cases h

end Js
