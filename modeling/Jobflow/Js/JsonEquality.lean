import Jobflow.Js.JsonTexts

/-!
# Equal values and equal texts

JSON values with equal texts are equal (`jsonEq_of_serialize`). Equal values have equal texts just if their objects list
their keys in the same order, everywhere (`serialize_eq_iff`).
-/

namespace Js

/-! ## Texts of JSON values -/

def textOf (v : Value) : List Char := (serialize v).getD []

theorem serialize_eq_textOf {v : Value} (h : IsJson v) : serialize v = some (textOf v) := by
  cases h <;> rfl

theorem isText_textOf {v : Value} (h : IsJson v) : IsText (textOf v) := isText_serialize (serialize_eq_textOf h)

theorem serializeItems_json {items : List Value} (h : ∀ v ∈ items, IsJson v) :
    serializeItems items = items.map textOf := by
  induction items with
  | nil => rfl
  | cons v vs ih =>
    rw [serializeItems, ih fun w hw => h w (List.mem_cons_of_mem _ hw), serialize_eq_textOf (h v List.mem_cons_self)]
    rfl

theorem serializeProps_json {props : Record} (h : ∀ p ∈ props, IsJson p.2) :
    serializeProps props = props.map fun p => (p.1, textOf p.2) := by
  induction props with
  | nil => rfl
  | cons p props ih =>
    obtain ⟨key, v⟩ := p
    rw [serializeProps, ih fun q hq => h q (List.mem_cons_of_mem _ hq), serialize_eq_textOf (h _ List.mem_cons_self)]
    rfl

theorem textOf_array {ref : Option String} {items : List Value} (h : ∀ v ∈ items, IsJson v) :
    textOf (.array ref items) = arrayText (items.map textOf) := by
  rw [← serializeItems_json h]
  rfl

theorem textOf_object {ref : Option String} {props : Record} (h : ∀ p ∈ props, IsJson p.2) :
    textOf (.object ref props) = objectText ((inKeyOrder props).map fun p => (p.1, textOf p.2)) := by
  rw [← inKeyOrder_map textOf, ← serializeProps_json h]
  rfl

/-! ## Equal texts -/

/-- Lists of properties with distinct keys, compared by their texts. -/
theorem map_text_eq_iff {α β : Type} {f : α → β} : ∀ {P P' : List (String × α)}, (P.map Prod.fst).Nodup →
    (P.map (fun p => (p.1, f p.2)) = P'.map (fun p => (p.1, f p.2)) ↔
      P.map Prod.fst = P'.map Prod.fst ∧ ∀ key v v', (key, v) ∈ P → (key, v') ∈ P' → f v = f v')
  | [], [], _ => by simp
  | [], _ :: _, _ => by simp
  | _ :: _, [], _ => by simp
  | (key, v) :: P, (key', v') :: P', h => by
    rw [List.map_cons, List.nodup_cons] at h
    have ih := @map_text_eq_iff _ _ f P P' h.2
    have hnew : key ∉ P.map Prod.fst := h.1
    have hkey : ∀ {Q : List (String × α)} (w : α), Q.map Prod.fst = P.map Prod.fst → (key, w) ∈ Q → False :=
      fun w hkeys hw => hnew (hkeys ▸ List.mem_map_of_mem (f := Prod.fst) hw)
    rw [List.map_cons, List.map_cons, List.map_cons, List.map_cons, List.cons.injEq, List.cons.injEq, ih, Prod.mk.injEq]
    constructor
    · rintro ⟨⟨rfl, hv⟩, hkeys, hvalues⟩
      refine ⟨⟨rfl, hkeys⟩, fun k w w' hw hw' => ?_⟩
      rcases List.mem_cons.1 hw with hfirst | hrest <;> rcases List.mem_cons.1 hw' with hfirst' | hrest'
      · rw [(Prod.mk.inj hfirst).2, (Prod.mk.inj hfirst').2]
        exact hv
      · rw [(Prod.mk.inj hfirst).1] at hrest'
        exact (hkey w' hkeys.symm hrest').elim
      · rw [(Prod.mk.inj hfirst').1] at hrest
        exact (hkey w rfl hrest).elim
      · exact hvalues k w w' hrest hrest'
    · rintro ⟨⟨rfl, hkeys⟩, hvalues⟩
      exact ⟨⟨rfl, hvalues key v v' List.mem_cons_self List.mem_cons_self⟩, hkeys, fun k w w' hw hw' =>
        hvalues k w w' (List.mem_cons_of_mem _ hw) (List.mem_cons_of_mem _ hw')⟩

section
variable {ref ref' : Option String} {props props' : Record}

theorem mem_inKeyOrder {α : Type} {entries : List (String × α)} {e : String × α} :
    e ∈ inKeyOrder entries ↔ e ∈ entries :=
  (perm_inKeyOrder entries).mem_iff

theorem nodup_inKeyOrder {α : Type} {entries : List (String × α)} (h : (entries.map Prod.fst).Nodup) :
    ((inKeyOrder entries).map Prod.fst).Nodup := ((perm_inKeyOrder entries).map _).nodup_iff.2 h

theorem IsJson.nodup (h : IsJson (.object ref props)) : (props.map Prod.fst).Nodup := by
  cases h with
  | object hkeys _ => exact hkeys

theorem IsJson.of_mem (h : IsJson (.object ref props)) {p : String × Value} (hp : p ∈ props) : IsJson p.2 := by
  cases h with
  | object _ h => exact h p hp

theorem IsJson.of_own (h : IsJson (.object ref props)) {key : String} {v : Value} (hv : Value.own props key = some v) :
    IsJson v := h.of_mem ((own_eq_some_iff h.nodup).1 hv)

theorem IsJson.of_item {items : List Value} (h : IsJson (.array ref items)) {v : Value} (hv : v ∈ items) :
    IsJson v := by
  cases h with
  | array h => exact h v hv

/-- Objects have equal texts if they list the same keys, with values of equal texts. -/
theorem textOf_object_eq_iff (h : IsJson (.object ref props)) (h' : IsJson (.object ref' props')) :
    textOf (.object ref props) = textOf (.object ref' props') ↔
      (inKeyOrder props).map Prod.fst = (inKeyOrder props').map Prod.fst ∧
        ∀ key v v', Value.own props key = some v → Value.own props' key = some v' → textOf v = textOf v' := by
  have htexts : ∀ {ref : Option String} {props : Record}, IsJson (.object ref props) →
      ∀ m ∈ (inKeyOrder props).map fun p => (p.1, textOf p.2), IsText m.2 := by
    intro ref props h m hm
    obtain ⟨p, hp, rfl⟩ := List.mem_map.1 hm
    exact isText_textOf (h.of_mem (mem_inKeyOrder.1 hp))
  have hinj : ∀ {ms ms' : List (String × List Char)}, (∀ m ∈ ms, IsText m.2) → (∀ m ∈ ms', IsText m.2) →
      (objectText ms = objectText ms' ↔ ms = ms') := fun hms hms' =>
    ⟨objectText_inj hms hms', fun heq => by rw [heq]⟩
  rw [textOf_object fun p hp => h.of_mem hp, textOf_object fun p hp => h'.of_mem hp, hinj (htexts h) (htexts h'),
    map_text_eq_iff (nodup_inKeyOrder h.nodup)]
  simp only [mem_inKeyOrder, own_eq_some_iff h.nodup, own_eq_some_iff h'.nodup]

theorem textOf_array_eq_iff {items items' : List Value} (h : IsJson (.array ref items))
    (h' : IsJson (.array ref' items')) :
    textOf (.array ref items) = textOf (.array ref' items') ↔
      items.length = items'.length ∧
        ∀ (i : Nat) v v', items[i]? = some v → items'[i]? = some v' → textOf v = textOf v' := by
  have htexts : ∀ {ref : Option String} {items : List Value}, IsJson (.array ref items) →
      ∀ t ∈ items.map textOf, IsText t := by
    intro ref items h t ht
    obtain ⟨v, hv, rfl⟩ := List.mem_map.1 ht
    exact isText_textOf (h.of_item hv)
  rw [textOf_array fun v hv => h.of_item hv, textOf_array fun v hv => h'.of_item hv]
  constructor
  · intro heq
    have hitems := arrayText_inj (htexts h) (htexts h') heq
    refine ⟨by simpa using congrArg List.length hitems, fun i v v' hv hv' => ?_⟩
    have hi := congrArg (·[i]?) hitems
    simpa [hv, hv'] using hi
  · rintro ⟨hlength, hitems⟩
    congr 1
    refine List.ext_getElem? fun i => ?_
    rw [List.getElem?_map, List.getElem?_map]
    by_cases hi : i < items.length
    · have hi' : i < items'.length := hlength ▸ hi
      rw [List.getElem?_eq_getElem hi, List.getElem?_eq_getElem hi']
      simp [hitems i _ _ (List.getElem?_eq_getElem hi) (List.getElem?_eq_getElem hi')]
    · rw [List.getElem?_eq_none (not_lt.1 hi), List.getElem?_eq_none (by omega)]

end

/-! ## Equality -/

theorem JsonEq.refl {v : Value} (h : IsJson v) : JsonEq v v := by
  induction h with
  | null => exact .null
  | bool b => exact .bool b
  | number h =>
    obtain ⟨p, hp⟩ := h.exists_toRat?
    exact .number ((Number.eq_iff hp hp).2 rfl)
  | string s => exact .string s
  | array _ ih =>
    refine .array rfl fun i v v' hv hv' => ?_
    rw [hv] at hv'
    obtain rfl := Option.some.inj hv'
    exact ih v (List.mem_of_getElem? hv)
  | object hkeys _ ih =>
    refine .object (fun _ => rfl) fun key v v' hv hv' => ?_
    rw [hv] at hv'
    obtain rfl := Option.some.inj hv'
    exact ih _ ((own_eq_some_iff hkeys).1 hv)

/-- The order of properties is no matter. -/
theorem JsonEq.of_perm {ref ref' : Option String} {props props' : Record} (h : IsJson (.object ref props))
    (hperm : props'.Perm props) : JsonEq (.object ref props) (.object ref' props') := by
  cases h with
  | object hkeys hprops =>
    refine .object (fun key => by rw [own_congr hkeys hperm]) fun key v v' hv hv' => ?_
    rw [own_congr hkeys hperm, hv] at hv'
    obtain rfl := Option.some.inj hv'
    exact JsonEq.refl (hprops _ ((own_eq_some_iff hkeys).1 hv))

theorem JsonEq.symm {v w : Value} (h : JsonEq v w) : JsonEq w v := by
  induction h with
  | null => exact .null
  | bool b => exact .bool b
  | @number m n h =>
    refine .number ?_
    cases m <;> cases n <;> first | exact h | exact decide_eq_true (of_decide_eq_true h).symm
  | string s => exact .string s
  | array hlength _ ih => exact .array hlength.symm fun i v v' hv hv' => ih i v' v hv' hv
  | object hkeys _ ih => exact .object (fun key => (hkeys key).symm) fun key v v' hv hv' => ih key v' v hv' hv

theorem numberText_of_isDouble {n : Number} (hn : n.IsDouble) : numberText n = n.toText.toList := by
  cases n with
  | nan => exact hn.elim
  | infinity s => exact hn.elim
  | negZero => rfl
  | finite q => rfl

theorem numberText_eq_iff {m n : Number} (hm : m.IsDouble) (hn : n.IsDouble) :
    numberText m = numberText n ↔ m.eq n = true := by
  rw [numberText_of_isDouble hm, numberText_of_isDouble hn, String.toList_inj]
  refine ⟨Number.eq_of_toText_eq hm hn, fun heq => ?_⟩
  have hzero : (Number.finite 0).toText = "0" := rfl
  cases m with
  | nan => exact hm.elim
  | infinity s => exact hm.elim
  | negZero =>
    cases n with
    | nan => exact hn.elim
    | infinity s => exact hn.elim
    | negZero => rfl
    | finite q =>
      have hq : 0 = q := of_decide_eq_true heq
      rw [← hq, hzero, Number.toText]
  | finite p =>
    cases n with
    | nan => exact hn.elim
    | infinity s => exact hn.elim
    | negZero =>
      have hp : p = 0 := of_decide_eq_true heq
      rw [hp, hzero, Number.toText]
    | finite q =>
      have hpq : p = q := of_decide_eq_true heq
      rw [hpq]

/-- What kind of text a value has. -/
def kindOfValue : Value → TextKind
  | .number _ => .number
  | .string _ => .string
  | .array _ _ => .array
  | .object _ _ => .object
  | _ => .word

theorem kindOfText_textOf {v : Value} (h : IsJson v) : kindOfText (textOf v) = some (kindOfValue v) := by
  cases h with
  | null => rfl
  | bool b => cases b <;> rfl
  | number h =>
    obtain ⟨p, hp⟩ := h.exists_toRat?
    obtain ⟨hne, hchars⟩ := Number.toText_chars hp
    exact (congrArg kindOfText (numberText_of_isDouble h)).trans (kindOfText_number hne hchars)
  | string s => rfl
  | array h => rfl
  | object _ h => rfl

/-- **JSON values with equal texts are equal.** -/
theorem jsonEq_of_text {v w : Value} (hv : IsJson v) (hw : IsJson w) (h : textOf v = textOf w) : JsonEq v w := by
  induction hv generalizing w with
  | null =>
    have hkind := kindOfText_textOf hw
    rw [← h] at hkind
    cases hw with
    | null => exact .null
    | bool b => cases b <;> exact absurd h (by decide)
    | _ => cases hkind
  | bool b =>
    have hkind := kindOfText_textOf hw
    rw [← h, kindOfText_textOf (.bool b)] at hkind
    cases hw with
    | null => cases b <;> exact absurd h (by decide)
    | bool b' => cases b <;> cases b' <;> first | exact .bool _ | exact absurd h (by decide)
    | _ => cases hkind
  | number hn =>
    have hkind := kindOfText_textOf hw
    rw [← h, kindOfText_textOf (.number hn)] at hkind
    cases hw with
    | number hn' => exact .number ((numberText_eq_iff hn hn').1 h)
    | _ => cases hkind
  | string s =>
    have hkind := kindOfText_textOf hw
    rw [← h] at hkind
    cases hw with
    | string s' =>
      have hsame := @quote_inj _ _ [] [] (congrArg (· ++ []) h)
      rw [hsame.1]
      exact .string s'
    | _ => cases hkind
  | array hitems ih =>
    have hkind := kindOfText_textOf hw
    rw [← h] at hkind
    cases hw with
    | array hitems' =>
      obtain ⟨hlength, htexts⟩ := (textOf_array_eq_iff (.array hitems) (.array hitems')).1 h
      exact .array hlength fun i v v' hv hv' =>
        ih v (List.mem_of_getElem? hv) (hitems' v' (List.mem_of_getElem? hv')) (htexts i v v' hv hv')
    | _ => cases hkind
  | object hkeys hprops ih =>
    have hkind := kindOfText_textOf hw
    rw [← h] at hkind
    cases hw with
    | object hkeys' hprops' =>
      obtain ⟨hsame, htexts⟩ := (textOf_object_eq_iff (.object hkeys hprops) (.object hkeys' hprops')).1 h
      refine .object (fun key => ?_) fun key v v' hv hv' => ?_
      · rw [Bool.eq_iff_iff, own_isSome_iff, own_isSome_iff, ← ((perm_inKeyOrder _).map Prod.fst).mem_iff, hsame,
          ((perm_inKeyOrder _).map Prod.fst).mem_iff]
      · exact ih _ ((own_eq_some_iff hkeys).1 hv) (hprops' _ ((own_eq_some_iff hkeys').1 hv')) (htexts key v v' hv hv')
    | _ => cases hkind

/-! ## Order of keys -/

/-- Objects list their keys in the same order, everywhere in the values. -/
inductive SameOrder : Value → Value → Prop where
  | scalar {v w : Value} (h : v.isObjectType = false ∨ v = .null) : SameOrder v w
  | array {ref ref' : Option String} {items items' : List Value}
    (h : ∀ (i : Nat) v v', items[i]? = some v → items'[i]? = some v' → SameOrder v v') :
    SameOrder (.array ref items) (.array ref' items')
  | object {ref ref' : Option String} {props props' : Record}
    (hkeys : (inKeyOrder props).map Prod.fst = (inKeyOrder props').map Prod.fst)
    (h : ∀ key v v', Value.own props key = some v → Value.own props' key = some v' → SameOrder v v') :
    SameOrder (.object ref props) (.object ref' props')

/-- **Equal values have equal texts just if their keys are listed in the same order.** -/
theorem textOf_eq_iff {v w : Value} (hv : IsJson v) (hw : IsJson w) (h : JsonEq v w) :
    textOf v = textOf w ↔ SameOrder v w := by
  induction h with
  | null => exact iff_of_true rfl (.scalar (.inr rfl))
  | bool b => exact iff_of_true rfl (.scalar (.inl rfl))
  | @number m n h =>
    have hm : m.IsDouble := by cases hv with | number h => exact h
    have hn : n.IsDouble := by cases hw with | number h => exact h
    exact iff_of_true ((numberText_eq_iff hm hn).2 h) (.scalar (.inl rfl))
  | string s => exact iff_of_true rfl (.scalar (.inl rfl))
  | array hlength _ ih =>
    rw [textOf_array_eq_iff hv hw]
    constructor
    · rintro ⟨_, htexts⟩
      exact .array fun i v v' hi hi' => (ih i v v' hi hi' (hv.of_item (List.mem_of_getElem? hi))
        (hw.of_item (List.mem_of_getElem? hi'))).1 (htexts i v v' hi hi')
    · intro horder
      cases horder with
      | scalar h => rcases h with h | h <;> cases h
      | array h =>
        exact ⟨hlength, fun i v v' hi hi' => (ih i v v' hi hi' (hv.of_item (List.mem_of_getElem? hi))
          (hw.of_item (List.mem_of_getElem? hi'))).2 (h i v v' hi hi')⟩
  | object _ _ ih =>
    rw [textOf_object_eq_iff hv hw]
    constructor
    · rintro ⟨hkeys, htexts⟩
      exact .object hkeys fun key v v' hk hk' =>
        (ih key v v' hk hk' (hv.of_own hk) (hw.of_own hk')).1 (htexts key v v' hk hk')
    · intro horder
      cases horder with
      | scalar h => rcases h with h | h <;> cases h
      | object hkeys h =>
        exact ⟨hkeys, fun key v v' hk hk' =>
          (ih key v v' hk hk' (hv.of_own hk) (hw.of_own hk')).2 (h key v v' hk hk')⟩

end Js
