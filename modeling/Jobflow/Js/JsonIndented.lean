import Jobflow.Js.JsonRoundTrip

/-!
# Indented JSON

`JSON.stringify(v, null, gap)` puts every item and member on a line of its own. With no gap it is `JSON.stringify(v)`
(`stringify_nil`), and whatever the gap, what it prints is parsed as what JSON keeps of the value (`parse_stringify`),
which prints the same again (`stringify_canonical`).
-/

namespace Js

/-! ## Printing -/

/-- Between two items, and inside the brackets. -/
def lineBreak (gap indent : List Char) : List Char := if gap = [] then [] else '\n' :: indent

/-- `SerializeJSONArray` and `SerializeJSONObject`: items in brackets. -/
def bracketed (opening closing : Char) (gap indent : List Char) (items : List (List Char)) : List Char :=
  if items = [] then [opening, closing]
  else
    opening :: lineBreak gap (indent ++ gap) ++ (',' :: lineBreak gap (indent ++ gap)).intercalate items ++
      lineBreak gap indent ++ [closing]

def spacedMember (gap : List Char) (m : String × List Char) : List Char :=
  quote m.1 ++ ':' :: (if gap = [] then m.2 else ' ' :: m.2)

mutual

/-- `JSON.stringify(v, null, gap)` by its characters, in lines that begin with `indent`; no `toJSON` is called. -/
def stringify (gap indent : List Char) : Value → Option (List Char)
  | .undefined | .native (.function _) => none
  | .null => some "null".toList
  | .bool b => some (if b then "true".toList else "false".toList)
  | .number n => some (numberText n)
  | .string s => some (quote s)
  | .array _ items => some (bracketed '[' ']' gap indent (stringifyItems gap (indent ++ gap) items))
  | .object _ props =>
    some (bracketed '\x7b' '\x7d' gap indent
      ((inKeyOrder (stringifyProps gap (indent ++ gap) props)).map (spacedMember gap)))
  | .native .objectPrototype => some ['\x7b', '\x7d']
  | .native .arrayPrototype => some ['[', ']']

def stringifyItems (gap indent : List Char) : List Value → List (List Char)
  | [] => []
  | v :: vs => (stringify gap indent v).getD "null".toList :: stringifyItems gap indent vs

def stringifyProps (gap indent : List Char) : Record → List (String × List Char)
  | [] => []
  | (key, v) :: props =>
    match stringify gap indent v with
    | some text => (key, text) :: stringifyProps gap indent props
    | none => stringifyProps gap indent props

end

section
variable {gap indent : List Char}

theorem bracketed_nil (opening closing : Char) (indent : List Char) (items : List (List Char)) :
    bracketed opening closing [] indent items = opening :: [','].intercalate items ++ [closing] := by
  by_cases h : items = []
  · simp [bracketed, h]
  · simp [bracketed, h, lineBreak]

mutual

/-- With no gap there are no lines. -/
theorem stringify_nil (indent : List Char) : ∀ v : Value, stringify [] indent v = serialize v
  | .undefined | .null | .bool _ | .number _ | .string _ => by simp [stringify, serialize]
  | .native n => by cases n <;> simp [stringify, serialize, arrayText, objectText]
  | .array ref items => by
    rw [stringify, serialize, bracketed_nil, stringifyItems_nil, arrayText]
  | .object ref props => by
    have hmember : spacedMember [] = member := by
      funext m
      simp [spacedMember, member]
    rw [stringify, serialize, bracketed_nil, stringifyProps_nil, objectText, hmember]

theorem stringifyItems_nil (indent : List Char) : ∀ vs : List Value, stringifyItems [] indent vs = serializeItems vs
  | [] => by simp [stringifyItems, serializeItems]
  | v :: vs => by rw [stringifyItems, serializeItems, stringify_nil, stringifyItems_nil]

theorem stringifyProps_nil (indent : List Char) :
    ∀ props : Record, stringifyProps [] indent props = serializeProps props
  | [] => by simp [stringifyProps, serializeProps]
  | (key, v) :: props => by
    have hv := stringify_nil indent v
    cases htext : serialize v <;>
      simp [stringifyProps, serializeProps, stringifyProps_nil indent props, hv, htext]

end

theorem stringifyItems_eq (items : List Value) :
    stringifyItems gap indent items = items.map fun v => (stringify gap indent v).getD "null".toList := by
  induction items with
  | nil => simp [stringifyItems]
  | cons v vs ih => rw [stringifyItems, List.map_cons, ih]

/-! ## Members -/

/-- What two functions make of the values of an object, where both make something. -/
def bothOf {α β : Type} (f : Value → Option α) (g : Value → Option β) (props : Record) : List (String × (α × β)) :=
  props.filterMap fun p => (f p.2).bind fun a => (g p.2).map fun b => (p.1, (a, b))

section
variable {α β : Type} {f : Value → Option α} {g : Value → Option β} {props : Record}

theorem mem_bothOf {m : String × (α × β)} (h : m ∈ bothOf f g props) :
    ∃ p ∈ props, p.1 = m.1 ∧ f p.2 = some m.2.1 ∧ g p.2 = some m.2.2 := by
  obtain ⟨p, hp, hm⟩ := List.mem_filterMap.1 h
  obtain ⟨a, ha, hm⟩ := Option.bind_eq_some_iff.1 hm
  obtain ⟨b, hb, rfl⟩ := Option.map_eq_some_iff.1 hm
  exact ⟨p, hp, rfl, ha, hb⟩

theorem keys_bothOf_sublist (f : Value → Option α) (g : Value → Option β) : ∀ props : Record,
    ((bothOf f g props).map Prod.fst).Sublist (props.map Prod.fst)
  | [] => List.Sublist.refl _
  | (key, v) :: props => by
    have ih := keys_bothOf_sublist f g props
    unfold bothOf at ih ⊢
    rw [List.filterMap_cons, List.map_cons]
    cases hf : f v with
    | none => simpa [hf] using ih.cons key
    | some a =>
      cases hg : g v with
      | none => simpa [hf, hg] using ih.cons key
      | some b => simpa [hf, hg] using ih.cons_cons key

end

theorem stringify_isSome (v : Value) : (stringify gap indent v).isSome = (canonical v).isSome := by
  rw [JsonParser.canonical_isSome]
  cases v with
  | native n => cases n <;> simp [stringify, serialize]
  | _ => simp [stringify, serialize]

theorem stringifyProps_eq : ∀ props : Record,
    stringifyProps gap indent props = (bothOf (stringify gap indent) canonical props).map fun m => (m.1, m.2.1)
  | [] => by simp [stringifyProps, bothOf]
  | (key, v) :: props => by
    have ih := stringifyProps_eq props
    have hsome := @stringify_isSome gap indent v
    rw [stringifyProps, ih]
    cases hs : stringify gap indent v with
    | none => simp [bothOf, hs]
    | some t =>
      obtain ⟨w, hw⟩ := Option.isSome_iff_exists.1 (hsome.symm.trans (by simp [hs]))
      simp [bothOf, hs, hw]

theorem canonicalProps_eq_bothOf : ∀ props : Record,
    canonicalProps props = (bothOf (stringify gap indent) canonical props).map fun m => (m.1, m.2.2)
  | [] => by simp [canonicalProps, bothOf]
  | (key, v) :: props => by
    have ih := canonicalProps_eq_bothOf props
    have hsome := @stringify_isSome gap indent v
    rw [canonicalProps, ih]
    cases hw : canonical v with
    | none => simp [bothOf, hw]
    | some w =>
      obtain ⟨t, hs⟩ := Option.isSome_iff_exists.1 (hsome.trans (by simp [hw]))
      simp [bothOf, hs, hw]

end

namespace JsonParser

/-! ## Reading -/

/-- What no number goes on with. -/
def Ends (r : List Char) : Prop := ∀ c ∈ r.head?, isNumberChar c = false

def Blank (ws : List Char) : Prop := ∀ c ∈ ws, isSpace c = true

/-- The text is read as the value, before whatever ends it. -/
def ReadsAs (t : List Char) (v : Value) : Prop :=
  ∀ fuel r, t.length < fuel → Ends r → readValue fuel (t ++ r) = some (v, r)

theorem blank_spaces : Blank [' ', ' '] := by simp [Blank, isSpace]

theorem skip_blank {ws : List Char} (h : Blank ws) (r : List Char) : skip (ws ++ r) = skip r :=
  List.dropWhile_append_of_pos h

theorem blank_lineBreak {gap indent : List Char} (h : Blank indent) : Blank (lineBreak gap indent) := by
  unfold lineBreak
  split_ifs
  · exact List.forall_mem_nil _
  · exact List.forall_mem_cons.2 ⟨rfl, h⟩

theorem readValue_blank {ws : List Char} (h : Blank ws) (fuel : Nat) (r : List Char) :
    readValue fuel (ws ++ r) = readValue fuel r := by
  cases fuel with
  | zero => rfl
  | succ fuel => rw [readValue, readValue, skip_blank h]

theorem readMember_blank {ws : List Char} (h : Blank ws) (fuel : Nat)
    (value : List Char → Option (Value × List Char)) (r : List Char) :
    readMember fuel value (ws ++ r) = readMember fuel value r := by
  rw [readMember, readMember, skip_blank h]

theorem ends_of_blank {ws : List Char} (h : Blank ws) {r : List Char} (hr : Ends r) : Ends (ws ++ r) := by
  cases ws with
  | nil => exact hr
  | cons c ws =>
    intro d hd
    rw [← Option.some.inj hd]
    have hc := h c List.mem_cons_self
    simp only [isSpace, Bool.or_eq_true, decide_eq_true_eq] at hc
    rcases hc with ((rfl | rfl) | rfl) | rfl <;> rfl

/-- A number is read up to what ends it. -/
theorem readNumber_ends {n : Number} (h : n.IsDouble) {r : List Char} (hr : Ends r) :
    readNumber (n.toText.toList ++ r) = some (.number n.unsigned, r) := by
  obtain ⟨p, hp⟩ := h.exists_toRat?
  have hchars : ∀ c ∈ n.toText.toList, isNumberChar c = true := fun c hc =>
    isNumberChar_of_written ((Number.toText_chars hp).2 c hc)
  have hstop : r.takeWhile isNumberChar = [] ∧ r.dropWhile isNumberChar = r := by
    cases r with
    | nil => exact ⟨rfl, rfl⟩
    | cons c r => simp [hr c rfl]
  unfold readNumber
  dsimp only
  rw [List.takeWhile_append_of_pos hchars, List.dropWhile_append_of_pos hchars, hstop.1, hstop.2, List.append_nil,
    if_pos (isNumberText_toText h), String.ofList_toList, Number.parse_toText h]

theorem readsAs_intro {t : List Char} {v : Value}
    (h : ∀ fuel r, t.length ≤ fuel → Ends r → readValue (fuel + 1) (t ++ r) = some (v, r)) : ReadsAs t v := by
  rintro (_ | fuel) r hfuel hr
  · cases hfuel
  · exact h fuel r (Nat.le_of_lt_succ hfuel) hr

theorem readsAs_null : ReadsAs "null".toList .null := readsAs_intro fun _ _ _ _ => rfl

theorem readsAs_toText {n : Number} (hn : n.IsDouble) : ReadsAs n.toText.toList (.number n.unsigned) := by
  apply readsAs_intro
  intro fuel r _ hr
  obtain ⟨p, hp⟩ := hn.exists_toRat?
  obtain ⟨hne, hchars⟩ := Number.toText_chars hp
  have hread := readNumber_ends hn hr
  have hskip := skip_text (.number hne hchars) r
  obtain ⟨c, cs, hcs⟩ := List.exists_cons_of_ne_nil hne
  have hkind := kindOf_number (hchars c (by simp [hcs]))
  have hother (c' : Char) (h : kindOf c' ≠ .number) : c ≠ c' := by
    rintro rfl
    exact h hkind
  rw [readValue, hskip]
  rw [hcs, List.cons_append] at hread ⊢
  dsimp only
  rw [if_neg (hother '"' (by decide)), if_neg (hother '[' (by decide)), if_neg (hother '\x7b' (by decide)),
    if_neg (hother 'n' (by decide)), if_neg (hother 't' (by decide)), if_neg (hother 'f' (by decide))]
  exact hread

theorem readsAs_quote (s : String) : ReadsAs (quote s) (.string s) := by
  apply readsAs_intro
  intro fuel r hfuel _
  rw [quote, List.cons_append, List.cons_append, List.append_assoc, List.singleton_append, readValue_string,
    readString_quote hfuel]
  rfl

/-! ## Lists -/

section
variable {α β : Type} {item : List Char → Option (β × List Char)} {text : α → List Char} {value : α → β}
variable {closing : Char} {sep last : List Char}

/-- The rest of a list behind its first item. -/
def spacedTail (text : α → List Char) (sep last : List Char) (closing : Char) : List α → List Char
  | [] => last ++ [closing]
  | a :: as => ',' :: (sep ++ (text a ++ spacedTail text sep last closing as))

theorem intercalate_spaced (a : α) (as : List α) :
    (',' :: sep).intercalate ((a :: as).map text) ++ (last ++ [closing]) =
      text a ++ spacedTail text sep last closing as := by
  induction as generalizing a with
  | nil => simp [spacedTail]
  | cons b as ih =>
    rw [List.map_cons, List.map_cons, List.intercalate_cons_cons, ← List.map_cons, List.append_assoc,
      List.append_assoc, ih, spacedTail]
    simp

theorem ends_spacedTail (hlast : Blank last) (hclosing : isNumberChar closing = false) (as : List α) (r : List Char) :
    Ends (spacedTail text sep last closing as ++ r) := by
  cases as with
  | nil =>
    rw [spacedTail, List.append_assoc]
    apply ends_of_blank hlast
    intro c hc
    rwa [← Option.some.inj hc]
  | cons a as =>
    intro c hc
    rw [← Option.some.inj hc]
    rfl

theorem length_lt_spacedTail : ∀ as : List α, as.length < (spacedTail text sep last closing as).length
  | [] => by simp [spacedTail]
  | a :: as => by
    have ih := length_lt_spacedTail as
    simp only [spacedTail, List.length_append, List.length_cons]
    omega

theorem readList_spaced (hlast : Blank last) (hsep : ∀ r, item (sep ++ r) = item r)
    (hclosing : closing = ']' ∨ closing = '\x7d') : ∀ {a : α} {as : List α} {fuel : Nat} {r : List Char},
    as.length < fuel → (∀ b ∈ a :: as, ∀ r, Ends r → item (text b ++ r) = some (value b, r)) →
      readList item closing fuel (text a ++ (spacedTail text sep last closing as ++ r)) =
        some ((a :: as).map value, r)
  | a, [], fuel + 1, r, _, hitem => by
    have hchar : isNumberChar closing = false := by rcases hclosing with rfl | rfl <;> rfl
    have hskip : skip (spacedTail text sep last closing [] ++ r) = closing :: r := by
      rw [spacedTail, List.append_assoc, skip_blank hlast]
      rcases hclosing with rfl | rfl <;> rfl
    rw [readList, hitem a List.mem_cons_self _ (ends_spacedTail hlast hchar [] r), Option.bind_eq_bind,
      Option.bind_some]
    dsimp only
    rw [hskip]
    rcases hclosing with rfl | rfl <;> rfl
  | a, b :: as, fuel + 1, r, hfuel, hitem => by
    have hchar : isNumberChar closing = false := by rcases hclosing with rfl | rfl <;> rfl
    have ih := @readList_spaced hlast hsep hclosing b as fuel r (Nat.lt_of_succ_lt_succ hfuel) fun c hc =>
      hitem c (List.mem_cons_of_mem _ hc)
    have hskip : skip (spacedTail text sep last closing (b :: as) ++ r) =
        ',' :: (sep ++ (text b ++ (spacedTail text sep last closing as ++ r))) := by
      simp [spacedTail, skip, isSpace]
    have hread : readList item closing fuel (sep ++ (text b ++ (spacedTail text sep last closing as ++ r))) =
        readList item closing fuel (text b ++ (spacedTail text sep last closing as ++ r)) := by
      cases fuel with
      | zero => rfl
      | succ fuel => rw [readList, readList, hsep]
    rw [readList, hitem a List.mem_cons_self _ (ends_spacedTail hlast hchar (b :: as) r), Option.bind_eq_bind,
      Option.bind_some]
    dsimp only
    rw [hskip]
    dsimp only
    rw [if_pos rfl, hread, ih]
    rfl

/-- A list in brackets, of texts that begin like none of them. -/
theorem readItems_spaced (opening : Char) {gap indent : List Char} (hgap : Blank gap) (hindent : Blank indent)
    (hsep : ∀ ws r, Blank ws → item (ws ++ r) = item r) (hclosing : closing = ']' ∨ closing = '\x7d') {as : List α}
    {fuel : Nat} {r : List Char} (hlength : (bracketed opening closing gap indent (as.map text)).length ≤ fuel + 1)
    (hhead : ∀ b ∈ as, ∃ c cs, text b = c :: cs ∧ isSpace c = false ∧ c ≠ closing)
    (hitem : ∀ b ∈ as, ∀ r, Ends r → item (text b ++ r) = some (value b, r)) :
    ∃ cs, bracketed opening closing gap indent (as.map text) ++ r = opening :: cs ∧
      readItems item closing fuel cs = some (as.map value, r) := by
  cases as with
  | nil =>
    refine ⟨closing :: r, by simp [bracketed], ?_⟩
    rcases hclosing with rfl | rfl <;> rfl
  | cons a as =>
    have hnext : Blank (lineBreak gap (indent ++ gap)) := blank_lineBreak (List.forall_mem_append.2 ⟨hindent, hgap⟩)
    have htext : bracketed opening closing gap indent ((a :: as).map text) =
        opening :: (lineBreak gap (indent ++ gap) ++ (text a ++
          spacedTail text (lineBreak gap (indent ++ gap)) (lineBreak gap indent) closing as)) := by
      rw [← intercalate_spaced]
      simp [bracketed]
    obtain ⟨c, cs, hcs, hspace, hne⟩ := hhead a List.mem_cons_self
    have hfuel : as.length < fuel := by
      have hlt : as.length <
          (spacedTail text (lineBreak gap (indent ++ gap)) (lineBreak gap indent) closing as).length :=
        length_lt_spacedTail as
      rw [htext] at hlength
      simp only [List.length_cons, List.length_append] at hlength
      omega
    have hlast : Blank (lineBreak gap indent) := blank_lineBreak hindent
    have hread := readList_spaced hlast (fun r => hsep _ r hnext) hclosing hfuel hitem (r := r)
    refine ⟨_, by rw [htext, List.cons_append], ?_⟩
    rw [List.append_assoc, List.append_assoc, readItems, skip_blank hnext]
    rw [hcs, List.cons_append] at hread ⊢
    rw [skip, List.dropWhile_cons_of_neg (by simp [hspace])]
    dsimp only
    rw [if_neg hne, hread]

end

/-! ## Values -/

theorem readMember_spaced {gap : List Char} {key : String} {t r : List Char} {w : Value} {fuel : Nat}
    (hw : ReadsAs t w) (hfuel : (spacedMember gap (key, t)).length < fuel) (hr : Ends r) :
    readMember fuel (readValue fuel) (spacedMember gap (key, t) ++ r) = some ((key, w), r) := by
  obtain ⟨ws, hws, htext⟩ : ∃ ws, Blank ws ∧ spacedMember gap (key, t) = quote key ++ ':' :: (ws ++ t) := by
    by_cases hgap : gap = []
    · exact ⟨[], List.forall_mem_nil _, by simp [spacedMember, hgap]⟩
    · exact ⟨[' '], by simp [Blank, isSpace], by simp [spacedMember, hgap]⟩
  have hlength : (quote key).length ≤ fuel ∧ t.length < fuel := by
    simp only [htext, List.length_append, List.length_cons] at hfuel
    omega
  have hquote : spacedMember gap (key, t) ++ r =
      '"' :: (key.toList.flatMap quoteChar ++ '"' :: (':' :: (ws ++ (t ++ r)))) := by
    simp [htext, quote]
  have hskip : ∀ cs, skip ('"' :: cs) = '"' :: cs := fun _ => rfl
  have hskip' : ∀ cs, skip (':' :: cs) = ':' :: cs := fun _ => rfl
  rw [hquote, readMember, hskip]
  dsimp only
  rw [if_pos rfl, readString_quote hlength.1, Option.bind_eq_bind, Option.bind_some]
  dsimp only
  rw [hskip']
  dsimp only
  rw [if_pos rfl, readValue_blank hws, hw fuel r hlength.2 hr]
  rfl

theorem length_le_bracketed {opening closing : Char} {gap indent t : List Char} {ts : List (List Char)} (h : t ∈ ts) :
    t.length < (bracketed opening closing gap indent ts).length := by
  have hle : ∀ (sep : List Char) {us : List (List Char)}, t ∈ us → t.length ≤ (sep.intercalate us).length := by
    intro sep us hus
    induction us with
    | nil => cases hus
    | cons u us ih =>
      cases us with
      | nil => simp_all
      | cons u' us =>
        rw [List.intercalate_cons_cons, List.length_append, List.length_append]
        rcases List.mem_cons.1 hus with rfl | hmem
        · omega
        · have := ih hmem
          omega
  have hlength := hle (',' :: lineBreak gap (indent ++ gap)) h
  have hne : ts ≠ [] := List.ne_nil_of_mem h
  simp only [bracketed, hne, if_false, List.length_cons, List.length_append]
  omega

/-- No text begins with a space or like the end of a list. -/
theorem stringify_head {gap indent : List Char} {v : Value} {t : List Char} (h : stringify gap indent v = some t) :
    ∃ c cs, t = c :: cs ∧ isSpace c = false ∧ c ≠ ']' ∧ c ≠ '\x7d' := by
  have htext : ∀ {t : List Char}, IsText t → ∃ c cs, t = c :: cs ∧ isSpace c = false ∧ c ≠ ']' ∧ c ≠ '\x7d' := by
    intro t ht
    obtain ⟨c, cs, rfl, hne⟩ := ht.exists_head
    refine ⟨c, cs, rfl, ?_, hne⟩
    have hskip := skip_text ht []
    rw [List.append_nil] at hskip
    by_contra hspace
    rw [skip, List.dropWhile_cons_of_pos (by simpa using hspace)] at hskip
    have hlength := (List.dropWhile_suffix (l := cs) isSpace).length_le
    rw [hskip] at hlength
    simp at hlength
  cases v with
  | undefined => cases h
  | null => exact htext (Option.some.inj h ▸ .word (by simp))
  | bool b => cases b <;> exact htext (Option.some.inj h ▸ .word (by simp))
  | number n => exact htext (Option.some.inj h ▸ isText_numberText n)
  | string s => exact htext (Option.some.inj h ▸ .string s)
  | array ref items =>
    obtain rfl := Option.some.inj h
    unfold bracketed
    split_ifs <;> exact ⟨'[', _, rfl, rfl, by decide, by decide⟩
  | object ref props =>
    obtain rfl := Option.some.inj h
    unfold bracketed
    split_ifs <;> exact ⟨'\x7b', _, rfl, rfl, by decide, by decide⟩
  | native n =>
    cases n with
    | function name => cases h
    | objectPrototype => exact ⟨'\x7b', _, (Option.some.inj h).symm, rfl, by decide, by decide⟩
    | arrayPrototype => exact ⟨'[', _, (Option.some.inj h).symm, rfl, by decide, by decide⟩

theorem blank_append {gap indent : List Char} (hgap : Blank gap) (hindent : Blank indent) : Blank (indent ++ gap) :=
  List.forall_mem_append.2 ⟨hindent, hgap⟩

/-- What an array prints is read as what is kept of its items. -/
theorem readsAs_array {gap indent : List Char} (hgap : Blank gap) (hindent : Blank indent) {items : List Value}
    (hitems : ∀ v ∈ items, ∀ {t}, stringify gap (indent ++ gap) v = some t → ∃ w, canonical v = some w ∧ ReadsAs t w) :
    ReadsAs (bracketed '[' ']' gap indent (stringifyItems gap (indent ++ gap) items))
      (.array none (canonicalItems items)) := by
  apply readsAs_intro
  intro fuel r hfuel _
  rw [stringifyItems_eq] at hfuel ⊢
  rw [canonicalItems_eq]
  have hreads : ∀ v ∈ items, ReadsAs ((stringify gap (indent ++ gap) v).getD "null".toList)
      ((canonical v).getD .null) := by
    intro v hv
    have hsome := @stringify_isSome gap (indent ++ gap) v
    cases hs : stringify gap (indent ++ gap) v with
    | none =>
      rw [hs] at hsome
      rw [Option.isNone_iff_eq_none.1 (Option.isSome_eq_false_iff.1 hsome.symm)]
      exact readsAs_null
    | some t =>
      obtain ⟨w, hw, hread⟩ := hitems v hv hs
      rw [hw]
      exact hread
  have hhead : ∀ v ∈ items, ∃ c cs, (stringify gap (indent ++ gap) v).getD "null".toList = c :: cs ∧
      isSpace c = false ∧ c ≠ ']' := by
    intro v _
    cases hs : stringify gap (indent ++ gap) v with
    | none => exact ⟨'n', _, rfl, rfl, by decide⟩
    | some t =>
      obtain ⟨c, cs, hcs, hspace, hne, _⟩ := stringify_head hs
      exact ⟨c, cs, hcs, hspace, hne⟩
  have hitem : ∀ v ∈ items, ∀ r, Ends r → readValue fuel ((stringify gap (indent ++ gap) v).getD "null".toList ++ r) =
      some ((canonical v).getD .null, r) := fun v hv r hr =>
    hreads v hv fuel r ((length_le_bracketed (List.mem_map_of_mem hv)).trans_le hfuel) hr
  obtain ⟨cs, htext, hread⟩ := readItems_spaced '[' hgap hindent
    (fun ws r hws => readValue_blank hws fuel r) (.inl rfl) (hfuel.trans (Nat.le_succ fuel)) hhead hitem (r := r)
  rw [htext, readValue_array, hread]
  rfl

/-- What an object prints is read as what is kept of its properties. -/
theorem readsAs_object {gap indent : List Char} (hgap : Blank gap) (hindent : Blank indent) {props : Record}
    (hkeys : (props.map Prod.fst).Nodup)
    (hprops : ∀ p ∈ props, ∀ {t}, stringify gap (indent ++ gap) p.2 = some t →
      ∃ w, canonical p.2 = some w ∧ ReadsAs t w) :
    ReadsAs (bracketed '\x7b' '\x7d' gap indent
        ((inKeyOrder (stringifyProps gap (indent ++ gap) props)).map (spacedMember gap)))
      (.object none (inKeyOrder (canonicalProps props))) := by
  apply readsAs_intro
  intro fuel r hfuel _
  rw [stringifyProps_eq, inKeyOrder_map (fun m : List Char × Value => m.1), List.map_map] at hfuel ⊢
  rw [@canonicalProps_eq_bothOf gap (indent ++ gap), inKeyOrder_map (fun m : List Char × Value => m.2)]
  have hmem : ∀ m ∈ inKeyOrder (bothOf (stringify gap (indent ++ gap)) canonical props), ReadsAs m.2.1 m.2.2 := by
    intro m hm
    obtain ⟨p, hp, _, hs, hc⟩ := mem_bothOf ((perm_inKeyOrder _).mem_iff.1 hm)
    obtain ⟨w, hw, hread⟩ := hprops p hp hs
    rw [hc] at hw
    obtain rfl := Option.some.inj hw
    exact hread
  have hdistinct : ((inKeyOrder (bothOf (stringify gap (indent ++ gap)) canonical props)).map fun m =>
      (m.1, m.2.2)).map Prod.fst |>.Nodup := by
    rw [List.map_map]
    exact (((perm_inKeyOrder _).map _).nodup_iff).2 (hkeys.sublist (keys_bothOf_sublist _ _ props))
  generalize inKeyOrder (bothOf (stringify gap (indent ++ gap)) canonical props) = ms at *
  have hhead : ∀ m ∈ ms, ∃ c cs, (spacedMember gap ∘ fun m : String × (List Char × Value) => (m.1, m.2.1)) m = c :: cs ∧
      isSpace c = false ∧ c ≠ '\x7d' := fun m _ => ⟨'"', _, rfl, rfl, by decide⟩
  have hitem : ∀ m ∈ ms, ∀ r, Ends r → readMember fuel (readValue fuel)
      ((spacedMember gap ∘ fun m : String × (List Char × Value) => (m.1, m.2.1)) m ++ r) = some ((m.1, m.2.2), r) :=
    fun m hm r hr =>
      readMember_spaced (hmem m hm) ((length_le_bracketed (List.mem_map_of_mem hm)).trans_le hfuel) hr
  obtain ⟨cs, htext, hread⟩ := readItems_spaced '\x7b' hgap hindent
    (fun ws r hws => readMember_blank hws fuel _ r) (.inr rfl) (hfuel.trans (Nat.le_succ fuel)) hhead hitem (r := r)
  rw [htext, readValue_object_text, hread, Option.map_some]
  dsimp only
  rw [InsertionMap.entries_ofList hdistinct]

/-- What a value prints is read as what JSON keeps of it. -/
theorem readsAs_stringify {gap : List Char} (hgap : Blank gap) {v : Value} (hv : IsValue v) :
    ∀ {indent t : List Char}, Blank indent → stringify gap indent v = some t →
      ∃ w, canonical v = some w ∧ ReadsAs t w := by
  induction hv with
  | undefined =>
    intro indent t _ h
    simp [stringify] at h
  | native n =>
    intro indent t _ h
    cases n with
    | function name => simp [stringify] at h
    | objectPrototype =>
      obtain rfl := Option.some.inj h
      exact ⟨_, rfl, readsAs_intro fun _ _ _ _ => rfl⟩
    | arrayPrototype =>
      obtain rfl := Option.some.inj h
      exact ⟨_, rfl, readsAs_intro fun _ _ _ _ => rfl⟩
  | null =>
    intro indent t _ h
    obtain rfl := Option.some.inj h
    exact ⟨_, rfl, readsAs_null⟩
  | bool b =>
    intro indent t _ h
    obtain rfl := Option.some.inj h
    cases b <;> exact ⟨_, rfl, readsAs_intro fun _ _ _ _ => rfl⟩
  | @number n hn =>
    intro indent t _ h
    obtain rfl := Option.some.inj h
    cases n with
    | nan => exact ⟨_, rfl, readsAs_null⟩
    | infinity s => exact ⟨_, rfl, readsAs_null⟩
    | negZero => exact ⟨_, rfl, readsAs_toText trivial⟩
    | finite q => exact ⟨_, rfl, readsAs_toText (hn q rfl)⟩
  | string s =>
    intro indent t _ h
    obtain rfl := Option.some.inj h
    exact ⟨_, rfl, readsAs_quote s⟩
  | array _ ih =>
    intro indent t hindent h
    obtain rfl := Option.some.inj h
    exact ⟨_, rfl, readsAs_array hgap hindent fun v hv _ ht => ih v hv (blank_append hgap hindent) ht⟩
  | object hkeys _ ih =>
    intro indent t hindent h
    obtain rfl := Option.some.inj h
    exact ⟨_, rfl, readsAs_object hgap hindent hkeys fun p hp _ ht => ih p hp (blank_append hgap hindent) ht⟩

end JsonParser

open JsonParser

section
variable {gap text : List Char}

/-- **`JSON.parse(JSON.stringify(v, null, gap))`.** -/
theorem parse_stringify (hgap : Blank gap) {v : Value} (hv : IsValue v) (h : stringify gap [] v = some text) :
    ∃ w, canonical v = some w ∧ parse text = some w := by
  obtain ⟨w, hw, hread⟩ := readsAs_stringify hgap hv (List.forall_mem_nil _) h
  have hread' := hread (text.length + 1) [] (Nat.lt_succ_self _) (by simp [Ends])
  rw [List.append_nil] at hread'
  refine ⟨w, hw, ?_⟩
  rw [parse, hread']
  rfl

variable {ref : Option String} {props : Record}

theorem stringify_object_head (h : stringify gap [] (.object ref props) = some text) :
    ∃ cs, text = '\x7b' :: cs := by
  obtain rfl := Option.some.inj h
  unfold bracketed
  split_ifs <;> exact ⟨_, rfl⟩

/-- The text of an object cut short is refused. -/
theorem parse_prefix_of_stringify (hgap : Blank gap) (hv : IsValue (.object ref props))
    (h : stringify gap [] (.object ref props) = some text) {t : List Char} (ht : t <+: text) (hne : t ≠ text) :
    parse t = none := by
  obtain ⟨w, _, hreads⟩ := readsAs_stringify hgap hv (List.forall_mem_nil _) h
  have hread := hreads (text.length + 1) [] (Nat.lt_succ_self _) (by simp [Ends])
  obtain ⟨cs, hcs⟩ := stringify_object_head h
  obtain ⟨s, rfl⟩ := ht
  cases t with
  | nil => rfl
  | cons c t =>
    obtain rfl : c = '\x7b' := (List.cons.inj hcs).1
    cases hcut : readValue (('\x7b' :: t).length + 1) ('\x7b' :: t) with
    | none => rw [parse, hcut]
    | some x =>
      have hsame := (@readValue_object _ _ _ t _ s _ rfl (Nat.lt_succ_self _) hcut).1
      rw [List.append_nil] at hread
      rw [hread, Option.some.injEq, Prod.mk.injEq] at hsame
      obtain rfl : s = [] := (List.append_eq_nil_iff.1 hsame.2.symm).2
      simp at hne

/-- Also if it ends with what half a character is decoded as. -/
theorem parse_torn_of_stringify (h : stringify gap [] (.object ref props) = some text) {t : List Char}
    (ht : t <+: text) (hne : t ≠ []) {c : Char} (hc : c ≠ '\x7d') (hspace : isSpace c = false) :
    parse (t ++ [c]) = none := by
  obtain ⟨cs, hcs⟩ := stringify_object_head h
  obtain ⟨d, t, rfl⟩ := List.exists_cons_of_ne_nil hne
  obtain ⟨s, rfl⟩ := ht
  obtain rfl : d = '\x7b' := (List.cons.inj hcs).1
  cases hcut : readValue (('\x7b' :: t ++ [c]).length + 1) ('\x7b' :: t ++ [c]) with
  | none => rw [parse, hcut]
  | some x =>
    have hsuffix := (@readValue_object _ _ _ (t ++ [c]) _ [] _ rfl (Nat.lt_succ_self _) hcut).2
    have hlast : ('\x7d' :: x.2).getLast? = some c := by
      obtain ⟨y, hy⟩ := hsuffix
      have hlast := congrArg List.getLast? hy
      rwa [List.getLast?_append_of_ne_nil _ (List.cons_ne_nil _ _), List.getLast?_concat] at hlast
    rw [parse, hcut]
    by_cases hskip : skip x.2 = []
    · exfalso
      rw [skip, List.dropWhile_eq_nil_iff] at hskip
      rcases List.mem_cons.1 (List.mem_of_getLast? hlast) with heq | hmem
      · exact hc heq
      · simp [hskip c hmem] at hspace
    · exact if_neg hskip

end

/-! ## Printing what was read -/

theorem inKeyOrder_append {α : Type} {indexed plain : List (String × α)}
    (hindexed : ∀ e ∈ indexed, (keyIndex e.1).isSome = true) (hplain : ∀ e ∈ plain, (keyIndex e.1).isNone = true)
    (hsorted : indexed.Pairwise fun a b => (keyIndex a.1).getD 0 ≤ (keyIndex b.1).getD 0) :
    inKeyOrder (indexed ++ plain) = indexed ++ plain := by
  have hnone : plain.filter (fun e => (keyIndex e.1).isSome) = [] :=
    List.filter_eq_nil_iff.2 fun e he => by simpa using hplain e he
  have hsome : indexed.filter (fun e => (keyIndex e.1).isNone) = [] :=
    List.filter_eq_nil_iff.2 fun e he => by simp [Option.isSome_iff_ne_none.1 (hindexed e he)]
  let le (a b : String × α) : Prop := (keyIndex a.1).getD 0 ≤ (keyIndex b.1).getD 0
  have : Std.Total le := ⟨fun a b => Nat.le_total _ _⟩
  have : IsTrans (String × α) le := ⟨fun a b c => Nat.le_trans⟩
  have hsort : indexed.insertionSort (fun a b => (keyIndex a.1).getD 0 ≤ (keyIndex b.1).getD 0) = indexed :=
    List.Pairwise.insertionSort_eq (r := le) hsorted
  rw [inKeyOrder, List.filter_append, List.filter_append, List.filter_eq_self.2 hindexed,
    List.filter_eq_self.2 hplain, hnone, hsome, List.append_nil, List.nil_append, hsort]

theorem inKeyOrder_inKeyOrder {α : Type} (entries : List (String × α)) :
    inKeyOrder (inKeyOrder entries) = inKeyOrder entries := by
  let le (a b : String × α) : Prop := (keyIndex a.1).getD 0 ≤ (keyIndex b.1).getD 0
  have : Std.Total le := ⟨fun a b => Nat.le_total _ _⟩
  have : IsTrans (String × α) le := ⟨fun a b c => Nat.le_trans⟩
  apply inKeyOrder_append
  · intro e he
    rw [List.mem_insertionSort] at he
    exact (List.mem_filter.1 he).2
  · exact fun e he => (List.mem_filter.1 he).2
  · exact List.pairwise_insertionSort le _

section
variable {gap : List Char}

theorem stringifyProps_map {indent : List Char} : ∀ {props : Record},
    (∀ p ∈ props, (stringify gap indent p.2).isSome = true) →
      stringifyProps gap indent props = props.map fun p => (p.1, (stringify gap indent p.2).getD [])
  | [], _ => by simp [stringifyProps]
  | (key, v) :: props, h => by
    obtain ⟨t, ht⟩ := Option.isSome_iff_exists.1 (h _ List.mem_cons_self)
    have ih := stringifyProps_map fun p hp => h p (List.mem_cons_of_mem _ hp)
    rw [stringifyProps, ih]
    simp [ht]

mutual

/-- What JSON keeps of a value prints like the value. -/
theorem stringify_canonical : ∀ {v w : Value} (indent : List Char), canonical v = some w →
    stringify gap indent w = stringify gap indent v
  | .undefined, _, _, h => by simp [canonical] at h
  | .null, _, _, h | .bool _, _, _, h | .string _, _, _, h => by rw [Option.some.inj h]
  | .number n, _, _, h => by
    cases n <;> (rw [← Option.some.inj h]; rfl)
  | .native n, _, _, h => by
    cases n with
    | function name => simp [canonical] at h
    | objectPrototype => rw [← Option.some.inj h]; rfl
    | arrayPrototype => rw [← Option.some.inj h]; rfl
  | .array _ items, _, indent, h => by
    rw [← Option.some.inj h, stringify, stringify, stringifyItems_canonical]
  | .object _ props, _, indent, h => by
    have hprops := @stringifyProps_canonical props (indent ++ gap)
    have hsome := hprops.2
    have hmap := stringifyProps_map hsome
    have hmap' := @stringifyProps_map gap (indent ++ gap) (inKeyOrder (canonicalProps props)) fun p hp =>
      hsome p ((perm_inKeyOrder _).mem_iff.1 hp)
    rw [← Option.some.inj h, stringify, stringify, hmap',
      inKeyOrder_map (fun v => (stringify gap (indent ++ gap) v).getD []), inKeyOrder_inKeyOrder,
      ← inKeyOrder_map (fun v => (stringify gap (indent ++ gap) v).getD []), ← hmap, hprops.1]

theorem stringifyItems_canonical (indent : List Char) : ∀ items : List Value,
    stringifyItems gap indent (canonicalItems items) = stringifyItems gap indent items
  | [] => rfl
  | v :: vs => by
    rw [canonicalItems, stringifyItems, stringifyItems, stringifyItems_canonical]
    cases hw : canonical v with
    | none =>
      have hnone := @stringify_isSome gap indent v
      rw [hw] at hnone
      rw [Option.isNone_iff_eq_none.1 (Option.isSome_eq_false_iff.1 hnone)]
      rfl
    | some w => rw [Option.getD_some, stringify_canonical indent hw]

theorem stringifyProps_canonical {props : Record} {indent : List Char} :
    stringifyProps gap indent (canonicalProps props) = stringifyProps gap indent props ∧
      ∀ q ∈ canonicalProps props, (stringify gap indent q.2).isSome = true := by
  match props with
  | [] => exact ⟨rfl, List.forall_mem_nil _⟩
  | (key, v) :: props =>
    obtain ⟨heq, hsome⟩ := @stringifyProps_canonical props indent
    have hboth := @stringify_isSome gap indent v
    rw [canonicalProps, stringifyProps]
    cases hw : canonical v with
    | none =>
      rw [hw] at hboth
      rw [Option.isNone_iff_eq_none.1 (Option.isSome_eq_false_iff.1 hboth)]
      exact ⟨heq, hsome⟩
    | some w =>
      rw [hw] at hboth
      obtain ⟨t, ht⟩ := Option.isSome_iff_exists.1 hboth
      have htext := (stringify_canonical indent hw).trans ht
      refine ⟨?_, List.forall_mem_cons.2 ⟨by rw [htext]; rfl, hsome⟩⟩
      simp [stringifyProps, htext, ht, heq]

end

end

end Js
