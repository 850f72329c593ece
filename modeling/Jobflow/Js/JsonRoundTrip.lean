import Mathlib.Data.List.TakeWhile
import Jobflow.Js.JsonReading
import Jobflow.Js.JsonTexts

/-!
# What JSON.stringify prints, JSON.parse reads

Of a value `canonical` is what JSON keeps: no `undefined` and no function, no `NaN`, one zero, no identity. Its text is
parsed as that (`parse_serialize`), and the text of an object cut short is refused (`parse_prefix_of_object`,
`parse_torn_of_object`).
-/

namespace Js

/-! ## What JSON keeps -/

mutual

/-- The value a value's text stands for; `none` where there is no text. -/
def canonical : Value → Option Value
  | .undefined | .native (.function _) => none
  | .null => some .null
  | .bool b => some (.bool b)
  | .number .nan | .number (.infinity _) => some .null
  | .number n => some (.number n.unsigned)
  | .string s => some (.string s)
  | .array _ items => some (.array none (canonicalItems items))
  | .object _ props => some (.object none (inKeyOrder (canonicalProps props)))
  | .native .objectPrototype => some (.object none [])
  | .native .arrayPrototype => some (.array none [])

def canonicalItems : List Value → List Value
  | [] => []
  | v :: vs => (canonical v).getD .null :: canonicalItems vs

def canonicalProps : Record → Record
  | [] => []
  | (key, v) :: props =>
    match canonical v with
    | some w => (key, w) :: canonicalProps props
    | none => canonicalProps props

end

namespace JsonParser

/-! ## Printed strings -/

theorem joinUnits_toNat : ∀ cs : List Char, joinUnits (cs.map Char.toNat) = cs
  | [] => rfl
  | c :: cs => by
    have hvalid : c.toNat < 0xD800 ∨ 0xDFFF < c.toNat ∧ c.toNat < 0x110000 := c.valid
    rw [List.map_cons, joinUnits.eq_def]
    dsimp only
    rw [if_neg (by omega), if_neg (by omega), Char.ofNat_toNat, joinUnits_toNat cs]

theorem readUnits_quoted : ∀ {cs r : List Char} {fuel : Nat}, cs.length < fuel →
    readUnits fuel (cs.flatMap quoteChar ++ '"' :: r) = some (cs.map Char.toNat, r)
  | [], r, fuel + 1, _ => by simp [readUnits]
  | c :: cs, r, fuel + 1, h => by
    have hread := readUnit_quoteChar c (cs.flatMap quoteChar ++ '"' :: r)
    have ih := @readUnits_quoted cs r fuel (Nat.lt_of_succ_lt_succ h)
    obtain ⟨c', r', hhead, hne⟩ := quoteChar_head c (cs.flatMap quoteChar ++ '"' :: r)
    rw [List.flatMap_cons, List.append_assoc, hhead, readUnits, if_neg hne, ← hhead, hread]
    simp [ih]

theorem length_le_flatMap_quoteChar : ∀ cs : List Char, cs.length ≤ (cs.flatMap quoteChar).length
  | [] => le_rfl
  | c :: cs => by
    have ih := length_le_flatMap_quoteChar cs
    obtain ⟨c', r', hhead, _⟩ := quoteChar_head c []
    have hone : 1 ≤ (quoteChar c).length := by
      rw [← List.append_nil (quoteChar c), hhead]
      simp
    simp only [List.flatMap_cons, List.length_append, List.length_cons]
    omega

/-- A quoted string is read as itself. -/
theorem readString_quote {s : String} {r : List Char} {fuel : Nat} (h : (quote s).length ≤ fuel) :
    readString fuel (s.toList.flatMap quoteChar ++ '"' :: r) = some (s, r) := by
  have hlength := length_le_flatMap_quoteChar s.toList
  have hfuel : s.toList.length < fuel := by
    simp only [quote, List.cons_append, List.length_cons, List.length_append] at h
    omega
  rw [readString, readUnits_quoted hfuel]
  simp [joinUnits_toNat]

/-! ## Printed numbers -/

theorem isExponent_text (l : Number.Literal) : isExponent l.exponentText = true := by
  unfold Number.Literal.exponentText
  split
  · rfl
  · rename_i e _
    have hdigits : (Nat.toDigits 10 e.natAbs).all Number.isDigit = true := by
      rw [List.all_eq_true]
      exact fun c hc => (Number.isDigit_eq c).trans (Number.allDigits_toDigits _ c hc)
    split_ifs <;> simp [isExponent, Number.splitSign, hdigits]

theorem isUnsigned_text {l : Number.Literal} (h : l.Proper) : isUnsigned l.text = true := by
  have hexponent := isExponent_text l
  have hhead : ∀ c ∈ l.exponentText.head?, c.isDigit = false := by
    intro c hc
    rw [l.head_exponentText c hc]
    rfl
  have hfraction : isFraction (l.fracText ++ l.exponentText) = true ∧
      ∀ c ∈ (l.fracText ++ l.exponentText).head?, c.isDigit = false := by
    unfold Number.Literal.fracText
    split_ifs with hfrac
    · refine ⟨?_, hhead⟩
      rw [List.nil_append]
      unfold isFraction
      split
      · rename_i heq
        exact absurd (l.head_exponentText '.' (by simp [heq])) (by decide)
      · exact hexponent
    · obtain ⟨htake, hdrop⟩ := Number.takeWhile_digits h.frac hhead
      constructor
      · simp [isFraction, htake, hdrop, hfrac, hexponent]
      · intro c hc
        rw [← Option.some.inj hc]
        rfl
  obtain ⟨htake, hdrop⟩ := Number.takeWhile_digits h.whole hfraction.2
  obtain ⟨c, cs, hcs, hzero⟩ := h.head
  unfold isUnsigned Number.Literal.text
  rw [htake, hdrop, hfraction.1, hcs]
  by_cases hc : c = '0'
  · simp [hc, hzero hc]
  · simp [hc]

theorem isNumberText_toText {n : Number} (h : n.IsDouble) : isNumberText n.toText.toList = true := by
  obtain ⟨l, hl, htext | htext⟩ := Number.toText_literal h
  · rw [htext]
    unfold isNumberText
    split
    · rename_i cs heq
      obtain ⟨c, cs', hcs, _⟩ := hl.head
      have hdigit := hl.whole c (by simp [hcs])
      rw [Number.Literal.text, hcs] at heq
      rw [(List.cons.inj heq).1] at hdigit
      cases hdigit
    · exact isUnsigned_text hl
  · rw [htext]
    exact isUnsigned_text hl

theorem isNumberChar_of_written {c : Char} (h : Number.IsNumberChar c) : isNumberChar c = true := by
  rcases h with h | h
  · simp [isNumberChar, Number.isDigit_eq, h]
  · simp only [List.mem_cons, List.not_mem_nil, or_false] at h
    rcases h with rfl | rfl | rfl | rfl <;> rfl

/-- A number is read up to where something else follows. -/
theorem readNumber_toText {n : Number} (h : n.IsDouble) {r : List Char} (hr : Stops r) :
    readNumber (n.toText.toList ++ r) = some (.number n.unsigned, r) := by
  obtain ⟨p, hp⟩ := h.exists_toRat?
  have hchars : ∀ c ∈ n.toText.toList, isNumberChar c = true := fun c hc =>
    isNumberChar_of_written ((Number.toText_chars hp).2 c hc)
  have hstop : r.takeWhile isNumberChar = [] ∧ r.dropWhile isNumberChar = r := by
    cases r with
    | nil => exact ⟨rfl, rfl⟩
    | cons c r =>
      have hc : isNumberChar c = false := by
        rcases hr c rfl with rfl | rfl | rfl <;> rfl
      exact ⟨List.takeWhile_cons_of_neg (by simp [hc]), List.dropWhile_cons_of_neg (by simp [hc])⟩
  unfold readNumber
  dsimp only
  rw [List.takeWhile_append_of_pos hchars, List.dropWhile_append_of_pos hchars, hstop.1, hstop.2, List.append_nil,
    if_pos (isNumberText_toText h), String.ofList_toList, Number.parse_toText h]

/-! ## Printed values -/

/-- The text is read as the value, before whatever stops it. -/
def Reads (t : List Char) (v : Value) : Prop :=
  ∀ fuel r, t.length < fuel → Stops r → readValue fuel (t ++ r) = some (v, r)

/-- No text begins with a space. -/
theorem skip_text {t : List Char} (h : IsText t) (r : List Char) : skip (t ++ r) = t ++ r := by
  have hskip : ∀ {c : Char} {cs : List Char}, isSpace c = false → skip (c :: cs ++ r) = c :: cs ++ r := fun hc =>
    List.dropWhile_cons_of_neg (by simp [hc])
  cases h with
  | word h =>
    simp only [List.mem_cons, List.not_mem_nil, or_false] at h
    rcases h with rfl | rfl | rfl <;> rfl
  | number hne h =>
    obtain ⟨c, cs, rfl⟩ := List.exists_cons_of_ne_nil hne
    refine hskip ?_
    rcases h c List.mem_cons_self with hdigit | hsign
    · have hspaces : ∀ c' : Char, isSpace c' = true → c'.isDigit = false := by
        intro c' hc'
        simp only [isSpace, Bool.or_eq_true, decide_eq_true_eq] at hc'
        rcases hc' with ((rfl | rfl) | rfl) | rfl <;> rfl
      rw [← Bool.not_eq_true]
      intro hspace
      rw [hspaces c hspace] at hdigit
      cases hdigit
    · simp only [List.mem_cons, List.not_mem_nil, or_false] at hsign
      rcases hsign with rfl | rfl | rfl | rfl <;> rfl
  | string s => rfl
  | array _ => rfl
  | object _ => rfl

section
variable {α β : Type} {item : List Char → Option (β × List Char)} {text : α → List Char} {value : α → β} {close : Char}

theorem length_lt_tailText : ∀ as : List α, as.length < (tailText text close as).length
  | [] => by simp [tailText]
  | a :: as => by
    have ih := length_lt_tailText as
    simp only [tailText, List.cons_append, List.length_cons, List.length_append]
    omega

theorem readList_text (hclose : close = ']' ∨ close = '\x7d') : ∀ {a : α} {as : List α} {fuel : Nat} {r : List Char},
    as.length < fuel → (∀ b ∈ a :: as, ∀ r, Stops r → item (text b ++ r) = some (value b, r)) →
      readList item close fuel (text a ++ (tailText text close as ++ r)) = some ((a :: as).map value, r)
  | a, [], fuel + 1, r, _, hitem => by
    have hstops : Stops (tailText text close [] ++ r) := stops_tailText hclose [] r
    rw [readList, hitem a List.mem_cons_self _ hstops, Option.bind_eq_bind, Option.bind_some]
    rcases hclose with rfl | rfl <;> rfl
  | a, b :: as, fuel + 1, r, hfuel, hitem => by
    have hstops : Stops (tailText text close (b :: as) ++ r) := stops_tailText hclose (b :: as) r
    have ih := @readList_text hclose b as fuel r (Nat.lt_of_succ_lt_succ hfuel) fun c hc =>
      hitem c (List.mem_cons_of_mem _ hc)
    have hskip : skip (tailText text close (b :: as) ++ r) = ',' :: (text b ++ (tailText text close as ++ r)) := by
      simp [tailText, skip, isSpace]
    rw [readList, hitem a List.mem_cons_self _ hstops, Option.bind_eq_bind, Option.bind_some]
    dsimp only
    rw [hskip]
    dsimp only
    rw [if_pos rfl, ih]
    rfl

/-- A list in brackets, of texts that begin like none of them. -/
theorem readItems_text (hclose : close = ']' ∨ close = '\x7d') {as : List α} {fuel : Nat} {r : List Char}
    (hlength : ([','].intercalate (as.map text)).length < fuel)
    (hhead : ∀ b ∈ as, ∀ r, ∃ c cs, skip (text b ++ r) = c :: cs ∧ text b ++ r = c :: cs ∧ c ≠ close)
    (hitem : ∀ b ∈ as, ∀ r, Stops r → item (text b ++ r) = some (value b, r)) :
    readItems item close fuel ([','].intercalate (as.map text) ++ [close] ++ r) = some (as.map value, r) := by
  cases as with
  | nil => rcases hclose with rfl | rfl <;> rfl
  | cons a as =>
    obtain ⟨c, cs, hskip, htext, hne⟩ := hhead a List.mem_cons_self (tailText text close as ++ r)
    have hbrackets : [','].intercalate ((a :: as).map text) ++ [close] ++ r =
        text a ++ (tailText text close as ++ r) := by
      rw [intercalate_close, List.append_assoc]
    have hfuel : as.length < fuel := by
      have hlt : as.length < (tailText text close as).length := length_lt_tailText as
      have hlength' := congrArg List.length (intercalate_close text close a as)
      simp only [List.length_append, List.length_singleton] at hlength'
      omega
    rw [readItems, hbrackets, hskip]
    dsimp only
    rw [if_neg hne, ← htext]
    exact readList_text hclose hfuel hitem

end

theorem readValue_array (fuel : Nat) (cs : List Char) : readValue (fuel + 1) ('[' :: cs) =
    (readItems (readValue fuel) ']' fuel cs).map fun (items, r) => (.array none items, r) := rfl

theorem readValue_object_text (fuel : Nat) (cs : List Char) : readValue (fuel + 1) ('\x7b' :: cs) =
    (readItems (readMember fuel (readValue fuel)) '\x7d' fuel cs).map fun (members, r) =>
      (.object none (InsertionMap.ofList members).entries, r) := rfl

theorem readValue_string (fuel : Nat) (cs : List Char) : readValue (fuel + 1) ('"' :: cs) =
    (readString fuel cs).map fun (s, r) => (.string s, r) := rfl

theorem serializeItems_eq (items : List Value) :
    serializeItems items = items.map fun v => (serialize v).getD "null".toList := by
  induction items with
  | nil => rfl
  | cons v vs ih => rw [serializeItems, List.map_cons, ih]

theorem canonicalItems_eq (items : List Value) :
    canonicalItems items = items.map fun v => (canonical v).getD .null := by
  induction items with
  | nil => rfl
  | cons v vs ih => rw [canonicalItems, List.map_cons, ih]

theorem canonical_isSome (v : Value) : (canonical v).isSome = (serialize v).isSome := by
  cases v with
  | number n => cases n <;> rfl
  | native n => cases n <;> rfl
  | _ => rfl

/-- The members of an object, with what is printed and what is kept of each. -/
def members (props : Record) : List (String × (List Char × Value)) :=
  props.filterMap fun p =>
    match serialize p.2, canonical p.2 with
    | some t, some w => some (p.1, (t, w))
    | _, _ => none

theorem members_cons (key : String) (v : Value) (props : Record) :
    members ((key, v) :: props) =
      (match serialize v, canonical v with
        | some t, some w => [(key, (t, w))]
        | _, _ => []) ++ members props := by
  unfold members
  rw [List.filterMap_cons]
  dsimp only
  cases serialize v <;> cases canonical v <;> rfl

theorem serializeProps_eq : ∀ props : Record, serializeProps props = (members props).map fun m => (m.1, m.2.1)
  | [] => rfl
  | (key, v) :: props => by
    have hsome := canonical_isSome v
    rw [serializeProps, members_cons, serializeProps_eq props]
    cases hs : serialize v <;> cases hc : canonical v <;> simp_all

theorem canonicalProps_eq : ∀ props : Record, canonicalProps props = (members props).map fun m => (m.1, m.2.2)
  | [] => rfl
  | (key, v) :: props => by
    have hsome := canonical_isSome v
    rw [canonicalProps, members_cons, canonicalProps_eq props]
    cases hs : serialize v <;> cases hc : canonical v <;> simp_all

theorem mem_members {props : Record} {m : String × (List Char × Value)} (h : m ∈ members props) :
    ∃ p ∈ props, p.1 = m.1 ∧ serialize p.2 = some m.2.1 ∧ canonical p.2 = some m.2.2 := by
  obtain ⟨p, hp, hm⟩ := List.mem_filterMap.1 h
  split at hm
  · rename_i t w hs hc
    obtain rfl := Option.some.inj hm
    exact ⟨p, hp, rfl, hs, hc⟩
  · cases hm

theorem keys_members_sublist : ∀ props : Record, ((members props).map Prod.fst).Sublist (props.map Prod.fst)
  | [] => List.Sublist.refl _
  | (key, v) :: props => by
    have ih := keys_members_sublist props
    rw [members_cons, List.map_append, List.map_cons]
    split
    · exact ih.cons_cons key
    · exact ih.cons key

theorem length_le_intercalate {t : List Char} : ∀ {ts : List (List Char)}, t ∈ ts →
    t.length ≤ ([','].intercalate ts).length
  | [u], h => by simp_all
  | u :: u' :: ts, h => by
    rw [List.intercalate_cons_cons, List.length_append, List.length_append]
    rcases List.mem_cons.1 h with rfl | h
    · omega
    · have ih := length_le_intercalate h
      omega

theorem reads_intro {t : List Char} {v : Value}
    (h : ∀ fuel r, t.length ≤ fuel → Stops r → readValue (fuel + 1) (t ++ r) = some (v, r)) : Reads t v := by
  rintro (_ | fuel) r hfuel hr
  · cases hfuel
  · exact h fuel r (Nat.le_of_lt_succ hfuel) hr

theorem reads_null : Reads "null".toList .null := reads_intro fun _ _ _ _ => rfl

theorem reads_numberText {n : Number} (h : n.IsBinary64) :
    ∃ w, canonical (.number n) = some w ∧ Reads (numberText n) w := by
  have hdouble : n.IsDouble → Reads n.toText.toList (.number n.unsigned) := fun hn =>
    reads_intro fun fuel r _ hr => by
      obtain ⟨p, hp⟩ := hn.exists_toRat?
      obtain ⟨hne, hchars⟩ := Number.toText_chars hp
      have hread := readNumber_toText hn hr
      have hskip := skip_text (.number hne hchars) r
      obtain ⟨c, cs, hcs⟩ := List.exists_cons_of_ne_nil hne
      have hkind := kindOf_number (hchars c (by simp [hcs]))
      have hother (c' : Char) (h : kindOf c' ≠ .number) : c ≠ c' := by
        rintro rfl
        exact h hkind
      rw [readValue, hskip]
      rw [hcs, List.cons_append] at hread ⊢
      dsimp only
      rw [if_neg (hother '"' (by decide)), if_neg (hother '[' (by decide)), if_neg (hother '\x7b' (by decide)),
        if_neg (hother 'n' (by decide)), if_neg (hother 't' (by decide)), if_neg (hother 'f' (by decide))]
      exact hread
  cases n with
  | nan => exact ⟨_, rfl, reads_null⟩
  | infinity s => exact ⟨_, rfl, reads_null⟩
  | negZero => exact ⟨_, rfl, hdouble trivial⟩
  | finite q => exact ⟨_, rfl, hdouble (h q rfl)⟩

theorem reads_quote (s : String) : Reads (quote s) (.string s) := reads_intro fun fuel r hfuel _ => by
  rw [quote, List.cons_append, List.cons_append, List.append_assoc, List.singleton_append, readValue_string,
    readString_quote hfuel]
  rfl

theorem readMember_text {key : String} {t r : List Char} {w : Value} {fuel : Nat} (hw : Reads t w)
    (hfuel : (member (key, t)).length < fuel) (hr : Stops r) :
    readMember fuel (readValue fuel) (member (key, t) ++ r) = some ((key, w), r) := by
  have hlength : (quote key).length ≤ fuel ∧ t.length < fuel := by
    simp only [member, List.length_append, List.length_cons] at hfuel
    omega
  have htext : member (key, t) ++ r = '"' :: (key.toList.flatMap quoteChar ++ '"' :: (':' :: (t ++ r))) := by
    simp [member, quote]
  have hskip : skip ('"' :: (key.toList.flatMap quoteChar ++ '"' :: (':' :: (t ++ r)))) =
      '"' :: (key.toList.flatMap quoteChar ++ '"' :: (':' :: (t ++ r))) := rfl
  have hskip' : skip (':' :: (t ++ r)) = ':' :: (t ++ r) := rfl
  rw [htext, readMember, hskip]
  dsimp only
  rw [if_pos rfl, readString_quote hlength.1, Option.bind_eq_bind, Option.bind_some]
  dsimp only
  rw [hskip']
  dsimp only
  rw [if_pos rfl, hw fuel r hlength.2 hr]
  rfl

/-- What a value prints is read as what JSON keeps of it. -/
theorem reads_serialize {v : Value} (hv : IsValue v) : ∀ {t : List Char}, serialize v = some t →
    ∃ w, canonical v = some w ∧ Reads t w := by
  induction hv with
  | undefined => intro t h; cases h
  | native n =>
    intro t h
    cases n with
    | function name => cases h
    | objectPrototype =>
      obtain rfl := Option.some.inj h
      exact ⟨_, rfl, reads_intro fun _ _ _ _ => rfl⟩
    | arrayPrototype =>
      obtain rfl := Option.some.inj h
      exact ⟨_, rfl, reads_intro fun _ _ _ _ => rfl⟩
  | null =>
    intro t h
    obtain rfl := Option.some.inj h
    exact ⟨_, rfl, reads_null⟩
  | bool b =>
    intro t h
    obtain rfl := Option.some.inj h
    cases b <;> exact ⟨_, rfl, reads_intro fun _ _ _ _ => rfl⟩
  | number h =>
    intro t ht
    obtain rfl := Option.some.inj ht
    exact reads_numberText h
  | string s =>
    intro t h
    obtain rfl := Option.some.inj h
    exact ⟨_, rfl, reads_quote s⟩
  | @array ref items _ ih =>
    intro t h
    obtain rfl := Option.some.inj h
    refine ⟨_, rfl, reads_intro fun fuel r hfuel _ => ?_⟩
    have hreads : ∀ v ∈ items, Reads ((serialize v).getD "null".toList) ((canonical v).getD .null) := by
      intro v hv
      have hsome := canonical_isSome v
      cases hs : serialize v with
      | none =>
        rw [hs] at hsome
        rw [Option.isSome_eq_false_iff.1 hsome |> Option.isNone_iff_eq_none.1]
        exact reads_null
      | some t =>
        obtain ⟨w, hw, hread⟩ := ih v hv hs
        rw [hw]
        exact hread
    have htexts := isText_serializeItems items
    rw [serializeItems_eq] at htexts hfuel ⊢
    rw [canonicalItems_eq]
    have hlength : ([','].intercalate (items.map fun v => (serialize v).getD "null".toList)).length < fuel := by
      simp only [arrayText, List.length_append, List.length_cons] at hfuel
      omega
    have hhead : ∀ v ∈ items, ∀ r, ∃ c cs, skip ((serialize v).getD "null".toList ++ r) = c :: cs ∧
        (serialize v).getD "null".toList ++ r = c :: cs ∧ c ≠ ']' := by
      intro v hv r
      have htext := htexts _ (List.mem_map_of_mem hv)
      obtain ⟨c, cs, hcs, hne, _⟩ := htext.exists_head
      exact ⟨c, cs ++ r, by rw [skip_text htext, hcs]; rfl, by rw [hcs]; rfl, hne⟩
    have hitem : ∀ v ∈ items, ∀ r, Stops r → readValue fuel ((serialize v).getD "null".toList ++ r) =
        some ((canonical v).getD .null, r) := fun v hv r hr =>
      hreads v hv fuel r ((length_le_intercalate (List.mem_map_of_mem hv)).trans_lt hlength) hr
    rw [arrayText, List.cons_append, List.cons_append, readValue_array, readItems_text (.inl rfl) hlength hhead hitem]
    rfl
  | @object ref props hkeys _ ih =>
    intro t h
    obtain rfl := Option.some.inj h
    refine ⟨_, rfl, reads_intro fun fuel r hfuel _ => ?_⟩
    rw [serializeProps_eq, inKeyOrder_map (fun m : List Char × Value => m.1)] at hfuel ⊢
    rw [canonicalProps_eq, inKeyOrder_map (fun m : List Char × Value => m.2)]
    have hmem : ∀ m ∈ inKeyOrder (members props), Reads m.2.1 m.2.2 := by
      intro m hm
      obtain ⟨p, hp, _, hs, hc⟩ := mem_members ((perm_inKeyOrder _).mem_iff.1 hm)
      obtain ⟨w, hw, hread⟩ := ih p hp hs
      rw [hc] at hw
      obtain rfl := Option.some.inj hw
      exact hread
    have hdistinct : ((inKeyOrder (members props)).map fun m => (m.1, m.2.2)).map Prod.fst |>.Nodup := by
      rw [List.map_map]
      exact (((perm_inKeyOrder _).map _).nodup_iff).2 (hkeys.sublist (keys_members_sublist props))
    generalize inKeyOrder (members props) = ms at *
    have htexts : objectText (ms.map fun m => (m.1, m.2.1)) =
        '\x7b' :: [','].intercalate (ms.map fun m => member (m.1, m.2.1)) ++ ['\x7d'] := by
      rw [objectText, List.map_map]
      rfl
    have hlength : ([','].intercalate (ms.map fun m => member (m.1, m.2.1))).length < fuel := by
      simp only [htexts, List.length_append, List.length_cons] at hfuel
      omega
    have hhead : ∀ m ∈ ms, ∀ r, ∃ c cs, skip (member (m.1, m.2.1) ++ r) = c :: cs ∧
        member (m.1, m.2.1) ++ r = c :: cs ∧ c ≠ '\x7d' := fun m _ r =>
      ⟨'"', _, rfl, rfl, by decide⟩
    have hitem : ∀ m ∈ ms, ∀ r, Stops r → readMember fuel (readValue fuel) (member (m.1, m.2.1) ++ r) =
        some ((m.1, m.2.2), r) := fun m hm r hr =>
      readMember_text (hmem m hm) ((length_le_intercalate (List.mem_map_of_mem hm)).trans_lt hlength) hr
    rw [htexts, List.cons_append, List.cons_append, readValue_object_text,
      readItems_text (.inr rfl) hlength hhead hitem, Option.map_some]
    dsimp only
    rw [InsertionMap.entries_ofList hdistinct]

end JsonParser

open JsonParser

/-- **`JSON.parse(JSON.stringify(v))`.** -/
theorem parse_serialize {v : Value} (hv : IsValue v) {t : List Char} (h : serialize v = some t) :
    ∃ w, canonical v = some w ∧ parse t = some w := by
  obtain ⟨w, hw, hread⟩ := reads_serialize hv h
  have hread' := hread (t.length + 1) [] (Nat.lt_succ_self _) (by simp [Stops])
  rw [List.append_nil] at hread'
  refine ⟨w, hw, ?_⟩
  rw [parse, hread']
  rfl

section
variable {ref : Option String} {props : Record} {text : List Char}

theorem parse_prefix_of_object (hv : IsValue (.object ref props)) (h : serialize (.object ref props) = some text)
    {t : List Char} (ht : t <+: text) (hne : t ≠ text) : parse t = none := by
  obtain ⟨w, _, hreads⟩ := reads_serialize hv h
  have hread := hreads (text.length + 1) [] (Nat.lt_succ_self _) (by simp [Stops])
  obtain ⟨s, rfl⟩ := ht
  cases t with
  | nil => rfl
  | cons c t =>
    obtain rfl : c = '\x7b' := (List.cons.inj (Option.some.inj h)).1.symm
    cases hcut : readValue (('\x7b' :: t).length + 1) ('\x7b' :: t) with
    | none => rw [parse, hcut]
    | some x =>
      have hsame := (@readValue_object _ _ _ t _ s _ rfl (Nat.lt_succ_self _) hcut).1
      rw [List.append_nil] at hread
      rw [hread, Option.some.injEq, Prod.mk.injEq] at hsame
      obtain rfl : s = [] := (List.append_eq_nil_iff.1 hsame.2.symm).2
      simp at hne

/-- Also if it ends with what half a character is decoded as. -/
theorem parse_torn_of_object (h : serialize (.object ref props) = some text) {t : List Char} (ht : t <+: text)
    (hne : t ≠ []) {c : Char} (hc : c ≠ '\x7d') (hspace : isSpace c = false) : parse (t ++ [c]) = none := by
  obtain ⟨d, t, rfl⟩ := List.exists_cons_of_ne_nil hne
  obtain ⟨s, rfl⟩ := ht
  obtain rfl : d = '\x7b' := (List.cons.inj (Option.some.inj h)).1.symm
  cases hcut : readValue (('\x7b' :: t ++ [c]).length + 1) ('\x7b' :: t ++ [c]) with
  | none => rw [parse, hcut]
  | some x =>
    have hsuffix := (@readValue_object _ _ _ (t ++ [c]) _ [] _ rfl (Nat.lt_succ_self _) hcut).2
    have hlast : ('\x7d' :: x.2).getLast? = some c := by
      obtain ⟨y, hy⟩ := hsuffix
      have hlast := congrArg List.getLast? hy
      rwa [List.getLast?_append_of_ne_nil _ (List.cons_ne_nil _ _), List.getLast?_concat] at hlast
    rw [parse, hcut]
    by_cases hskip : skip x.2 = []
    · exfalso
      rw [skip, List.dropWhile_eq_nil_iff] at hskip
      rcases List.mem_cons.1 (List.mem_of_getLast? hlast) with heq | hmem
      · exact hc heq
      · simp [hskip c hmem] at hspace
    · exact if_neg hskip

end

end Js
