import Jobflow.Js.JsonParser

/-!
# Texts of JSON values

Texts are unambiguous: a text can be told from whatever follows it inside another one (`IsText.decodes`), so equal
texts of arrays have equal items and equal texts of objects equal members. And a text is one line.
-/

namespace Js

open Number (IsNumberChar)
open JsonParser (readUnit readEscape readHex)

/-! ## Telling texts apart -/

/-- The texts of values. -/
inductive IsText : List Char → Prop where
  | word {t : List Char} (h : t ∈ ["null".toList, "true".toList, "false".toList]) : IsText t
  | number {t : List Char} (hne : t ≠ []) (h : ∀ c ∈ t, IsNumberChar c) : IsText t
  | string (s : String) : IsText (quote s)
  | array {items : List (List Char)} (h : ∀ t ∈ items, IsText t) : IsText (arrayText items)
  | object {members : List (String × List Char)} (h : ∀ m ∈ members, IsText m.2) : IsText (objectText members)

/-- What comes after a text inside another one. -/
def Stops (r : List Char) : Prop := ∀ c ∈ r.head?, c = ',' ∨ c = ']' ∨ c = '}'

/-- Of what follows it `a` can be told by its text. -/
def Decodes {α : Type} (text : α → List Char) (P : α → Prop) (a : α) : Prop :=
  ∀ a', P a' → ∀ r r', Stops r → Stops r' → text a ++ r = text a' ++ r' → a = a' ∧ r = r'

theorem digitsIn_control {n : Nat} (h : n < 0x20) :
    Number.digitsIn 16 ['0', '0', Nat.digitChar (n / 16), Nat.digitChar (n % 16)] = some n := by
  revert n
  decide

/-- What is written for a character: an escape that reads as it, or the character. -/
theorem quoteChar_cases (c : Char) :
    (∃ e ∈ ['"', '\\', 'b', 'f', 'n', 'r', 't'], quoteChar c = ['\\', e] ∧
      ∀ r, readUnit ('\\' :: e :: r) = some (c.toNat, r)) ∨
    (c.toNat < 0x20 ∧
      quoteChar c = ['\\', 'u', '0', '0', Nat.digitChar (c.toNat / 16), Nat.digitChar (c.toNat % 16)]) ∨
    (c ≠ '"' ∧ c ≠ '\\' ∧ 0x20 ≤ c.toNat ∧ quoteChar c = [c]) := by
  by_cases hquote : c = '"'
  · subst hquote
    exact .inl ⟨'"', by decide, rfl, fun _ => rfl⟩
  by_cases hbackslash : c = '\\'
  · subst hbackslash
    exact .inl ⟨'\\', by decide, rfl, fun _ => rfl⟩
  by_cases hb : c = '\x08'
  · subst hb
    exact .inl ⟨'b', by decide, rfl, fun _ => rfl⟩
  by_cases hf : c = '\x0c'
  · subst hf
    exact .inl ⟨'f', by decide, rfl, fun _ => rfl⟩
  by_cases hn : c = '\n'
  · subst hn
    exact .inl ⟨'n', by decide, rfl, fun _ => rfl⟩
  by_cases hr : c = '\r'
  · subst hr
    exact .inl ⟨'r', by decide, rfl, fun _ => rfl⟩
  by_cases ht : c = '\t'
  · subst ht
    exact .inl ⟨'t', by decide, rfl, fun _ => rfl⟩
  refine .inr ?_
  rw [quoteChar, if_neg hquote, if_neg hbackslash, if_neg hb, if_neg hf, if_neg hn, if_neg hr, if_neg ht]
  by_cases hcontrol : c.toNat < 0x20
  · rw [if_pos hcontrol]
    exact .inl ⟨hcontrol, rfl⟩
  · rw [if_neg hcontrol]
    exact .inr ⟨hquote, hbackslash, not_lt.1 hcontrol, rfl⟩

theorem readUnit_quoteChar (c : Char) (r : List Char) : readUnit (quoteChar c ++ r) = some (c.toNat, r) := by
  rcases quoteChar_cases c with ⟨e, _, hc, hread⟩ | ⟨hcontrol, hc⟩ | ⟨_, hbackslash, hhigh, hc⟩
  · rw [hc]
    exact hread r
  · rw [hc]
    simp [readUnit, readEscape, readHex, digitsIn_control hcontrol]
  · rw [hc]
    simp [readUnit, hbackslash, not_lt.2 hhigh]

/-- A quoted character does not begin like the end of the string. -/
theorem quoteChar_head (c : Char) (r : List Char) : ∃ c' r', quoteChar c ++ r = c' :: r' ∧ c' ≠ '"' := by
  rcases quoteChar_cases c with ⟨e, _, hc, _⟩ | ⟨_, hc⟩ | ⟨hquote, _, _, hc⟩
  · exact ⟨'\\', e :: r, by rw [hc]; rfl, by decide⟩
  · exact ⟨'\\', _, by rw [hc]; rfl, by decide⟩
  · exact ⟨c, r, by rw [hc]; rfl, hquote⟩

theorem flatMap_quoteChar_inj : ∀ {s s' : List Char} {r r' : List Char},
    s.flatMap quoteChar ++ '"' :: r = s'.flatMap quoteChar ++ '"' :: r' → s = s' ∧ r = r'
  | [], [], _, _, h => ⟨rfl, (List.cons.inj h).2⟩
  | [], c :: s', r, r', h => by
    obtain ⟨c', _, hhead, hne⟩ := quoteChar_head c (s'.flatMap quoteChar ++ '"' :: r')
    rw [List.flatMap_cons, List.append_assoc, hhead] at h
    exact absurd (List.cons.inj h).1.symm hne
  | c :: s, [], r, r', h => by
    obtain ⟨c', _, hhead, hne⟩ := quoteChar_head c (s.flatMap quoteChar ++ '"' :: r)
    rw [List.flatMap_cons, List.append_assoc, hhead] at h
    exact absurd (List.cons.inj h).1 hne
  | c :: s, c' :: s', r, r', h => by
    rw [List.flatMap_cons, List.flatMap_cons, List.append_assoc, List.append_assoc] at h
    have hread := congrArg readUnit h
    rw [readUnit_quoteChar, readUnit_quoteChar, Option.some.injEq, Prod.mk.injEq] at hread
    obtain ⟨hs, hr⟩ := flatMap_quoteChar_inj hread.2
    exact ⟨by rw [Char.toNat_inj.1 hread.1, hs], hr⟩

theorem quote_inj {s s' : String} {r r' : List Char} (h : quote s ++ r = quote s' ++ r') : s = s' ∧ r = r' := by
  simp only [quote, List.cons_append, List.append_assoc, List.nil_append] at h
  obtain ⟨hs, hr⟩ := flatMap_quoteChar_inj (List.cons.inj h).2
  exact ⟨String.toList_inj.1 hs, hr⟩

/-! ### Lists of texts -/

/-- What comes after the first of a list of texts. -/
def tailText {α : Type} (text : α → List Char) (close : Char) : List α → List Char
  | [] => [close]
  | a :: as => ',' :: text a ++ tailText text close as

theorem intercalate_close {α : Type} (text : α → List Char) (close : Char) : ∀ (a : α) (as : List α),
    [','].intercalate ((a :: as).map text) ++ [close] = text a ++ tailText text close as
  | a, [] => by simp [tailText]
  | a, b :: as => by
    have ih := intercalate_close text close b as
    rw [List.map_cons] at ih ⊢
    rw [List.map_cons, List.intercalate_cons_cons, List.append_assoc, List.append_assoc, ih, tailText]
    rfl

section
variable {α : Type} {text : α → List Char} {P : α → Prop} {close : Char}

theorem stops_tailText (hclose : close = ']' ∨ close = '}') (as : List α) (r : List Char) :
    Stops (tailText text close as ++ r) := by
  cases as with
  | nil => simpa [Stops, tailText] using .inr hclose
  | cons a as => simp [Stops, tailText]

/-- A list of texts can be told by its text, if each of its elements can. -/
theorem tailText_inj (hclose : close = ']' ∨ close = '}') : ∀ {as as' : List α}, (∀ a ∈ as, Decodes text P a) →
    (∀ a ∈ as', P a) → ∀ {r r' : List Char}, tailText text close as ++ r = tailText text close as' ++ r' →
      as = as' ∧ r = r'
  | [], [], _, _, _, _, h => ⟨rfl, (List.cons.inj h).2⟩
  | [], a' :: as', _, _, _, _, h => by
    rw [(List.cons.inj h).1] at hclose
    simp at hclose
  | a :: as, [], _, _, _, _, h => by
    rw [← (List.cons.inj h).1] at hclose
    simp at hclose
  | a :: as, a' :: as', hdecodes, hP, r, r', h => by
    simp only [tailText, List.cons_append, List.append_assoc, List.cons.injEq, true_and] at h
    obtain ⟨rfl, htail⟩ := hdecodes a List.mem_cons_self a' (hP a' List.mem_cons_self) _ _
      (stops_tailText hclose as r) (stops_tailText hclose as' r') h
    obtain ⟨rfl, hr⟩ := tailText_inj hclose (fun b hb => hdecodes b (List.mem_cons_of_mem _ hb))
      (fun b hb => hP b (List.mem_cons_of_mem _ hb)) htail
    exact ⟨rfl, hr⟩

/-- So can one in brackets. -/
theorem intercalate_inj (hclose : close = ']' ∨ close = '}') (hhead : ∀ a r, P a → ∀ r', text a ++ r ≠ close :: r')
    {as as' : List α} (hdecodes : ∀ a ∈ as, Decodes text P a ∧ P a) (hP : ∀ a ∈ as', P a) {r r' : List Char}
    (h : [','].intercalate (as.map text) ++ [close] ++ r = [','].intercalate (as'.map text) ++ [close] ++ r') :
    as = as' ∧ r = r' := by
  have hnil : [','].intercalate (([] : List α).map text) ++ [close] = [close] := rfl
  cases as with
  | nil =>
    cases as' with
    | nil => exact ⟨rfl, (List.cons.inj h).2⟩
    | cons a' as' =>
      rw [hnil, intercalate_close, List.append_assoc] at h
      exact (hhead a' _ (hP a' List.mem_cons_self) r h.symm).elim
  | cons a as =>
    cases as' with
    | nil =>
      rw [hnil, intercalate_close, List.append_assoc] at h
      exact (hhead a _ (hdecodes a List.mem_cons_self).2 r' h).elim
    | cons a' as' =>
      rw [intercalate_close, intercalate_close, List.append_assoc, List.append_assoc] at h
      obtain ⟨rfl, htail⟩ := (hdecodes a List.mem_cons_self).1 a' (hP a' List.mem_cons_self) _ _
        (stops_tailText hclose as r) (stops_tailText hclose as' r') h
      obtain ⟨rfl, hr⟩ := tailText_inj hclose (fun b hb => (hdecodes b (List.mem_cons_of_mem _ hb)).1)
        (fun b hb => hP b (List.mem_cons_of_mem _ hb)) htail
      exact ⟨rfl, hr⟩

end

/-! ### Unambiguity -/

/-- The kinds of texts, told by their first characters. -/
inductive TextKind where
  | word
  | number
  | string
  | array
  | object
  deriving DecidableEq

def kindOf (c : Char) : TextKind :=
  if c = '"' then .string else if c = '[' then .array else if c = '\x7b' then .object
  else if c ∈ ['n', 't', 'f'] then .word else .number

def kindOfText (t : List Char) : Option TextKind := t.head?.map kindOf

theorem kindOf_number {c : Char} (h : IsNumberChar c) : kindOf c = .number := by
  have hne (c' : Char) (hdigit : c'.isDigit = false) (hmem : c' ∉ ['-', '+', '.', 'e']) : c ≠ c' := by
    rintro rfl
    rcases h with h | h
    · rw [hdigit] at h
      cases h
    · exact hmem h
  have hletters : c ∉ ['n', 't', 'f'] := by
    simp only [List.mem_cons, List.not_mem_nil, or_false, not_or]
    exact ⟨hne 'n' (by decide) (by decide), hne 't' (by decide) (by decide), hne 'f' (by decide) (by decide)⟩
  rw [kindOf, if_neg (hne '"' (by decide) (by decide)), if_neg (hne '[' (by decide) (by decide)),
    if_neg (hne '\x7b' (by decide) (by decide)), if_neg hletters]

theorem kindOfText_word {t : List Char} (h : t ∈ ["null".toList, "true".toList, "false".toList]) :
    kindOfText t = some .word := by
  revert t
  decide

theorem kindOfText_number {t : List Char} (hne : t ≠ []) (h : ∀ c ∈ t, IsNumberChar c) :
    kindOfText t = some .number := by
  obtain ⟨c, t', rfl⟩ := List.exists_cons_of_ne_nil hne
  rw [kindOfText, List.head?_cons, Option.map_some, kindOf_number (h c List.mem_cons_self)]

/-- No text begins like the end of a list. -/
theorem IsText.exists_head {t : List Char} (h : IsText t) : ∃ c t', t = c :: t' ∧ c ≠ ']' ∧ c ≠ '\x7d' := by
  cases h with
  | word h =>
    simp only [List.mem_cons, List.not_mem_nil, or_false] at h
    rcases h with rfl | rfl | rfl <;> exact ⟨_, _, rfl, by decide, by decide⟩
  | number hne h =>
    obtain ⟨c, t', rfl⟩ := List.exists_cons_of_ne_nil hne
    have hkind := h c List.mem_cons_self
    refine ⟨c, t', rfl, ?_, ?_⟩ <;>
    · rintro rfl
      revert hkind
      unfold IsNumberChar
      decide
  | string s => exact ⟨_, _, rfl, by decide, by decide⟩
  | array h => exact ⟨_, _, rfl, by decide, by decide⟩
  | object h => exact ⟨_, _, rfl, by decide, by decide⟩

theorem not_isNumberChar_of_stops {r : List Char} (hr : Stops r) : ∀ c ∈ r.head?, ¬ IsNumberChar c := by
  intro c hc
  rcases hr c hc with rfl | rfl | rfl <;>
  · unfold IsNumberChar
    decide

/-- The characters of a number end where something else follows. -/
theorem number_inj : ∀ {t t' r r' : List Char}, (∀ c ∈ t, IsNumberChar c) → (∀ c ∈ t', IsNumberChar c) → Stops r →
    Stops r' → t ++ r = t' ++ r' → t = t' ∧ r = r'
  | [], [], _, _, _, _, _, _, heq => ⟨rfl, heq⟩
  | [], c' :: t', r, r', _, h', hr, _, heq => by
    have hhead : c' ∈ r.head? := by simp [show r = c' :: (t' ++ r') from heq]
    exact absurd (h' c' List.mem_cons_self) (not_isNumberChar_of_stops hr c' hhead)
  | c :: t, [], r, r', h, _, _, hr', heq => by
    have hhead : c ∈ r'.head? := by simp [show r' = c :: (t ++ r) from heq.symm]
    exact absurd (h c List.mem_cons_self) (not_isNumberChar_of_stops hr' c hhead)
  | c :: t, c' :: t', r, r', h, h', hr, hr', heq => by
    obtain ⟨rfl, hrest⟩ := List.cons.inj heq
    obtain ⟨rfl, rfl⟩ := number_inj (fun d hd => h d (List.mem_cons_of_mem _ hd))
      (fun d hd => h' d (List.mem_cons_of_mem _ hd)) hr hr' hrest
    exact ⟨rfl, rfl⟩

theorem member_inj {m m' : String × List Char} {r r' : List Char} (hm : Decodes id IsText m.2) (hm' : IsText m'.2)
    (hr : Stops r) (hr' : Stops r') (h : member m ++ r = member m' ++ r') : m = m' ∧ r = r' := by
  simp only [member, List.append_assoc, List.cons_append] at h
  obtain ⟨hkey, hrest⟩ := quote_inj h
  obtain ⟨htext, hr⟩ := hm m'.2 hm' r r' hr hr' (List.cons.inj hrest).2
  exact ⟨Prod.ext hkey htext, hr⟩

theorem kindOfText_append {t : List Char} (h : IsText t) (r : List Char) : kindOfText (t ++ r) = kindOfText t := by
  obtain ⟨c, t', rfl, _⟩ := h.exists_head
  rfl

/-- What a text of each kind is. -/
theorem IsText.of_kind {t : List Char} (h : IsText t) :
    match kindOfText t with
    | some .word => t ∈ ["null".toList, "true".toList, "false".toList]
    | some .number => ∀ c ∈ t, IsNumberChar c
    | some .string => ∃ s, t = quote s
    | some .array => ∃ items, (∀ t ∈ items, IsText t) ∧ t = arrayText items
    | some .object => ∃ members, (∀ m ∈ members, IsText m.2) ∧ t = objectText members
    | none => False := by
  cases h with
  | word h => rwa [kindOfText_word h]
  | number hne h => rwa [kindOfText_number hne h]
  | string s => exact ⟨s, rfl⟩
  | array h => exact ⟨_, h, rfl⟩
  | object h => exact ⟨_, h, rfl⟩

/-- Words are told apart by their first characters. -/
theorem word_inj {t t' r r' : List Char} (h : t ∈ ["null".toList, "true".toList, "false".toList])
    (h' : t' ∈ ["null".toList, "true".toList, "false".toList]) (heq : t ++ r = t' ++ r') : t = t' ∧ r = r' := by
  have hwords : ["null".toList, "true".toList, "false".toList] =
      [['n', 'u', 'l', 'l'], ['t', 'r', 'u', 'e'], ['f', 'a', 'l', 's', 'e']] := rfl
  rw [hwords] at h h'
  simp only [List.mem_cons, List.not_mem_nil, or_false] at h h'
  rcases h with rfl | rfl | rfl <;> rcases h' with rfl | rfl | rfl
  all_goals first
    | exact absurd (List.cons.inj heq).1 (by decide)
    | exact ⟨rfl, List.append_cancel_left heq⟩

/-- A text has only to be told from the texts of its kind. -/
theorem IsText.decodes_of_kind {t : List Char} (h : IsText t) (hsame : ∀ t', IsText t' → kindOfText t' = kindOfText t →
    ∀ r r', Stops r → Stops r' → t ++ r = t' ++ r' → t = t' ∧ r = r') : Decodes id IsText t := by
  intro t' h' r r' hr hr' heq
  have hkind : kindOfText t = kindOfText t' := by
    rw [← kindOfText_append h r, ← kindOfText_append h' r']
    exact congrArg kindOfText heq
  exact hsame t' h' hkind.symm r r' hr hr' heq

theorem arrayText_append_inj {items items' : List (List Char)} {r r' : List Char}
    (h : ∀ t ∈ items, Decodes id IsText t ∧ IsText t) (h' : ∀ t ∈ items', IsText t)
    (heq : arrayText items ++ r = arrayText items' ++ r') : items = items' ∧ r = r' := by
  have hinner : [','].intercalate (items.map id) ++ [']'] ++ r = [','].intercalate (items'.map id) ++ [']'] ++ r' := by
    rw [List.map_id, List.map_id]
    exact (List.cons.inj heq).2
  have hhead : ∀ (t : List Char) r, IsText t → ∀ r', id t ++ r ≠ ']' :: r' := by
    rintro t r ht r' h
    obtain ⟨c, _, rfl, hne, _⟩ := ht.exists_head
    exact hne (List.cons.inj h).1
  exact intercalate_inj (.inl rfl) hhead h h' hinner

theorem objectText_append_inj {members members' : List (String × List Char)} {r r' : List Char}
    (h : ∀ m ∈ members, Decodes id IsText m.2 ∧ IsText m.2) (h' : ∀ m ∈ members', IsText m.2)
    (heq : objectText members ++ r = objectText members' ++ r') : members = members' ∧ r = r' := by
  have hhead : ∀ (m : String × List Char) r, IsText m.2 → ∀ r', member m ++ r ≠ '\x7d' :: r' := by
    rintro m r _ r' h
    exact absurd (List.cons.inj h).1 (by decide)
  have hdecodes : ∀ m ∈ members, Decodes member (fun m => IsText m.2) m ∧ IsText m.2 := fun m hm =>
    ⟨fun m' hm' r r' hr hr' h' => member_inj (h m hm).1 hm' hr hr' h', (h m hm).2⟩
  exact intercalate_inj (.inr rfl) hhead hdecodes h' (List.cons.inj heq).2

/-- **Texts are unambiguous**: a text can be told from what follows it. -/
theorem IsText.decodes {t : List Char} (h : IsText t) : Decodes id IsText t := by
  induction h with
  | word hword =>
    refine IsText.decodes_of_kind (.word hword) fun t' h' hkind r r' _ _ heq => ?_
    have hword' := h'.of_kind
    rw [hkind, kindOfText_word hword] at hword'
    exact word_inj hword hword' heq
  | number hne hchars =>
    refine IsText.decodes_of_kind (.number hne hchars) fun t' h' hkind r r' hr hr' heq => ?_
    have hchars' := h'.of_kind
    rw [hkind, kindOfText_number hne hchars] at hchars'
    exact number_inj hchars hchars' hr hr' heq
  | string s =>
    refine IsText.decodes_of_kind (.string s) fun t' h' hkind r r' _ _ heq => ?_
    have hstring := h'.of_kind
    rw [hkind] at hstring
    obtain ⟨s', rfl⟩ := hstring
    obtain ⟨rfl, rfl⟩ := quote_inj heq
    exact ⟨rfl, rfl⟩
  | array hitems ih =>
    refine IsText.decodes_of_kind (.array hitems) fun t' h' hkind r r' _ _ heq => ?_
    have harray := h'.of_kind
    rw [hkind] at harray
    obtain ⟨items', hitems', rfl⟩ := harray
    obtain ⟨rfl, rfl⟩ := arrayText_append_inj (fun t ht => ⟨ih t ht, hitems t ht⟩) hitems' heq
    exact ⟨rfl, rfl⟩
  | object hmembers ih =>
    refine IsText.decodes_of_kind (.object hmembers) fun t' h' hkind r r' _ _ heq => ?_
    have hobject := h'.of_kind
    rw [hkind] at hobject
    obtain ⟨members', hmembers', rfl⟩ := hobject
    obtain ⟨rfl, rfl⟩ := objectText_append_inj (fun m hm => ⟨ih m hm, hmembers m hm⟩) hmembers' heq
    exact ⟨rfl, rfl⟩

/-- Equal texts of arrays have equal items. -/
theorem arrayText_inj {items items' : List (List Char)} (h : ∀ t ∈ items, IsText t) (h' : ∀ t ∈ items', IsText t)
    (heq : arrayText items = arrayText items') : items = items' := by
  have hdecodes : ∀ t ∈ items, Decodes id IsText t ∧ IsText t := fun t ht => ⟨(h t ht).decodes, h t ht⟩
  exact (@arrayText_append_inj _ _ [] [] hdecodes h' (by rw [heq])).1

/-- And of objects equal members. -/
theorem objectText_inj {members members' : List (String × List Char)} (h : ∀ m ∈ members, IsText m.2)
    (h' : ∀ m ∈ members', IsText m.2) (heq : objectText members = objectText members') : members = members' := by
  have hdecodes : ∀ m ∈ members, Decodes id IsText m.2 ∧ IsText m.2 := fun m hm => ⟨(h m hm).decodes, h m hm⟩
  exact (@objectText_append_inj _ _ [] [] hdecodes h' (by rw [heq])).1

/-! ## The texts of values -/

theorem isText_numberText (n : Number) : IsText (numberText n) := by
  have hnull : IsText "null".toList := .word (by decide)
  cases n with
  | nan => exact hnull
  | infinity s => exact hnull
  | negZero =>
    obtain ⟨hne, hchars⟩ := @Number.toText_chars .negZero 0 rfl
    exact .number hne hchars
  | finite q =>
    obtain ⟨hne, hchars⟩ := @Number.toText_chars (.finite q) q rfl
    exact .number hne hchars

mutual

theorem isText_serialize : ∀ {v : Value} {t : List Char}, serialize v = some t → IsText t
  | .undefined, _, h => by cases h
  | .native (.function _), _, h => by cases h
  | .null, _, rfl => .word (by decide)
  | .bool b, _, rfl => by
    cases b
    · exact .word (by decide)
    · exact .word (by decide)
  | .number n, _, rfl => isText_numberText n
  | .string s, _, rfl => .string s
  | .array _ items, _, rfl => .array (isText_serializeItems items)
  | .object _ props, _, rfl => .object fun m hm => isText_serializeProps props m ((perm_inKeyOrder _).mem_iff.1 hm)
  | .native .objectPrototype, _, rfl => .object (by simp)
  | .native .arrayPrototype, _, rfl => .array (by simp)

theorem isText_serializeItems : ∀ (items : List Value), ∀ t ∈ serializeItems items, IsText t
  | [], _, h => by cases h
  | v :: vs, t, h => by
    rcases List.mem_cons.1 h with rfl | h
    · cases hv : serialize v with
      | none => exact .word (by decide)
      | some t => exact isText_serialize hv
    · exact isText_serializeItems vs t h

theorem isText_serializeProps : ∀ (props : Record), ∀ m ∈ serializeProps props, IsText m.2
  | [], _, h => by cases h
  | (key, v) :: props, m, h => by
    unfold serializeProps at h
    split at h
    · rename_i t hv
      rcases List.mem_cons.1 h with rfl | h
      · exact isText_serialize hv
      · exact isText_serializeProps props m h
    · exact isText_serializeProps props m h

end

theorem not_mem_intercalate {c : Char} {sep : List Char} (hsep : c ∉ sep) : ∀ {ts : List (List Char)},
    (∀ t ∈ ts, c ∉ t) → c ∉ sep.intercalate ts
  | [], _ => by simp
  | [t], h => by simpa using h t
  | t :: t' :: ts, h => by
    have ih := @not_mem_intercalate c sep hsep (t' :: ts) fun u hu => h u (List.mem_cons_of_mem _ hu)
    rw [List.intercalate_cons_cons, List.mem_append, List.mem_append]
    rintro ((hmem | hmem) | hmem)
    · exact h t List.mem_cons_self hmem
    · exact hsep hmem
    · exact ih hmem

theorem newline_not_mem_quoteChar (c : Char) : '\n' ∉ quoteChar c := by
  rcases quoteChar_cases c with ⟨e, he, hc, _⟩ | ⟨hcontrol, hc⟩ | ⟨_, _, hhigh, hc⟩
  · have hne : '\n' ≠ e := by
      rintro rfl
      revert he
      decide
    rw [hc]
    simp [hne]
  · have hdigit : ∀ n < 16, '\n' ≠ Nat.digitChar n := by decide
    have hfirst := hdigit (c.toNat / 16) (by omega)
    have hlast := hdigit (c.toNat % 16) (by omega)
    rw [hc]
    simp [hfirst, hlast]
  · have hne : '\n' ≠ c := by
      rintro rfl
      revert hhigh
      decide
    rw [hc]
    simp [hne]

theorem newline_not_mem_quote (s : String) : '\n' ∉ quote s := by
  simp [quote, newline_not_mem_quoteChar]

/-- A text is one line. -/
theorem IsText.newline_not_mem {t : List Char} (h : IsText t) : '\n' ∉ t := by
  induction h with
  | word h =>
    simp only [List.mem_cons, List.not_mem_nil, or_false] at h
    rcases h with rfl | rfl | rfl <;> decide
  | number _ h =>
    intro hmem
    have hchar := h _ hmem
    revert hchar
    unfold Number.IsNumberChar
    decide
  | string s => exact newline_not_mem_quote s
  | array _ ih =>
    have hitems := @not_mem_intercalate '\n' [','] (by decide) _ ih
    simpa [arrayText] using hitems
  | @object members _ ih =>
    have hmember : ∀ t ∈ members.map member, '\n' ∉ t := fun t ht => by
      obtain ⟨m, hm, rfl⟩ := List.mem_map.1 ht
      simp [member, ih m hm, newline_not_mem_quote]
    have hmembers := @not_mem_intercalate '\n' [','] (by decide) _ hmember
    simp [objectText, hmembers]

end Js
