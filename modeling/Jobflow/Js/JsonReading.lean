import Jobflow.Js.JsonParser

/-!
# Readers of JSON

A reader takes a beginning of the text (`Takes`), and takes it again whatever comes after it, if it ends with a bracket
or a quote or if it was followed by something (`Extends`). How much fuel there is does not matter once it exceeds the
text (`readValue_fuel`).
-/

namespace Js.JsonParser

/-! ## Beginnings -/

section
variable {α : Type}

/-- What is left is the end of the text. -/
def Takes (f : List Char → Option (α × List Char)) : Prop := ∀ cs a r, f cs = some (a, r) → r <:+ cs

/-- What `f` reads of a text shorter than the bound, `g` reads of it with more behind it; unless that is `delimited`
by its last character, there must be nothing behind it or something left already. -/
def Extends (delimited : Prop) (bound : Nat) (f g : List Char → Option (α × List Char)) : Prop :=
  ∀ cs a r s, (cs ++ s).length < bound → f cs = some (a, r) → (delimited ∨ s = [] ∨ r ≠ []) →
    g (cs ++ s) = some (a, r ++ s)

end

theorem skip_suffix (cs : List Char) : skip cs <:+ cs := List.dropWhile_suffix _

theorem skip_append {cs r : List Char} {c : Char} (h : skip cs = c :: r) (s : List Char) :
    skip (cs ++ s) = c :: (r ++ s) := by
  unfold skip at h ⊢
  rw [List.dropWhile_append, h]
  rfl

theorem length_of_skip {cs r : List Char} {c : Char} (h : skip cs = c :: r) : r.length < cs.length := by
  have hle := (skip_suffix cs).length_le
  rw [h] at hle
  exact hle

/-! ## Strings -/

theorem readHex_append {cs r : List Char} {n : Nat} (h : readHex cs = some (n, r)) (s : List Char) :
    readHex (cs ++ s) = some (n, r ++ s) ∧ r <:+ cs := by
  unfold readHex at h
  split at h
  · rename_i a b c d r'
    obtain ⟨m, hm, heq⟩ := Option.map_eq_some_iff.1 h
    obtain ⟨rfl, rfl⟩ := Prod.mk.inj heq
    exact ⟨by simp [readHex, hm], ⟨[a, b, c, d], rfl⟩⟩
  · cases h

theorem readEscape_append {cs r : List Char} {n : Nat} (h : readEscape cs = some (n, r)) (s : List Char) :
    readEscape (cs ++ s) = some (n, r ++ s) ∧ r <:+ cs := by
  cases cs with
  | nil => cases h
  | cons c cs =>
    rw [readEscape] at h
    rw [List.cons_append, readEscape]
    split_ifs at h ⊢
    · obtain ⟨happend, hsuffix⟩ := readHex_append h s
      exact ⟨happend, hsuffix.trans (List.suffix_cons _ _)⟩
    · obtain ⟨m, hm, heq⟩ := Option.map_eq_some_iff.1 h
      obtain ⟨rfl, rfl⟩ := Prod.mk.inj heq
      exact ⟨by simp [hm], List.suffix_cons _ _⟩

theorem readUnit_append {cs r : List Char} {n : Nat} (h : readUnit cs = some (n, r)) (s : List Char) :
    readUnit (cs ++ s) = some (n, r ++ s) ∧ r <:+ cs.tail := by
  cases cs with
  | nil => cases h
  | cons c cs =>
    rw [readUnit] at h
    rw [List.cons_append, readUnit]
    split_ifs at h ⊢
    · exact readEscape_append h s
    · obtain ⟨rfl, rfl⟩ := Prod.mk.inj (Option.some.inj h)
      exact ⟨rfl, List.suffix_rfl⟩

theorem length_of_readUnit {cs r : List Char} {n : Nat} (h : readUnit cs = some (n, r)) : r.length < cs.length := by
  cases cs with
  | nil => cases h
  | cons c cs => exact Nat.lt_succ_of_le (readUnit_append h []).2.length_le

theorem takes_readUnits : ∀ fuel, Takes (readUnits fuel)
  | 0, _, _, _, h => by cases h
  | fuel + 1, [], _, _, h => by cases h
  | fuel + 1, c :: cs, ns, r, h => by
    rw [readUnits] at h
    split_ifs at h
    · obtain ⟨rfl, rfl⟩ := Prod.mk.inj (Option.some.inj h)
      exact List.suffix_cons _ _
    · simp only [Option.bind_eq_bind, Option.bind_eq_some_iff, Prod.exists] at h
      obtain ⟨n, r₁, hunit, ns', r₂, hunits, heq⟩ := h
      obtain ⟨rfl, rfl⟩ := Prod.mk.inj (Option.some.inj heq)
      have hsuffix := (readUnit_append hunit []).2
      exact (takes_readUnits fuel _ _ _ hunits).trans (hsuffix.trans (List.suffix_cons _ _))

theorem extends_readUnits : ∀ fuel fuel', Extends True fuel' (readUnits fuel) (readUnits fuel')
  | 0, _, _, _, _, _, _, h, _ => by cases h
  | fuel + 1, _, [], _, _, _, _, h, _ => by cases h
  | fuel + 1, fuel', c :: cs, ns, r, s, hbound, h, _ => by
    obtain ⟨fuel', rfl⟩ := Nat.exists_eq_succ_of_ne_zero (Nat.ne_of_gt (Nat.zero_lt_of_lt hbound))
    rw [readUnits] at h
    rw [List.cons_append, readUnits]
    split_ifs at h ⊢
    · obtain ⟨rfl, rfl⟩ := Prod.mk.inj (Option.some.inj h)
      rfl
    · simp only [Option.bind_eq_bind, Option.bind_eq_some_iff, Prod.exists] at h
      obtain ⟨n, r₁, hunit, ns', r₂, hunits, heq⟩ := h
      obtain ⟨rfl, rfl⟩ := Prod.mk.inj (Option.some.inj heq)
      have hlength := length_of_readUnit hunit
      have hrest := extends_readUnits fuel fuel' r₁ ns' r₂ s (by simp at hbound hlength ⊢; omega) hunits (.inl trivial)
      rw [← List.cons_append, (readUnit_append hunit s).1]
      simp [hrest]

theorem takes_readString (fuel : Nat) : Takes (readString fuel) := by
  intro cs a r h
  obtain ⟨⟨ns, r'⟩, hunits, heq⟩ := Option.map_eq_some_iff.1 h
  obtain ⟨rfl, rfl⟩ := Prod.mk.inj heq
  exact takes_readUnits fuel _ _ _ hunits

theorem extends_readString (fuel fuel' : Nat) : Extends True fuel' (readString fuel) (readString fuel') := by
  intro cs a r s hbound h hdelimited
  obtain ⟨⟨ns, r'⟩, hunits, heq⟩ := Option.map_eq_some_iff.1 h
  obtain ⟨rfl, rfl⟩ := Prod.mk.inj heq
  rw [readString, extends_readUnits fuel fuel' _ _ _ _ hbound hunits hdelimited]
  rfl

/-! ## Words and numbers -/

theorem readWord_append {word cs r : List Char} {v w : Value} (h : readWord word v cs = some (w, r)) (s : List Char) :
    readWord word v (cs ++ s) = some (w, r ++ s) ∧ r <:+ cs := by
  unfold readWord at h
  split_ifs at h with hword
  obtain ⟨rfl, rfl⟩ := Prod.mk.inj (Option.some.inj h)
  obtain ⟨rest, rfl⟩ := hword
  rw [List.append_assoc]
  exact ⟨by simp [readWord], List.drop_suffix _ _⟩

theorem takes_readNumber : Takes readNumber := by
  intro cs v r h
  unfold readNumber at h
  dsimp only at h
  split_ifs at h
  obtain ⟨_, rfl⟩ := Prod.mk.inj (Option.some.inj h)
  exact List.dropWhile_suffix _

theorem extends_readNumber (bound : Nat) : Extends False bound readNumber readNumber := by
  intro cs v r s _ h hdelimited
  rcases hdelimited with hfalse | rfl | hne
  · exact hfalse.elim
  · rw [List.append_nil, List.append_nil]
    exact h
  · unfold readNumber at h ⊢
    dsimp only at h ⊢
    split_ifs at h with hnumber
    obtain ⟨rfl, rfl⟩ := Prod.mk.inj (Option.some.inj h)
    have hdrop : (cs ++ s).dropWhile isNumberChar = cs.dropWhile isNumberChar ++ s := by
      rw [List.dropWhile_append, if_neg (by simpa using hne)]
    have hlength : (cs.takeWhile isNumberChar).length ≠ cs.length := by
      intro hall
      have hboth := congrArg List.length (List.takeWhile_append_dropWhile (p := isNumberChar) (l := cs))
      rw [List.length_append, hall] at hboth
      exact hne (List.length_eq_zero_iff.1 (by omega))
    have htake : (cs ++ s).takeWhile isNumberChar = cs.takeWhile isNumberChar := by
      rw [List.takeWhile_append, if_neg hlength]
    rw [hdrop, htake, if_pos hnumber]

/-! ## Lists -/

section
variable {α : Type} {item item' : List Char → Option (α × List Char)} {close : Char}

/-- A list is taken with its bracket. -/
theorem takes_readList (hitem : Takes item) : ∀ {fuel : Nat} {cs r : List Char} {as : List α},
    readList item close fuel cs = some (as, r) → close :: r <:+ cs
  | 0, _, _, _, h => by cases h
  | fuel + 1, cs, r, as, h => by
    rw [readList, Option.bind_eq_bind, Option.bind_eq_some_iff] at h
    obtain ⟨⟨a, r₁⟩, hfirst, h⟩ := h
    dsimp only at h
    have hsuffix := hitem _ _ _ hfirst
    split at h
    · cases h
    · rename_i c r₂ hskip
      have hrest : c :: r₂ <:+ r₁ := hskip ▸ skip_suffix r₁
      split_ifs at h with hcomma hclose
      · rw [Option.bind_eq_bind, Option.bind_eq_some_iff] at h
        obtain ⟨⟨as', r₃⟩, hlist, heq⟩ := h
        obtain ⟨rfl, rfl⟩ := Prod.mk.inj (Option.some.inj heq)
        exact (takes_readList hitem hlist).trans (((List.suffix_cons _ _).trans hrest).trans hsuffix)
      · obtain ⟨rfl, rfl⟩ := Prod.mk.inj (Option.some.inj h)
        exact hclose ▸ hrest.trans hsuffix

theorem extends_readList {bound : Nat} (htakes : Takes item) (hitem : Extends False bound item item') :
    ∀ {fuel fuel' : Nat}, fuel' ≤ bound → Extends True fuel' (readList item close fuel) (readList item' close fuel')
  | 0, _, _, _, _, _, _, _, h, _ => by cases h
  | fuel + 1, fuel', hle, cs, as, r, s, hbound, h, _ => by
    obtain ⟨fuel', rfl⟩ := Nat.exists_eq_succ_of_ne_zero (Nat.ne_of_gt (Nat.zero_lt_of_lt hbound))
    rw [readList, Option.bind_eq_bind, Option.bind_eq_some_iff] at h
    obtain ⟨⟨a, r₁⟩, hfirst, h⟩ := h
    dsimp only at h
    have hlength := (htakes _ _ _ hfirst).length_le
    split at h
    · cases h
    · rename_i c r₂ hskip
      have hne : r₁ ≠ [] := by
        rintro rfl
        cases hskip
      have hrest := length_of_skip hskip
      rw [readList, hitem _ _ _ _ (hbound.trans_le hle) hfirst (.inr (.inr hne)), Option.bind_eq_bind, Option.bind_some]
      dsimp only
      rw [skip_append hskip]
      dsimp only
      split_ifs at h ⊢ with hcomma hclose
      · rw [Option.bind_eq_bind, Option.bind_eq_some_iff] at h
        obtain ⟨⟨as', r₃⟩, hlist, heq⟩ := h
        obtain ⟨rfl, rfl⟩ := Prod.mk.inj (Option.some.inj heq)
        rw [extends_readList htakes hitem (Nat.le_of_succ_le hle) _ _ _ s (by simp at hbound ⊢; omega) hlist
          (.inl trivial)]
        rfl
      · obtain ⟨rfl, rfl⟩ := Prod.mk.inj (Option.some.inj h)
        rfl

theorem takes_readItems (hitem : Takes item) {fuel : Nat} {cs r : List Char} {as : List α}
    (h : readItems item close fuel cs = some (as, r)) : close :: r <:+ cs := by
  unfold readItems at h
  split at h
  · cases h
  · rename_i c r' hskip
    have hsuffix : c :: r' <:+ cs := hskip ▸ skip_suffix cs
    split_ifs at h with hclose
    · obtain ⟨rfl, rfl⟩ := Prod.mk.inj (Option.some.inj h)
      exact hclose ▸ hsuffix
    · exact (takes_readList hitem h).trans hsuffix

theorem extends_readItems {bound : Nat} (htakes : Takes item) (hitem : Extends False bound item item') (fuel : Nat) :
    Extends True bound (readItems item close fuel) (readItems item' close bound) := by
  intro cs as r s hbound h _
  unfold readItems at h
  split at h
  · cases h
  · rename_i c r' hskip
    rw [readItems, skip_append hskip]
    dsimp only
    split_ifs at h ⊢
    · obtain ⟨rfl, rfl⟩ := Prod.mk.inj (Option.some.inj h)
      rfl
    · have hlength := length_of_skip hskip
      rw [← List.cons_append]
      exact extends_readList htakes hitem le_rfl _ _ _ s (by simp at hbound ⊢; omega) h (.inl trivial)

end

/-! ## Values -/

section
variable {value value' : List Char → Option (Value × List Char)}

theorem takes_readMember (hvalue : Takes value) (fuel : Nat) : Takes (readMember fuel value) := by
  intro cs m r h
  unfold readMember at h
  split at h
  · cases h
  · rename_i c r₁ hskip
    have hsuffix : c :: r₁ <:+ cs := hskip ▸ skip_suffix cs
    split_ifs at h
    rw [Option.bind_eq_bind, Option.bind_eq_some_iff] at h
    obtain ⟨⟨key, r₂⟩, hkey, h⟩ := h
    have hkey' := takes_readString fuel _ _ _ hkey
    dsimp only at h
    split at h
    · cases h
    · rename_i c' r₃ hskip'
      have hsuffix' : c' :: r₃ <:+ r₂ := hskip' ▸ skip_suffix r₂
      split_ifs at h
      rw [Option.bind_eq_bind, Option.bind_eq_some_iff] at h
      obtain ⟨⟨v, r₄⟩, hv, heq⟩ := h
      obtain ⟨rfl, rfl⟩ := Prod.mk.inj (Option.some.inj heq)
      have hcolon := (List.suffix_cons _ _).trans (hsuffix'.trans hkey')
      exact (hvalue _ _ _ hv).trans (hcolon.trans ((List.suffix_cons _ _).trans hsuffix))

theorem extends_readMember {bound : Nat} (hvalue : Extends False bound value value') (fuel : Nat) :
    Extends False bound (readMember fuel value) (readMember bound value') := by
  intro cs m r s hbound h hdelimited
  unfold readMember at h
  split at h
  · cases h
  · rename_i c r₁ hskip
    have hlength := length_of_skip hskip
    rw [readMember, skip_append hskip]
    dsimp only
    split_ifs at h ⊢
    rw [Option.bind_eq_bind, Option.bind_eq_some_iff] at h
    obtain ⟨⟨key, r₂⟩, hkey, h⟩ := h
    have hkey' := (takes_readString fuel _ _ _ hkey).length_le
    dsimp only at h
    split at h
    · cases h
    · rename_i c' r₃ hskip'
      have hlength' := length_of_skip hskip'
      rw [extends_readString fuel bound _ _ _ s (by simp at hbound ⊢; omega) hkey (.inl trivial), Option.bind_eq_bind,
        Option.bind_some]
      dsimp only
      rw [skip_append hskip']
      dsimp only
      split_ifs at h ⊢
      rw [Option.bind_eq_bind, Option.bind_eq_some_iff] at h
      obtain ⟨⟨v, r₄⟩, hv, heq⟩ := h
      obtain ⟨rfl, rfl⟩ := Prod.mk.inj (Option.some.inj heq)
      rw [hvalue _ _ _ s (by simp at hbound ⊢; omega) hv hdelimited]
      rfl

end

theorem takes_readValue : ∀ fuel, Takes (readValue fuel)
  | 0, _, _, _, h => by cases h
  | fuel + 1, cs, v, r, h => by
    rw [readValue] at h
    split at h
    · cases h
    · rename_i c r₁ hskip
      have hsuffix : c :: r₁ <:+ cs := hskip ▸ skip_suffix cs
      have htail := (List.suffix_cons c r₁).trans hsuffix
      split_ifs at h
      · obtain ⟨⟨s, r₂⟩, hstring, heq⟩ := Option.map_eq_some_iff.1 h
        obtain ⟨rfl, rfl⟩ := Prod.mk.inj heq
        exact (takes_readString fuel _ _ _ hstring).trans htail
      · obtain ⟨⟨items, r₂⟩, hitems, heq⟩ := Option.map_eq_some_iff.1 h
        obtain ⟨rfl, rfl⟩ := Prod.mk.inj heq
        exact ((List.suffix_cons _ _).trans (takes_readItems (takes_readValue fuel) hitems)).trans htail
      · obtain ⟨⟨members, r₂⟩, hmembers, heq⟩ := Option.map_eq_some_iff.1 h
        obtain ⟨rfl, rfl⟩ := Prod.mk.inj heq
        have htakes := takes_readMember (takes_readValue fuel) fuel
        exact ((List.suffix_cons _ _).trans (takes_readItems htakes hmembers)).trans htail
      · exact (readWord_append h []).2.trans htail
      · exact (readWord_append h []).2.trans htail
      · exact (readWord_append h []).2.trans htail
      · exact (takes_readNumber _ _ _ h).trans hsuffix

theorem extends_readValue : ∀ fuel fuel', Extends False fuel' (readValue fuel) (readValue fuel')
  | 0, _, _, _, _, _, _, h, _ => by cases h
  | fuel + 1, fuel', cs, v, r, s, hbound, h, hdelimited => by
    obtain ⟨fuel', rfl⟩ := Nat.exists_eq_succ_of_ne_zero (Nat.ne_of_gt (Nat.zero_lt_of_lt hbound))
    have ih := extends_readValue fuel fuel'
    rw [readValue] at h
    split at h
    · cases h
    · rename_i c r₁ hskip
      have hlength := length_of_skip hskip
      have hbound' : (r₁ ++ s).length < fuel' := by simp at hbound ⊢; omega
      rw [readValue, skip_append hskip]
      dsimp only
      split_ifs at h ⊢
      · obtain ⟨⟨t, r₂⟩, hstring, heq⟩ := Option.map_eq_some_iff.1 h
        obtain ⟨rfl, rfl⟩ := Prod.mk.inj heq
        rw [extends_readString fuel fuel' _ _ _ s hbound' hstring (.inl trivial)]
        rfl
      · obtain ⟨⟨items, r₂⟩, hitems, heq⟩ := Option.map_eq_some_iff.1 h
        obtain ⟨rfl, rfl⟩ := Prod.mk.inj heq
        rw [extends_readItems (takes_readValue fuel) ih fuel _ _ _ s hbound' hitems (.inl trivial)]
        rfl
      · obtain ⟨⟨members, r₂⟩, hmembers, heq⟩ := Option.map_eq_some_iff.1 h
        obtain ⟨rfl, rfl⟩ := Prod.mk.inj heq
        have htakes := takes_readMember (takes_readValue fuel) fuel
        rw [extends_readItems htakes (extends_readMember ih fuel) fuel _ _ _ s hbound' hmembers (.inl trivial)]
        rfl
      · exact (readWord_append h s).1
      · exact (readWord_append h s).1
      · exact (readWord_append h s).1
      · rw [← List.cons_append]
        exact extends_readNumber _ _ _ _ s (Nat.lt_succ_self _) h hdelimited

/-- An object is taken with its bracket, whatever comes after it. -/
theorem readValue_object {fuel fuel' : Nat} {cs r₁ r s : List Char} {v : Value} (hskip : skip cs = '\x7b' :: r₁)
    (hbound : (cs ++ s).length < fuel') (h : readValue fuel cs = some (v, r)) :
    readValue fuel' (cs ++ s) = some (v, r ++ s) ∧ '\x7d' :: r <:+ cs := by
  cases fuel with
  | zero => cases h
  | succ fuel =>
    obtain ⟨fuel', rfl⟩ := Nat.exists_eq_succ_of_ne_zero (Nat.ne_of_gt (Nat.zero_lt_of_lt hbound))
    have hlength := length_of_skip hskip
    have htakes := takes_readMember (takes_readValue fuel) fuel
    have hextends := extends_readMember (extends_readValue fuel fuel') fuel
    rw [readValue, hskip] at h
    rw [readValue, skip_append hskip]
    dsimp only at h ⊢
    rw [if_neg (by decide), if_neg (by decide), if_pos rfl] at h ⊢
    obtain ⟨⟨members, r₂⟩, hmembers, heq⟩ := Option.map_eq_some_iff.1 h
    obtain ⟨rfl, rfl⟩ := Prod.mk.inj heq
    constructor
    · rw [extends_readItems htakes hextends fuel _ _ _ s (by simp at hbound ⊢; omega) hmembers (.inl trivial)]
      rfl
    · have hsuffix : '\x7b' :: r₁ <:+ cs := hskip ▸ skip_suffix cs
      exact (takes_readItems htakes hmembers).trans ((List.suffix_cons _ _).trans hsuffix)

/-- **Enough fuel is enough**: more of it reads the same. -/
theorem readValue_fuel {cs : List Char} {fuel fuel' : Nat} (h : cs.length < fuel) (h' : cs.length < fuel') :
    readValue fuel cs = readValue fuel' cs := by
  have hsome : ∀ {fuel fuel' : Nat} {x : Value × List Char}, cs.length < fuel' → readValue fuel cs = some x →
      readValue fuel' cs = some x := by
    intro fuel fuel' x hbound hread
    have hsame := extends_readValue fuel fuel' cs x.1 x.2 [] (by simpa using hbound) hread (.inr (.inl rfl))
    rwa [List.append_nil, List.append_nil] at hsame
  cases hread : readValue fuel cs with
  | some x => exact (hsome h' hread).symm
  | none =>
    cases hread' : readValue fuel' cs with
    | none => rfl
    | some x => exact absurd (hsome h hread') (by simp [hread])

end Js.JsonParser
