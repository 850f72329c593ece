import Mathlib.Data.List.Count

/-!
# Texts with separators

When a text that was put together from others tells what they were: two texts with a separator between them
(`split_of_count`), quoted fields (`quoted_inj`), and tables of quoted fields (`table_inj`).
-/

namespace Delimiters

variable {α : Type}

/-! ## Two texts -/

/-- The first texts hold the separator equally often: then they are equal, and so are the second. -/
theorem split_of_count [DecidableEq α] {sep : α} : ∀ {a a' b b' : List α}, a ++ sep :: b = a' ++ sep :: b' →
    a.count sep = a'.count sep → a = a' ∧ b = b'
  | [], [], _, _, h, _ => ⟨rfl, (List.cons.inj h).2⟩
  | [], c :: a', _, _, h, hcount => by
    rw [← (List.cons.inj h).1, List.count_cons_self] at hcount
    cases hcount
  | c :: a, [], _, _, h, hcount => by
    rw [(List.cons.inj h).1, List.count_cons_self] at hcount
    cases hcount
  | c :: a, c' :: a', _, _, h, hcount => by
    obtain ⟨rfl, hrest⟩ := List.cons.inj h
    have hcount' : a.count sep = a'.count sep := by
      rw [List.count_cons, List.count_cons] at hcount
      exact Nat.add_right_cancel hcount
    obtain ⟨rfl, rfl⟩ := split_of_count hrest hcount'
    exact ⟨rfl, rfl⟩

/-- The text with the separator is the same just if the parts are, or the one reading takes for its separator what
stands inside the second part of the other. -/
theorem split_iff {sep : α} {a a' b b' : List α} : a ++ sep :: b = a' ++ sep :: b' ↔
    (a = a' ∧ b = b') ∨ (∃ x, a' = a ++ sep :: x ∧ b = x ++ sep :: b') ∨
      ∃ x, a = a' ++ sep :: x ∧ b' = x ++ sep :: b := by
  constructor
  · intro h
    obtain ⟨x, rfl, hx⟩ | ⟨x, rfl, hx⟩ := List.append_eq_append_iff.1 h
    · cases x with
      | nil => exact .inl ⟨(List.append_nil a).symm, (List.cons.inj hx).2⟩
      | cons c x =>
        obtain ⟨rfl, hb⟩ := List.cons.inj hx
        exact .inr (.inl ⟨x, rfl, hb⟩)
    · cases x with
      | nil => exact .inl ⟨List.append_nil a', (List.cons.inj hx).2.symm⟩
      | cons c x =>
        obtain ⟨rfl, hb⟩ := List.cons.inj hx
        exact .inr (.inr ⟨x, rfl, hb⟩)
  · rintro (⟨rfl, rfl⟩ | ⟨x, rfl, rfl⟩ | ⟨x, rfl, rfl⟩)
    · rfl
    · rw [List.append_assoc, List.cons_append]
    · rw [List.append_assoc, List.cons_append]

/-! ## Decimal numbers -/

theorem decimal_inj {m n : Nat} (h : toString m = toString n) : m = n := by
  have hdigits : Nat.toDigits 10 m = Nat.toDigits 10 n := by
    rw [← Nat.toList_repr, ← Nat.toList_repr, ← Nat.toString_eq_repr, ← Nat.toString_eq_repr, h]
  rw [← @Nat.ofDigitChars_ten_toDigits m, hdigits, Nat.ofDigitChars_ten_toDigits]

/-! ## Joined texts -/

theorem intercalate_cons (sep : α) (s : List α) (rest : List (List α)) :
    [sep].intercalate (s :: rest) = s ++ rest.flatMap fun t => sep :: t := by
  induction rest generalizing s with
  | nil => simp
  | cons t rest ih => rw [List.intercalate_cons_cons, ih t, List.flatMap_cons, List.append_assoc, List.singleton_append,
    List.cons_append]

/-! ## Quoted fields -/

/-- Nothing of the kind of a quote follows. -/
def NotAhead (q : α) (r : List α) : Prop := ∀ c ∈ r.head?, c ≠ q

theorem NotAhead.cons {q c : α} (h : c ≠ q) (r : List α) : NotAhead q (c :: r) := by
  intro d hd
  rw [← Option.some.inj hd]
  exact h

variable [DecidableEq α]

/-- A quote inside a field is written twice. -/
def doubled (q : α) (s : List α) : List α := s.flatMap fun c => if c = q then [q, q] else [c]

def quoted (q : α) (s : List α) : List α := q :: doubled q s ++ [q]

section
variable {q : α}

theorem doubled_cons (c : α) (s r : List α) :
    doubled q (c :: s) ++ r = if c = q then q :: q :: (doubled q s ++ r) else c :: (doubled q s ++ r) := by
  unfold doubled
  rw [List.flatMap_cons]
  split_ifs <;> rfl

theorem doubled_inj : ∀ {s s' r r' : List α}, NotAhead q r → NotAhead q r' →
    doubled q s ++ q :: r = doubled q s' ++ q :: r' → s = s' ∧ r = r'
  | [], [], _, _, _, _, h => ⟨rfl, (List.cons.inj h).2⟩
  | [], c :: s', r, r', hr, _, h => by
    rw [doubled_cons] at h
    split_ifs at h with hc
    · -- a quote that is followed by another does not end the field
      have hahead : r = q :: (doubled q s' ++ q :: r') := (List.cons.inj h).2
      exact absurd rfl (hr q (by rw [hahead]; rfl))
    · exact absurd (List.cons.inj h).1.symm hc
  | c :: s, [], r, r', _, hr', h => by
    rw [doubled_cons] at h
    split_ifs at h with hc
    · have hahead : q :: (doubled q s ++ q :: r) = r' := (List.cons.inj h).2
      exact absurd rfl (hr' q (by rw [← hahead]; rfl))
    · exact absurd (List.cons.inj h).1 hc
  | c :: s, c' :: s', r, r', hr, hr', h => by
    rw [doubled_cons, doubled_cons] at h
    split_ifs at h with hc hc' hc'
    · obtain ⟨rfl, rfl⟩ := doubled_inj hr hr' (List.cons.inj (List.cons.inj h).2).2
      exact ⟨by rw [hc, hc'], rfl⟩
    · exact absurd (List.cons.inj h).1.symm hc'
    · exact absurd (List.cons.inj h).1 hc
    · obtain ⟨rfl, hrest⟩ := List.cons.inj h
      obtain ⟨rfl, rfl⟩ := doubled_inj hr hr' hrest
      exact ⟨rfl, rfl⟩

/-- **A quoted field ends where it ends**, whatever is in it. -/
theorem quoted_inj {s s' r r' : List α} (hr : NotAhead q r) (hr' : NotAhead q r')
    (h : quoted q s ++ r = quoted q s' ++ r') : s = s' ∧ r = r' := by
  refine doubled_inj hr hr' ?_
  have htail := (List.cons.inj h).2
  simpa using htail

end

/-! ## Tables -/

/-- The fields of a row. -/
def row (q sep : α) (fields : List (List α)) : List α := [sep].intercalate (fields.map (quoted q))

section
variable {q sep : α}

theorem row_cons (f g : List α) (fs : List (List α)) :
    row q sep (f :: g :: fs) = quoted q f ++ sep :: row q sep (g :: fs) := by
  simp [row, List.intercalate_cons_cons]

theorem row_singleton (f : List α) : row q sep [f] = quoted q f := by simp [row]

theorem row_inj (hsep : sep ≠ q) : ∀ {fs gs : List (List α)} {r r' : List α}, fs ≠ [] → gs ≠ [] → NotAhead q r →
    NotAhead q r' → NotAhead sep r → NotAhead sep r' → row q sep fs ++ r = row q sep gs ++ r' → fs = gs ∧ r = r'
  | [], _, _, _, hfs, _, _, _, _, _, _ => absurd rfl hfs
  | _, [], _, _, _, hgs, _, _, _, _, _ => absurd rfl hgs
  | [f], [g], r, r', _, _, hr, hr', _, _, h => by
    rw [row_singleton, row_singleton] at h
    obtain ⟨rfl, rfl⟩ := quoted_inj hr hr' h
    exact ⟨rfl, rfl⟩
  | [f], g :: g' :: gs, r, r', _, _, hr, _, hsepr, _, h => by
    rw [row_singleton, row_cons, List.append_assoc, List.cons_append] at h
    obtain ⟨_, hrest⟩ := quoted_inj hr (.cons hsep _) h
    exact absurd rfl (hsepr sep (by rw [hrest]; rfl))
  | f :: f' :: fs, [g], r, r', _, _, _, hr', _, hsepr', h => by
    rw [row_singleton, row_cons, List.append_assoc, List.cons_append] at h
    obtain ⟨_, hrest⟩ := quoted_inj (.cons hsep _) hr' h
    exact absurd rfl (hsepr' sep (by rw [← hrest]; rfl))
  | f :: f' :: fs, g :: g' :: gs, r, r', _, _, hr, hr', hsepr, hsepr', h => by
    rw [row_cons, row_cons, List.append_assoc, List.append_assoc, List.cons_append, List.cons_append] at h
    obtain ⟨rfl, hrest⟩ := quoted_inj (.cons hsep _) (.cons hsep _) h
    obtain ⟨hfields, rfl⟩ := row_inj hsep (List.cons_ne_nil _ _) (List.cons_ne_nil _ _) hr hr' hsepr hsepr'
      (List.cons.inj hrest).2
    rw [hfields]
    exact ⟨rfl, rfl⟩

/-- Rows, each behind a line break. -/
def table (q sep nl : α) (rows : List (List (List α))) : List α := rows.flatMap fun fields => nl :: row q sep fields

/-- **A table tells its rows.** -/
theorem table_inj {nl : α} (hsep : sep ≠ q) (hnl : nl ≠ q) (hnl' : nl ≠ sep) :
    ∀ {rows rows' : List (List (List α))}, (∀ fields ∈ rows, fields ≠ []) → (∀ fields ∈ rows', fields ≠ []) →
      table q sep nl rows = table q sep nl rows' → rows = rows'
  | [], [], _, _, _ => rfl
  | [], _ :: _, _, _, h => by cases h
  | _ :: _, [], _, _, h => by cases h
  | fs :: rows, gs :: rows', hrows, hrows', h => by
    -- a row ends with the text, or where the next line begins
    have hends : ∀ {c : α}, nl ≠ c → ∀ rows, NotAhead c (table q sep nl rows) := by
      intro c hc rows
      cases rows with
      | nil =>
        intro d hd
        cases hd
      | cons fields rows => exact .cons hc _
    have hline : row q sep fs ++ table q sep nl rows = row q sep gs ++ table q sep nl rows' := (List.cons.inj h).2
    obtain ⟨rfl, hrest⟩ := row_inj hsep (hrows fs List.mem_cons_self) (hrows' gs List.mem_cons_self) (hends hnl _)
      (hends hnl _) (hends hnl' _) (hends hnl' _) hline
    rw [table_inj hsep hnl hnl' (fun f hf => hrows f (List.mem_cons_of_mem _ hf))
      (fun f hf => hrows' f (List.mem_cons_of_mem _ hf)) hrest]

end

end Delimiters
