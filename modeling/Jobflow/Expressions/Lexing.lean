import Mathlib.Data.List.TakeWhile
import Jobflow.Expressions.Syntax

/-!
# Constraint expressions: lexemes (src/expressions/tokenizer.ts)

`Lexed` is the token sequence of an input as a derivation, one rule per lexeme; `tokenizeFrom_iff` says that it is what
the tokenizer computes.
-/

namespace Jobflow.Expressions

open Js

/-! ## Characters -/

/-- What a character starts between lexemes, in the order in which the tokenizer tests it. -/
inductive CharKind where
  | space | mark (type : TokenType) | op | quote | digit | letter | other
  deriving DecidableEq

def charKind (c : Char) : CharKind :=
  if Number.isSpace c then .space
  else if c = '(' then .mark .lparen
  else if c = ')' then .mark .rparen
  else if c = ',' then .mark .comma
  else if isOpChar c then .op
  else if c = '"' ∨ c = '\'' then .quote
  else if Number.isDigit c then .digit
  else if isIdentStart c then .letter
  else .other

/-- What the tests found of the character. -/
theorem charKind_spec (c : Char) :
    match charKind c with
    | .space => Number.isSpace c = true
    | .mark type => c = '(' ∧ type = .lparen ∨ c = ')' ∧ type = .rparen ∨ c = ',' ∧ type = .comma
    | .op => isOpChar c = true
    | .quote => c = '"' ∨ c = '\''
    | .digit => Number.isDigit c = true
    | .letter => isIdentStart c = true
    | .other => True := by
  rw [charKind]
  by_cases hspace : Number.isSpace c = true
  · rwa [if_pos hspace]
  by_cases hopen : c = '('
  · rw [if_neg hspace, if_pos hopen]
    exact .inl ⟨hopen, rfl⟩
  by_cases hclose : c = ')'
  · rw [if_neg hspace, if_neg hopen, if_pos hclose]
    exact .inr (.inl ⟨hclose, rfl⟩)
  by_cases hcomma : c = ','
  · rw [if_neg hspace, if_neg hopen, if_neg hclose, if_pos hcomma]
    exact .inr (.inr ⟨hcomma, rfl⟩)
  rw [if_neg hspace, if_neg hopen, if_neg hclose, if_neg hcomma]
  by_cases hop : isOpChar c = true
  · rwa [if_pos hop]
  by_cases hquote : c = '"' ∨ c = '\''
  · rwa [if_neg hop, if_pos hquote]
  by_cases hdigit : Number.isDigit c = true
  · rwa [if_neg hop, if_neg hquote, if_pos hdigit]
  by_cases hletter : isIdentStart c = true
  · rwa [if_neg hop, if_neg hquote, if_neg hdigit, if_pos hletter]
  · rw [if_neg hop, if_neg hquote, if_neg hdigit, if_neg hletter]
    trivial

section
variable {c : Char}

theorem charKind_quote (h : charKind c = .quote) : c = '"' ∨ c = '\'' := by
  have hspec := charKind_spec c
  rwa [h] at hspec

theorem charKind_op (h : charKind c = .op) : isOpChar c = true := by
  have hspec := charKind_spec c
  rwa [h] at hspec

theorem charKind_digit (h : charKind c = .digit) : Number.isDigit c = true := by
  have hspec := charKind_spec c
  rwa [h] at hspec

theorem charKind_letter (h : charKind c = .letter) : isIdentStart c = true := by
  have hspec := charKind_spec c
  rwa [h] at hspec

end

/-- The tokens of an input, read from a position. -/
inductive Lexed : Nat → List Char → List Token → Prop where
  | eof {pos : Nat} : Lexed pos [] [⟨.eof, "", pos⟩]
  | space {pos : Nat} {c : Char} {cs : List Char} {ts : List Token} : charKind c = .space →
      Lexed (pos + charUnits c) cs ts → Lexed pos (c :: cs) ts
  | mark {pos : Nat} {c : Char} {type : TokenType} {cs : List Char} {ts : List Token} : charKind c = .mark type →
      Lexed (pos + 1) cs ts → Lexed pos (c :: cs) (⟨type, String.ofList [c], pos⟩ :: ts)
  | op {pos : Nat} {c : Char} {text cs : List Char} {ts : List Token} : charKind c = .op →
      readOp (c :: (text ++ cs)) = c :: text → Lexed (pos + (text.length + 1)) cs ts →
      Lexed pos (c :: (text ++ cs)) (⟨.op, String.ofList (c :: text), pos + (text.length + 1)⟩ :: ts)
  /-- The quote is among what follows. -/
  | string {pos : Nat} {q : Char} {text cs : List Char} {ts : List Token} : charKind q = .quote → q ∉ text →
      Lexed (pos + units text + 2) cs ts →
      Lexed pos (q :: (text ++ q :: cs)) (⟨.string, String.ofList text, pos + units text + 2⟩ :: ts)
  /-- It is not, and the string ends with the input. -/
  | unclosed {pos : Nat} {q : Char} {text : List Char} : charKind q = .quote → q ∉ text →
      Lexed pos (q :: text) [⟨.string, String.ofList text, pos + units text + 2⟩, ⟨.eof, "", pos + units text + 2⟩]
  | number {pos : Nat} {c : Char} {text cs : List Char} {ts : List Token} : charKind c = .digit →
      (∀ d ∈ text, isNumberChar d = true) → (∀ d ∈ cs.head?, isNumberChar d = false) →
      Lexed (pos + (text.length + 1)) cs ts →
      Lexed pos (c :: (text ++ cs)) (⟨.number, String.ofList (c :: text), pos + (text.length + 1)⟩ :: ts)
  | ident {pos : Nat} {c : Char} {text cs : List Char} {ts : List Token} : charKind c = .letter →
      (∀ d ∈ text, isIdentChar d = true) → (∀ d ∈ cs.head?, isIdentChar d = false) →
      Lexed (pos + (text.length + 1)) cs ts →
      Lexed pos (c :: (text ++ cs)) (⟨.ident, String.ofList (c :: text), pos + (text.length + 1)⟩ :: ts)

/-! ## The tokenizer -/

theorem tokenizeFrom_eq (c : Char) (cs : List Char) (pos : Nat) : tokenizeFrom (c :: cs) 0 pos =
    match charKind c with
    | .space => tokenizeFrom cs 0 (pos + charUnits c)
    | .mark type => do .ok (⟨type, String.ofList [c], pos⟩ :: (← tokenizeFrom cs 0 (pos + 1)))
    | .op => do .ok (⟨.op, String.ofList (readOp (c :: cs)), pos + (readOp (c :: cs)).length⟩ ::
        (← tokenizeFrom cs ((readOp (c :: cs)).length - 1) (pos + 1)))
    | .quote => do .ok (⟨.string, String.ofList (cs.takeWhile (· ≠ c)), pos + units (cs.takeWhile (· ≠ c)) + 2⟩ ::
        (← tokenizeFrom cs ((cs.takeWhile (· ≠ c)).length + 1) (pos + 1)))
    | .digit => do .ok (⟨.number, String.ofList (c :: cs.takeWhile isNumberChar),
        pos + (c :: cs.takeWhile isNumberChar).length⟩ ::
        (← tokenizeFrom cs ((c :: cs.takeWhile isNumberChar).length - 1) (pos + 1)))
    | .letter => do .ok (⟨.ident, String.ofList (c :: cs.takeWhile isIdentChar),
        pos + (c :: cs.takeWhile isIdentChar).length⟩ ::
        (← tokenizeFrom cs ((c :: cs.takeWhile isIdentChar).length - 1) (pos + 1)))
    | .other => .error (.error ("unexpected character at " ++ toString pos ++ ": " ++ String.ofList [c])) := by
  rw [tokenizeFrom]
  unfold charKind
  by_cases hspace : Number.isSpace c = true
  · simp only [hspace, if_true]
  by_cases hopen : c = '('
  · subst hopen
    rfl
  by_cases hclose : c = ')'
  · subst hclose
    rfl
  by_cases hcomma : c = ','
  · subst hcomma
    rfl
  simp only [hspace, hopen, hclose, hcomma, if_false, Bool.false_eq_true]
  by_cases hop : isOpChar c = true
  · simp only [hop, if_true]
  by_cases hquote : c = '"' ∨ c = '\''
  · simp only [hop, hquote, if_true, if_false, Bool.false_eq_true]
  by_cases hdigit : Number.isDigit c = true
  · simp only [hop, hquote, hdigit, if_true, if_false, Bool.false_eq_true]
  by_cases hletter : isIdentStart c = true
  · simp only [hop, hquote, hdigit, hletter, if_true, if_false, Bool.false_eq_true]
  · simp only [hop, hquote, hdigit, hletter, if_false, Bool.false_eq_true]

theorem units_append (cs ds : List Char) : units (cs ++ ds) = units cs + units ds := by
  simp [units]

@[simp] theorem units_cons (c : Char) (cs : List Char) : units (c :: cs) = charUnits c + units cs := rfl

/-- Characters that a lexeme took are passed over. -/
theorem tokenizeFrom_append (cs : List Char) : ∀ (text : List Char) (pos : Nat),
    tokenizeFrom (text ++ cs) text.length pos = tokenizeFrom cs 0 (pos + units text)
  | [], pos => rfl
  | c :: text, pos => by
    rw [List.cons_append, List.length_cons, tokenizeFrom, tokenizeFrom_append cs text, units_cons, Nat.add_assoc]

/-- A string that is not closed takes one position behind the end. -/
theorem tokenizeFrom_past : ∀ (text : List Char) (pos : Nat),
    tokenizeFrom text (text.length + 1) pos = .ok [⟨.eof, "", pos + units text + 1⟩]
  | [], pos => rfl
  | c :: text, pos => by
    rw [List.length_cons, tokenizeFrom, tokenizeFrom_past text, units_cons, Nat.add_assoc pos]

section
variable {c : Char}

theorem charUnits_of_toNat (h : c.toNat ≤ 0xFFFF) : charUnits c = 1 := if_pos h

theorem isDigit_toNat (h : Number.isDigit c = true) : 48 ≤ c.toNat ∧ c.toNat ≤ 57 := by
  simp only [Number.isDigit, decide_eq_true_eq, Char.le_def, UInt32.le_iff_toNat_le] at h
  exact h

theorem isIdentStart_toNat (h : isIdentStart c = true) : 65 ≤ c.toNat ∧ c.toNat ≤ 122 := by
  simp only [isIdentStart, Bool.or_eq_true, Bool.and_eq_true, decide_eq_true_eq, Char.le_def,
    UInt32.le_iff_toNat_le] at h
  rcases h with (⟨hlo, hhi⟩ | ⟨hlo, hhi⟩) | rfl
  · exact ⟨Nat.le_trans (by decide) hlo, hhi⟩
  · exact ⟨hlo, Nat.le_trans hhi (by decide)⟩
  · decide

theorem isOpChar_units (h : isOpChar c = true) : charUnits c = 1 := by
  simp only [isOpChar, List.mem_cons, List.not_mem_nil, or_false, decide_eq_true_eq] at h
  rcases h with rfl | rfl | rfl | rfl | rfl | rfl | rfl | rfl | rfl | rfl <;> rfl

theorem isNumberChar_units (h : isNumberChar c = true) : charUnits c = 1 := by
  simp only [isNumberChar, Bool.or_eq_true, decide_eq_true_eq] at h
  rcases h with h | rfl
  · exact charUnits_of_toNat (by have := isDigit_toNat h; omega)
  · rfl

theorem isIdentChar_units (h : isIdentChar c = true) : charUnits c = 1 := by
  simp only [isIdentChar, Bool.or_eq_true, decide_eq_true_eq] at h
  rcases h with (h | h) | rfl
  · exact charUnits_of_toNat (by have := isIdentStart_toNat h; omega)
  · exact charUnits_of_toNat (by have := isDigit_toNat h; omega)
  · rfl

end

theorem units_eq_length {text : List Char} (h : ∀ c ∈ text, charUnits c = 1) : units text = text.length := by
  induction text with
  | nil => rfl
  | cons c text ih =>
    rw [units_cons, h c List.mem_cons_self, ih fun d hd => h d (List.mem_cons_of_mem c hd), List.length_cons,
      Nat.add_comm]

/-- An operator is its first character and at most one more, which takes one position. -/
theorem readOp_eq (c : Char) (cs : List Char) : ∃ text rest, cs = text ++ rest ∧ readOp (c :: cs) = c :: text ∧
    (text = [] ∨ text = ['='] ∨ text = ['&'] ∨ text = ['|']) := by
  cases cs with
  | nil => exact ⟨[], [], rfl, rfl, .inl rfl⟩
  | cons d cs =>
    by_cases htwo : [c, d] ∈ [['=', '='], ['!', '='], ['<', '='], ['>', '='], ['&', '&'], ['|', '|']]
    · refine ⟨[d], cs, rfl, if_pos htwo, .inr ?_⟩
      simp only [List.mem_cons, List.cons.injEq, and_true, List.not_mem_nil, or_false] at htwo
      rcases htwo with ⟨-, rfl⟩ | ⟨-, rfl⟩ | ⟨-, rfl⟩ | ⟨-, rfl⟩ | ⟨-, rfl⟩ | ⟨-, rfl⟩ <;> simp
    · exact ⟨[], d :: cs, rfl, if_neg htwo, .inl rfl⟩

theorem readOp_units {c : Char} {cs text : List Char} (h : readOp (c :: cs) = c :: text) :
    units text = text.length := by
  obtain ⟨text', rest, -, htext, hcases⟩ := readOp_eq c cs
  rw [htext, List.cons.injEq] at h
  rw [← h.2]
  rcases hcases with rfl | rfl | rfl | rfl <;> rfl

theorem head?_dropWhile_false {p : Char → Bool} {cs : List Char} : ∀ d ∈ (cs.dropWhile p).head?, p d = false := by
  intro d hd
  have hhead := List.head?_dropWhile_not p cs
  rw [hd] at hhead
  simpa using hhead

/-- Characters up to the first that does not belong. -/
theorem takeWhile_append_of_head? {p : Char → Bool} {text cs : List Char} (htext : ∀ d ∈ text, p d = true)
    (hcs : ∀ d ∈ cs.head?, p d = false) : (text ++ cs).takeWhile p = text := by
  rw [List.takeWhile_append_of_pos htext]
  cases cs with
  | nil => simp
  | cons d cs => simp [hcs d rfl]

theorem takeWhile_quote {q : Char} {text : List Char} (cs : List Char) (h : q ∉ text) :
    (text ++ q :: cs).takeWhile (· ≠ q) = text := by
  apply takeWhile_append_of_head?
  · intro d hd
    simp only [decide_eq_true_eq]
    rintro rfl
    exact h hd
  · simp

theorem takeWhile_unclosed {q : Char} {text : List Char} (h : q ∉ text) : text.takeWhile (· ≠ q) = text := by
  rw [List.takeWhile_eq_self_iff]
  intro d hd
  simp only [decide_eq_true_eq]
  rintro rfl
  exact h hd

/-- The characters in front of the first quote, and what is behind it. -/
theorem split_quote {q : Char} {cs : List Char} (h : q ∈ cs) : ∃ text rest, cs = text ++ q :: rest ∧ q ∉ text := by
  induction cs with
  | nil => cases h
  | cons c cs ih =>
    by_cases hc : c = q
    · exact ⟨[], cs, by rw [hc]; rfl, by simp⟩
    · obtain ⟨text, rest, rfl, htext⟩ := ih ((List.mem_cons.1 h).resolve_left (Ne.symm hc))
      refine ⟨c :: text, rest, rfl, ?_⟩
      simp only [List.mem_cons, not_or]
      exact ⟨Ne.symm hc, htext⟩

/-! ### One lexeme -/

section
variable {c q : Char} {text cs : List Char} (pos : Nat)

theorem tokenizeFrom_space (hkind : charKind c = .space) :
    tokenizeFrom (c :: cs) 0 pos = tokenizeFrom cs 0 (pos + charUnits c) := by
  rw [tokenizeFrom_eq, hkind]

theorem tokenizeFrom_mark {type : TokenType} (hkind : charKind c = .mark type) : tokenizeFrom (c :: cs) 0 pos =
    (do .ok (⟨type, String.ofList [c], pos⟩ :: (← tokenizeFrom cs 0 (pos + 1)))) := by
  rw [tokenizeFrom_eq, hkind]

/-- Behind a lexeme that takes one position per character. -/
theorem tokenizeFrom_behind (hunits : units text = text.length) :
    tokenizeFrom (text ++ cs) text.length (pos + 1) = tokenizeFrom cs 0 (pos + (text.length + 1)) := by
  rw [tokenizeFrom_append, hunits, Nat.add_assoc, Nat.add_comm 1]

theorem tokenizeFrom_op (hkind : charKind c = .op) (hop : readOp (c :: (text ++ cs)) = c :: text) :
    tokenizeFrom (c :: (text ++ cs)) 0 pos =
      (do .ok (⟨.op, String.ofList (c :: text), pos + (text.length + 1)⟩ ::
        (← tokenizeFrom cs 0 (pos + (text.length + 1))))) := by
  rw [tokenizeFrom_eq, hkind]
  simp only [hop, List.length_cons, Nat.add_sub_cancel]
  rw [tokenizeFrom_behind pos (readOp_units hop)]

theorem tokenizeFrom_string (hkind : charKind q = .quote) (htext : q ∉ text) :
    tokenizeFrom (q :: (text ++ q :: cs)) 0 pos =
      (do
        .ok (⟨.string, String.ofList text, pos + units text + 2⟩ :: (← tokenizeFrom cs 0 (pos + units text + 2)))) := by
  have hlen : text.length + 1 = (text ++ [q]).length := by simp
  have hq : charUnits q = 1 := by
    rcases charKind_quote hkind with rfl | rfl <;> rfl
  have hpos : pos + 1 + units (text ++ [q]) = pos + units text + 2 := by
    rw [units_append, units_cons, hq]
    show pos + 1 + (units text + (1 + 0)) = pos + units text + 2
    omega
  rw [tokenizeFrom_eq, hkind]
  simp only [takeWhile_quote cs htext]
  rw [hlen, List.append_cons, tokenizeFrom_append, hpos]

theorem tokenizeFrom_unclosed (hkind : charKind q = .quote) (htext : q ∉ text) :
    tokenizeFrom (q :: text) 0 pos =
      .ok [⟨.string, String.ofList text, pos + units text + 2⟩, ⟨.eof, "", pos + units text + 2⟩] := by
  have hpos : pos + 1 + units text + 1 = pos + units text + 2 := by omega
  rw [tokenizeFrom_eq, hkind]
  simp only [takeWhile_unclosed htext]
  rw [tokenizeFrom_past, hpos]
  rfl

theorem tokenizeFrom_number (hkind : charKind c = .digit) (htext : ∀ d ∈ text, isNumberChar d = true)
    (hcs : ∀ d ∈ cs.head?, isNumberChar d = false) : tokenizeFrom (c :: (text ++ cs)) 0 pos =
      (do .ok (⟨.number, String.ofList (c :: text), pos + (text.length + 1)⟩ ::
        (← tokenizeFrom cs 0 (pos + (text.length + 1))))) := by
  rw [tokenizeFrom_eq, hkind]
  simp only [takeWhile_append_of_head? htext hcs, List.length_cons, Nat.add_sub_cancel]
  rw [tokenizeFrom_behind pos (units_eq_length fun d hd => isNumberChar_units (htext d hd))]

theorem tokenizeFrom_ident (hkind : charKind c = .letter) (htext : ∀ d ∈ text, isIdentChar d = true)
    (hcs : ∀ d ∈ cs.head?, isIdentChar d = false) : tokenizeFrom (c :: (text ++ cs)) 0 pos =
      (do .ok (⟨.ident, String.ofList (c :: text), pos + (text.length + 1)⟩ ::
        (← tokenizeFrom cs 0 (pos + (text.length + 1))))) := by
  rw [tokenizeFrom_eq, hkind]
  simp only [takeWhile_append_of_head? htext hcs, List.length_cons, Nat.add_sub_cancel]
  rw [tokenizeFrom_behind pos (units_eq_length fun d hd => isIdentChar_units (htext d hd))]

end

/-- Induction over the lexemes of an input, to its end or to a character that starts none. -/
theorem lexeme_induction {P : Nat → List Char → Prop} (eof : ∀ pos, P pos [])
    (space : ∀ {pos c cs}, charKind c = .space → P (pos + charUnits c) cs → P pos (c :: cs))
    (mark : ∀ {pos c type cs}, charKind c = .mark type → P (pos + 1) cs → P pos (c :: cs))
    (op : ∀ {pos c text cs}, charKind c = .op → readOp (c :: (text ++ cs)) = c :: text →
      P (pos + (text.length + 1)) cs → P pos (c :: (text ++ cs)))
    (string : ∀ {pos q text cs}, charKind q = .quote → q ∉ text → P (pos + units text + 2) cs →
      P pos (q :: (text ++ q :: cs)))
    (unclosed : ∀ {pos q text}, charKind q = .quote → q ∉ text → P pos (q :: text))
    (number : ∀ {pos c text cs}, charKind c = .digit → (∀ d ∈ text, isNumberChar d = true) →
      (∀ d ∈ cs.head?, isNumberChar d = false) → P (pos + (text.length + 1)) cs → P pos (c :: (text ++ cs)))
    (ident : ∀ {pos c text cs}, charKind c = .letter → (∀ d ∈ text, isIdentChar d = true) →
      (∀ d ∈ cs.head?, isIdentChar d = false) → P (pos + (text.length + 1)) cs → P pos (c :: (text ++ cs)))
    (other : ∀ {pos c cs}, charKind c = .other → P pos (c :: cs)) : ∀ (pos : Nat) (cs : List Char), P pos cs := by
  suffices h : ∀ (n : Nat) {pos : Nat} {cs : List Char}, cs.length ≤ n → P pos cs from
    fun pos cs => h cs.length (Nat.le_refl _)
  intro n
  induction n with
  | zero =>
    intro pos cs hn
    rw [List.length_eq_zero_iff.1 (Nat.le_zero.1 hn)]
    exact eof pos
  | succ n ih =>
    intro pos cs hn
    cases cs with
    | nil => exact eof pos
    | cons c cs =>
      rw [List.length_cons, Nat.add_le_add_iff_right] at hn
      cases hkind : charKind c with
      | space => exact space hkind (ih hn)
      | mark type => exact mark hkind (ih hn)
      | op =>
        obtain ⟨text, rest, rfl, hop, -⟩ := readOp_eq c cs
        rw [List.length_append] at hn
        exact op hkind hop (ih (by omega))
      | quote =>
        by_cases hmem : c ∈ cs
        · obtain ⟨text, rest, rfl, htext⟩ := split_quote hmem
          simp only [List.length_append, List.length_cons] at hn
          exact string hkind htext (ih (by omega))
        · exact unclosed hkind hmem
      | digit =>
        have hsplit := List.takeWhile_append_dropWhile (p := isNumberChar) (l := cs)
        have hlen := congrArg List.length hsplit
        rw [List.length_append] at hlen
        rw [← hsplit]
        exact number hkind (fun d => List.mem_takeWhile_imp) head?_dropWhile_false (ih (by omega))
      | letter =>
        have hsplit := List.takeWhile_append_dropWhile (p := isIdentChar) (l := cs)
        have hlen := congrArg List.length hsplit
        rw [List.length_append] at hlen
        rw [← hsplit]
        exact ident hkind (fun d => List.mem_takeWhile_imp) head?_dropWhile_false (ih (by omega))
      | other => exact other hkind

theorem bind_cons_ok {x : Except Exception (List Token)} {t : Token} {ts : List Token}
    (h : (do .ok (t :: (← x))) = Except.ok ts) : ∃ us, x = .ok us ∧ ts = t :: us := by
  cases x with
  | error e => cases h
  | ok us =>
    cases h
    exact ⟨us, rfl, rfl⟩

/-- What the tokenizer returns is derived. -/
theorem tokenizeFrom_lexed (pos : Nat) (cs : List Char) :
    ∀ {ts : List Token}, tokenizeFrom cs 0 pos = .ok ts → Lexed pos cs ts := by
  induction pos, cs using lexeme_induction with
  | eof pos =>
    intro ts h
    cases h
    exact .eof
  | @space pos c cs hkind ih =>
    intro ts h
    rw [tokenizeFrom_space pos hkind] at h
    exact .space hkind (ih h)
  | @mark pos c type cs hkind ih =>
    intro ts h
    rw [tokenizeFrom_mark pos hkind] at h
    obtain ⟨us, hus, rfl⟩ := bind_cons_ok h
    exact .mark hkind (ih hus)
  | @op pos c text cs hkind hop ih =>
    intro ts h
    rw [tokenizeFrom_op pos hkind hop] at h
    obtain ⟨us, hus, rfl⟩ := bind_cons_ok h
    exact .op hkind hop (ih hus)
  | @string pos q text cs hkind htext ih =>
    intro ts h
    rw [tokenizeFrom_string pos hkind htext] at h
    obtain ⟨us, hus, rfl⟩ := bind_cons_ok h
    exact .string hkind htext (ih hus)
  | @unclosed pos q text hkind htext =>
    intro ts h
    rw [tokenizeFrom_unclosed pos hkind htext] at h
    cases h
    exact .unclosed hkind htext
  | @number pos c text cs hkind htext hcs ih =>
    intro ts h
    rw [tokenizeFrom_number pos hkind htext hcs] at h
    obtain ⟨us, hus, rfl⟩ := bind_cons_ok h
    exact .number hkind htext hcs (ih hus)
  | @ident pos c text cs hkind htext hcs ih =>
    intro ts h
    rw [tokenizeFrom_ident pos hkind htext hcs] at h
    obtain ⟨us, hus, rfl⟩ := bind_cons_ok h
    exact .ident hkind htext hcs (ih hus)
  | @other pos c cs hkind =>
    intro ts h
    rw [tokenizeFrom_eq, hkind] at h
    cases h

/-- What is derived is what the tokenizer returns. -/
theorem Lexed.tokenizeFrom {cs : List Char} {pos : Nat} {ts : List Token} (h : Lexed pos cs ts) :
    tokenizeFrom cs 0 pos = .ok ts := by
  induction h with
  | eof => rfl
  | space hkind _ ih => rw [tokenizeFrom_space _ hkind, ih]
  | mark hkind _ ih =>
    rw [tokenizeFrom_mark _ hkind, ih]
    rfl
  | op hkind hop _ ih =>
    rw [tokenizeFrom_op _ hkind hop, ih]
    rfl
  | string hkind htext _ ih =>
    rw [tokenizeFrom_string _ hkind htext, ih]
    rfl
  | unclosed hkind htext => exact tokenizeFrom_unclosed _ hkind htext
  | number hkind htext hcs _ ih =>
    rw [tokenizeFrom_number _ hkind htext hcs, ih]
    rfl
  | ident hkind htext hcs _ ih =>
    rw [tokenizeFrom_ident _ hkind htext hcs, ih]
    rfl

theorem tokenize_iff {input : String} {ts : List Token} : tokenize input = .ok ts ↔ Lexed 0 input.toList ts :=
  ⟨tokenizeFrom_lexed 0 input.toList, Lexed.tokenizeFrom⟩

/-! ## Names -/

theorem isIdentStart_not_op {c : Char} (h : isIdentStart c = true) : isOpChar c = false := by
  rw [Bool.eq_false_iff]
  intro hop
  simp only [isOpChar, List.mem_cons, List.not_mem_nil, or_false, decide_eq_true_eq] at hop
  rcases hop with rfl | rfl | rfl | rfl | rfl | rfl | rfl | rfl | rfl | rfl <;> revert h <;> decide

theorem charKind_of_isIdentStart {c : Char} (h : isIdentStart c = true) : charKind c = .letter := by
  have hrange := isIdentStart_toNat h
  have hspace : Number.isSpace c = false := by
    simp only [Number.isSpace, Bool.or_eq_false_iff, Bool.and_eq_false_iff, decide_eq_false_iff_not]
    omega
  have hne : ∀ d : Char, d.toNat < 65 → c ≠ d := by
    rintro d hd rfl
    omega
  have hop : isOpChar c = false := isIdentStart_not_op h
  have hdigit : Number.isDigit c = false := by
    rw [Bool.eq_false_iff]
    intro hd
    have := isDigit_toNat hd
    omega
  simp [charKind, hspace, hop, hdigit, h, hne '(' (by decide), hne ')' (by decide), hne ',' (by decide),
    hne '"' (by decide), hne '\'' (by decide)]

/-- A name is one token. -/
theorem tokenize_name {name : String} {c : Char} {text : List Char} (hname : name.toList = c :: text)
    (hc : isIdentStart c = true) (htext : ∀ d ∈ text, isIdentChar d = true) :
    tokenize name = .ok [⟨.ident, name, 0 + (text.length + 1)⟩, ⟨.eof, "", 0 + (text.length + 1)⟩] := by
  have hlexed := Lexed.ident (charKind_of_isIdentStart hc) htext (by simp) (@Lexed.eof (0 + (text.length + 1)))
  rw [List.append_nil, ← hname, String.ofList_toList] at hlexed
  exact tokenize_iff.2 hlexed

/-! ## The texts of tokens -/

/-- A text that begins like an operator is an operator or a string. -/
def Token.Spelled (t : Token) : Prop := ∀ c ∈ t.value.toList.head?, isOpChar c = true → t.type = .op ∨ t.type = .string

theorem isDigit_not_op {c : Char} (h : Number.isDigit c = true) : isOpChar c = false := by
  rw [Bool.eq_false_iff]
  intro hop
  simp only [isOpChar, List.mem_cons, List.not_mem_nil, or_false, decide_eq_true_eq] at hop
  rcases hop with rfl | rfl | rfl | rfl | rfl | rfl | rfl | rfl | rfl | rfl <;> revert h <;> decide

theorem charKind_mark {c : Char} {type : TokenType} (h : charKind c = .mark type) :
    c = '(' ∧ type = .lparen ∨ c = ')' ∧ type = .rparen ∨ c = ',' ∧ type = .comma := by
  have hspec := charKind_spec c
  rwa [h] at hspec

theorem Token.spelled_of_head {type : TokenType} {c : Char} {text : List Char} {pos : Nat} (h : isOpChar c = false) :
    Token.Spelled ⟨type, String.ofList (c :: text), pos⟩ := by
  intro d hd hop
  simp only [String.toList_ofList, List.head?_cons, Option.mem_def, Option.some.injEq] at hd
  rw [← hd, h] at hop
  cases hop

/-- The tokens end with `eof`, and what is in front of it has a text that the tokenizer reads. -/
theorem Lexed.front {cs : List Char} {pos : Nat} {ts : List Token} (h : Lexed pos cs ts) : ∃ front pos',
    ts = front ++ [⟨.eof, "", pos'⟩] ∧ ∀ t ∈ front, t.type ≠ .eof ∧ t.Spelled := by
  have cons : ∀ {t : Token} {ts : List Token}, t.type ≠ .eof ∧ t.Spelled →
      (∃ front pos', ts = front ++ [⟨.eof, "", pos'⟩] ∧ ∀ t ∈ front, t.type ≠ .eof ∧ t.Spelled) →
      ∃ front pos', t :: ts = front ++ [⟨.eof, "", pos'⟩] ∧ ∀ t ∈ front, t.type ≠ .eof ∧ t.Spelled := by
    rintro t _ ht ⟨front, pos', rfl, hfront⟩
    exact ⟨t :: front, pos', rfl, List.forall_mem_cons.2 ⟨ht, hfront⟩⟩
  induction h with
  | @eof pos => exact ⟨[], pos, rfl, by simp⟩
  | space _ _ ih => exact ih
  | mark hkind _ ih =>
    refine cons ?_ ih
    rcases charKind_mark hkind with ⟨rfl, rfl⟩ | ⟨rfl, rfl⟩ | ⟨rfl, rfl⟩ <;>
      exact ⟨by simp, Token.spelled_of_head (by decide)⟩
  | op _ _ _ ih => exact cons ⟨by simp, fun _ _ _ => .inl rfl⟩ ih
  | string _ _ _ ih => exact cons ⟨by simp, fun _ _ _ => .inr rfl⟩ ih
  | @unclosed pos _ text _ _ =>
    exact cons ⟨by simp, fun _ _ _ => .inr rfl⟩ ⟨[], pos + units text + 2, rfl, by simp⟩
  | number hkind _ _ _ ih => exact cons ⟨by simp, Token.spelled_of_head (isDigit_not_op (charKind_digit hkind))⟩ ih
  | ident hkind _ _ _ ih =>
    exact cons ⟨by simp, Token.spelled_of_head (isIdentStart_not_op (charKind_letter hkind))⟩ ih

end Jobflow.Expressions
