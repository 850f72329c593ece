import Jobflow.Expressions.Meaning
import Jobflow.Expressions.Scan
import Jobflow.Expressions.Grammar

/-!
# Expressions that begin with a name

What comes after a name at the front of an input decides how it is read: nothing but white space, a binary operator, an
opening parenthesis, or something no expression goes on with (`Spells.continues`).
-/

namespace Jobflow.Expressions

open Js

/-- The text is an expression of the grammar, and this is its tree. -/
def Spells (text : String) (e : ExprNode) : Prop :=
  ∃ front pos, Lexed 0 text.toList (front ++ [⟨.eof, "", pos⟩]) ∧ Reads .or e front

theorem parse_eq_ok_iff {text : String} {e : ExprNode} : parse text = .ok e ↔ Spells text e := by
  simp only [parse_iff, tokenize_iff, Spells]

theorem Spells.unique {text : String} {e e' : ExprNode} (h : Spells text e) (h' : Spells text e') : e = e' := by
  have hparse := parse_eq_ok_iff.2 h
  rw [parse_eq_ok_iff.2 h'] at hparse
  exact (Except.ok.inj hparse).symm

/-! ## Tokens -/

theorem Derives.ne_nil {l : Level} {e : ExprNode} {ts : List Token} : Derives l e ts → ts ≠ []
  | .tighter _ h => h.ne_nil
  | .left _ _ _ _ | .comparison _ _ _ => by simp
  | .not _ _ | .neg _ _ | .number _ | .string _ | .keyword _ _ | .ident _ _ | .call _ _ _ _ _ | .paren _ _ _ => by simp

/-- The operators that take two operands. -/
def binaryOperators : List String :=
  Level.or.ops ++ Level.and.ops ++ Level.comparison.ops ++ Level.additive.ops ++ Level.multiplicative.ops

theorem Level.ops_subset (l : Level) : ∀ op ∈ l.ops, op ∈ binaryOperators := by
  cases l <;> decide

/-- How a tree goes on behind the name that its tokens begin with. A call throws if there is no function of that name,
wherever in the tree it stands. -/
inductive Continues (ctx : Record) (name : String) (e : ExprNode) : List Token → Prop where
  | ends : Continues ctx name e []
  | operator {op : Token} {ts : List Token} (h : op.IsOp binaryOperators) : Continues ctx name e (op :: ts)
  | call {opening : Token} {ts : List Token} (h : opening.type = .lparen)
      (hthrows : name ∉ callableNames → Throws ctx e) : Continues ctx name e (opening :: ts)

/-- Behind the left operand of a binary operator. -/
theorem Continues.binary {ctx : Record} {name : String} {a b : ExprNode} {op : Token} {pre post : List Token}
    (hop : op.IsOp binaryOperators) (h : Continues ctx name a pre) :
    Continues ctx name (.binary op.value a b) (pre ++ op :: post) := by
  cases h with
  | ends => exact .operator hop
  | operator h => exact .operator h
  | call h hthrows =>
    refine .call h fun hname => ?_
    rw [Throws]
    exact .inl (hthrows hname)

theorem Derives.continues (ctx : Record) {l : Level} {e : ExprNode} {ts : List Token} : Derives l e ts →
    ∀ (t : Token) (rest : List Token), ts = t :: rest → t.type = .ident → Continues ctx t.value e rest
  | .tighter _ h, t, rest, hts, ht => h.continues ctx t rest hts ht
  | .left _ hop ha _, t, rest, hts, ht | .comparison hop ha _, t, rest, hts, ht => by
    have ih := ha.continues ctx
    obtain ⟨hnil, -⟩ | ⟨pre, hpre, rfl⟩ := List.append_eq_cons_iff.1 hts
    · exact absurd hnil ha.ne_nil
    · exact (ih t pre hpre ht).binary ⟨hop.1, Level.ops_subset _ _ hop.2⟩
  | .not hop _, t, rest, hts, ht | .neg hop _, t, rest, hts, ht => by
    obtain ⟨rfl, -⟩ := List.cons.inj hts
    rw [hop.1] at ht
    cases ht
  | .number h, t, rest, hts, ht | .string h, t, rest, hts, ht => by
    obtain ⟨rfl, -⟩ := List.cons.inj hts
    rw [h] at ht
    cases ht
  | .keyword _ _, t, rest, hts, ht | .ident _ _, t, rest, hts, ht => by
    obtain ⟨-, rfl⟩ := List.cons.inj hts
    exact .ends
  | .call _ _ hopening _ _, t, rest, hts, ht => by
    obtain ⟨rfl, rfl⟩ := List.cons.inj hts
    refine .call hopening fun hname => ?_
    rw [Throws]
    exact .inr (.inl hname)
  | .paren hopening _ _, t, rest, hts, ht => by
    obtain ⟨rfl, -⟩ := List.cons.inj hts
    rw [hopening] at ht
    cases ht

/-- A single operand is an expression of every level. -/
theorem Derives.of_primary {e : ExprNode} {ts : List Token} (h : Derives .primary e ts) : Derives .or e ts :=
  .tighter (by decide) (.tighter (by decide) (.tighter (by decide) (.tighter (by decide) (.tighter (by decide)
    (.tighter (by decide) h)))))

/-! ## Characters -/

section
variable {word spaces cs : List Char} {c : Char} {pos : Nat} {ts : List Token}

theorem charKind_space (h : Number.isSpace c = true) : charKind c = .space := by
  rw [charKind, if_pos h]

theorem tokenizeFrom_spaces (h : ∀ d ∈ spaces, Number.isSpace d = true) (cs : List Char) (pos : Nat) :
    tokenizeFrom (spaces ++ cs) 0 pos = tokenizeFrom cs 0 (pos + units spaces) := by
  induction spaces generalizing pos with
  | nil => rfl
  | cons d spaces ih =>
    obtain ⟨hd, hspaces⟩ := List.forall_mem_cons.1 h
    rw [List.cons_append, tokenizeFrom_space pos (charKind_space hd), ih hspaces, units_cons, Nat.add_assoc]

/-- What the first token says of the first character. -/
theorem Lexed.first (h : Lexed pos (c :: cs) ts) (hspace : Number.isSpace c = false) :
    ∃ t us, ts = t :: us ∧ t.type ≠ .eof ∧ (t.type = .op → t.value = String.ofList (readOp (c :: cs))) := by
  cases h with
  | space hkind _ =>
    have := charKind_spec c
    rw [hkind] at this
    rw [hspace] at this
    cases this
  | mark hkind _ =>
    refine ⟨_, _, rfl, ?_⟩
    rcases charKind_mark hkind with ⟨-, rfl⟩ | ⟨-, rfl⟩ | ⟨-, rfl⟩ <;> simp
  | op hkind hop _ => exact ⟨_, _, rfl, by simp, fun _ => by rw [hop]⟩
  | string _ _ _ | unclosed _ _ | number _ _ _ _ | ident _ _ _ _ => exact ⟨_, _, rfl, by simp, by simp⟩

/-- A name at the front is the first token, and the white space behind it is passed over. -/
theorem lexed_leading (hc : isIdentStart c = true) (hword : ∀ d ∈ word, isIdentChar d = true)
    (hspaces : ∀ d ∈ spaces, Number.isSpace d = true) (hend : ∀ d ∈ (spaces ++ cs).head?, isIdentChar d = false)
    (h : Lexed 0 (c :: (word ++ (spaces ++ cs))) ts) :
    ∃ t pos us, ts = t :: us ∧ t.type = .ident ∧ t.value = String.ofList (c :: word) ∧ Lexed pos cs us := by
  have htokens := h.tokenizeFrom
  rw [tokenizeFrom_ident 0 (charKind_of_isIdentStart hc) hword hend, tokenizeFrom_spaces hspaces] at htokens
  obtain ⟨us, hus, rfl⟩ := bind_cons_ok htokens
  exact ⟨_, _, us, rfl, rfl, rfl, tokenizeFrom_lexed _ _ hus⟩

variable {text : String} {e : ExprNode}

/-- **An expression goes on behind its first name** with nothing, an operator or the arguments of a call. -/
theorem Spells.continues (ctx : Record) (htext : text.toList = c :: (word ++ (spaces ++ cs)))
    (hc : isIdentStart c = true) (hword : ∀ d ∈ word, isIdentChar d = true)
    (hspaces : ∀ d ∈ spaces, Number.isSpace d = true) (hend : ∀ d ∈ (spaces ++ cs).head?, isIdentChar d = false)
    (h : Spells text e) : ∃ ts pos pos', Lexed pos cs (ts ++ [⟨.eof, "", pos'⟩]) ∧
      Continues ctx (String.ofList (c :: word)) e ts := by
  obtain ⟨front, pos', hlexed, hreads⟩ := h
  rw [htext] at hlexed
  obtain ⟨t, pos, us, hus, htype, hvalue, hrest⟩ := lexed_leading hc hword hspaces hend hlexed
  cases front with
  | nil => exact absurd rfl hreads.derives.ne_nil
  | cons t' front =>
    obtain ⟨rfl, rfl⟩ := List.cons.inj hus
    exact ⟨front, pos, pos', hrest, hvalue ▸ hreads.derives.continues ctx _ _ rfl htype⟩

/-- Where it goes on with something else than one of these operators, its first name is called. -/
theorem Spells.throws_of_leading (ctx : Record) {d : Char} (htext : text.toList = c :: (word ++ (spaces ++ d :: cs)))
    (hc : isIdentStart c = true) (hword : ∀ d ∈ word, isIdentChar d = true)
    (hspaces : ∀ d ∈ spaces, Number.isSpace d = true) (hend : ∀ e ∈ (spaces ++ d :: cs).head?, isIdentChar e = false)
    (hspace : Number.isSpace d = false) (hop : String.ofList (readOp (d :: cs)) ∉ binaryOperators)
    (hname : String.ofList (c :: word) ∉ callableNames) (h : Spells text e) : Throws ctx e := by
  obtain ⟨ts, pos, pos', hlexed, hcontinues⟩ := h.continues ctx htext hc hword hspaces hend
  obtain ⟨t, us, hus, heof, hfirst⟩ := hlexed.first hspace
  cases hcontinues with
  | ends =>
    obtain ⟨rfl, -⟩ := List.cons.inj hus
    exact absurd rfl heof
  | operator hbinary =>
    obtain ⟨rfl, -⟩ := List.cons.inj hus
    rw [← hfirst hbinary.1] at hop
    exact absurd hbinary.2 hop
  | call _ hthrows => exact hthrows hname

/-- A name with white space behind it. -/
theorem spells_name (htext : text.toList = c :: (word ++ spaces)) (hc : isIdentStart c = true)
    (hword : ∀ d ∈ word, isIdentChar d = true) (hspaces : ∀ d ∈ spaces, Number.isSpace d = true)
    (hend : ∀ d ∈ spaces.head?, isIdentChar d = false) (hkeyword : keyword (String.ofList (c :: word)) = none) :
    Spells text (.ident (String.ofList (c :: word))) := by
  have htokens := tokenizeFrom_ident 0 (charKind_of_isIdentStart hc) hword hend
  have hspace := tokenizeFrom_spaces hspaces [] (0 + (word.length + 1))
  rw [List.append_nil] at hspace
  rw [hspace, ← htext] at htokens
  have hprimary := @Derives.ident ⟨.ident, String.ofList (c :: word), 0 + (word.length + 1)⟩ rfl hkeyword
  exact ⟨[_], _, tokenizeFrom_lexed 0 _ htokens, hprimary.of_primary, by simp [Token.Plain]⟩

end

/-! ## Names joined by operators -/

/-- A name that is no literal. -/
structure IsName (name : String) : Prop where
  start : ∃ c word, name.toList = c :: word ∧ isIdentStart c = true ∧ ∀ d ∈ word, isIdentChar d = true
  keyword : keyword name = none

section
variable {text name op part : String} {pos : Nat} {cs : List Char} {ts : List Token}

theorem IsName.derives (h : IsName name) (pos : Nat) : Derives .primary (.ident name) [⟨.ident, name, pos⟩] :=
  @Derives.ident ⟨.ident, name, pos⟩ rfl h.keyword

/-- The name is a token, whatever comes behind it that does not belong to it. -/
theorem IsName.lexed (h : IsName name) (hend : ∀ d ∈ cs.head?, isIdentChar d = false)
    (hcs : Lexed (pos + name.toList.length) cs ts) :
    Lexed pos (name.toList ++ cs) (⟨.ident, name, pos + name.toList.length⟩ :: ts) := by
  obtain ⟨c, word, hchars, hc, hword⟩ := h.start
  rw [hchars, List.length_cons] at hcs
  have hlexed := Lexed.ident (charKind_of_isIdentStart hc) hword hend hcs
  rwa [← List.cons_append, ← hchars, String.ofList_toList, ← List.length_cons, ← hchars] at hlexed

/-- Two operands and the operator between them. -/
theorem Derives.operation {a b : ExprNode} {t : Token} {pre post : List Token} (ht : t.IsOp binaryOperators)
    (ha : Derives .primary a pre) (hb : Derives .primary b post) :
    Derives .or (.binary t.value a b) (pre ++ t :: post) := by
  have ha₁ : Derives .multiplicative a pre := .tighter (by decide) (.tighter (by decide) ha)
  have hb₁ : Derives .unary b post := .tighter (by decide) hb
  have ha₂ : Derives .additive a pre := .tighter (by decide) ha₁
  have hb₂ : Derives .multiplicative b post := .tighter (by decide) hb₁
  have ha₃ : Derives .and a pre := .tighter (by decide) (.tighter (by decide) ha₂)
  have hb₃ : Derives .comparison b post := .tighter (by decide) (.tighter (by decide) hb₂)
  have ha₄ : Derives .or a pre := .tighter (by decide) ha₃
  have hb₄ : Derives .and b post := .tighter (by decide) hb₃
  obtain ⟨htype, hop⟩ := ht
  simp only [binaryOperators, List.mem_append] at hop
  rcases hop with (((hop | hop) | hop) | hop) | hop
  · exact .left rfl ⟨htype, hop⟩ ha₄ hb₄
  · exact .tighter (by decide) (.left rfl ⟨htype, hop⟩ ha₃ hb₃)
  · exact .tighter (by decide) (.tighter (by decide) (.comparison ⟨htype, hop⟩ ha₂ (.tighter (by decide) hb₂)))
  · exact .tighter (by decide) (.tighter (by decide) (.tighter (by decide) (.left rfl ⟨htype, hop⟩ ha₂ hb₂)))
  · exact .tighter (by decide) (.tighter (by decide) (.tighter (by decide) (.tighter (by decide)
      (.left rfl ⟨htype, hop⟩ ha₁ hb₁))))

/-- An operator in front of a name is read as it is. -/
theorem readOp_binary (hop : op ∈ binaryOperators) {c : Char} (hc : isIdentStart c = true) (word : List Char) :
    readOp (op.toList ++ c :: word) = op.toList := by
  have hequals : c ≠ '=' := by
    rintro rfl
    revert hc
    decide
  simp only [binaryOperators, Level.ops, List.cons_append, List.nil_append, List.mem_cons, List.not_mem_nil,
    or_false] at hop
  rcases hop with rfl | rfl | rfl | rfl | rfl | rfl | rfl | rfl | rfl | rfl | rfl | rfl <;> simp [readOp, hequals]

theorem Lexed.binary (hop : op ∈ binaryOperators) {c : Char} (hc : isIdentStart c = true) {word : List Char}
    (hcs : Lexed (pos + op.toList.length) (c :: word) ts) :
    Lexed pos (op.toList ++ c :: word) (⟨.op, op, pos + op.toList.length⟩ :: ts) := by
  have hkind : ∀ op ∈ binaryOperators, op.toList.head?.all (fun d => charKind d = .op) = true := by decide
  have hread := readOp_binary hop hc word
  cases hchars : op.toList with
  | nil => exact absurd hop (by rw [String.toList_eq_nil_iff.1 hchars]; decide)
  | cons d sign =>
    rw [hchars] at hread hcs
    have hd := (Option.all_eq_true _ _).1 (hkind op hop) d (by rw [hchars]; rfl)
    have hlexed := Lexed.op (of_decide_eq_true hd) hread hcs
    rwa [← hchars, String.ofList_toList] at hlexed

theorem head?_binary (hop : op ∈ binaryOperators) (cs : List Char) :
    ∀ d ∈ (op.toList ++ cs).head?, isIdentChar d = false := by
  have hsign : ∀ op ∈ binaryOperators, op.toList ≠ [] ∧ op.toList.head?.all (fun d => !isIdentChar d) = true := by
    decide
  obtain ⟨hne, hhead⟩ := hsign op hop
  rw [List.head?_append_of_ne_nil _ hne]
  intro d hd
  simpa using (Option.all_eq_true _ _).1 hhead d hd

theorem spells_operation (htext : text.toList = name.toList ++ (op.toList ++ part.toList)) (hname : IsName name)
    (hop : op ∈ binaryOperators) (hpart : IsName part) : Spells text (.binary op (.ident name) (.ident part)) := by
  obtain ⟨c, word, hchars, hc, -⟩ := hpart.start
  have hend := hpart.lexed (by simp) (@Lexed.eof (0 + name.toList.length + op.toList.length + part.toList.length))
  rw [List.append_nil, hchars] at hend
  have hlexed := hname.lexed (head?_binary hop _) (.binary hop hc hend)
  rw [← hchars, ← htext] at hlexed
  have hderives := Derives.operation (t := ⟨.op, op, 0 + name.toList.length + op.toList.length⟩) ⟨rfl, hop⟩
    (hname.derives (0 + name.toList.length)) (hpart.derives (0 + name.toList.length + op.toList.length +
      part.toList.length))
  refine ⟨_ :: _ :: [_], _, hlexed, hderives, ?_⟩
  simp [Token.Plain]

end

/-- What stands behind a name in a hyphenated one. -/
def hyphenated (parts : List String) : List Char := parts.flatMap fun part => '-' :: part.toList

/-- A hyphen is a minus sign. -/
def subtractAll (e : ExprNode) (parts : List String) : ExprNode :=
  parts.foldl (fun e part => .binary "-" e (.ident part)) e

theorem head?_hyphenated {parts : List String} : ∀ d ∈ (hyphenated parts).head?, isIdentChar d = false := by
  cases parts with
  | nil => simp [hyphenated]
  | cons part parts =>
    rintro d ⟨⟩
    decide

theorem lexed_hyphenated {parts : List String} (hparts : ∀ part ∈ parts, IsName part) (pos : Nat) :
    ∃ ts pos', Lexed pos (hyphenated parts) (ts ++ [⟨.eof, "", pos'⟩]) ∧ (∀ t ∈ ts, t.Plain) ∧
      ∀ {e pre}, Derives .additive e pre → Derives .additive (subtractAll e parts) (pre ++ ts) := by
  induction parts generalizing pos with
  | nil => exact ⟨[], pos, .eof, by simp, fun h => by simpa [subtractAll] using h⟩
  | cons part parts ih =>
    obtain ⟨hpart, hparts⟩ := List.forall_mem_cons.1 hparts
    obtain ⟨c, word, hchars, hc, -⟩ := hpart.start
    obtain ⟨ts, pos', hlexed, hplain, hderives⟩ := ih hparts (pos + "-".toList.length + part.toList.length)
    let minus : Token := ⟨.op, "-", pos + "-".toList.length⟩
    let operand : Token := ⟨.ident, part, pos + "-".toList.length + part.toList.length⟩
    have hminus : minus.IsOp Level.additive.ops := ⟨rfl, by simp [minus, Level.ops]⟩
    have hoperand : Derives .multiplicative (.ident part) [operand] :=
      .tighter (by decide) (.tighter (by decide) (hpart.derives _))
    have htokens := hpart.lexed head?_hyphenated hlexed
    rw [hchars, List.cons_append] at htokens
    have htokens' := Lexed.binary (by decide : "-" ∈ binaryOperators) hc htokens
    rw [← List.cons_append, ← hchars] at htokens'
    refine ⟨minus :: operand :: ts, pos', htokens', ?_, fun {e pre} hpre => ?_⟩
    · simp only [List.forall_mem_cons]
      exact ⟨by simp [minus, Token.Plain], by simp [operand, Token.Plain], hplain⟩
    · have hstep := hderives (.left rfl hminus hpre hoperand)
      rw [List.append_assoc] at hstep
      exact hstep

/-- A hyphenated name is a difference. -/
theorem spells_hyphenated {text name : String} {parts : List String}
    (htext : text.toList = name.toList ++ hyphenated parts) (hname : IsName name)
    (hparts : ∀ part ∈ parts, IsName part) : Spells text (subtractAll (.ident name) parts) := by
  obtain ⟨ts, pos', hlexed, hplain, hderives⟩ := lexed_hyphenated hparts (0 + name.toList.length)
  have htokens := hname.lexed head?_hyphenated hlexed
  rw [← htext] at htokens
  have hadditive := hderives (.tighter (by decide) (.tighter (by decide) (.tighter (by decide)
    (hname.derives (0 + name.toList.length)))))
  refine ⟨_ :: ts, pos', htokens, .tighter (by decide) (.tighter (by decide) (.tighter (by decide) hadditive)), ?_⟩
  exact List.forall_mem_cons.2 ⟨by simp [Token.Plain], hplain⟩

theorem sub_nan (x : Number) : x.sub .nan = .nan := by
  cases x <;> rfl

/-- It throws if its first name has no number, and is NaN if the others lead nowhere. -/
theorem meaning_hyphenated {ctx : Record} {parts : List String}
    (hparts : ∀ part ∈ parts, resolveIdent part ctx = .undefined) (hne : parts ≠ []) (e : ExprNode) :
    (Throws ctx (subtractAll e parts) ↔ Throws ctx e ∨ (value ctx e).NoText) ∧
      value ctx (subtractAll e parts) = .number .nan := by
  induction parts generalizing e with
  | nil => exact absurd rfl hne
  | cons part parts ih =>
    obtain ⟨hpart, hparts⟩ := List.forall_mem_cons.1 hparts
    have hvalue : value ctx (.binary "-" e (.ident part)) = .number .nan := by
      rw [value, value, hpart, operate]
      exact congrArg Value.number (sub_nan _)
    have hthrows : Throws ctx (.binary "-" e (.ident part)) ↔ Throws ctx e ∨ (value ctx e).NoText := by
      rw [Throws, Throws, value, hpart]
      simp [Refuses]
    cases parts with
    | nil => exact ⟨hthrows, hvalue⟩
    | cons part' parts =>
      obtain ⟨ihthrows, ihvalue⟩ := ih hparts (by simp) (.binary "-" e (.ident part))
      rw [hvalue, hthrows] at ihthrows
      exact ⟨ihthrows.trans (by simp), ihvalue⟩

end Jobflow.Expressions
