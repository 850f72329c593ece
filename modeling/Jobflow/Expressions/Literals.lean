import Mathlib.Data.List.Forall2
import Jobflow.Expressions.Grammar
import Jobflow.Expressions.Scan

/-!
# Constraint expressions: literals with the text of an operator

`parseUnary` recognises `!` and `-` by the token's text, whatever its type. A string literal with one of these two texts
is then consumed as an operator, which it is not, and the expression is rejected; with any other text it is an operand.
`literals_accepted_iff` says that this is the only derivable input that is rejected, and when two texts of a literal are
told apart.
-/

namespace Jobflow.Expressions

open Js

/-! ## Shapes -/

mutual

/-- The tree without the contents of its string literals. -/
def ExprNode.shape : ExprNode → ExprNode
  | .literal (.string _) => .literal (.string "")
  | .literal value => .literal value
  | .ident name => .ident name
  | .unary op arg => .unary op arg.shape
  | .binary op left right => .binary op left.shape right.shape
  | .call name args => .call name (shapes args)

def shapes : List ExprNode → List ExprNode
  | [] => []
  | e :: es => e.shape :: shapes es

end

theorem shapes_append (es : List ExprNode) (e : ExprNode) : shapes (es ++ [e]) = shapes es ++ [e.shape] := by
  induction es with
  | nil => rfl
  | cons e' es ih => simp [shapes, ih]

/-- The same token, up to its position and the content of a string. -/
structure Token.Alike (t t' : Token) : Prop where
  type : t.type = t'.type
  value : t.type ≠ .string → t.value = t'.value

theorem forall₂_append_inv {α β : Type} {R : α → β → Prop} {l : List α} {a b : List β}
    (h : List.Forall₂ R l (a ++ b)) : ∃ a' b', l = a' ++ b' ∧ List.Forall₂ R a' a ∧ List.Forall₂ R b' b :=
  ⟨_, _, (List.take_append_drop a.length l).symm, List.forall₂_take_append l a b h, List.forall₂_drop_append l a b h⟩

theorem Token.Alike.isOp {t t' : Token} {ops : List String} (h : t'.Alike t) (hop : t.IsOp ops) : t'.IsOp ops := by
  have htype : t'.type = .op := h.type.trans hop.1
  refine ⟨htype, ?_⟩
  rw [h.value (by rw [htype]; decide)]
  exact hop.2

mutual

/-- A derivation goes through whatever the string literals contain. -/
theorem Derives.alike {l : Level} {e : ExprNode} {ts ts' : List Token} : Derives l e ts →
    List.Forall₂ Token.Alike ts' ts → ∃ e', Derives l e' ts' ∧ e'.shape = e.shape
  | .tighter hl h, hts => by
    obtain ⟨e', he', hshape⟩ := h.alike hts
    exact ⟨e', .tighter hl he', hshape⟩
  | .left hl hop ha hb, hts => by
    obtain ⟨pre, rest, rfl, hpre, hrest⟩ := forall₂_append_inv hts
    obtain ⟨op, post, hop', hpost, rfl⟩ := List.forall₂_cons_right_iff.1 hrest
    obtain ⟨a', ha', hshape⟩ := ha.alike hpre
    obtain ⟨b', hb', hshape'⟩ := hb.alike hpost
    refine ⟨_, .left hl (hop'.isOp hop) ha' hb', ?_⟩
    rw [ExprNode.shape, ExprNode.shape, hshape, hshape', hop'.value (by rw [hop'.type, hop.1]; decide)]
  | .comparison hop ha hb, hts => by
    obtain ⟨pre, rest, rfl, hpre, hrest⟩ := forall₂_append_inv hts
    obtain ⟨op, post, hop', hpost, rfl⟩ := List.forall₂_cons_right_iff.1 hrest
    obtain ⟨a', ha', hshape⟩ := ha.alike hpre
    obtain ⟨b', hb', hshape'⟩ := hb.alike hpost
    refine ⟨_, .comparison (hop'.isOp hop) ha' hb', ?_⟩
    rw [ExprNode.shape, ExprNode.shape, hshape, hshape', hop'.value (by rw [hop'.type, hop.1]; decide)]
  | .not hop h, hts => by
    obtain ⟨op, rest, hop', hrest, rfl⟩ := List.forall₂_cons_right_iff.1 hts
    obtain ⟨e', he', hshape⟩ := h.alike hrest
    exact ⟨_, .not (hop'.isOp hop) he', by rw [ExprNode.shape, ExprNode.shape, hshape]⟩
  | .neg hop h, hts => by
    obtain ⟨op, rest, hop', hrest, rfl⟩ := List.forall₂_cons_right_iff.1 hts
    obtain ⟨e', he', hshape⟩ := h.alike hrest
    exact ⟨_, .neg (hop'.isOp hop) he', by rw [ExprNode.shape, ExprNode.shape, hshape]⟩
  | .number ht, hts => by
    obtain ⟨t, rest, ht', hrest, rfl⟩ := List.forall₂_cons_right_iff.1 hts
    cases hrest
    refine ⟨_, .number (ht'.type.trans ht), ?_⟩
    rw [ht'.value (by rw [ht'.type, ht]; decide)]
  | .string ht, hts => by
    obtain ⟨t, rest, ht', hrest, rfl⟩ := List.forall₂_cons_right_iff.1 hts
    cases hrest
    exact ⟨_, .string (ht'.type.trans ht), rfl⟩
  | .keyword ht hkeyword, hts => by
    obtain ⟨t, rest, ht', hrest, rfl⟩ := List.forall₂_cons_right_iff.1 hts
    cases hrest
    refine ⟨_, .keyword (ht'.type.trans ht) ?_, rfl⟩
    rw [ht'.value (by rw [ht'.type, ht]; decide), hkeyword]
  | .ident ht hkeyword, hts => by
    obtain ⟨t, rest, ht', hrest, rfl⟩ := List.forall₂_cons_right_iff.1 hts
    cases hrest
    have hvalue := ht'.value (by rw [ht'.type, ht]; decide)
    exact ⟨_, .ident (ht'.type.trans ht) (by rw [hvalue, hkeyword]), by rw [hvalue]⟩
  | .call ht hkeyword hopening hargs hclosing, hts => by
    obtain ⟨t, rest, ht', hrest, rfl⟩ := List.forall₂_cons_right_iff.1 hts
    obtain ⟨opening, rest₁, hopening', hrest₁, rfl⟩ := List.forall₂_cons_right_iff.1 hrest
    obtain ⟨args, rest₂, rfl, hargs', hrest₂⟩ := forall₂_append_inv hrest₁
    obtain ⟨closing, rest₃, hclosing', hrest₃, rfl⟩ := List.forall₂_cons_right_iff.1 hrest₂
    cases hrest₃
    obtain ⟨args', hargs, hshape⟩ := hargs.alike hargs'
    have hvalue := ht'.value (by rw [ht'.type, ht]; decide)
    refine ⟨_, .call (ht'.type.trans ht) (by rw [hvalue, hkeyword]) (hopening'.type.trans hopening) hargs
      (hclosing'.type.trans hclosing), ?_⟩
    rw [ExprNode.shape, ExprNode.shape, hshape, hvalue]
  | .paren hopening h hclosing, hts => by
    obtain ⟨opening, rest, hopening', hrest, rfl⟩ := List.forall₂_cons_right_iff.1 hts
    obtain ⟨inner, rest₁, rfl, hinner, hrest₁⟩ := forall₂_append_inv hrest
    obtain ⟨closing, rest₂, hclosing', hrest₂, rfl⟩ := List.forall₂_cons_right_iff.1 hrest₁
    cases hrest₂
    obtain ⟨e', he', hshape⟩ := h.alike hinner
    exact ⟨e', .paren (hopening'.type.trans hopening) he' (hclosing'.type.trans hclosing), hshape⟩

theorem Arguments.alike {args : List ExprNode} {ts ts' : List Token} : Arguments args ts →
    List.Forall₂ Token.Alike ts' ts → ∃ args', Arguments args' ts' ∧ shapes args' = shapes args
  | .none, hts => by
    cases hts
    exact ⟨[], .none, rfl⟩
  | .first h, hts => by
    obtain ⟨e', he', hshape⟩ := h.alike hts
    exact ⟨[e'], .first he', by simp [shapes, hshape]⟩
  | .more hargs hne hcomma h, hts => by
    obtain ⟨pre, rest, rfl, hpre, hrest⟩ := forall₂_append_inv hts
    obtain ⟨comma, post, hcomma', hpost, rfl⟩ := List.forall₂_cons_right_iff.1 hrest
    obtain ⟨args', hargs', hshape⟩ := hargs.alike hpre
    obtain ⟨e', he', hshape'⟩ := h.alike hpost
    refine ⟨args' ++ [e'], .more hargs' ?_ (hcomma'.type.trans hcomma) he', ?_⟩
    · rintro rfl
      rename_i args _ _ _ _
      cases args with
      | nil => exact hne rfl
      | cons _ _ => cases hshape
    · rw [shapes_append, shapes_append, hshape, hshape']

end

/-! ## A literal in an input -/

/-- The same type and text. -/
structure Token.SameText (t t' : Token) : Prop where
  type : t.type = t'.type
  value : t.value = t'.value

/-- Where an input begins does not matter for its tokens. -/
theorem Lexed.shift {pos : Nat} {cs : List Char} {ts : List Token} (h : Lexed pos cs ts) :
    ∀ pos', ∃ ts', Lexed pos' cs ts' ∧ List.Forall₂ Token.SameText ts' ts := by
  induction h with
  | eof => exact fun pos' => ⟨_, .eof, .cons ⟨rfl, rfl⟩ .nil⟩
  | @space pos c cs ts hkind _ ih =>
    intro pos'
    obtain ⟨ts', hts, hsame⟩ := ih (pos' + charUnits c)
    exact ⟨ts', .space hkind hts, hsame⟩
  | mark hkind _ ih =>
    intro pos'
    obtain ⟨ts', hts, hsame⟩ := ih (pos' + 1)
    exact ⟨_, .mark hkind hts, .cons ⟨rfl, rfl⟩ hsame⟩
  | @op pos c text cs ts hkind hop _ ih =>
    intro pos'
    obtain ⟨ts', hts, hsame⟩ := ih (pos' + (text.length + 1))
    exact ⟨_, .op hkind hop hts, .cons ⟨rfl, rfl⟩ hsame⟩
  | @string pos q text cs ts hkind htext _ ih =>
    intro pos'
    obtain ⟨ts', hts, hsame⟩ := ih (pos' + units text + 2)
    exact ⟨_, .string hkind htext hts, .cons ⟨rfl, rfl⟩ hsame⟩
  | unclosed hkind htext =>
    exact fun pos' => ⟨_, .unclosed hkind htext, .cons ⟨rfl, rfl⟩ (.cons ⟨rfl, rfl⟩ .nil)⟩
  | @number pos c text cs ts hkind htext hcs _ ih =>
    intro pos'
    obtain ⟨ts', hts, hsame⟩ := ih (pos' + (text.length + 1))
    exact ⟨_, .number hkind htext hcs hts, .cons ⟨rfl, rfl⟩ hsame⟩
  | @ident pos c text cs ts hkind htext hcs _ ih =>
    intro pos'
    obtain ⟨ts', hts, hsame⟩ := ih (pos' + (text.length + 1))
    exact ⟨_, .ident hkind htext hcs hts, .cons ⟨rfl, rfl⟩ hsame⟩

section
variable {q : Char}

/-- A quote ends every other lexeme. -/
theorem head?_append_quote {p : Char → Bool} {cs : List Char} (h : ∀ d ∈ cs.head?, p d = false) (hq : p q = false)
    (rest : List Char) : ∀ d ∈ (cs ++ q :: rest).head?, p d = false := by
  cases cs with
  | nil =>
    intro d hd
    cases hd
    exact hq
  | cons c cs => exact h

theorem readOp_append_quote (hq : q = '"' ∨ q = '\'') {c : Char} {text cs : List Char}
    (h : readOp (c :: (text ++ cs)) = c :: text) (rest : List Char) :
    readOp (c :: (text ++ (cs ++ q :: rest))) = c :: text := by
  cases hcs : text ++ cs with
  | nil =>
    obtain ⟨rfl, rfl⟩ := List.append_eq_nil_iff.1 hcs
    rcases hq with rfl | rfl <;> simp [readOp]
  | cons d ds =>
    rw [hcs] at h
    rw [← List.append_assoc, hcs]
    exact h

/-- In front of a quote that begins a literal, the tokens do not depend on what is behind it. -/
theorem lexed_before (hq : q = '"' ∨ q = '\'') (pos : Nat) (pre : List Char) : ∀ {m : Mode}, m.Ready pre →
    (m.scan pre).closed = true → ∃ front, ∀ {rest us}, Lexed (pos + units pre) (q :: rest) us →
      Lexed pos (pre ++ q :: rest) (front ++ us) := by
  have hnumber : isNumberChar q = false := by rcases hq with rfl | rfl <;> decide
  have hident : isIdentChar q = false := by rcases hq with rfl | rfl <;> decide
  induction pos, pre using lexeme_induction with
  | eof pos => exact fun _ _ => ⟨[], fun h => h⟩
  | @space pos c cs hkind ih =>
    intro m hready hclosed
    rw [hready.scan_blank (by rw [hkind]; rfl)] at hclosed
    obtain ⟨front, hfront⟩ := ih (Mode.ready_between _) hclosed
    refine ⟨front, fun h => .space hkind (hfront ?_)⟩
    rwa [Nat.add_assoc]
  | @mark pos c type cs hkind ih =>
    intro m hready hclosed
    rw [hready.scan_blank (by rw [hkind]; rfl)] at hclosed
    obtain ⟨front, hfront⟩ := ih (Mode.ready_between _) hclosed
    refine ⟨⟨type, String.ofList [c], pos⟩ :: front, fun h => .mark hkind (hfront ?_)⟩
    have hunits : charUnits c = 1 := by
      rcases charKind_mark hkind with ⟨rfl, -⟩ | ⟨rfl, -⟩ | ⟨rfl, -⟩ <;> rfl
    rwa [units_cons, hunits, ← Nat.add_assoc] at h
  | @op pos c text cs hkind hop ih =>
    intro m hready hclosed
    rw [hready.scan_op hkind hop] at hclosed
    obtain ⟨front, hfront⟩ := ih (Mode.ready_between _) hclosed
    refine ⟨⟨.op, String.ofList (c :: text), pos + (text.length + 1)⟩ :: front, fun {rest us} h => ?_⟩
    rw [List.cons_append, List.append_assoc]
    refine .op hkind (readOp_append_quote hq hop rest) (hfront ?_)
    rwa [units_cons, isOpChar_units (charKind_op hkind), units_append, readOp_units hop, Nat.add_comm 1,
      Nat.add_right_comm, ← Nat.add_assoc] at h
  | @string pos q' text cs hkind htext ih =>
    intro m hready hclosed
    rw [hready.scan_string hkind htext] at hclosed
    obtain ⟨front, hfront⟩ := ih (Mode.ready_between _) hclosed
    refine ⟨⟨.string, String.ofList text, pos + units text + 2⟩ :: front, fun {rest us} h => ?_⟩
    rw [List.cons_append, List.append_assoc, List.cons_append]
    refine .string hkind htext (hfront ?_)
    have hunits : charUnits q' = 1 := by
      rcases charKind_quote hkind with rfl | rfl <;> rfl
    have hpos : pos + units (q' :: (text ++ q' :: cs)) = pos + units text + 2 + units cs := by
      rw [units_cons, units_append, units_cons, hunits]
      omega
    rwa [hpos] at h
  | unclosed hkind htext =>
    intro m hready hclosed
    rw [hready.scan_unclosed hkind htext] at hclosed
    cases hclosed
  | @number pos c text cs hkind htext hcs ih =>
    intro m hready hclosed
    rw [hready.scan_number hkind htext] at hclosed
    obtain ⟨front, hfront⟩ := ih (Mode.ready_number hcs) hclosed
    refine ⟨⟨.number, String.ofList (c :: text), pos + (text.length + 1)⟩ :: front, fun {rest us} h => ?_⟩
    rw [List.cons_append, List.append_assoc]
    refine .number hkind htext (head?_append_quote hcs hnumber rest) (hfront ?_)
    rwa [units_cons, isNumberChar_units (by simp [isNumberChar, charKind_digit hkind]), units_append,
      units_eq_length fun d hd => isNumberChar_units (htext d hd), Nat.add_comm 1, Nat.add_right_comm,
      ← Nat.add_assoc] at h
  | @ident pos c text cs hkind htext hcs ih =>
    intro m hready hclosed
    rw [hready.scan_ident hkind htext] at hclosed
    obtain ⟨front, hfront⟩ := ih (Mode.ready_name hcs) hclosed
    refine ⟨⟨.ident, String.ofList (c :: text), pos + (text.length + 1)⟩ :: front, fun {rest us} h => ?_⟩
    rw [List.cons_append, List.append_assoc]
    refine .ident hkind htext (head?_append_quote hcs hident rest) (hfront ?_)
    rwa [units_cons, isIdentChar_units (by simp [isIdentChar, charKind_letter hkind]), units_append,
      units_eq_length fun d hd => isIdentChar_units (htext d hd), Nat.add_comm 1, Nat.add_right_comm,
      ← Nat.add_assoc] at h
  | @other pos c cs hkind =>
    intro m hready hclosed
    rw [Mode.scan_cons, hready.next_cons, Mode.start_of hkind, CharKind.begins, Mode.scan_rejected] at hclosed
    cases hclosed

end

/-- An input with a literal in place. -/
def withLiteral (pre : List Char) (q : Char) (text post : List Char) : String :=
  String.ofList (pre ++ q :: (text ++ q :: post))

section
variable {q : Char} {pre post : List Char}

/-- Outside a string, a quote begins a literal. -/
theorem ready_quote (hq : q = '"' ∨ q = '\'') {m : Mode} (hm : m.closed = true) (rest : List Char) :
    m.Ready (q :: rest) := by
  have hnext : ∀ c, c = '"' ∨ c = '\'' → m.next c = .start c := by
    intro c hc
    have hnumber : isNumberChar c = false := by rcases hc with rfl | rfl <;> decide
    have hident : isIdentChar c = false := by rcases hc with rfl | rfl <;> decide
    cases m with
    | between => rfl
    | name =>
      have hready : Mode.name.Ready [c] := Mode.ready_name (by simpa using hident)
      exact hready.next_cons
    | number points =>
      have hready : (Mode.number points).Ready [c] := Mode.ready_number (by simpa using hnumber)
      exact hready.next_cons
    | string _ => cases hm
    | rejected => cases hm
  exact ⟨hm, fun c hc => by cases hc; exact hnext q hq⟩

theorem scan_withLiteral (hq : q = '"' ∨ q = '\'') (hpre : (Mode.between.scan pre).closed = true) {text : List Char}
    (htext : q ∉ text) : Mode.between.scan (withLiteral pre q text post).toList = Mode.between.scan post := by
  have hkind : charKind q = .quote := by rcases hq with rfl | rfl <;> decide
  rw [withLiteral, String.toList_ofList, Mode.scan_append, (ready_quote hq hpre _).scan_string hkind htext]

/-- The tokens of an input with a literal in place: but for positions, only the literal's own depends on its text. -/
theorem tokenize_withLiteral (hq : q = '"' ∨ q = '\'') (hpre : (Mode.between.scan pre).closed = true)
    {us : List Token} (hus : Lexed 0 post us) : ∃ front back, ∀ {text}, q ∉ text → ∃ pos back' pos',
      tokenize (withLiteral pre q text post) =
        .ok ((front ++ ⟨.string, String.ofList text, pos⟩ :: back') ++ [⟨.eof, "", pos'⟩]) ∧
      List.Forall₂ Token.SameText back' back := by
  have hkind : charKind q = .quote := by rcases hq with rfl | rfl <;> decide
  obtain ⟨front, hfront⟩ := lexed_before hq 0 pre (Mode.ready_between pre) hpre
  obtain ⟨back, pos₀, rfl, -⟩ := hus.front
  refine ⟨front, back, fun {text} htext => ?_⟩
  obtain ⟨us', hus', hsame⟩ := hus.shift (0 + units pre + units text + 2)
  obtain ⟨back', pos', rfl, -⟩ := hus'.front
  obtain ⟨back₁, end₁, heq, hback, hend⟩ := forall₂_append_inv hsame
  obtain ⟨rfl, -⟩ := List.append_inj' heq hend.length_eq.symm
  refine ⟨0 + units pre + units text + 2, back', pos', tokenize_iff.2 ?_, hback⟩
  rw [withLiteral, String.toList_ofList, List.append_assoc, List.cons_append]
  exact hfront (.string hkind htext hus')

end

/-! ## Which texts are told apart -/

def Parses (input : String) : Prop := ∃ e, parse input = .ok e

/-- Both are rejected, or both accepted with trees of one shape. -/
structure SameOutcome (input input' : String) : Prop where
  parses : Parses input ↔ Parses input'
  shape : ∀ e e', parse input = .ok e → parse input' = .ok e' → e.shape = e'.shape

/-- The text of a unary operator. -/
def Sign (text : List Char) : Prop := String.ofList text ∈ ["!", "-"]

instance (text : List Char) : Decidable (Sign text) := inferInstanceAs (Decidable (_ ∈ _))

/-- An expression of the grammar without such a literal. -/
def Sentence (input : String) : Prop := ∃ e front pos,
  tokenize input = .ok (front ++ [⟨.eof, "", pos⟩]) ∧ Derives .or e front ∧
    ∀ t ∈ front, t.type = .string → t.value ∉ ["!", "-"]

/-- What the grammar derives has no `eof` in it. -/
theorem reads_iff {input : String} {front : List Token} {pos : Nat}
    (htokens : tokenize input = .ok (front ++ [⟨.eof, "", pos⟩])) {e : ExprNode} :
    Reads .or e front ↔ Derives .or e front ∧ ∀ t ∈ front, t.type = .string → t.value ∉ ["!", "-"] := by
  obtain ⟨front', pos', heq, hfront⟩ := (tokenize_iff.1 htokens).front
  obtain ⟨rfl, -⟩ := List.append_inj' heq rfl
  constructor
  · exact fun h => ⟨h.derives, fun t ht => (h.plain t ht).2⟩
  · exact fun h => ⟨h.1, fun t ht => ⟨(hfront t ht).1, h.2 t ht⟩⟩

theorem sentence_iff (input : String) : Sentence input ↔ Parses input := by
  constructor
  · rintro ⟨e, front, pos, htokens, h⟩
    exact ⟨e, parse_iff.2 ⟨front, pos, htokens, (reads_iff htokens).2 h⟩⟩
  · rintro ⟨e, h⟩
    obtain ⟨front, pos, htokens, hreads⟩ := parse_iff.1 h
    exact ⟨e, front, pos, htokens, (reads_iff htokens).1 hreads⟩

section
variable {q : Char} {pre post text text' : List Char} {e : ExprNode}

theorem sameText_join {ts ts₁ ts₂ : List Token} (h₁ : List.Forall₂ Token.SameText ts₁ ts)
    (h₂ : List.Forall₂ Token.SameText ts₂ ts) : List.Forall₂ Token.SameText ts₂ ts₁ := by
  induction h₁ generalizing ts₂ with
  | nil =>
    cases h₂
    exact .nil
  | cons ht _ ih =>
    cases h₂ with
    | cons ht' hrest => exact .cons ⟨ht'.type.trans ht.type.symm, ht'.value.trans ht.value.symm⟩ (ih hrest)

theorem SameText.alike {t t' : Token} (h : t.SameText t') : t.Alike t' := ⟨h.type, fun _ => h.value⟩

theorem SameText.plain {t t' : Token} (h : t.SameText t') (hplain : t'.Plain) : t.Plain := by
  rw [Token.Plain, h.type, h.value]
  exact hplain

theorem plain_of_sameText {ts ts' : List Token} (h : List.Forall₂ Token.SameText ts' ts)
    (hplain : ∀ t ∈ ts, t.Plain) : ∀ t ∈ ts', t.Plain := by
  induction h with
  | nil => exact hplain
  | cons ht _ ih =>
    obtain ⟨hhead, htail⟩ := List.forall_mem_cons.1 hplain
    exact List.forall_mem_cons.2 ⟨SameText.plain ht hhead, ih htail⟩

theorem plain_literal_iff {pos : Nat} : Token.Plain ⟨.string, String.ofList text, pos⟩ ↔ ¬ Sign text := by
  simp [Token.Plain, Sign]

/-- Only a literal that is no sign is accepted, and any other text that is none then makes no difference. -/
theorem parse_withLiteral (hq : q = '"' ∨ q = '\'') (hpre : (Mode.between.scan pre).closed = true) (htext : q ∉ text)
    (htext' : q ∉ text') (h : parse (withLiteral pre q text post) = .ok e) :
    ¬ Sign text ∧ (¬ Sign text' → ∃ e', parse (withLiteral pre q text' post) = .ok e' ∧ e'.shape = e.shape) := by
  obtain ⟨tokens, pos, htokens, hreads⟩ := parse_ok h
  have hscan := (tokenize_ok_iff _).1 ⟨_, htokens⟩
  rw [scan_withLiteral hq hpre htext] at hscan
  obtain ⟨us, hus⟩ := Mode.lexed_of_scan 0 post (Mode.ready_between post) hscan
  obtain ⟨front, back, hfront⟩ := tokenize_withLiteral hq hpre hus
  obtain ⟨p₁, back₁, pos₁, htokens₁, hback₁⟩ := hfront htext
  obtain ⟨p₂, back₂, pos₂, htokens₂, hback₂⟩ := hfront htext'
  rw [htokens₁] at htokens
  obtain ⟨rfl, -⟩ := List.append_inj' (Except.ok.inj htokens) rfl
  obtain ⟨hplain, hliteral, hplain₁⟩ := by simpa only [List.forall_mem_append, List.forall_mem_cons] using hreads.plain
  refine ⟨plain_literal_iff.1 hliteral, fun hsign => ?_⟩
  have hsame := sameText_join hback₁ hback₂
  have halike : List.Forall₂ Token.Alike (front ++ ⟨.string, String.ofList text', p₂⟩ :: back₂)
      (front ++ ⟨.string, String.ofList text, p₁⟩ :: back₁) := by
    refine List.rel_append (List.forall₂_same.2 fun t _ => ⟨rfl, fun _ => rfl⟩) (.cons ⟨rfl, fun hne => ?_⟩ ?_)
    · exact absurd rfl hne
    · exact hsame.imp fun _ _ => SameText.alike
  obtain ⟨e', he', hshape⟩ := hreads.derives.alike halike
  refine ⟨e', parse_of_reads htokens₂ ⟨he', ?_⟩, hshape⟩
  rw [List.forall_mem_append, List.forall_mem_cons]
  exact ⟨hplain, plain_literal_iff.2 hsign, plain_of_sameText hsame hplain₁⟩

theorem sameOutcome_iff (hq : q = '"' ∨ q = '\'') (hpre : (Mode.between.scan pre).closed = true) (htext : q ∉ text)
    (htext' : q ∉ text') : SameOutcome (withLiteral pre q text post) (withLiteral pre q text' post) ↔
      (Sign text ↔ Sign text') ∨ ¬ Sentence (withLiteral pre q [] post) := by
  have hnil : q ∉ ([] : List Char) := by simp
  have hnilSign : ¬ Sign [] := by decide
  rw [sentence_iff]
  constructor
  · intro h
    by_cases hparses : Parses (withLiteral pre q [] post)
    · obtain ⟨e₀, h₀⟩ := hparses
      refine .inl ⟨fun hs => ?_, fun hs => ?_⟩
      · by_contra hs'
        obtain ⟨e', he', -⟩ := (parse_withLiteral hq hpre hnil htext' h₀).2 hs'
        obtain ⟨e, he⟩ := h.parses.2 ⟨e', he'⟩
        exact (parse_withLiteral hq hpre htext htext' he).1 hs
      · by_contra hs'
        obtain ⟨e, he, -⟩ := (parse_withLiteral hq hpre hnil htext h₀).2 hs'
        obtain ⟨e', he'⟩ := h.parses.1 ⟨e, he⟩
        exact (parse_withLiteral hq hpre htext' htext he').1 hs
    · exact .inr hparses
  · rintro (hsign | hnone)
    · refine ⟨⟨?_, ?_⟩, fun e e' he he' => ?_⟩
      · rintro ⟨e, he⟩
        obtain ⟨hs, hother⟩ := parse_withLiteral hq hpre htext htext' he
        obtain ⟨e', he', -⟩ := hother (by rwa [← hsign])
        exact ⟨e', he'⟩
      · rintro ⟨e, he⟩
        obtain ⟨hs, hother⟩ := parse_withLiteral hq hpre htext' htext he
        obtain ⟨e', he', -⟩ := hother (by rwa [hsign])
        exact ⟨e', he'⟩
      · obtain ⟨hs, hother⟩ := parse_withLiteral hq hpre htext htext' he
        obtain ⟨e₂, he₂, hshape⟩ := hother (by rwa [← hsign])
        rw [he'] at he₂
        rw [Except.ok.inj he₂, hshape]
    · have never : ∀ {text}, q ∉ text → ¬ Parses (withLiteral pre q text post) := by
        rintro text htext ⟨e, he⟩
        obtain ⟨e', he', -⟩ := (parse_withLiteral hq hpre htext hnil he).2 hnilSign
        exact hnone ⟨e', he'⟩
      refine ⟨⟨fun h => absurd h (never htext), fun h => absurd h (never htext')⟩, fun e e' he _ => ?_⟩
      exact absurd ⟨e, he⟩ (never htext)

end

/-- A derived input is accepted unless one of its literals has the text of a unary operator, and changing the text of a
literal makes a difference only between such a text and another, in an expression that is accepted with another. -/
theorem literals_accepted_iff (input : String) (pre text text' post : List Char) (q : Char) :
    (∀ front pos e, tokenize input = .ok (front ++ [⟨.eof, "", pos⟩]) → Derives .or e front →
      (Parses input ↔ ∀ t ∈ front, t.type = .string → t.value ∉ ["!", "-"])) ∧
    (q = '"' ∨ q = '\'' → (Mode.between.scan pre).closed = true → q ∉ text → q ∉ text' →
      (SameOutcome (withLiteral pre q text post) (withLiteral pre q text' post) ↔
        (Sign text ↔ Sign text') ∨ ¬ Sentence (withLiteral pre q [] post))) := by
  refine ⟨fun front pos e htokens he => ⟨?_, fun h => ?_⟩, sameOutcome_iff⟩
  · rintro ⟨e', h⟩
    obtain ⟨front', pos', htokens', hreads⟩ := parse_ok h
    rw [htokens] at htokens'
    obtain ⟨rfl, -⟩ := List.append_inj' (Except.ok.inj htokens') rfl
    exact ((reads_iff htokens).1 hreads).2
  · exact ⟨e, parse_of_reads htokens ((reads_iff htokens).2 ⟨he, h⟩)⟩

theorem tokenize_sign : tokenize "a == '-'" =
    .ok ([⟨.ident, "a", 1⟩, ⟨.op, "==", 4⟩, ⟨.string, "-", 8⟩] ++ [⟨.eof, "", 8⟩]) := by rfl

theorem derives_sign : Derives .or (.binary "==" (.ident "a") (.literal (.string "-")))
    [⟨.ident, "a", 1⟩, ⟨.op, "==", 4⟩, ⟨.string, "-", 8⟩] := by
  have operand : ∀ {e ts}, Derives .primary e ts → Derives .additive e ts := fun h =>
    .tighter (by decide) (.tighter (by decide) (.tighter (by decide) h))
  have hident := @Derives.ident ⟨.ident, "a", 1⟩ rfl rfl
  have hstring := @Derives.string ⟨.string, "-", 8⟩ rfl
  have hop : Token.IsOp ⟨.op, "==", 4⟩ Level.comparison.ops := ⟨rfl, by decide⟩
  exact .tighter (by decide) (.tighter (by decide) (.comparison hop (operand hident) (operand hstring)))

/-- `a == '-'` is an expression of the grammar, and rejected. -/
theorem sign_literal_rejected : ¬ ∀ input front pos e, tokenize input = .ok (front ++ [⟨.eof, "", pos⟩]) →
    Derives .or e front → Parses input := by
  intro h
  obtain ⟨e, he⟩ := h _ _ _ _ tokenize_sign derives_sign
  have hrejected : (parse "a == '-'").toBool = false := by decide +kernel
  rw [he] at hrejected
  cases hrejected

theorem literals_accepted_iff_sample :
    (Parses "a == '-'" ↔ ∀ t ∈ [(⟨.ident, "a", 1⟩ : Token), ⟨.op, "==", 4⟩, ⟨.string, "-", 8⟩],
      t.type = .string → t.value ∉ ["!", "-"]) ∧
    (SameOutcome (withLiteral "a == ".toList '\'' ['-'] []) (withLiteral "a == ".toList '\'' ['+'] []) ↔
      (Sign ['-'] ↔ Sign ['+']) ∨ ¬ Sentence (withLiteral "a == ".toList '\'' [] [])) := by
  obtain ⟨haccepted, hsame⟩ := literals_accepted_iff "a == '-'" "a == ".toList ['-'] ['+'] [] '\''
  exact ⟨haccepted _ _ _ tokenize_sign derives_sign, hsame (by decide) (by decide +kernel) (by decide) (by decide)⟩

end Jobflow.Expressions
