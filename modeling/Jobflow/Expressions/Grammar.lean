import Jobflow.Expressions.Lexing
import Jobflow.Lib.TokenLoop

/-!
# Constraint expressions: the grammar (src/expressions/parser.ts)

The expression grammar in seven levels, from `||` to single operands, read off the language and not off the parser's
control flow. `parse_sound` says that the parser accepts only what it derives and returns the tree of the derivation;
`Derives.accepted`, that it accepts every derived sequence in which no string token has the text of a unary operator.
-/

namespace Jobflow.Expressions

open Js
open TokenLoop

/-! ## Grammar -/

inductive Level where
  | or | and | comparison | additive | multiplicative | unary | primary
  deriving DecidableEq

/-- The level that binds next tighter. -/
def Level.next : Level → Level
  | .or => .and
  | .and => .comparison
  | .comparison => .additive
  | .additive => .multiplicative
  | .multiplicative => .unary
  | .unary | .primary => .primary

/-- The binary operators of a level. -/
def Level.ops : Level → List String
  | .or => ["||"]
  | .and => ["&&"]
  | .comparison => ["==", "!=", "<", "<=", ">", ">="]
  | .additive => ["+", "-"]
  | .multiplicative => ["*", "/"]
  | .unary | .primary => []

/-- Its operators can follow each other, without parentheses. -/
def Level.chains : Level → Bool
  | .or | .and | .additive | .multiplicative => true
  | .comparison | .unary | .primary => false

def Token.IsOp (t : Token) (ops : List String) : Prop := t.type = .op ∧ t.value ∈ ops

/-- The names that are literals. -/
def keyword (name : String) : Option Value :=
  if name = "true" then some (.bool true)
  else if name = "false" then some (.bool false)
  else if name = "null" then some .null
  else none

mutual

/-- The tokens are an expression of a level, with that tree. -/
inductive Derives : Level → ExprNode → List Token → Prop where
  | tighter {l : Level} {e : ExprNode} {ts : List Token} : l ≠ .primary → Derives l.next e ts → Derives l e ts
  /-- The operators of a level associate to the left. -/
  | left {l : Level} {a b : ExprNode} {op : Token} {pre post : List Token} : l.chains = true → op.IsOp l.ops →
      Derives l a pre → Derives l.next b post → Derives l (.binary op.value a b) (pre ++ op :: post)
  /-- A comparison has one operator. -/
  | comparison {a b : ExprNode} {op : Token} {pre post : List Token} : op.IsOp Level.comparison.ops →
      Derives .additive a pre → Derives .additive b post →
      Derives .comparison (.binary op.value a b) (pre ++ op :: post)
  | not {e : ExprNode} {op : Token} {ts : List Token} : op.IsOp ["!"] → Derives .unary e ts →
      Derives .unary (.unary .not e) (op :: ts)
  | neg {e : ExprNode} {op : Token} {ts : List Token} : op.IsOp ["-"] → Derives .unary e ts →
      Derives .unary (.unary .neg e) (op :: ts)
  | number {t : Token} : t.type = .number → Derives .primary (.literal (.number (.parse t.value))) [t]
  | string {t : Token} : t.type = .string → Derives .primary (.literal (.string t.value)) [t]
  | keyword {t : Token} {value : Value} : t.type = .ident → keyword t.value = some value →
      Derives .primary (.literal value) [t]
  | ident {t : Token} : t.type = .ident → Expressions.keyword t.value = none → Derives .primary (.ident t.value) [t]
  | call {t opening closing : Token} {args : List ExprNode} {ts : List Token} : t.type = .ident →
      Expressions.keyword t.value = none → opening.type = .lparen → Arguments args ts → closing.type = .rparen →
      Derives .primary (.call t.value args) (t :: opening :: (ts ++ [closing]))
  | paren {opening closing : Token} {e : ExprNode} {ts : List Token} : opening.type = .lparen → Derives .or e ts →
      closing.type = .rparen → Derives .primary e (opening :: (ts ++ [closing]))

/-- The arguments of a call, in their order. -/
inductive Arguments : List ExprNode → List Token → Prop where
  | none : Arguments [] []
  | first {e : ExprNode} {ts : List Token} : Derives .or e ts → Arguments [e] ts
  | more {args : List ExprNode} {e : ExprNode} {comma : Token} {pre post : List Token} : Arguments args pre →
      args ≠ [] → comma.type = .comma → Derives .or e post → Arguments (args ++ [e]) (pre ++ comma :: post)

end

/-! ## Single tokens -/

theorem bind_ok {α β : Type} {x : Except Exception α} {f : α → Except Exception β} {b : β} (h : x >>= f = .ok b) :
    ∃ a, x = .ok a ∧ f a = .ok b := by
  cases x with
  | error e => cases h
  | ok a => exact ⟨a, rfl, h⟩

@[simp] theorem ok_bind {α β : Type} (a : α) (f : α → Except Exception β) : (Except.ok a >>= f) = f a := rfl

@[simp] theorem peek_cons (t : Token) (ts : List Token) : peek (t :: ts) = t := rfl

theorem consume_cons {type : TokenType} {t : Token} (ts : List Token) (h : t.type = type) :
    consume type (t :: ts) = .ok (t, ts) := by
  simp [consume, h]

theorem consume_ok {type : TokenType} (heof : type ≠ .eof) {t : Token} {ts rest : List Token}
    (h : consume type ts = .ok (t, rest)) : ts = t :: rest ∧ t.type = type := by
  unfold consume at h
  split at h
  · cases h
  · rename_i htype
    rw [not_not] at htype
    cases ts with
    | nil => exact absurd htype.symm heof
    | cons u us =>
      cases h
      exact ⟨rfl, htype⟩

/-! ## The loops of the parser -/

/-- One round of a loop over separated items. -/
def itemRound {σ : Type} (type : TokenType) (item : Parser) (step : σ → Token → ExprNode → σ) :
    Round σ Token Exception := fun s ts => do
  let (separator, ts) ← consume type ts
  let (e, ts) ← item ts
  .ok (step s separator e, ts)

def binaryStep (left : ExprNode) (op : Token) (right : ExprNode) : ExprNode := .binary op.value left right

def argStep (args : List ExprNode) (_ : Token) (arg : ExprNode) : List ExprNode := args ++ [arg]

theorem leftLoop_eq (ops : List String) (operand : Parser) : ∀ (fuel : Nat) (left : ExprNode) (ts : List Token),
    leftLoop ops operand fuel left ts =
      loopWhile (fun ts => decide ((peek ts).value ∈ ops)) (itemRound .op operand binaryStep) fuel left ts := by
  intro fuel
  induction fuel with
  | zero => exact fun _ _ => rfl
  | succ fuel ih =>
    intro left ts
    simp only [leftLoop, loopWhile, itemRound, decide_eq_true_eq]
    split
    · cases consume .op ts with
      | error e => rfl
      | ok r =>
        simp only [ok_bind]
        cases operand r.2 with
        | error e => rfl
        | ok r => exact ih _ _
    · rfl

theorem argLoop_eq (parseOr : Parser) : ∀ (fuel : Nat) (args : List ExprNode) (ts : List Token),
    argLoop parseOr fuel args ts =
      loopWhile (fun ts => decide ((peek ts).type = .comma)) (itemRound .comma parseOr argStep) fuel args ts := by
  intro fuel
  induction fuel with
  | zero => exact fun _ _ => rfl
  | succ fuel ih =>
    intro args ts
    simp only [argLoop, loopWhile, itemRound, decide_eq_true_eq]
    split
    · cases consume .comma ts with
      | error e => rfl
      | ok r =>
        simp only [ok_bind]
        cases parseOr r.2 with
        | error e => rfl
        | ok r => exact ih _ _
    · rfl

/-! ## Soundness -/

/-- The token is not one on which the parser trips: the end, or a literal with the text of a unary operator. -/
def Token.Plain (t : Token) : Prop := t.type ≠ .eof ∧ (t.type = .string → t.value ∉ ["!", "-"])

/-- The tokens are an expression of a level, and the parser does not trip on any of them. -/
structure Reads (l : Level) (e : ExprNode) (ts : List Token) : Prop where
  derives : Derives l e ts
  plain : ∀ t ∈ ts, t.Plain

/-- What a parser takes off the tokens is an expression of the level. -/
def Sound (l : Level) (p : Parser) : Prop :=
  ∀ ⦃ts rest : List Token⦄ ⦃e : ExprNode⦄, p ts = .ok (e, rest) → ∃ pre, ts = pre ++ rest ∧ Reads l e pre

theorem Token.plain_of_type {t : Token} {type : TokenType} (h : t.type = type) (heof : type ≠ .eof := by decide)
    (hstring : type ≠ .string := by decide) : t.Plain :=
  ⟨h ▸ heof, fun hs => absurd (h.symm.trans hs) hstring⟩

section
variable {p : Parser} {l : Level}

theorem Reads.tighter {e : ExprNode} {ts : List Token} (hl : l ≠ .primary) (h : Reads l.next e ts) : Reads l e ts :=
  ⟨.tighter hl h.derives, h.plain⟩

/-- A separator and an item behind it. -/
theorem itemRound_sound {σ : Type} {type : TokenType} {step : σ → Token → ExprNode → σ} (h : Sound l p)
    (heof : type ≠ .eof) (hstring : type ≠ .string) {s s' : σ} {ts rest : List Token}
    (hround : itemRound type p step s ts = .ok (s', rest)) : ∃ separator e post, ts = separator :: post ++ rest ∧
      separator.type = type ∧ s' = step s separator e ∧ Reads l e post ∧ ∀ t ∈ separator :: post, t.Plain := by
  obtain ⟨⟨separator, ts₁⟩, hsep, hround₁⟩ := bind_ok hround
  obtain ⟨⟨e, ts₂⟩, hitem, hround₂⟩ := bind_ok hround₁
  obtain ⟨rfl, htype⟩ := consume_ok heof hsep
  obtain ⟨post, rfl, hreads⟩ := h hitem
  cases hround₂
  exact ⟨separator, e, post, rfl, htype, rfl, hreads,
    List.forall_mem_cons.2 ⟨Token.plain_of_type htype heof hstring, hreads.plain⟩⟩

theorem leftLevel_sound (hl : l.chains = true) (h : Sound l.next p) : Sound l (leftLevel l.ops p) := by
  intro ts rest e hp
  obtain ⟨⟨left, ts₁⟩, hleft, hloop⟩ := bind_ok hp
  obtain ⟨pre, rfl, hnext⟩ := h hleft
  have hreads : Reads l left pre := .tighter (by rintro rfl; cases hl) hnext
  dsimp only at hloop
  rw [leftLoop_eq] at hloop
  obtain ⟨mid, rfl, hreads'⟩ := loopWhile_sound (P := Reads l) (fun {left left' pre ts rest} hreads hgo hround => by
    obtain ⟨op, right, post, rfl, htype, rfl, hpost, hplain⟩ := itemRound_sound h (by decide) (by decide) hround
    have hop : op.IsOp l.ops := ⟨htype, of_decide_eq_true hgo⟩
    exact ⟨op :: post, rfl, .left hl hop hreads.derives hpost.derives,
      List.forall_mem_append.2 ⟨hreads.plain, hplain⟩⟩) hreads hloop
  exact ⟨pre ++ mid, (List.append_assoc _ _ _).symm, hreads'⟩

theorem parseComparison_sound (hadd : Sound .additive (parseAdd p)) :
    Sound .comparison (parseComparison p) := by
  intro ts rest e hp
  obtain ⟨⟨left, ts₁⟩, hleft, hright⟩ := bind_ok hp
  obtain ⟨pre, rfl, hreads⟩ := hadd hleft
  dsimp only at hright
  split at hright
  · rename_i hop
    have hround : itemRound .op (parseAdd p) binaryStep left ts₁ = .ok (e, rest) := hright
    obtain ⟨op, right, post, rfl, htype, rfl, hpost, hplain⟩ := itemRound_sound hadd (by decide) (by decide) hround
    exact ⟨pre ++ op :: post, by simp, .comparison ⟨htype, hop⟩ hreads.derives hpost.derives,
      List.forall_mem_append.2 ⟨hreads.plain, hplain⟩⟩
  · cases hright
    exact ⟨pre, rfl, .tighter (by decide) hreads⟩

/-- The closing parenthesis behind a tree or behind arguments. -/
theorem closing_ok {α : Type} {a b : α} {ts rest : List Token}
    (h : (do let (_, ts) ← consume .rparen ts; .ok (a, ts) : Except Exception (α × List Token)) = .ok (b, rest)) :
    ∃ closing : Token, ts = closing :: rest ∧ closing.type = .rparen ∧ a = b := by
  obtain ⟨⟨closing, ts₁⟩, hclosing, hend⟩ := bind_ok h
  obtain ⟨rfl, htype⟩ := consume_ok (by decide) hclosing
  cases hend
  exact ⟨closing, rfl, htype, rfl⟩

theorem parseArgs_sound (h : Sound .or p) {ts rest : List Token} {args : List ExprNode}
    (hp : parseArgs p ts = .ok (args, rest)) : ∃ pre closing, ts = pre ++ closing :: rest ∧ Arguments args pre ∧
      closing.type = .rparen ∧ ∀ t ∈ pre, t.Plain := by
  unfold parseArgs at hp
  dsimp only at hp
  split at hp
  · obtain ⟨⟨arg, ts₁⟩, harg, hargs⟩ := bind_ok hp
    obtain ⟨⟨args', ts₂⟩, hloop, hclose⟩ := bind_ok hargs
    obtain ⟨closing, rfl, htype, rfl⟩ := closing_ok hclose
    obtain ⟨pre, rfl, hreads⟩ := h harg
    dsimp only at hloop
    rw [argLoop_eq] at hloop
    obtain ⟨mid, rfl, harguments, -, hplain⟩ := loopWhile_sound
      (P := fun args pre => Arguments args pre ∧ args ≠ [] ∧ ∀ t ∈ pre, t.Plain)
      (fun {args args' pre ts rest} hargs hgo hround => by
        obtain ⟨harguments, hne, hpre⟩ := hargs
        obtain ⟨comma, e, post, rfl, htype, rfl, hpost, hplain⟩ := itemRound_sound h (by decide) (by decide) hround
        exact ⟨comma :: post, rfl, .more harguments hne htype hpost.derives, by simp [argStep],
          List.forall_mem_append.2 ⟨hpre, hplain⟩⟩) ⟨.first hreads.derives, by simp, hreads.plain⟩ hloop
    exact ⟨pre ++ mid, closing, by simp, harguments, htype, hplain⟩
  · obtain ⟨closing, rfl, htype, rfl⟩ := closing_ok hp
    exact ⟨[], closing, rfl, .none, htype, by simp⟩

section
variable {t : Token} (ts : List Token)

theorem parsePrimary_number (htype : t.type = .number) :
    parsePrimary p (t :: ts) = .ok (.literal (.number (.parse t.value)), ts) := by
  simp [parsePrimary, htype]

theorem parsePrimary_string (htype : t.type = .string) :
    parsePrimary p (t :: ts) = .ok (.literal (.string t.value), ts) := by
  simp [parsePrimary, htype]

theorem parsePrimary_keyword {value : Value} (htype : t.type = .ident) (h : keyword t.value = some value) :
    parsePrimary p (t :: ts) = .ok (.literal value, ts) := by
  unfold keyword at h
  split_ifs at h with htrue hfalse hnull <;> cases h <;> simp [parsePrimary, *]

theorem keyword_eq_none {name : String} (h : keyword name = none) : name ≠ "true" ∧ name ≠ "false" ∧ name ≠ "null" := by
  unfold keyword at h
  split_ifs at h with htrue hfalse hnull
  exact ⟨htrue, hfalse, hnull⟩

theorem parsePrimary_ident (htype : t.type = .ident) (h : keyword t.value = none)
    (hcall : (peek ts).type ≠ .lparen) : parsePrimary p (t :: ts) = .ok (.ident t.value, ts) := by
  simp [parsePrimary, htype, keyword_eq_none h, hcall]

theorem parsePrimary_call {opening : Token} (htype : t.type = .ident) (h : keyword t.value = none)
    (hcall : opening.type = .lparen) : parsePrimary p (t :: opening :: ts) = (do
      let (args, ts) ← parseArgs p ts
      .ok (.call t.value args, ts)) := by
  simp [parsePrimary, htype, keyword_eq_none h, hcall]

theorem parsePrimary_paren (htype : t.type = .lparen) : parsePrimary p (t :: ts) = (do
    let (inner, ts) ← p ts
    let (_, ts) ← consume .rparen ts
    .ok (inner, ts)) := by
  simp [parsePrimary, htype]

end

theorem parsePrimary_sound (h : Sound .or p) {ts rest : List Token} {e : ExprNode}
    (hplain : (peek ts).value ∉ ["!", "-"]) (hp : parsePrimary p ts = .ok (e, rest)) :
    ∃ pre, ts = pre ++ rest ∧ Reads .primary e pre := by
  cases ts with
  | nil => cases hp
  | cons t ts =>
    cases htype : t.type with
    | number =>
      rw [parsePrimary_number ts htype] at hp
      cases hp
      exact ⟨[t], rfl, .number htype, by simpa using Token.plain_of_type htype⟩
    | string =>
      rw [parsePrimary_string ts htype] at hp
      cases hp
      refine ⟨[t], rfl, .string htype, ?_⟩
      simp only [List.mem_singleton, forall_eq]
      exact ⟨by rw [htype]; decide, fun _ => hplain⟩
    | ident =>
      have hpt : t.Plain := Token.plain_of_type htype
      cases hkeyword : keyword t.value with
      | some value =>
        rw [parsePrimary_keyword ts htype hkeyword] at hp
        cases hp
        exact ⟨[t], rfl, .keyword htype hkeyword, by simpa using hpt⟩
      | none =>
        by_cases hcall : (peek ts).type = .lparen
        · cases ts with
          | nil => cases hcall
          | cons opening ts =>
            have hopening : opening.type = .lparen := hcall
            rw [parsePrimary_call ts htype hkeyword hopening] at hp
            obtain ⟨⟨args, ts₁⟩, hargs, hend⟩ := bind_ok hp
            cases hend
            obtain ⟨pre, closing, rfl, harguments, hclosing, hplain⟩ := parseArgs_sound h hargs
            refine ⟨t :: opening :: (pre ++ [closing]), by simp, .call htype hkeyword hcall harguments hclosing, ?_⟩
            simp only [List.forall_mem_cons, List.forall_mem_append, List.not_mem_nil, false_imp_iff, implies_true,
              and_true]
            exact ⟨hpt, Token.plain_of_type hcall, hplain, Token.plain_of_type hclosing⟩
        · rw [parsePrimary_ident ts htype hkeyword hcall] at hp
          cases hp
          exact ⟨[t], rfl, .ident htype hkeyword, by simpa using hpt⟩
    | lparen =>
      rw [parsePrimary_paren ts htype] at hp
      obtain ⟨⟨inner, ts₁⟩, hinner, hclose⟩ := bind_ok hp
      obtain ⟨closing, rfl, hclosing, rfl⟩ := closing_ok hclose
      obtain ⟨pre, rfl, hreads⟩ := h hinner
      refine ⟨t :: (pre ++ [closing]), by simp, .paren htype hreads.derives hclosing, ?_⟩
      simp only [List.forall_mem_cons, List.forall_mem_append, List.not_mem_nil, false_imp_iff, implies_true, and_true]
      exact ⟨Token.plain_of_type htype, hreads.plain, Token.plain_of_type hclosing⟩
    | op | rparen | comma | eof =>
      simp [parsePrimary, htype] at hp

theorem parseUnary_sound (h : Sound .or p) : Sound .unary (parseUnary p) := by
  intro ts
  induction ts with
  | nil => exact fun _ _ hp => by cases hp
  | cons t ts ih =>
    intro rest e hp
    by_cases hnot : t.value = "!"
    · rw [parseUnary, if_pos hnot] at hp
      obtain ⟨⟨op, ts₁⟩, hop, harg⟩ := bind_ok hp
      obtain ⟨⟨arg, ts₂⟩, harg, hend⟩ := bind_ok harg
      obtain ⟨pre, rfl, hreads⟩ := ih harg
      obtain ⟨htokens, htype⟩ := consume_ok (by decide) hop
      cases htokens
      cases hend
      exact ⟨t :: pre, rfl, .not ⟨htype, by simp [hnot]⟩ hreads.derives,
        List.forall_mem_cons.2 ⟨Token.plain_of_type htype, hreads.plain⟩⟩
    by_cases hneg : t.value = "-"
    · rw [parseUnary, if_neg hnot, if_pos hneg] at hp
      obtain ⟨⟨op, ts₁⟩, hop, harg⟩ := bind_ok hp
      obtain ⟨⟨arg, ts₂⟩, harg, hend⟩ := bind_ok harg
      obtain ⟨pre, rfl, hreads⟩ := ih harg
      obtain ⟨htokens, htype⟩ := consume_ok (by decide) hop
      cases htokens
      cases hend
      exact ⟨t :: pre, rfl, .neg ⟨htype, by simp [hneg]⟩ hreads.derives,
        List.forall_mem_cons.2 ⟨Token.plain_of_type htype, hreads.plain⟩⟩
    · rw [parseUnary, if_neg hnot, if_neg hneg] at hp
      obtain ⟨pre, hts, hreads⟩ := parsePrimary_sound h (by simp [hnot, hneg]) hp
      exact ⟨pre, hts, .tighter (by decide) hreads⟩

theorem parseAdd_sound (h : Sound .or p) : Sound .additive (parseAdd p) :=
  leftLevel_sound (l := .additive) (by decide) (leftLevel_sound (l := .multiplicative) (by decide) (parseUnary_sound h))

theorem parseAnd_sound (h : Sound .or p) : Sound .and (parseAnd p) :=
  leftLevel_sound (l := .and) (by decide) (parseComparison_sound (parseAdd_sound h))

end

/-- By induction on the nesting of parentheses. -/
theorem parseOr_sound (depth : Nat) : Sound .or (parseOr depth) := by
  induction depth with
  | zero => exact fun _ _ _ hp => by cases hp
  | succ depth ih => exact leftLevel_sound (l := .or) (by decide) (parseAnd_sound ih)

/-! ## Completeness -/

def Level.rank : Level → Nat
  | .or => 0
  | .and => 1
  | .comparison => 2
  | .additive => 3
  | .multiplicative => 4
  | .unary => 5
  | .primary => 6

/-- The parser of a level, with the nesting still allowed below it. -/
def Level.parser (depth : Nat) : Level → Parser
  | .or => parseOr (depth + 1)
  | .and => parseAnd (parseOr depth)
  | .comparison => parseComparison (parseOr depth)
  | .additive => parseAdd (parseOr depth)
  | .multiplicative => parseMul (parseOr depth)
  | .unary => parseUnary (parseOr depth)
  | .primary => parsePrimary (parseOr depth)

/-- The tokens do not go on with an operator of the level or of a tighter one, or with arguments. -/
structure Follows (l : Level) (ts : List Token) : Prop where
  noCall : (peek ts).type ≠ .lparen
  noOp : ∀ l' : Level, l.rank ≤ l'.rank → (peek ts).value ∉ l'.ops

theorem Follows.mono {l l' : Level} {ts : List Token} (hl : l.rank ≤ l'.rank) (h : Follows l ts) : Follows l' ts :=
  ⟨h.noCall, fun l'' hl' => h.noOp l'' (Nat.le_trans hl hl')⟩

theorem rank_le_next (l : Level) : l.rank ≤ l.next.rank := by
  cases l <;> decide

/-- No operator belongs to two levels. -/
theorem ops_disjoint {l l' : Level} (hl : l.rank < l'.rank) {v : String} (h : v ∈ l.ops) : v ∉ l'.ops := by
  cases l <;> cases l' <;> first | exact absurd hl (by decide) | (revert v; decide)

theorem parser_chains {l : Level} (hl : l.chains = true) (depth : Nat) :
    l.parser depth = leftLevel l.ops (l.next.parser depth) := by
  cases l <;> first | rfl | cases hl

theorem rank_lt_next {l : Level} (hl : l.chains = true) : l.rank < l.next.rank := by
  cases l <;> first | decide | cases hl

/-- An operator of a level ends the operand in front of it. -/
theorem Follows.op {l l' : Level} {op : Token} (ts : List Token) (hop : op.IsOp l.ops) (hl : l.rank < l'.rank) :
    Follows l' (op :: ts) :=
  ⟨by rw [peek_cons, hop.1]; decide, fun _ hl' => ops_disjoint (Nat.lt_of_lt_of_le hl hl') hop.2⟩

section
variable {ops : List String} {operand : Parser} {left right : ExprNode} {op : Token} {ts rest : List Token}

theorem leftLoop_go (fuel : Nat) (hop : op.IsOp ops) (hright : operand ts = .ok (right, rest)) :
    leftLoop ops operand (fuel + 1) left (op :: ts) = leftLoop ops operand fuel (.binary op.value left right) rest := by
  rw [leftLoop_eq, leftLoop_eq]
  exact loopWhile_go fuel (decide_eq_true hop.2) (by simp [itemRound, consume_cons ts hop.1, hright, binaryStep])

theorem leftLoop_stop (fuel : Nat) (h : (peek ts).value ∉ ops) :
    leftLoop ops operand fuel left ts = .ok (left, ts) := by
  rw [leftLoop_eq]
  exact loopWhile_stop (decide_eq_false h) fuel

end

/-- The parser of a level reads the tokens and stops at what follows. -/
def Ends (l : Level) (e : ExprNode) (pre : List Token) : Prop :=
  ∀ depth, pre.length ≤ depth → ∀ rest, Follows l rest → l.parser depth (pre ++ rest) = .ok (e, rest)

/-- The loop of a level reads the tokens and goes on with what follows. -/
def Loops (l : Level) (e : ExprNode) (pre : List Token) : Prop :=
  ∀ depth, pre.length ≤ depth → ∀ rest, Follows l.next rest → ∃ fuel, rest.length ≤ fuel ∧
    l.parser depth (pre ++ rest) = leftLoop l.ops (l.next.parser depth) fuel e rest

structure Accepts (l : Level) (e : ExprNode) (pre : List Token) : Prop where
  ends : Ends l e pre
  loops : l.chains = true → Loops l e pre

section
variable {l : Level} {e a b : ExprNode} {pre post ts : List Token} {op t : Token}

theorem Loops.accepts (h : Loops l e pre) : Accepts l e pre := by
  refine ⟨fun depth hdepth rest hrest => ?_, fun _ => h⟩
  obtain ⟨fuel, -, hparse⟩ := h depth hdepth rest (hrest.mono (rank_le_next l))
  rw [hparse]
  exact leftLoop_stop fuel (hrest.noOp l (Nat.le_refl _))

theorem Ends.accepts (hl : l.chains = false) (h : Ends l e pre) : Accepts l e pre := by
  refine ⟨h, fun hchains => ?_⟩
  rw [hl] at hchains
  cases hchains

/-- The first operand of a chain. -/
theorem loops_tighter (hl : l.chains = true) (h : Ends l.next e pre) : Loops l e pre := by
  intro depth hdepth rest hrest
  refine ⟨rest.length, Nat.le_refl _, ?_⟩
  rw [parser_chains hl, leftLevel, h depth hdepth rest hrest]
  rfl

theorem loops_left (hl : l.chains = true) (hop : op.IsOp l.ops) (ha : Loops l a pre) (hb : Ends l.next b post) :
    Loops l (.binary op.value a b) (pre ++ op :: post) := by
  intro depth hdepth rest hrest
  simp only [List.length_append, List.length_cons] at hdepth
  obtain ⟨fuel, hfuel, hparse⟩ := ha depth (by omega) (op :: (post ++ rest)) (Follows.op _ hop (rank_lt_next hl))
  rw [List.length_cons, List.length_append] at hfuel
  obtain ⟨k, rfl⟩ : ∃ k, fuel = k + 1 := ⟨fuel - 1, by omega⟩
  refine ⟨k, by omega, ?_⟩
  rw [List.append_assoc, List.cons_append, hparse, leftLoop_go k hop (hb depth (by omega) rest hrest)]

theorem ends_comparison_tighter (h : Ends .additive e pre) : Ends .comparison e pre := by
  intro depth hdepth rest hrest
  have hadd : parseAdd (parseOr depth) (pre ++ rest) = .ok (e, rest) :=
    h depth hdepth rest (hrest.mono (by decide))
  have hstop : (peek rest).value ∉ ["==", "!=", "<", "<=", ">", ">="] := hrest.noOp .comparison (Nat.le_refl _)
  show parseComparison (parseOr depth) (pre ++ rest) = _
  rw [parseComparison, hadd]
  exact if_neg hstop

theorem ends_comparison (hop : op.IsOp Level.comparison.ops) (ha : Ends .additive a pre) (hb : Ends .additive b post) :
    Ends .comparison (.binary op.value a b) (pre ++ op :: post) := by
  intro depth hdepth rest hrest
  simp only [List.length_append, List.length_cons] at hdepth
  have hleft : parseAdd (parseOr depth) (pre ++ op :: (post ++ rest)) = .ok (a, op :: (post ++ rest)) :=
    ha depth (by omega) _ (Follows.op _ hop (by decide))
  have hright : parseAdd (parseOr depth) (post ++ rest) = .ok (b, rest) :=
    hb depth (by omega) rest (hrest.mono (by decide))
  have hmem : op.value ∈ ["==", "!=", "<", "<=", ">", ">="] := hop.2
  show parseComparison (parseOr depth) (pre ++ op :: post ++ rest) = _
  rw [parseComparison, List.append_assoc, List.cons_append, hleft]
  simp only [ok_bind, peek_cons, if_pos hmem, consume_cons _ hop.1, hright]

theorem ends_not (hop : op.IsOp ["!"]) (h : Ends .unary e ts) : Ends .unary (.unary .not e) (op :: ts) := by
  intro depth hdepth rest hrest
  rw [List.length_cons] at hdepth
  have harg : parseUnary (parseOr depth) (ts ++ rest) = .ok (e, rest) := h depth (by omega) rest hrest
  have hvalue : op.value = "!" := by simpa using hop.2
  show parseUnary (parseOr depth) (op :: (ts ++ rest)) = _
  rw [parseUnary, if_pos hvalue, consume_cons _ hop.1, ok_bind, harg]
  rfl

theorem ends_neg (hop : op.IsOp ["-"]) (h : Ends .unary e ts) : Ends .unary (.unary .neg e) (op :: ts) := by
  intro depth hdepth rest hrest
  rw [List.length_cons] at hdepth
  have harg : parseUnary (parseOr depth) (ts ++ rest) = .ok (e, rest) := h depth (by omega) rest hrest
  have hvalue : op.value = "-" := by simpa using hop.2
  show parseUnary (parseOr depth) (op :: (ts ++ rest)) = _
  rw [parseUnary, if_neg (by rw [hvalue]; decide), if_pos hvalue, consume_cons _ hop.1, ok_bind, harg]
  rfl

/-- An operand whose first token does not look like a unary operator. -/
theorem ends_unary_tighter (hhead : t.value ∉ ["!", "-"]) (h : Ends .primary e (t :: ts)) :
    Ends .unary e (t :: ts) := by
  intro depth hdepth rest hrest
  have hprimary : parsePrimary (parseOr depth) (t :: (ts ++ rest)) = .ok (e, rest) :=
    h depth hdepth rest (hrest.mono (by decide))
  simp only [List.mem_cons, List.not_mem_nil, or_false, not_or] at hhead
  show parseUnary (parseOr depth) (t :: (ts ++ rest)) = _
  rw [parseUnary, if_neg hhead.1, if_neg hhead.2, hprimary]

end

/-- An expression has a first token, which does not close anything. -/
theorem Derives.head {l : Level} {e : ExprNode} {ts : List Token} : Derives l e ts →
    ∃ t rest, ts = t :: rest ∧ t.type ≠ .rparen
  | .tighter _ h => h.head
  | .left _ _ ha _ => by
    obtain ⟨t, rest, rfl, ht⟩ := ha.head
    exact ⟨t, _, List.cons_append .., ht⟩
  | .comparison _ ha _ => by
    obtain ⟨t, rest, rfl, ht⟩ := ha.head
    exact ⟨t, _, List.cons_append .., ht⟩
  | .not hop _ => ⟨_, _, rfl, by rw [hop.1]; decide⟩
  | .neg hop _ => ⟨_, _, rfl, by rw [hop.1]; decide⟩
  | .number ht => ⟨_, _, rfl, by rw [ht]; decide⟩
  | .string ht => ⟨_, _, rfl, by rw [ht]; decide⟩
  | .keyword ht _ => ⟨_, _, rfl, by rw [ht]; decide⟩
  | .ident ht _ => ⟨_, _, rfl, by rw [ht]; decide⟩
  | .call ht _ _ _ _ => ⟨_, _, rfl, by rw [ht]; decide⟩
  | .paren ht _ _ => ⟨_, _, rfl, by rw [ht]; decide⟩

/-- An operand does not begin with an operator. -/
theorem Derives.head_primary {e : ExprNode} {ts : List Token} (h : Derives .primary e ts) :
    ∃ t rest, ts = t :: rest ∧ t.type ≠ .op := by
  cases h with
  | tighter hl _ => exact absurd rfl hl
  | left hl _ _ _ => cases hl
  | number ht => exact ⟨_, _, rfl, by rw [ht]; decide⟩
  | string ht => exact ⟨_, _, rfl, by rw [ht]; decide⟩
  | keyword ht _ => exact ⟨_, _, rfl, by rw [ht]; decide⟩
  | ident ht _ => exact ⟨_, _, rfl, by rw [ht]; decide⟩
  | call ht _ _ _ _ => exact ⟨_, _, rfl, by rw [ht]; decide⟩
  | paren ht _ _ => exact ⟨_, _, rfl, by rw [ht]; decide⟩

/-- The arguments are read up to what follows them. -/
def Supplies (args : List ExprNode) (pre : List Token) : Prop :=
  ∀ depth, pre.length ≤ depth → ∀ rest, Follows .or rest → ∃ fuel, rest.length ≤ fuel ∧
    (do let (arg, ts) ← parseOr (depth + 1) (pre ++ rest)
        argLoop (parseOr (depth + 1)) ts.length [arg] ts) = argLoop (parseOr (depth + 1)) fuel args rest

/-- Every operator begins like one. -/
theorem ops_head {l : Level} {v : String} (h : v ∈ l.ops) : ∃ c ∈ v.toList.head?, isOpChar c = true := by
  have hall : ∀ v ∈ l.ops, ∃ c ∈ v.toList.head?, isOpChar c = true := by
    cases l <;> simp [Level.ops, isOpChar]
  exact hall v h

/-- A comma or a closing parenthesis ends the expression in front of it. -/
theorem follows_mark {l : Level} {t : Token} (ts : List Token) (htype : t.type = .comma ∨ t.type = .rparen)
    (hspelled : t.Spelled) : Follows l (t :: ts) := by
  constructor
  · rw [peek_cons]
    rcases htype with h | h <;> rw [h] <;> decide
  · intro l' _ hmem
    obtain ⟨c, hc, hop⟩ := ops_head hmem
    rcases hspelled c hc hop with h | h <;> rcases htype with h' | h' <;> rw [h'] at h <;> cases h

section
variable {args : List ExprNode} {e : ExprNode} {pre post : List Token} {comma closing : Token}

theorem supplies_first (h : Ends .or e pre) : Supplies [e] pre := by
  intro depth hdepth rest hrest
  have harg : parseOr (depth + 1) (pre ++ rest) = .ok (e, rest) := h depth hdepth rest hrest
  exact ⟨rest.length, Nat.le_refl _, by rw [harg]; rfl⟩

theorem supplies_more (hargs : Supplies args pre) (hcomma : comma.type = .comma)
    (hspelled : comma.Spelled) (h : Ends .or e post) : Supplies (args ++ [e]) (pre ++ comma :: post) := by
  intro depth hdepth rest hrest
  simp only [List.length_append, List.length_cons] at hdepth
  obtain ⟨fuel, hfuel, hparse⟩ := hargs depth (by omega) (comma :: (post ++ rest))
    (follows_mark _ (.inl hcomma) hspelled)
  rw [List.length_cons, List.length_append] at hfuel
  obtain ⟨k, rfl⟩ : ∃ k, fuel = k + 1 := ⟨fuel - 1, by omega⟩
  refine ⟨k, by omega, ?_⟩
  have harg : parseOr (depth + 1) (post ++ rest) = .ok (e, rest) := h depth (by omega) rest hrest
  rw [List.append_assoc, List.cons_append, hparse, argLoop_eq, argLoop_eq]
  exact loopWhile_go k (decide_eq_true hcomma) (by simp [itemRound, consume_cons _ hcomma, harg, argStep])

/-- Arguments with their closing parenthesis. -/
theorem Supplies.parseArgs (hargs : Supplies args pre) (hhead : ∃ t ts, pre = t :: ts ∧ t.type ≠ .rparen)
    (hclosing : closing.type = .rparen) (hspelled : closing.Spelled) {depth : Nat} (hdepth : pre.length ≤ depth)
    (rest : List Token) : parseArgs (parseOr (depth + 1)) (pre ++ closing :: rest) = .ok (args, rest) := by
  obtain ⟨fuel, -, hparse⟩ := hargs depth hdepth (closing :: rest) (follows_mark _ (.inr hclosing) hspelled)
  obtain ⟨t, ts, rfl, ht⟩ := hhead
  have hstop : argLoop (parseOr (depth + 1)) fuel args (closing :: rest) = .ok (args, closing :: rest) := by
    rw [argLoop_eq]
    exact loopWhile_stop (by simp [hclosing]) fuel
  rw [hstop] at hparse
  obtain ⟨⟨arg, ts₁⟩, harg, hloop⟩ := bind_ok hparse
  dsimp only at hloop
  unfold Expressions.parseArgs
  rw [if_pos (show (peek (t :: ts ++ closing :: rest)).type ≠ .rparen from ht)]
  simp only [harg, ok_bind, hloop, consume_cons _ hclosing]

end

/-- Tokens of an input on which the parser does not trip. -/
def Readable (ts : List Token) : Prop := ∀ t ∈ ts, t.Plain ∧ t.Spelled

theorem Readable.append {pre post : List Token} (h : Readable (pre ++ post)) : Readable pre ∧ Readable post :=
  List.forall_mem_append.1 h

theorem Readable.cons {t : Token} {ts : List Token} (h : Readable (t :: ts)) : (t.Plain ∧ t.Spelled) ∧ Readable ts :=
  List.forall_mem_cons.1 h

section
variable {e : ExprNode} {args : List ExprNode} {ts : List Token} {t opening closing : Token}

/-- A first token that is no operator does not look like a unary one. -/
theorem not_unary (hop : t.type ≠ .op) (hplain : t.Plain) (hspelled : t.Spelled) : t.value ∉ ["!", "-"] := by
  intro hmem
  have hhead : ∃ c ∈ t.value.toList.head?, isOpChar c = true := by
    simp only [List.mem_cons, List.not_mem_nil, or_false] at hmem
    rcases hmem with h | h <;> rw [h]
    · exact ⟨'!', rfl, by decide⟩
    · exact ⟨'-', rfl, by decide⟩
  obtain ⟨c, hc, hchar⟩ := hhead
  rcases hspelled c hc hchar with h | h
  · exact hop h
  · exact hplain.2 h hmem

theorem ends_call (ht : t.type = .ident) (hkeyword : keyword t.value = none) (hopening : opening.type = .lparen)
    (hargs : ∀ depth, ts.length ≤ depth → ∀ rest,
      parseArgs (parseOr (depth + 1)) (ts ++ closing :: rest) = .ok (args, rest)) :
    Ends .primary (.call t.value args) (t :: opening :: (ts ++ [closing])) := by
  intro depth hdepth rest hrest
  simp only [List.length_cons, List.length_append, List.length_nil] at hdepth
  obtain ⟨k, rfl⟩ : ∃ k, depth = k + 1 := ⟨depth - 1, by omega⟩
  show parsePrimary (parseOr (k + 1)) (t :: opening :: (ts ++ [closing] ++ rest)) = _
  rw [parsePrimary_call _ ht hkeyword hopening, List.append_assoc, List.singleton_append, hargs k (by omega)]
  rfl

theorem ends_paren (hopening : opening.type = .lparen) (h : Ends .or e ts) (hclosing : closing.type = .rparen)
    (hspelled : closing.Spelled) : Ends .primary e (opening :: (ts ++ [closing])) := by
  intro depth hdepth rest hrest
  simp only [List.length_cons, List.length_append, List.length_nil] at hdepth
  obtain ⟨k, rfl⟩ : ∃ k, depth = k + 1 := ⟨depth - 1, by omega⟩
  have hinner : parseOr (k + 1) (ts ++ closing :: rest) = .ok (e, closing :: rest) :=
    h k (by omega) _ (follows_mark _ (.inr hclosing) hspelled)
  show parsePrimary (parseOr (k + 1)) (opening :: (ts ++ [closing] ++ rest)) = _
  rw [parsePrimary_paren _ hopening, List.append_assoc, List.singleton_append, hinner]
  simp only [ok_bind, consume_cons _ hclosing]

end

mutual

theorem Derives.accepts {l : Level} {e : ExprNode} {ts : List Token} : Derives l e ts → Readable ts → Accepts l e ts
  | .tighter (l := l) hl h, hts => by
    have ih := h.accepts hts
    cases l with
    | or => exact (loops_tighter rfl ih.ends).accepts
    | and => exact (loops_tighter rfl ih.ends).accepts
    | comparison => exact (ends_comparison_tighter ih.ends).accepts rfl
    | additive => exact (loops_tighter rfl ih.ends).accepts
    | multiplicative => exact (loops_tighter rfl ih.ends).accepts
    | unary =>
      obtain ⟨t, rest, rfl, ht⟩ := Derives.head_primary h
      exact (ends_unary_tighter (not_unary ht hts.cons.1.1 hts.cons.1.2) ih.ends).accepts rfl
    | primary => exact absurd rfl hl
  | .left hl hop ha hb, hts =>
    (loops_left hl hop ((ha.accepts hts.append.1).loops hl) (hb.accepts hts.append.2.cons.2).ends).accepts
  | .comparison hop ha hb, hts =>
    (ends_comparison hop (ha.accepts hts.append.1).ends (hb.accepts hts.append.2.cons.2).ends).accepts rfl
  | .not hop h, hts => (ends_not hop (h.accepts hts.cons.2).ends).accepts rfl
  | .neg hop h, hts => (ends_neg hop (h.accepts hts.cons.2).ends).accepts rfl
  | .number ht, _ => Ends.accepts rfl fun _ _ rest _ => parsePrimary_number rest ht
  | .string ht, _ => Ends.accepts rfl fun _ _ rest _ => parsePrimary_string rest ht
  | .keyword ht hkeyword, _ => Ends.accepts rfl fun _ _ rest _ => parsePrimary_keyword rest ht hkeyword
  | .ident ht hkeyword, _ => Ends.accepts rfl fun _ _ rest hrest => parsePrimary_ident rest ht hkeyword hrest.noCall
  | .call ht hkeyword hopening hargs hclosing, hts => by
    obtain ⟨-, hspelled⟩ := hts.cons.2.cons.2.append.2.cons.1
    refine (ends_call ht hkeyword hopening fun depth hdepth rest => ?_).accepts rfl
    rcases hargs.supplies hts.cons.2.cons.2.append.1 with ⟨rfl, rfl⟩ | ⟨hsupplies, hhead⟩
    · simp [parseArgs, hclosing, consume_cons _ hclosing]
    · exact hsupplies.parseArgs hhead hclosing hspelled hdepth rest
  | .paren hopening h hclosing, hts => by
    obtain ⟨-, hspelled⟩ := hts.cons.2.append.2.cons.1
    exact (ends_paren hopening (h.accepts hts.cons.2.append.1).ends hclosing hspelled).accepts rfl

theorem Arguments.supplies {args : List ExprNode} {ts : List Token} : Arguments args ts → Readable ts →
    args = [] ∧ ts = [] ∨ Supplies args ts ∧ ∃ t rest, ts = t :: rest ∧ t.type ≠ .rparen
  | .none, _ => .inl ⟨rfl, rfl⟩
  | .first h, hts => .inr ⟨supplies_first (h.accepts hts).ends, h.head⟩
  | .more hargs hne hcomma h, hts => by
    rcases hargs.supplies hts.append.1 with ⟨hnil, -⟩ | ⟨hsupplies, t, rest, rfl, ht⟩
    · exact absurd hnil hne
    · have hpost := (h.accepts hts.append.2.cons.2).ends
      exact .inr ⟨supplies_more hsupplies hcomma hts.append.2.cons.1.2 hpost, t, _, List.cons_append .., ht⟩

end

/-- The parser stops at the end of the tokens. -/
theorem parse_ok {input : String} {e : ExprNode} (h : parse input = .ok e) : ∃ front pos,
    tokenize input = .ok (front ++ [⟨.eof, "", pos⟩]) ∧ Reads .or e front := by
  obtain ⟨ts, htokens, hparse⟩ := bind_ok h
  obtain ⟨⟨node, rest⟩, hnode, hend⟩ := bind_ok hparse
  obtain ⟨front, pos, rfl, hfront⟩ := (tokenize_iff.1 htokens).front
  obtain ⟨pre, hts, hreads⟩ := parseOr_sound _ hnode
  dsimp only at hend
  split at hend
  · cases hend
  · rename_i heof
    cases hend
    rw [not_not] at heof
    rcases List.eq_nil_or_concat rest with rfl | ⟨init, last, rfl⟩
    -- `eof` was not read
    · rw [List.append_nil] at hts
      have hmem : (⟨.eof, "", pos⟩ : Token) ∈ pre := hts ▸ List.mem_append_right _ List.mem_cons_self
      exact absurd rfl (hreads.plain _ hmem).1
    · rw [List.concat_eq_append, ← List.append_assoc] at hts
      obtain ⟨hfront_eq, hlast⟩ := List.append_inj' hts rfl
      cases init with
      | nil =>
        rw [List.append_nil] at hfront_eq
        exact ⟨front, pos, htokens, hfront_eq ▸ hreads⟩
      | cons t init =>
        have hmem : t ∈ front := hfront_eq ▸ List.mem_append_right _ List.mem_cons_self
        exact absurd heof (hfront t hmem).1

/-- The end of the tokens ends an expression. -/
theorem follows_eof (l : Level) (pos : Nat) : Follows l [⟨.eof, "", pos⟩] := by
  refine ⟨by simp, fun l' _ hmem => ?_⟩
  obtain ⟨c, hc, -⟩ := ops_head hmem
  cases hc

theorem parse_of_reads {input : String} {e : ExprNode} {front : List Token} {pos : Nat}
    (htokens : tokenize input = .ok (front ++ [⟨.eof, "", pos⟩])) (h : Reads .or e front) : parse input = .ok e := by
  obtain ⟨front', pos', heq, hfront⟩ := (tokenize_iff.1 htokens).front
  obtain ⟨rfl, -⟩ := List.append_inj' heq rfl
  have hreadable : Readable front := fun t ht => ⟨h.plain t ht, (hfront t ht).2⟩
  have hends := (h.derives.accepts hreadable).ends
  have hparse : parseOr ((front ++ [(⟨.eof, "", pos⟩ : Token)]).length + 1) (front ++ [⟨.eof, "", pos⟩]) =
      .ok (e, [⟨.eof, "", pos⟩]) := hends _ (by simp) _ (follows_eof .or pos)
  rw [parse, htokens, ok_bind, hparse]
  rfl

/-- A name that is no literal is an expression. -/
theorem parse_name {name : String} {c : Char} {text : List Char} (hname : name.toList = c :: text)
    (hc : isIdentStart c = true) (htext : ∀ d ∈ text, isIdentChar d = true) (hkeyword : keyword name = none) :
    parse name = .ok (.ident name) := by
  have hprimary := @Derives.ident ⟨.ident, name, 0 + (text.length + 1)⟩ rfl hkeyword
  have hor : Derives .or (.ident name) [⟨.ident, name, 0 + (text.length + 1)⟩] :=
    .tighter (by decide) (.tighter (by decide) (.tighter (by decide) (.tighter (by decide) (.tighter (by decide)
      (.tighter (by decide) hprimary)))))
  exact parse_of_reads (tokenize_name hname hc htext) ⟨hor, by simp [Token.Plain]⟩

/-- An input is parsed if and only if it is derived and no literal in it has the text of a unary operator. -/
theorem parse_iff {input : String} {e : ExprNode} : parse input = .ok e ↔
    ∃ front pos, tokenize input = .ok (front ++ [⟨.eof, "", pos⟩]) ∧ Reads .or e front :=
  ⟨parse_ok, fun ⟨_, _, htokens, h⟩ => parse_of_reads htokens h⟩

/-- What the parser returns is the tree of a derivation of all tokens, and there is no other. -/
theorem parse_sound {input : String} {e : ExprNode} (h : parse input = .ok e) : ∃ front pos,
    tokenize input = .ok (front ++ [⟨.eof, "", pos⟩]) ∧ Derives .or e front ∧
      ∀ e', Derives .or e' front → e' = e := by
  obtain ⟨front, pos, htokens, hreads⟩ := parse_ok h
  refine ⟨front, pos, htokens, hreads.derives, fun e' he' => ?_⟩
  have hparse := parse_of_reads htokens ⟨he', hreads.plain⟩
  rw [h] at hparse
  exact (Except.ok.inj hparse).symm

/-- Precedence and the order of arguments. -/
theorem parse_sound_sample : ∃ front pos, tokenize "!a && b(1, 2)" = .ok (front ++ [⟨.eof, "", pos⟩]) ∧
    Derives .or (.binary "&&" (.unary .not (.ident "a"))
      (.call "b" [.literal (.number (.parse "1")), .literal (.number (.parse "2"))])) front ∧
    ∀ e', Derives .or e' front → e' = .binary "&&" (.unary .not (.ident "a"))
      (.call "b" [.literal (.number (.parse "1")), .literal (.number (.parse "2"))]) := by
  have htokens : tokenize "!a && b(1, 2)" = .ok [⟨.op, "!", 1⟩, ⟨.ident, "a", 2⟩, ⟨.op, "&&", 5⟩, ⟨.ident, "b", 7⟩,
      ⟨.lparen, "(", 7⟩, ⟨.number, "1", 9⟩, ⟨.comma, ",", 9⟩, ⟨.number, "2", 12⟩, ⟨.rparen, ")", 12⟩,
      ⟨.eof, "", 13⟩] := by rfl
  exact parse_sound (by rw [parse, htokens]; rfl)

end Jobflow.Expressions
