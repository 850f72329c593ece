import Mathlib.Data.List.TakeWhile
import Jobflow.Expressions.Syntax

/-!
# Workflow DSL: tokens (src/dsl/lexer.ts)

The lexer's `pos` is kept as the rest of the source, and `line` and `column` as a `Position`; columns count UTF-16
units. The loop of `tokenize` is bounded by `fuel`: `outOfFuel` is not an answer, and `tokenize_answers` says that
there is one for every source, since each round takes a character.
-/

namespace Jobflow.Dsl

open Js (Exception Number)
open Expressions (charUnits isIdentStart)

/-! ## Tokens -/

inductive DslTokenType where
  | keyword | ident | number | string | lbrace | rbrace | lbracket | rbracket | colon | comma | arrow | eof
  deriving DecidableEq

def DslTokenType.text : DslTokenType → String
  | .keyword => "keyword"
  | .ident => "ident"
  | .number => "number"
  | .string => "string"
  | .lbrace => "lbrace"
  | .rbrace => "rbrace"
  | .lbracket => "lbracket"
  | .rbracket => "rbracket"
  | .colon => "colon"
  | .comma => "comma"
  | .arrow => "arrow"
  | .eof => "eof"

structure Position where
  line : Nat
  column : Nat
  deriving DecidableEq

structure DslToken where
  type : DslTokenType
  value : String
  position : Position
  deriving DecidableEq

def KEYWORDS : List String :=
  ["workflow", "task", "constraint", "depends", "optional", "warn", "block", "timeout", "version", "handler", "expr"]

/-- Why a run of the front end stops without a result. -/
inductive Halt where
  | threw (e : Exception)
  | outOfFuel
  deriving DecidableEq

def Halt.error (message : String) : Halt := .threw (.error message)

/-! ## The cursor -/

/-- `advance` over the character `c` (lexer.ts:110-118). -/
def Position.after (p : Position) (c : Char) : Position :=
  if c = '\n' then ⟨p.line + 1, 1⟩ else ⟨p.line, p.column + charUnits c⟩

/-- `advance` at the end of the source. -/
def Position.past (p : Position) : Position := ⟨p.line, p.column + 1⟩

/-- What is left of the source, and where it starts. -/
structure Cursor where
  rest : List Char
  position : Position

/-- `skipWhitespaceAndComments` (lexer.ts:120-132); `comment` says that the inner loop is running. -/
def skipWhitespaceAndComments (comment : Bool) : List Char → Position → Cursor
  | [], p => ⟨[], p⟩
  | c :: cs, p =>
    if comment ∧ c ≠ '\n' then skipWhitespaceAndComments true cs (p.after c)
    else if Number.isSpace c then skipWhitespaceAndComments false cs (p.after c)
    else if c = '#' then skipWhitespaceAndComments true cs (p.after c)
    else ⟨c :: cs, p⟩

/-- The loop of `readString` (lexer.ts:138-148), after the opening quote `q`: the characters of the literal. It goes
on to the end of the source if there is no other `q`, and then one position past it. -/
def readString (q : Char) : List Char → Position → List Char × Cursor
  | [], p => ([], ⟨[], p.past⟩)
  | c :: cs, p =>
    if c = q then ([], ⟨cs, p.after c⟩)
    else if c = '\\' then
      match cs with
      | [] => ([], ⟨[], (p.after c).past.past⟩)
      | d :: cs =>
        let (out, cursor) := readString q cs ((p.after c).after d)
        (d :: out, cursor)
    else
      let (out, cursor) := readString q cs (p.after c)
      (c :: out, cursor)

/-- `/[a-zA-Z0-9_.-]/`. -/
def isIdentChar (c : Char) : Bool := isIdentStart c || Number.isDigit c || c = '.' || c = '-'

/-- The loop of `readNumber` and `readIdent` (lexer.ts:152-162): the longest run of characters that pass the test. -/
def readWhile (p : Char → Bool) (cs : List Char) (position : Position) : String × Cursor :=
  let text := cs.takeWhile p
  (String.ofList text, ⟨cs.dropWhile p, text.foldl Position.after position⟩)

/-! ## `tokenize` -/

/-- The punctuation that is one character long (lexer.ts:51-74). -/
def singleType (c : Char) : Option DslTokenType :=
  if c = '{' then some .lbrace
  else if c = '}' then some .rbrace
  else if c = '[' then some .lbracket
  else if c = ']' then some .rbracket
  else if c = ':' then some .colon
  else if c = ',' then some .comma
  else none

/-- The body of the loop of `tokenize` (lexer.ts:48-95), at a character that starts a token. -/
def nextToken (c : Char) (cs : List Char) (start : Position) : Except Halt (DslToken × Cursor) :=
  match singleType c with
  | some type => .ok (⟨type, String.ofList [c], start⟩, ⟨cs, start.after c⟩)
  | none =>
    if c = '-' ∧ cs.head? = some '>' then .ok (⟨.arrow, "->", start⟩, ⟨cs.tail, (start.after c).after '>'⟩)
    else if c = '"' ∨ c = '\'' then
      let (out, cursor) := readString c cs (start.after c)
      .ok (⟨.string, String.ofList out, start⟩, cursor)
    else if Number.isDigit c then
      let (text, cursor) := readWhile Number.isDigit (c :: cs) start
      .ok (⟨.number, text, start⟩, cursor)
    else if isIdentStart c then
      let (word, cursor) := readWhile isIdentChar (c :: cs) start
      .ok (⟨if word ∈ KEYWORDS then .keyword else .ident, word, start⟩, cursor)
    else .error (.error ("unexpected character '" ++ String.ofList [c] ++ "' at " ++ toString start.line ++ ":" ++
      toString start.column))

def tokenizeFrom : Nat → List Char → Position → Except Halt (List DslToken)
  | 0, _, _ => .error .outOfFuel
  | fuel + 1, cs, p =>
    let cursor := skipWhitespaceAndComments false cs p
    match cursor.rest with
    | [] => .ok [⟨.eof, "", cursor.position⟩]
    | c :: cs => do
      let (t, next) ← nextToken c cs cursor.position
      .ok (t :: (← tokenizeFrom fuel next.rest next.position))

/-- `WorkflowDslLexer.tokenize`. -/
def tokenize (fuel : Nat) (source : String) : Except Halt (List DslToken) :=
  tokenizeFrom fuel source.toList ⟨1, 1⟩

/-! ## The lexer always answers -/

theorem skipWhitespaceAndComments_length : ∀ (comment : Bool) (cs : List Char) (p : Position),
    (skipWhitespaceAndComments comment cs p).rest.length ≤ cs.length
  | _, [], _ => by simp [skipWhitespaceAndComments]
  | comment, c :: cs, p => by
    unfold skipWhitespaceAndComments
    split
    · exact Nat.le_succ_of_le (skipWhitespaceAndComments_length true cs _)
    split
    · exact Nat.le_succ_of_le (skipWhitespaceAndComments_length false cs _)
    split
    · exact Nat.le_succ_of_le (skipWhitespaceAndComments_length true cs _)
    · exact Nat.le_refl _

theorem readString_length (q : Char) : ∀ (cs : List Char) (p : Position),
    (readString q cs p).2.rest.length ≤ cs.length
  | [], _ => by simp [readString]
  | c :: cs, p => by
    unfold readString
    split
    · exact Nat.le_succ _
    split
    · cases cs with
      | nil => simp
      | cons d cs => exact Nat.le_succ_of_le (Nat.le_succ_of_le (readString_length q cs _))
    · exact Nat.le_succ_of_le (readString_length q cs _)

/-- A token takes the character it starts with. -/
theorem nextToken_length {c : Char} {cs : List Char} {p : Position} {t : DslToken} {next : Cursor}
    (h : nextToken c cs p = .ok (t, next)) : next.rest.length ≤ cs.length := by
  have hdrop : ∀ f : Char → Bool, f c = true → ((c :: cs).dropWhile f).length ≤ cs.length := by
    intro f hf
    rw [List.dropWhile_cons_of_pos hf]
    exact (List.dropWhile_suffix f).length_le
  unfold nextToken at h
  split at h
  · cases h
    exact Nat.le_refl _
  split at h
  · cases h
    simp
  split at h
  · cases h
    exact readString_length c cs _
  split at h
  · rename_i hdigit
    cases h
    exact hdrop _ hdigit
  split at h
  · rename_i hident
    cases h
    exact hdrop _ (by simp [isIdentChar, hident])
  · cases h

theorem nextToken_answers {c : Char} {cs : List Char} {p : Position} : nextToken c cs p ≠ .error .outOfFuel := by
  unfold nextToken
  repeat' split
  all_goals simp [Halt.error]

theorem tokenizeFrom_answers : ∀ (fuel : Nat) (cs : List Char) (p : Position), cs.length < fuel →
    tokenizeFrom fuel cs p ≠ .error .outOfFuel
  | 0, _, _, h => by omega
  | fuel + 1, cs, p, h => by
    have hskip := skipWhitespaceAndComments_length false cs p
    unfold tokenizeFrom
    dsimp only
    cases hrest : (skipWhitespaceAndComments false cs p).rest with
    | nil => simp
    | cons c rest =>
      rw [hrest, List.length_cons] at hskip
      dsimp only
      cases hnext : nextToken c rest (skipWhitespaceAndComments false cs p).position with
      | error e =>
        have := @nextToken_answers c rest (skipWhitespaceAndComments false cs p).position
        rw [hnext] at this
        simpa [bind, Except.bind] using this
      | ok r =>
        have hlength := nextToken_length hnext
        have ih := tokenizeFrom_answers fuel r.2.rest r.2.position (by omega)
        cases htail : tokenizeFrom fuel r.2.rest r.2.position with
        | error e =>
          rw [htail] at ih
          simpa [bind, Except.bind, htail] using ih
        | ok ts => simp [bind, Except.bind, htail]

/-- `tokenize` comes to an end on every source, with tokens or with an error. -/
theorem tokenize_answers (source : String) : ∃ fuel, tokenize fuel source ≠ .error .outOfFuel :=
  ⟨source.toList.length + 1, tokenizeFrom_answers _ _ _ (Nat.lt_succ_self _)⟩

/-- A round that ends with tokens: there is no other, or one more and then those of the rest. -/
theorem tokenizeFrom_ok {fuel : Nat} {cs : List Char} {p : Position} {ts : List DslToken}
    (h : tokenizeFrom (fuel + 1) cs p = .ok ts) :
    let cursor := skipWhitespaceAndComments false cs p
    cursor.rest = [] ∧ ts = [⟨.eof, "", cursor.position⟩] ∨
      ∃ c rest t next tail, cursor.rest = c :: rest ∧ nextToken c rest cursor.position = .ok (t, next) ∧
        tokenizeFrom fuel next.rest next.position = .ok tail ∧ ts = t :: tail := by
  unfold tokenizeFrom at h
  dsimp only at h ⊢
  cases hrest : (skipWhitespaceAndComments false cs p).rest with
  | nil =>
    rw [hrest] at h
    cases h
    exact .inl ⟨rfl, rfl⟩
  | cons c rest =>
    rw [hrest] at h
    dsimp only at h
    cases hnext : nextToken c rest (skipWhitespaceAndComments false cs p).position with
    | error e =>
      rw [hnext] at h
      cases h
    | ok r =>
      rw [hnext] at h
      cases htail : tokenizeFrom fuel r.2.rest r.2.position with
      | error e =>
        simp only [bind, Except.bind, htail] at h
        cases h
      | ok tail =>
        simp only [bind, Except.bind, htail] at h
        exact .inr ⟨c, rest, r.1, r.2, tail, rfl, hnext, htail, (Except.ok.inj h).symm⟩

theorem tokenizeFrom_mono : ∀ {fuel fuel' : Nat} {cs : List Char} {p : Position},
    tokenizeFrom fuel' cs p ≠ .error .outOfFuel → fuel' ≤ fuel →
      tokenizeFrom fuel cs p = tokenizeFrom fuel' cs p
  | _, 0, _, _, h, _ => absurd rfl h
  | 0, fuel' + 1, _, _, _, hfuel => by omega
  | fuel + 1, fuel' + 1, cs, p, h, hfuel => by
    unfold tokenizeFrom at h ⊢
    dsimp only at h ⊢
    cases hrest : (skipWhitespaceAndComments false cs p).rest with
    | nil => rfl
    | cons c rest =>
      rw [hrest] at h
      dsimp only at h ⊢
      cases hnext : nextToken c rest (skipWhitespaceAndComments false cs p).position with
      | error e => rfl
      | ok r =>
        rw [hnext] at h
        have htail : tokenizeFrom fuel' r.2.rest r.2.position ≠ .error .outOfFuel := by
          intro htail
          simp only [bind, Except.bind, htail] at h
          exact h rfl
        simp only [bind, Except.bind, tokenizeFrom_mono htail (Nat.le_of_succ_le_succ hfuel)]

/-- More rounds lead to the same tokens. -/
theorem tokenize_mono {fuel fuel' : Nat} {source : String} {ts : List DslToken}
    (h : tokenize fuel' source = .ok ts) (hfuel : fuel' ≤ fuel) : tokenize fuel source = .ok ts := by
  rw [← h]
  refine tokenizeFrom_mono ?_ hfuel
  intro hspent
  rw [tokenize, hspent] at h
  cases h

/-- There are no other tokens: fewer rounds lead to the same, or are too few. -/
theorem tokenize_unique {fuel' : Nat} {source : String} {ts : List DslToken} (h : tokenize fuel' source = .ok ts)
    (fuel : Nat) : tokenize fuel source = .ok ts ∨ tokenize fuel source = .error .outOfFuel := by
  by_cases hspent : tokenize fuel source = .error .outOfFuel
  · exact .inr hspent
  · left
    rcases Nat.le_total fuel' fuel with hle | hle
    · exact tokenize_mono h hle
    · rw [← h]
      exact (tokenizeFrom_mono hspent hle).symm

theorem singleType_ne_eof (c : Char) : singleType c ≠ some .eof := by
  unfold singleType
  repeat' split
  all_goals simp

theorem nextToken_type {c : Char} {cs : List Char} {p : Position} {t : DslToken} {next : Cursor}
    (h : nextToken c cs p = .ok (t, next)) : t.type ≠ .eof := by
  unfold nextToken at h
  split at h
  · rename_i type hsingle
    cases h
    rintro rfl
    exact singleType_ne_eof c hsingle
  split at h
  · cases h
    simp
  split at h
  · cases h
    simp
  split at h
  · cases h
    simp
  split at h
  · cases h
    dsimp only
    split <;> simp
  · cases h

/-- The end is the last token, and only that. -/
theorem tokenizeFrom_eof : ∀ {fuel : Nat} {cs : List Char} {p : Position} {ts : List DslToken},
    tokenizeFrom fuel cs p = .ok ts → ∃ front eof, ts = front ++ [eof] ∧ eof.type = .eof ∧ ∀ t ∈ front, t.type ≠ .eof
  | 0, _, _, _, h => by cases h
  | fuel + 1, cs, p, ts, h => by
    rcases tokenizeFrom_ok h with ⟨-, rfl⟩ | ⟨c, rest, t, next, tail, -, hnext, htail, rfl⟩
    · exact ⟨[], _, rfl, rfl, fun _ h => by cases h⟩
    · obtain ⟨front, eof, rfl, heof, hfront⟩ := tokenizeFrom_eof htail
      refine ⟨t :: front, eof, rfl, heof, ?_⟩
      rintro u (_ | ⟨_, hu⟩)
      · exact nextToken_type hnext
      · exact hfront u hu

/-! ## Literals that are not closed -/

/-- Where a character of a source stands. -/
inductive LexMode where
  | code
  | comment
  | literal (q : Char)
  /-- After a backslash of the literal. -/
  | escaped (q : Char)
  deriving DecidableEq

def LexMode.step : LexMode → Char → LexMode
  | .code, c => if c = '#' then .comment else if c = '"' ∨ c = '\'' then .literal c else .code
  | .comment, c => if c = '\n' then .code else .comment
  | .literal q, c => if c = q then .code else if c = '\\' then .escaped q else .literal q
  | .escaped q, _ => .literal q

/-- Where the end of the source stands. -/
def endMode (source : String) : LexMode := source.toList.foldl LexMode.step .code

/-- Every string literal of the source is closed by the character that opened it: a literal that is not closed goes on
to the end. -/
def LiteralsClosed (source : String) : Prop := endMode source = .code ∨ endMode source = .comment

instance (source : String) : Decidable (LiteralsClosed source) :=
  inferInstanceAs (Decidable (_ ∨ _))

/-- Skipping leads from code to code, or to the end of the source. -/
theorem skip_mode : ∀ (comment : Bool) (cs : List Char) (p : Position),
    let cursor := skipWhitespaceAndComments comment cs p
    cs.foldl LexMode.step (if comment then .comment else .code) = cursor.rest.foldl LexMode.step .code ∨
      cursor.rest = [] ∧ cs.foldl LexMode.step (if comment then .comment else .code) = .comment
  | comment, [], p => by cases comment <;> simp [skipWhitespaceAndComments]
  | comment, c :: cs, p => by
    unfold skipWhitespaceAndComments
    by_cases hskip : comment ∧ c ≠ '\n'
    · have ih := skip_mode true cs (p.after c)
      simp only [if_true] at ih
      simpa only [hskip, if_true, ne_eq, not_false_eq_true, and_self, List.foldl_cons, LexMode.step, if_false] using ih
    · -- the character is read as code: a comment only ends at a line break
      have hcode : LexMode.step (if comment then .comment else .code) c = LexMode.step .code c := by
        cases comment with
        | false => rfl
        | true =>
          have hc : c = '\n' := by simpa using hskip
          subst hc
          rfl
      rw [if_neg hskip, List.foldl_cons, hcode]
      by_cases hspace : Number.isSpace c = true
      · have hstep : LexMode.step .code c = .code := by
          have h₁ : c ≠ '#' := by rintro rfl; revert hspace; decide
          have h₂ : ¬ (c = '"' ∨ c = '\'') := by rintro (rfl | rfl) <;> revert hspace <;> decide
          simp [LexMode.step, h₁, h₂]
        have ih := skip_mode false cs (p.after c)
        rw [if_pos hspace, hstep]
        exact ih
      · rw [if_neg hspace]
        by_cases hhash : c = '#'
        · have ih := skip_mode true cs (p.after c)
          rw [if_pos hhash, hhash]
          rw [hhash] at ih
          exact ih
        · rw [if_neg hhash]
          exact .inl rfl

/-- A literal is closed, or it takes the rest of the source. -/
theorem readString_mode (q : Char) : ∀ (cs : List Char) (p : Position),
    cs.foldl LexMode.step (.literal q) = (readString q cs p).2.rest.foldl LexMode.step .code ∨
      (readString q cs p).2.rest = []
  | [], p => .inr rfl
  | c :: cs, p => by
    unfold readString
    by_cases hq : c = q
    · rw [if_pos hq]
      left
      simp [LexMode.step, hq]
    · rw [if_neg hq]
      by_cases hslash : c = '\\'
      · rw [if_pos hslash]
        cases cs with
        | nil => exact .inr rfl
        | cons d cs =>
          have ih := readString_mode q cs ((p.after c).after d)
          subst hslash
          simpa [LexMode.step, hq] using ih
      · rw [if_neg hslash]
        have ih := readString_mode q cs (p.after c)
        simpa [LexMode.step, hq, hslash] using ih

/-- A run of characters that are no quote and no hash sign. -/
theorem foldl_code {cs : List Char} (h : ∀ c ∈ cs, c ≠ '#' ∧ ¬ (c = '"' ∨ c = '\'')) :
    cs.foldl LexMode.step .code = .code := by
  induction cs with
  | nil => rfl
  | cons c cs ih =>
    obtain ⟨h₁, h₂⟩ := h c List.mem_cons_self
    rw [List.foldl_cons]
    have hstep : LexMode.step .code c = .code := by simp only [LexMode.step, if_neg h₁, if_neg h₂]
    rw [hstep]
    exact ih fun x hx => h x (List.mem_cons_of_mem _ hx)

theorem dropWhile_mode {f : Char → Bool} (hf : ∀ c, f c = true → c ≠ '#' ∧ ¬ (c = '"' ∨ c = '\''))
    (cs : List Char) : cs.foldl LexMode.step .code = (cs.dropWhile f).foldl LexMode.step .code := by
  calc cs.foldl LexMode.step .code
      = (cs.takeWhile f ++ cs.dropWhile f).foldl LexMode.step .code := by rw [List.takeWhile_append_dropWhile]
    _ = (cs.dropWhile f).foldl LexMode.step .code := by
        rw [List.foldl_append, foldl_code fun c hc => hf c (List.mem_takeWhile_imp hc)]

theorem isIdentChar_plain {c : Char} (h : isIdentChar c = true) : c ≠ '#' ∧ ¬ (c = '"' ∨ c = '\'') := by
  refine ⟨?_, ?_⟩
  · rintro rfl
    revert h
    decide
  · rintro (rfl | rfl) <;> revert h <;> decide

theorem isDigit_plain {c : Char} (h : Number.isDigit c = true) : c ≠ '#' ∧ ¬ (c = '"' ∨ c = '\'') :=
  isIdentChar_plain (by simp [isIdentChar, h])

theorem singleType_plain {c : Char} {type : DslTokenType} (h : singleType c = some type) :
    c ≠ '#' ∧ ¬ (c = '"' ∨ c = '\'') := by
  refine ⟨?_, ?_⟩
  · rintro rfl
    cases h
  · rintro (rfl | rfl) <;> cases h

/-- A token leads from code to code, except for a literal that takes the rest of the source. -/
theorem nextToken_mode {c : Char} {cs : List Char} {p : Position} {t : DslToken} {next : Cursor}
    (h : nextToken c cs p = .ok (t, next)) :
    (c :: cs).foldl LexMode.step .code = next.rest.foldl LexMode.step .code ∨ t.type = .string ∧ next.rest = [] := by
  have hplain : ∀ c : Char, c ≠ '#' ∧ ¬ (c = '"' ∨ c = '\'') → LexMode.step .code c = .code := by
    rintro c ⟨h₁, h₂⟩
    simp only [LexMode.step, if_neg h₁, if_neg h₂]
  unfold nextToken at h
  split at h
  · rename_i hsingle
    cases h
    rw [List.foldl_cons, hplain c (singleType_plain hsingle)]
    exact .inl rfl
  split at h
  · rename_i harrow
    obtain ⟨rfl, hhead⟩ := harrow
    cases h
    cases cs with
    | nil => cases hhead
    | cons d cs =>
      obtain rfl := Option.some.inj hhead
      exact .inl rfl
  split at h
  · rename_i hquote
    cases h
    have hne : c ≠ '#' := by
      rintro rfl
      revert hquote
      decide
    have hopen : LexMode.step .code c = .literal c := by simp only [LexMode.step, if_neg hne, if_pos hquote]
    rw [List.foldl_cons, hopen]
    exact (readString_mode c cs (p.after c)).imp_right fun hnil => ⟨rfl, hnil⟩
  split at h
  · cases h
    exact .inl (dropWhile_mode (fun _ => isDigit_plain) _)
  split at h
  · cases h
    exact .inl (dropWhile_mode (fun _ => isIdentChar_plain) _)
  · cases h

/-- If a literal of the source is not closed, it is the last token. -/
theorem tokenizeFrom_mode : ∀ {fuel : Nat} {cs : List Char} {p : Position} {ts : List DslToken},
    tokenizeFrom fuel cs p = .ok ts →
      (cs.foldl LexMode.step .code = .code ∨ cs.foldl LexMode.step .code = .comment) ∨
        ∃ front t eof, ts = front ++ [t, eof] ∧ t.type = .string
  | 0, _, _, _, h => by cases h
  | fuel + 1, cs, p, ts, h => by
    have hskip := skip_mode false cs p
    dsimp only at hskip
    rcases tokenizeFrom_ok h with ⟨hrest, -⟩ | ⟨c, rest, t, next, tail, hrest, hnext, htail, rfl⟩
    · rw [hrest] at hskip
      rcases hskip with hcode | ⟨_, hcomment⟩
      · exact .inl (.inl hcode)
      · exact .inl (.inr hcomment)
    · rw [hrest] at hskip
      have hcode := hskip.resolve_right fun hnil => by cases hnil.1
      rw [if_neg Bool.false_ne_true] at hcode
      rw [hcode]
      rcases nextToken_mode hnext with hmode | ⟨hstring, hnil⟩
      · rw [hmode]
        refine (tokenizeFrom_mode htail).imp_right ?_
        rintro ⟨front, u, eof, rfl, hu⟩
        exact ⟨t :: front, u, eof, rfl, hu⟩
      · -- nothing is left to read but the end
        refine .inr ⟨[], t, ⟨.eof, "", next.position⟩, ?_, hstring⟩
        rw [hnil] at htail
        cases fuel with
        | zero => cases htail
        | succ fuel =>
          obtain rfl := Except.ok.inj htail
          rfl

end Jobflow.Dsl
