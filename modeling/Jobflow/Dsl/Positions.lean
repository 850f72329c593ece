import Mathlib.Data.List.Chain
import Mathlib.Data.List.Forall2
import Jobflow.Dsl.Lexer

/-!
# Workflow DSL: where tokens stand (src/dsl/lexer.ts)

The lexer moves its offset, line and column together. `Position.after` over the text that was read is the position of
its end (`positionAt_append`), so that each token carries the line and the column it starts in. The tokens take the
whole source, up to whitespace and comments before, between and behind them (`tokenize_positions`).
-/

namespace Jobflow.Dsl

open Js (Number)
open Expressions (charUnits)

/-! ## Lines and columns of a text -/

/-- The number of the line a text ends in. -/
def lineAt (before : List Char) : Nat := 1 + before.count '\n'

/-- The column behind a text: characters are counted as UTF-16 units. -/
def columnAt (before : List Char) : Nat := 1 + ((before.reverse.takeWhile (· ≠ '\n')).map charUnits).sum

def positionAt (before : List Char) : Position := ⟨lineAt before, columnAt before⟩

theorem positionAt_concat (before : List Char) (c : Char) :
    positionAt (before ++ [c]) = (positionAt before).after c := by
  unfold positionAt lineAt columnAt Position.after
  rw [List.reverse_concat]
  split_ifs with hc
  · subst hc
    simp [Nat.add_assoc]
  · rw [List.takeWhile_cons_of_pos (by simpa using hc)]
    simp only [List.map_cons, List.sum_cons, List.count_append, List.count_singleton, beq_iff_eq, if_neg hc,
      Nat.add_zero]
    rw [Nat.add_comm (charUnits c), Nat.add_assoc]

theorem positionAt_append (before text : List Char) :
    positionAt (before ++ text) = text.foldl Position.after (positionAt before) := by
  induction text generalizing before with
  | nil => rw [List.append_nil, List.foldl_nil]
  | cons c text ih => rw [List.foldl_cons, ← positionAt_concat, ← ih, List.append_assoc, List.singleton_append]

/-! ## What stands between tokens -/

/-- Whitespace and comments. A comment ends with its line, or with the source. -/
inductive Gap (rest : List Char) : List Char → Prop where
  | nil : Gap rest []
  | space {c : Char} {cs : List Char} (hc : Number.isSpace c = true) (h : Gap rest cs) : Gap rest (c :: cs)
  | comment {text cs : List Char} (htext : '\n' ∉ text) (hend : ∀ c ∈ (cs ++ rest).head?, c = '\n') (h : Gap rest cs) :
      Gap rest ('#' :: text ++ cs)

/-- What is skipped is a gap, or the rest of a comment and a gap. -/
theorem skipWhitespaceAndComments_gap (comment : Bool) (cs : List Char) (p : Position) :
    let cursor := skipWhitespaceAndComments comment cs p
    ∃ text gap, cs = text ++ gap ++ cursor.rest ∧ cursor.position = (text ++ gap).foldl Position.after p ∧
      Gap cursor.rest gap ∧ '\n' ∉ text ∧ (comment = false → text = []) ∧
      (comment = true → ∀ c ∈ (gap ++ cursor.rest).head?, c = '\n') := by
  induction cs generalizing comment p with
  | nil => exact ⟨[], [], by simp [skipWhitespaceAndComments, Gap.nil]⟩
  | cons c cs ih =>
    unfold skipWhitespaceAndComments
    by_cases hskip : comment ∧ c ≠ '\n'
    · obtain ⟨text, gap, hcs, hposition, hgap, htext, _, hend⟩ := ih true (p.after c)
      obtain ⟨rfl, hc⟩ := hskip
      rw [if_pos ⟨rfl, hc⟩]
      exact ⟨c :: text, gap, by rw [List.cons_append, List.cons_append, ← hcs], hposition, hgap,
        fun h => (List.mem_cons.1 h).elim (fun h => hc h.symm) htext, fun h => absurd h.symm Bool.false_ne_true, hend⟩
    · rw [if_neg hskip]
      have hline : comment = true → c = '\n' := fun h => by simpa [h] using hskip
      by_cases hspace : Number.isSpace c = true
      · obtain ⟨text, gap, hcs, hposition, hgap, _, hnil, _⟩ := ih false (p.after c)
        obtain rfl := hnil rfl
        rw [if_pos hspace]
        exact ⟨[], c :: gap, congrArg (c :: ·) hcs, hposition, .space hspace hgap, List.not_mem_nil, fun _ => rfl,
          fun h d hd => (Option.some.inj hd).symm.trans (hline h)⟩
      · have hcode : comment = false := by
          rw [← Bool.not_eq_true]
          intro h
          rw [hline h] at hspace
          exact hspace (by decide)
        rw [if_neg hspace]
        split_ifs with hhash
        · subst hhash
          obtain ⟨text, gap, hcs, hposition, hgap, htext, _, hend⟩ := ih true (p.after '#')
          refine ⟨[], '#' :: text ++ gap, ?_, hposition, .comment htext (hend rfl) hgap, List.not_mem_nil, fun _ => rfl,
            fun h => ?_⟩
          · rw [List.nil_append, List.cons_append, List.cons_append, ← hcs]
          · cases hcode.symm.trans h
        · refine ⟨[], [], rfl, rfl, .nil, List.not_mem_nil, fun _ => rfl, fun h => ?_⟩
          cases hcode.symm.trans h

/-! ## What stands for a token -/

/-- What follows the opening quote `q` of a literal, and what it says. It ends with the next `q`, or with the source. -/
inductive Literal (q : Char) : List Char → List Char → Prop where
  | closed : Literal q [q] []
  | cut : Literal q [] []
  | cutEscape (hq : '\\' ≠ q) : Literal q ['\\'] []
  | escape {d : Char} {cs out : List Char} (hq : '\\' ≠ q) (h : Literal q cs out) :
      Literal q ('\\' :: d :: cs) (d :: out)
  | plain {c : Char} {cs out : List Char} (hq : c ≠ q) (hslash : c ≠ '\\') (h : Literal q cs out) :
      Literal q (c :: cs) (c :: out)

/-- The characters of a token: its value, or a literal of it. -/
def Spelled (t : DslToken) (lexeme : List Char) : Prop :=
  if t.type = .string then ∃ q cs, (q = '"' ∨ q = '\'') ∧ lexeme = q :: cs ∧ Literal q cs t.value.toList
  else lexeme = t.value.toList

theorem readString_literal (q : Char) : ∀ (cs : List Char) (p : Position),
    let (out, cursor) := readString q cs p
    ∃ lexeme, cs = lexeme ++ cursor.rest ∧ Literal q lexeme out ∧
      (cursor.rest = [] ∨ cursor.position = lexeme.foldl Position.after p)
  | [], p => ⟨[], rfl, .cut, .inl rfl⟩
  | c :: cs, p => by
    unfold readString
    by_cases hq : c = q
    · rw [if_pos hq]
      exact ⟨[c], rfl, hq ▸ .closed, .inr rfl⟩
    · rw [if_neg hq]
      by_cases hslash : c = '\\'
      · subst hslash
        rw [if_pos rfl]
        cases cs with
        | nil => exact ⟨['\\'], rfl, .cutEscape hq, .inl rfl⟩
        | cons d cs =>
          obtain ⟨lexeme, hcs, hliteral, hposition⟩ := readString_literal q cs ((p.after '\\').after d)
          exact ⟨'\\' :: d :: lexeme, by rw [List.cons_append, List.cons_append, ← hcs], .escape hq hliteral, hposition⟩
      · rw [if_neg hslash]
        obtain ⟨lexeme, hcs, hliteral, hposition⟩ := readString_literal q cs (p.after c)
        exact ⟨c :: lexeme, by rw [List.cons_append, ← hcs], .plain hq hslash hliteral, hposition⟩

theorem readWhile_lexeme (f : Char → Bool) (cs : List Char) (p : Position) :
    let (text, cursor) := readWhile f cs p
    cs = text.toList ++ cursor.rest ∧ cursor.position = text.toList.foldl Position.after p := by
  simp [readWhile]

theorem singleType_ne_string (c : Char) : singleType c ≠ some .string := by
  unfold singleType
  repeat' split
  all_goals simp

theorem spelled_value {t : DslToken} {lexeme : List Char} (h : t.type ≠ .string) (hvalue : lexeme = t.value.toList) :
    Spelled t lexeme := by
  rwa [Spelled, if_neg h]

/-- A token takes its characters, and the cursor comes to stand behind them, or past the end of the source. -/
theorem nextToken_lexeme {c : Char} {cs : List Char} {p : Position} {t : DslToken} {next : Cursor}
    (h : nextToken c cs p = .ok (t, next)) :
    t.position = p ∧ ∃ lexeme, c :: cs = lexeme ++ next.rest ∧ lexeme ≠ [] ∧ Spelled t lexeme ∧
      (next.rest = [] ∨ next.position = lexeme.foldl Position.after p) := by
  -- a word or a number is the run of characters it is read from
  have hrun : ∀ {f : Char → Bool} {type : DslTokenType}, f c = true → type ≠ .string →
      t = ⟨type, (readWhile f (c :: cs) p).1, p⟩ → next = (readWhile f (c :: cs) p).2 →
      t.position = p ∧ ∃ lexeme, c :: cs = lexeme ++ next.rest ∧ lexeme ≠ [] ∧ Spelled t lexeme ∧
        (next.rest = [] ∨ next.position = lexeme.foldl Position.after p) := by
    rintro f type hf htype rfl rfl
    obtain ⟨hcs, hposition⟩ := readWhile_lexeme f (c :: cs) p
    refine ⟨rfl, _, hcs, ?_, spelled_value htype rfl, .inr hposition⟩
    simp [hf]
  unfold nextToken at h
  split at h
  · rename_i type hsingle
    cases h
    have htype : type ≠ .string := fun htype => singleType_ne_string c (htype ▸ hsingle)
    exact ⟨rfl, [c], rfl, List.cons_ne_nil _ _, spelled_value htype (by simp), .inr rfl⟩
  split at h
  · rename_i harrow
    obtain ⟨rfl, hhead⟩ := harrow
    cases h
    cases cs with
    | nil => cases hhead
    | cons d cs =>
      obtain rfl := Option.some.inj hhead
      have hvalue : ['-', '>'] = "->".toList := by decide
      exact ⟨rfl, ['-', '>'], rfl, List.cons_ne_nil _ _, spelled_value (by simp) hvalue, .inr rfl⟩
  split at h
  · rename_i hquote
    cases h
    obtain ⟨lexeme, hcs, hliteral, hposition⟩ := readString_literal c cs (p.after c)
    refine ⟨rfl, c :: lexeme, by rw [List.cons_append, ← hcs], List.cons_ne_nil _ _, ?_, hposition⟩
    rw [Spelled, if_pos rfl]
    exact ⟨c, lexeme, hquote, rfl, by simpa using hliteral⟩
  split at h
  · rename_i hdigit
    cases h
    exact hrun hdigit (by simp) rfl rfl
  split at h
  · rename_i hident
    cases h
    exact hrun (by simp [isIdentChar, hident]) (by split_ifs <;> simp) rfl rfl
  · cases h

/-! ## The tokens of a source -/

/-- From the offset of a token to the one behind it. -/
structure Span where
  start : Nat
  stop : Nat

/-- The characters from one offset to another. -/
def between (source : List Char) (start stop : Nat) : List Char := (source.take stop).drop start

/-- The token stands at the span. The end token stands at the end of the source; its position is not looked at. -/
structure StandsAt (source : List Char) (t : DslToken) (span : Span) : Prop where
  le : span.start ≤ span.stop ∧ span.stop ≤ source.length
  spelled : Spelled t (between source span.start span.stop)
  position : t.type ≠ .eof → t.position = positionAt (source.take span.start)
  atEnd : t.type = .eof → span = ⟨source.length, source.length⟩

/-- One token starts before another, and a gap is all that stands between them. -/
def Follows (source : List Char) (a b : Span) : Prop :=
  a.start < b.start ∧ a.stop ≤ b.start ∧ Gap (source.drop b.start) (between source a.stop b.start)

section
variable (a b c : List Char)

theorem take_length_append : (a ++ b).take a.length = a := List.take_left

theorem between_append : between (a ++ b ++ c) a.length (a ++ b).length = b := by
  rw [between, take_length_append, List.drop_left]

end

/-- From the offset `start` on, the tokens stand at the spans one behind the other, with gaps before the first and
between them. -/
structure Covers (source : List Char) (start : Nat) (ts : List DslToken) (first : Span) (spans : List Span) : Prop where
  stand : List.Forall₂ (StandsAt source) ts (first :: spans)
  chain : (first :: spans).IsChain (Follows source)
  le_first : start ≤ first.start
  gap : Gap (source.drop first.start) (between source start first.start)

/-- From where the lexer stands on, the tokens take the rest of the source. -/
theorem tokenizeFrom_positions : ∀ {fuel : Nat} {before cs : List Char} {p : Position} {ts : List DslToken},
    tokenizeFrom fuel cs p = .ok ts → (cs = [] ∨ p = positionAt before) →
      ∃ (first : Span) (spans : List Span), Covers (before ++ cs) before.length ts first spans
  | 0, _, _, _, _, h, _ => by cases h
  | fuel + 1, before, cs, p, ts, h, hp => by
    obtain ⟨text, gap, hcs, hposition, hgap, _, hnil, _⟩ := skipWhitespaceAndComments_gap false cs p
    obtain rfl := hnil rfl
    rw [List.nil_append] at hcs hposition
    rcases tokenizeFrom_ok h with ⟨hrest, rfl⟩ | ⟨c, rest, t, next, tail, hrest, hnext, htail, rfl⟩
    · rw [hrest] at hcs hgap
      rw [hcs, List.append_nil]
      refine ⟨⟨(before ++ gap).length, (before ++ gap).length⟩, [], .cons ?_ .nil, .singleton _, ?_, ?_⟩
      · refine ⟨⟨le_rfl, le_rfl⟩, spelled_value (by simp) ?_, fun hne => absurd rfl hne, fun _ => rfl⟩
        rw [between, List.drop_eq_nil_of_le (List.length_take_le _ _)]
        rfl
      · simp
      · have hbetween := between_append before gap []
        rw [List.append_nil] at hbetween
        rwa [hbetween, List.drop_length]
    · obtain ⟨ht, lexeme, hlexeme, hne, hspelled, hnextPosition⟩ := nextToken_lexeme hnext
      rw [hrest, hlexeme] at hcs hgap
      have hp : p = positionAt before := hp.resolve_left (by simp [hcs, hne])
      have hstart : (skipWhitespaceAndComments false cs p).position = positionAt (before ++ gap) := by
        rw [hposition, hp, positionAt_append]
      rw [hstart, ← positionAt_append] at hnextPosition
      obtain ⟨first, spans, hcovers⟩ := tokenizeFrom_positions htail hnextPosition
      have hsource : before ++ cs = before ++ gap ++ lexeme ++ next.rest := by simp [hcs]
      have hlength : 0 < lexeme.length := List.length_pos_iff.2 hne
      have hfirst := hcovers.le_first
      rw [hsource]
      refine ⟨⟨(before ++ gap).length, (before ++ gap ++ lexeme).length⟩, first :: spans,
        .cons ⟨?_, ?_, fun _ => ?_, fun heof => absurd heof (nextToken_type hnext)⟩ hcovers.stand,
        .cons_cons ⟨?_, hfirst, hcovers.gap⟩ hcovers.chain, ?_, ?_⟩
      · simp only [List.length_append]
        omega
      · rwa [between_append]
      · rw [ht, hstart, List.append_assoc _ lexeme, take_length_append]
      · simp only [List.length_append] at hfirst ⊢
        omega
      · simp
      · rwa [List.append_assoc _ lexeme, between_append, List.drop_left]

/-- **Tokens carry their line and column**, one starts before the other, the last one is at the end of the source, and
only whitespace and comments stand before the first and between any two. -/
theorem tokenize_positions {fuel : Nat} {source : String} {ts : List DslToken} (h : tokenize fuel source = .ok ts) :
    (∃ front eof, ts = front ++ [eof] ∧ eof.type = .eof) ∧ ∃ first spans, Covers source.toList 0 ts first spans := by
  obtain ⟨front, eof, hts, heof, -⟩ := tokenizeFrom_eof h
  exact ⟨⟨front, eof, hts, heof⟩, @tokenizeFrom_positions fuel [] _ _ _ h (.inr rfl)⟩

/-- A comment, and a literal with an escaped line break in it. -/
def positionsSample : String := "task # one\n  'a\\\n' \x7b"

theorem tokenize_positions_sample : ∃ ts, tokenize 9 positionsSample = .ok ts ∧
    (∃ front eof, ts = front ++ [eof] ∧ eof.type = .eof) ∧
      ∃ first spans, Covers positionsSample.toList 0 ts first spans := by
  have htokens : tokenize 9 positionsSample =
      .ok [⟨.keyword, "task", ⟨1, 1⟩⟩, ⟨.string, "a\n", ⟨2, 3⟩⟩, ⟨.lbrace, "\x7b", ⟨3, 3⟩⟩, ⟨.eof, "", ⟨3, 4⟩⟩] := by
    decide +kernel
  exact ⟨_, htokens, tokenize_positions htokens⟩

end Jobflow.Dsl
