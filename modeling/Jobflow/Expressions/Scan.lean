import Jobflow.Expressions.Lexing

/-!
# Constraint expressions: malformed lexemes

`Mode.scan` reads an input character by character and knows where the tokenizer stands, whatever comes next: in a
string, in a number, in a name or between lexemes.

The tokenizer checks neither the points of a number nor the closing quote of a string: `1.2.3` is a number token, whose
value is NaN, and a string runs to the end of the input when its quote is missing. `tokenize_wellFormed_iff` says on
which inputs this happens.
-/

namespace Jobflow.Expressions

open Js

/-! ## The automaton -/

inductive Mode where
  | between | name | number (points : Nat) | string (quote : Char) | rejected
  deriving DecidableEq

/-- Behind a first character of that kind. -/
def CharKind.begins (c : Char) : CharKind → Mode
  | .space | .mark _ | .op => .between
  | .quote => .string c
  | .digit => .number 0
  | .letter => .name
  | .other => .rejected

/-- Behind a character that starts a lexeme. -/
def Mode.start (c : Char) : Mode := (charKind c).begins c

def Mode.next : Mode → Char → Mode
  | .between, c => start c
  | .name, c => if isIdentChar c then .name else start c
  | .number points, c =>
    if c = '.' then .number (points + 1) else if Number.isDigit c then .number points else start c
  | .string q, c => if c = q then .between else .string q
  | .rejected, _ => .rejected

def Mode.scan (m : Mode) (cs : List Char) : Mode := cs.foldl Mode.next m

/-- At most one point so far. -/
def Mode.single : Mode → Bool
  | .number points => points ≤ 1
  | _ => true

def Mode.closed : Mode → Bool
  | .string _ | .rejected => false
  | _ => true

/-- No number on the way has a second point, and the input does not end in a string. -/
def Mode.regular : Mode → List Char → Bool
  | m, [] => m.closed
  | m, c :: cs => (m.next c).single && (m.next c).regular cs

/-- The next lexeme can start, since what is left does not belong to the last one. -/
structure Mode.Ready (m : Mode) (cs : List Char) : Prop where
  closed : m.closed = true
  next : ∀ c ∈ cs.head?, m.next c = start c

namespace Mode

@[simp] theorem scan_cons (m : Mode) (c : Char) (cs : List Char) : m.scan (c :: cs) = (m.next c).scan cs := rfl

theorem scan_append (m : Mode) (cs ds : List Char) : m.scan (cs ++ ds) = (m.scan cs).scan ds :=
  List.foldl_append

@[simp] theorem scan_rejected : ∀ cs : List Char, Mode.rejected.scan cs = .rejected
  | [] => rfl
  | _ :: cs => scan_rejected cs

theorem ready_between (cs : List Char) : Mode.between.Ready cs := ⟨rfl, fun _ _ => rfl⟩

theorem ready_name {cs : List Char} (h : ∀ d ∈ cs.head?, isIdentChar d = false) : Mode.name.Ready cs :=
  ⟨rfl, fun c hc => by simp [next, h c hc]⟩

theorem ready_number {points : Nat} {cs : List Char} (h : ∀ d ∈ cs.head?, isNumberChar d = false) :
    (Mode.number points).Ready cs := by
  refine ⟨rfl, fun c hc => ?_⟩
  have hc := h c hc
  simp only [isNumberChar, Bool.or_eq_false_iff, decide_eq_false_iff_not] at hc
  simp [next, hc.1, hc.2]

section
variable {text : List Char}

theorem scan_name (h : ∀ d ∈ text, isIdentChar d = true) : Mode.name.scan text = .name := by
  induction text with
  | nil => rfl
  | cons d text ih =>
    rw [scan_cons, next, if_pos (h d List.mem_cons_self)]
    exact ih fun e he => h e (List.mem_cons_of_mem d he)

theorem scan_number (h : ∀ d ∈ text, isNumberChar d = true) (points : Nat) :
    (Mode.number points).scan text = .number (points + text.count '.') := by
  induction text generalizing points with
  | nil => rfl
  | cons d text ih =>
    have htext : ∀ e ∈ text, isNumberChar e = true := fun e he => h e (List.mem_cons_of_mem d he)
    rw [scan_cons, next]
    by_cases hd : d = '.'
    · subst hd
      rw [if_pos rfl, ih htext, List.count_cons_self, Nat.add_assoc, Nat.add_comm 1]
    · have hdigit : Number.isDigit d = true := by
        have := h d List.mem_cons_self
        simpa [isNumberChar, hd] using this
      rw [if_neg hd, if_pos hdigit, ih htext, List.count_cons_of_ne hd]

theorem scan_string {q : Char} (h : q ∉ text) : (Mode.string q).scan text = .string q := by
  induction text with
  | nil => rfl
  | cons d text ih =>
    simp only [List.mem_cons, not_or] at h
    rw [scan_cons, next, if_neg (Ne.symm h.1)]
    exact ih h.2

theorem start_of {c : Char} {kind : CharKind} (h : charKind c = kind) : start c = kind.begins c := by
  rw [start, h]

/-- The second character of an operator is one itself. -/
theorem scan_op {c : Char} {cs : List Char} (hkind : charKind c = .op) (hop : readOp (c :: cs) = c :: text) :
    (start c).scan text = .between := by
  obtain ⟨text', rest, -, htext, hcases⟩ := readOp_eq c cs
  rw [htext, List.cons.injEq] at hop
  rw [← hop.2, start_of hkind]
  rcases hcases with h | h | h | h
  · rw [h]
    rfl
  · rw [h]
    exact start_of (by decide : charKind '=' = .op)
  · rw [h]
    exact start_of (by decide : charKind '&' = .op)
  · rw [h]
    exact start_of (by decide : charKind '|' = .op)

end

/-! ## Inputs that are rejected -/

section
variable {m : Mode} {c q : Char} {text cs : List Char}

theorem Ready.next_cons (h : m.Ready (c :: cs)) : m.next c = start c := h.next c rfl

theorem Ready.ne_rejected (h : m.Ready cs) : m ≠ .rejected := by
  rintro rfl
  cases h.closed

/-! Where the automaton is behind each lexeme. -/

theorem Ready.scan_blank (h : m.Ready (c :: cs)) (hkind : (charKind c).begins c = .between) :
    m.scan (c :: cs) = Mode.between.scan cs := by
  rw [scan_cons, h.next_cons, start, hkind]

theorem Ready.scan_op (h : m.Ready (c :: (text ++ cs))) (hkind : charKind c = .op)
    (hop : readOp (c :: (text ++ cs)) = c :: text) : m.scan (c :: (text ++ cs)) = Mode.between.scan cs := by
  rw [scan_cons, h.next_cons, scan_append, Mode.scan_op hkind hop]

theorem Ready.scan_string (h : m.Ready (q :: (text ++ q :: cs))) (hkind : charKind q = .quote) (htext : q ∉ text) :
    m.scan (q :: (text ++ q :: cs)) = Mode.between.scan cs := by
  have hclose : (Mode.string q).next q = .between := if_pos rfl
  rw [scan_cons, h.next_cons, start_of hkind, CharKind.begins, scan_append, Mode.scan_string htext, scan_cons, hclose]

theorem Ready.scan_unclosed (h : m.Ready (q :: text)) (hkind : charKind q = .quote) (htext : q ∉ text) :
    m.scan (q :: text) = .string q := by
  rw [scan_cons, h.next_cons, start_of hkind, CharKind.begins, Mode.scan_string htext]

theorem Ready.scan_number (h : m.Ready (c :: (text ++ cs))) (hkind : charKind c = .digit)
    (htext : ∀ d ∈ text, isNumberChar d = true) :
    m.scan (c :: (text ++ cs)) = (Mode.number (text.count '.')).scan cs := by
  rw [scan_cons, h.next_cons, start_of hkind, CharKind.begins, scan_append, Mode.scan_number htext, Nat.zero_add]

theorem Ready.scan_ident (h : m.Ready (c :: (text ++ cs))) (hkind : charKind c = .letter)
    (htext : ∀ d ∈ text, isIdentChar d = true) : m.scan (c :: (text ++ cs)) = Mode.name.scan cs := by
  rw [scan_cons, h.next_cons, start_of hkind, CharKind.begins, scan_append, Mode.scan_name htext]

end

theorem scan_of_lexed {pos : Nat} {cs : List Char} {ts : List Token} (h : Lexed pos cs ts) :
    ∀ {m : Mode}, m.Ready cs → m.scan cs ≠ .rejected := by
  induction h with
  | eof => exact fun hready => hready.ne_rejected
  | space hkind _ ih =>
    intro m hready
    rw [hready.scan_blank (by rw [hkind]; rfl)]
    exact ih (ready_between _)
  | mark hkind _ ih =>
    intro m hready
    rw [hready.scan_blank (by rw [hkind]; rfl)]
    exact ih (ready_between _)
  | op hkind hop _ ih =>
    intro m hready
    rw [hready.scan_op hkind hop]
    exact ih (ready_between _)
  | string hkind htext _ ih =>
    intro m hready
    rw [hready.scan_string hkind htext]
    exact ih (ready_between _)
  | unclosed hkind htext =>
    intro m hready
    rw [hready.scan_unclosed hkind htext]
    simp
  | number hkind htext hcs _ ih =>
    intro m hready
    rw [hready.scan_number hkind htext]
    exact ih (ready_number hcs)
  | ident hkind htext hcs _ ih =>
    intro m hready
    rw [hready.scan_ident hkind htext]
    exact ih (ready_name hcs)

/-- The tokenizer rejects an input only at a character that starts no lexeme. -/
theorem lexed_of_scan (pos : Nat) (cs : List Char) :
    ∀ {m : Mode}, m.Ready cs → m.scan cs ≠ .rejected → ∃ ts, Lexed pos cs ts := by
  induction pos, cs using lexeme_induction with
  | eof pos => exact fun _ _ => ⟨_, .eof⟩
  | space hkind ih =>
    intro m hready h
    rw [hready.scan_blank (by rw [hkind]; rfl)] at h
    obtain ⟨ts, hts⟩ := ih (ready_between _) h
    exact ⟨ts, .space hkind hts⟩
  | mark hkind ih =>
    intro m hready h
    rw [hready.scan_blank (by rw [hkind]; rfl)] at h
    obtain ⟨ts, hts⟩ := ih (ready_between _) h
    exact ⟨_, .mark hkind hts⟩
  | op hkind hop ih =>
    intro m hready h
    rw [hready.scan_op hkind hop] at h
    obtain ⟨ts, hts⟩ := ih (ready_between _) h
    exact ⟨_, .op hkind hop hts⟩
  | string hkind htext ih =>
    intro m hready h
    rw [hready.scan_string hkind htext] at h
    obtain ⟨ts, hts⟩ := ih (ready_between _) h
    exact ⟨_, .string hkind htext hts⟩
  | unclosed hkind htext => exact fun _ _ => ⟨_, .unclosed hkind htext⟩
  | number hkind htext hcs ih =>
    intro m hready h
    rw [hready.scan_number hkind htext] at h
    obtain ⟨ts, hts⟩ := ih (ready_number hcs) h
    exact ⟨_, .number hkind htext hcs hts⟩
  | ident hkind htext hcs ih =>
    intro m hready h
    rw [hready.scan_ident hkind htext] at h
    obtain ⟨ts, hts⟩ := ih (ready_name hcs) h
    exact ⟨_, .ident hkind htext hcs hts⟩
  | other hkind =>
    intro m hready h
    rw [scan_cons, hready.next_cons, start_of hkind, CharKind.begins, scan_rejected] at h
    exact absurd rfl h

/-! ## Numbers and strings along an input -/

section
variable {m : Mode} {c q : Char} {text cs : List Char}

@[simp] theorem regular_cons (m : Mode) (c : Char) (cs : List Char) :
    m.regular (c :: cs) = ((m.next c).single && (m.next c).regular cs) := rfl

theorem regular_name (h : ∀ d ∈ text, isIdentChar d = true) (cs : List Char) :
    Mode.name.regular (text ++ cs) = Mode.name.regular cs := by
  induction text with
  | nil => rfl
  | cons d text ih =>
    rw [List.cons_append, regular_cons, next, if_pos (h d List.mem_cons_self)]
    exact ih fun e he => h e (List.mem_cons_of_mem d he)

theorem regular_string (h : q ∉ text) (cs : List Char) :
    (Mode.string q).regular (text ++ cs) = (Mode.string q).regular cs := by
  induction text with
  | nil => rfl
  | cons d text ih =>
    simp only [List.mem_cons, not_or] at h
    rw [List.cons_append, regular_cons, next, if_neg (Ne.symm h.1)]
    exact ih h.2

theorem regular_number (h : ∀ d ∈ text, isNumberChar d = true) (cs : List Char) :
    ∀ {points : Nat}, points ≤ 1 → ((Mode.number points).regular (text ++ cs) = true ↔
      points + text.count '.' ≤ 1 ∧ (Mode.number (points + text.count '.')).regular cs = true) := by
  induction text with
  | nil =>
    intro points hpoints
    simp [hpoints]
  | cons d text ih =>
    intro points hpoints
    have htext : ∀ e ∈ text, isNumberChar e = true := fun e he => h e (List.mem_cons_of_mem d he)
    rw [List.cons_append, regular_cons, next]
    by_cases hd : d = '.'
    · subst hd
      rw [if_pos rfl, List.count_cons_self, ← Nat.add_assoc, Nat.add_right_comm, Bool.and_eq_true]
      by_cases hmore : points + 1 ≤ 1
      · rw [ih htext hmore]
        simp [single, hmore]
      · simp only [single, hmore, decide_false, Bool.false_eq_true, false_and, false_iff, not_and]
        intro hcount
        omega
    · have hdigit : Number.isDigit d = true := by
        have := h d List.mem_cons_self
        simpa [isNumberChar, hd] using this
      rw [if_neg hd, if_pos hdigit, List.count_cons_of_ne hd, Bool.and_eq_true, ih htext hpoints]
      simp [single, hpoints]

theorem Ready.regular_blank (h : m.Ready (c :: cs)) (hkind : (charKind c).begins c = .between) :
    m.regular (c :: cs) = Mode.between.regular cs := by
  rw [regular_cons, h.next_cons, start, hkind]
  rfl

theorem Ready.regular_op (h : m.Ready (c :: (text ++ cs))) (hkind : charKind c = .op)
    (hop : readOp (c :: (text ++ cs)) = c :: text) : m.regular (c :: (text ++ cs)) = Mode.between.regular cs := by
  obtain ⟨text', rest, -, htext, hcases⟩ := readOp_eq c (text ++ cs)
  rw [htext, List.cons.injEq] at hop
  rw [h.regular_blank (by rw [hkind]; rfl), ← hop.2]
  have second : ∀ {d : Char}, charKind d = .op → Mode.between.regular (d :: cs) = Mode.between.regular cs :=
    fun hd => (ready_between _).regular_blank (by rw [hd]; rfl)
  rcases hcases with h | h | h | h <;> rw [h]
  · rfl
  · exact second (by decide)
  · exact second (by decide)
  · exact second (by decide)

theorem Ready.regular_string (h : m.Ready (q :: (text ++ q :: cs))) (hkind : charKind q = .quote) (htext : q ∉ text) :
    m.regular (q :: (text ++ q :: cs)) = Mode.between.regular cs := by
  have hclose : (Mode.string q).next q = .between := if_pos rfl
  rw [regular_cons, h.next_cons, start_of hkind, CharKind.begins, Mode.regular_string htext, regular_cons, hclose]
  rfl

theorem Ready.regular_unclosed (h : m.Ready (q :: text)) (hkind : charKind q = .quote) (htext : q ∉ text) :
    m.regular (q :: text) = false := by
  have hend := Mode.regular_string htext []
  rw [List.append_nil] at hend
  rw [regular_cons, h.next_cons, start_of hkind, CharKind.begins, hend]
  rfl

theorem Ready.regular_number (h : m.Ready (c :: (text ++ cs))) (hkind : charKind c = .digit)
    (htext : ∀ d ∈ text, isNumberChar d = true) : m.regular (c :: (text ++ cs)) = true ↔
      text.count '.' ≤ 1 ∧ (Mode.number (text.count '.')).regular cs = true := by
  have hrun := Mode.regular_number htext cs (Nat.zero_le 1)
  rw [Nat.zero_add] at hrun
  rw [regular_cons, h.next_cons, start_of hkind, CharKind.begins, ← hrun]
  simp [single]

theorem Ready.regular_ident (h : m.Ready (c :: (text ++ cs))) (hkind : charKind c = .letter)
    (htext : ∀ d ∈ text, isIdentChar d = true) : m.regular (c :: (text ++ cs)) = Mode.name.regular cs := by
  rw [regular_cons, h.next_cons, start_of hkind, CharKind.begins, Mode.regular_name htext]
  rfl

end

end Mode

/-- The tokenizer returns tokens unless the automaton rejects the input. -/
theorem tokenize_ok_iff (input : String) : (∃ ts, tokenize input = .ok ts) ↔
    Mode.between.scan input.toList ≠ .rejected := by
  simp only [tokenize_iff]
  constructor
  · rintro ⟨ts, h⟩
    exact Mode.scan_of_lexed h (Mode.ready_between _)
  · exact Mode.lexed_of_scan 0 input.toList (Mode.ready_between _)

/-! ## The value of a number token -/

theorem dropWhile_eq_self {p : Char → Bool} {cs : List Char} (h : ∀ d ∈ cs, p d = false) : cs.dropWhile p = cs := by
  cases cs with
  | nil => rfl
  | cons c cs => exact List.dropWhile_cons_of_neg (by simp [h c List.mem_cons_self])

theorem isNumberChar_not_space {c : Char} (h : isNumberChar c = true) : Number.isSpace c = false := by
  have hlt : 46 ≤ c.toNat ∧ c.toNat ≤ 57 := by
    simp only [isNumberChar, Bool.or_eq_true, decide_eq_true_eq] at h
    rcases h with h | rfl
    · have hdigit := isDigit_toNat h
      omega
    · decide
  simp only [Number.isSpace, Bool.or_eq_false_iff, Bool.and_eq_false_iff, decide_eq_false_iff_not]
  omega

section
variable {c : Char} {text : List Char}

/-- Digits with at most one point are a decimal literal. -/
theorem decimalLiteral_isSome (hc : Number.isDigit c = true) (htext : ∀ d ∈ text, isNumberChar d = true)
    (hpoints : text.count '.' ≤ 1) : (Number.decimalLiteral (c :: text)).isSome = true := by
  have hwhole : (c :: text).takeWhile Number.isDigit ≠ [] := by simp [hc]
  have hdrop : (c :: text).dropWhile Number.isDigit = text.dropWhile Number.isDigit := by simp [hc]
  have hsplit := List.takeWhile_append_dropWhile (p := Number.isDigit) (l := text)
  unfold Number.decimalLiteral
  cases hrest : text.dropWhile Number.isDigit with
  | nil =>
    simp only [hdrop, hrest, hwhole, false_and, if_false, Option.isSome_some]
  | cons d rest =>
    rw [hrest] at hsplit
    have hmem : ∀ e ∈ d :: rest, e ∈ text := fun e he => hsplit ▸ List.mem_append_right _ he
    have hhead : d ∈ (text.dropWhile Number.isDigit).head? := by rw [hrest]; rfl
    have hnot : Number.isDigit d = false := head?_dropWhile_false d hhead
    -- the first character that is no digit is the point
    have hd : d = '.' := by
      have := htext d (hmem d List.mem_cons_self)
      simpa [isNumberChar, hnot] using this
    subst hd
    have hcount : rest.count '.' = 0 := by
      rw [← hsplit, List.count_append, List.count_cons_self] at hpoints
      omega
    have hdigits : ∀ e ∈ rest, Number.isDigit e = true := by
      intro e he
      have hne : e ≠ '.' := fun h => List.count_eq_zero.1 hcount (h ▸ he)
      have := htext e (hmem e (List.mem_cons_of_mem _ he))
      simpa [isNumberChar, hne] using this
    have hend : rest.dropWhile Number.isDigit = [] := List.dropWhile_eq_nil_iff.2 hdigits
    simp only [hdrop, hrest, hend, hwhole, false_and, if_false, Option.isSome_some]

theorem ofRat_ne_nan (q : Rat) : Number.ofRat q ≠ .nan := by
  unfold Number.ofRat
  dsimp only
  split_ifs <;> simp

theorem parse_number_ne_nan (hc : Number.isDigit c = true) (htext : ∀ d ∈ text, isNumberChar d = true)
    (hpoints : text.count '.' ≤ 1) : Number.parse (String.ofList (c :: text)) ≠ .nan := by
  have hall : ∀ d ∈ c :: text, isNumberChar d = true :=
    List.forall_mem_cons.2 ⟨by simp [isNumberChar, hc], htext⟩
  have htrim : Number.trim (c :: text) = c :: text := by
    rw [Number.trim, dropWhile_eq_self fun d hd => isNumberChar_not_space (hall d hd),
      dropWhile_eq_self fun d hd => isNumberChar_not_space (hall d (List.mem_reverse.1 hd)), List.reverse_reverse]
  have hbase : ∀ d ∈ ['x', 'X', 'o', 'O', 'b', 'B'], d ∉ text := by
    intro d hd hmem
    exact List.any_eq_false.1 (by decide) d hd (htext d hmem)
  obtain ⟨q, hq⟩ := Option.isSome_iff_exists.1 (decimalLiteral_isSome hc htext hpoints)
  have hsign : Number.splitSign (c :: text) = (false, c :: text) := by
    unfold Number.splitSign
    split
    · rename_i h
      cases h
      exact absurd hc (by decide)
    · rename_i h
      cases h
      exact absurd hc (by decide)
    · rfl
  have hinfinity : c :: text ≠ "Infinity".toList := by
    intro h
    have hI : c = 'I' := (List.cons.inj (h.trans (by rfl : "Infinity".toList = 'I' :: "nfinity".toList))).1
    rw [hI] at hc
    exact absurd hc (by decide)
  unfold Number.parse
  rw [String.toList_ofList, htrim]
  split
  · rename_i h
    cases h
  all_goals try (rename_i h; cases h; exact absurd (List.mem_cons_self) (hbase _ (by simp)))
  simp only [hsign, hinfinity, if_false, hq]
  exact ofRat_ne_nan q

end
/-! ## Well-formed tokens -/

/-- Digits with at most one point, and a number. -/
structure DecimalLiteral (text : String) : Prop where
  chars : ∀ c ∈ text.toList, isNumberChar c = true
  points : text.toList.count '.' ≤ 1
  value : Number.parse text ≠ .nan

/-- The token's text stands in the input between two of its quotes, of which the second is the first behind the text
and the token's position the one behind it. -/
def Token.ClosedIn (input : String) (t : Token) : Prop := ∃ pre q post, (q = '"' ∨ q = '\'') ∧ q ∉ t.value.toList ∧
  input.toList = pre ++ q :: (t.value.toList ++ q :: post) ∧ t.pos = units pre + units t.value.toList + 2

structure Token.WellFormed (input : String) (t : Token) : Prop where
  number : t.type = .number → DecimalLiteral t.value
  string : t.type = .string → t.ClosedIn input

section
variable {input : String} {c : Char} {text : List Char} {pos : Nat}

theorem wellFormed_of_type {type : TokenType} {value : String} (hnumber : type ≠ .number) (hstring : type ≠ .string) :
    Token.WellFormed input ⟨type, value, pos⟩ :=
  ⟨fun h => absurd h hnumber, fun h => absurd h hstring⟩

theorem wellFormed_number_iff (hc : Number.isDigit c = true) (htext : ∀ d ∈ text, isNumberChar d = true) :
    Token.WellFormed input ⟨.number, String.ofList (c :: text), pos⟩ ↔ text.count '.' ≤ 1 := by
  have hne : c ≠ '.' := by
    rintro rfl
    exact absurd hc (by decide)
  have hcount : (String.ofList (c :: text)).toList.count '.' = text.count '.' := by
    rw [String.toList_ofList, List.count_cons_of_ne hne]
  constructor
  · intro h
    rw [← hcount]
    exact (h.number rfl).points
  · refine fun h => ⟨fun _ => ⟨?_, by rwa [hcount], parse_number_ne_nan hc htext h⟩, fun h => by cases h⟩
    rw [String.toList_ofList]
    exact List.forall_mem_cons.2 ⟨by simp [isNumberChar, hc], htext⟩

/-- A string that runs to the end of the input has a position behind it. -/
theorem not_closedIn_unclosed {pre : List Char} {q : Char} (hkind : charKind q = .quote)
    (hinput : input.toList = pre ++ q :: text) :
    ¬ Token.ClosedIn input ⟨.string, String.ofList text, units pre + units text + 2⟩ := by
  rintro ⟨pre', q', post, hq', -, hinput', hpos⟩
  have hunits : ∀ {q : Char}, q = '"' ∨ q = '\'' → charUnits q = 1 := by
    rintro q (rfl | rfl) <;> rfl
  have htotal := congrArg units (hinput.symm.trans hinput')
  simp only [String.toList_ofList, units_append, units_cons, hunits hq', hunits (charKind_quote hkind)] at htotal hpos
  omega

end

theorem Lexed.wellFormed_iff {input : String} {pos : Nat} {cs : List Char} {ts : List Token} (h : Lexed pos cs ts) :
    ∀ {pre : List Char} {m : Mode}, input.toList = pre ++ cs → pos = units pre → m.Ready cs →
      ((∀ t ∈ ts, t.WellFormed input) ↔ m.regular cs = true) := by
  induction h with
  | eof =>
    intro pre m _ _ hready
    rw [Mode.regular, hready.closed]
    simp [wellFormed_of_type]
  | @space pos c cs ts hkind _ ih =>
    rintro pre m hinput rfl hready
    rw [hready.regular_blank (by rw [hkind]; rfl)]
    exact ih (by rw [hinput, List.append_cons]) (by simp [units]) (Mode.ready_between _)
  | @mark pos c type cs ts hkind _ ih =>
    rintro pre m hinput rfl hready
    have hunits : charUnits c = 1 := by
      rcases charKind_mark hkind with ⟨rfl, -⟩ | ⟨rfl, -⟩ | ⟨rfl, -⟩ <;> rfl
    have htoken : Token.WellFormed input ⟨type, String.ofList [c], units pre⟩ := by
      rcases charKind_mark hkind with ⟨-, rfl⟩ | ⟨-, rfl⟩ | ⟨-, rfl⟩ <;> exact wellFormed_of_type (by simp) (by simp)
    rw [hready.regular_blank (by rw [hkind]; rfl), List.forall_mem_cons, and_iff_right htoken]
    exact ih (by rw [hinput, List.append_cons]) (by simp [units, hunits]) (Mode.ready_between _)
  | @op pos c text cs ts hkind hop _ ih =>
    rintro pre m hinput rfl hready
    rw [hready.regular_op hkind hop, List.forall_mem_cons,
      and_iff_right (wellFormed_of_type (by simp) (by simp))]
    refine ih (by rw [hinput, ← List.cons_append, ← List.append_assoc]) ?_ (Mode.ready_between _)
    rw [units_append, units_cons, isOpChar_units (charKind_op hkind), readOp_units hop, Nat.add_comm 1]
  | @string pos q text cs ts hkind htext _ ih =>
    rintro pre m hinput rfl hready
    have hquote := charKind_quote hkind
    have htoken : Token.WellFormed input ⟨.string, String.ofList text, units pre + units text + 2⟩ := by
      have hclosed : Token.ClosedIn input ⟨.string, String.ofList text, units pre + units text + 2⟩ := by
        refine ⟨pre, q, cs, hquote, ?_, ?_, ?_⟩ <;> rw [String.toList_ofList]
        · exact htext
        · exact hinput
      exact ⟨fun h => (by cases h), fun _ => hclosed⟩
    have hunits : charUnits q = 1 := by
      rcases hquote with rfl | rfl <;> rfl
    rw [hready.regular_string hkind htext, List.forall_mem_cons, and_iff_right htoken]
    have hrest : input.toList = (pre ++ q :: (text ++ [q])) ++ cs := by simp [hinput]
    refine ih hrest ?_ (Mode.ready_between _)
    rw [units_append, units_cons, units_append, hunits]
    simp only [units, List.map_cons, List.map_nil, List.sum_cons, List.sum_nil, hunits]
    omega
  | @unclosed pos q text hkind htext =>
    rintro pre m hinput rfl hready
    rw [hready.regular_unclosed hkind htext, List.forall_mem_cons]
    simp only [Bool.false_eq_true, iff_false, not_and]
    exact fun htoken => absurd (htoken.string rfl) (not_closedIn_unclosed hkind hinput)
  | @number pos c text cs ts hkind htext hcs _ ih =>
    rintro pre m hinput rfl hready
    have hdigit := charKind_digit hkind
    have hunits : units (c :: text) = text.length + 1 := by
      rw [units_cons, isNumberChar_units (by simp [isNumberChar, hdigit]),
        units_eq_length fun d hd => isNumberChar_units (htext d hd), Nat.add_comm]
    rw [hready.regular_number hkind htext, List.forall_mem_cons, wellFormed_number_iff hdigit htext,
      ih (by rw [hinput, ← List.cons_append, ← List.append_assoc]) (by rw [units_append, hunits])
        (Mode.ready_number hcs)]
  | @ident pos c text cs ts hkind htext hcs _ ih =>
    rintro pre m hinput rfl hready
    have hunits : units (c :: text) = text.length + 1 := by
      rw [units_cons, isIdentChar_units (by simp [isIdentChar, charKind_letter hkind]),
        units_eq_length fun d hd => isIdentChar_units (htext d hd), Nat.add_comm]
    rw [hready.regular_ident hkind htext, List.forall_mem_cons,
      and_iff_right (wellFormed_of_type (by simp) (by simp))]
    exact ih (by rw [hinput, ← List.cons_append, ← List.append_assoc]) (by rw [units_append, hunits])
      (Mode.ready_name hcs)

/-- The tokens of an input are well formed if and only if the automaton rejects the input, or every number on its way
has at most one point and it does not end in a string. -/
theorem tokenize_wellFormed_iff (input : String) :
    (∀ ts, tokenize input = .ok ts → ∀ t ∈ ts, t.WellFormed input) ↔
      Mode.between.scan input.toList = .rejected ∨ Mode.between.regular input.toList = true := by
  have hready := Mode.ready_between input.toList
  constructor
  · intro h
    by_cases hreject : Mode.between.scan input.toList = .rejected
    · exact .inl hreject
    · obtain ⟨ts, hts⟩ := Mode.lexed_of_scan 0 input.toList hready hreject
      exact .inr ((hts.wellFormed_iff (List.nil_append _).symm rfl hready).1 (h ts (tokenize_iff.2 hts)))
  · rintro (hreject | hregular) ts hts
    · exact absurd hreject (Mode.scan_of_lexed (tokenize_iff.1 hts) hready)
    · exact ((tokenize_iff.1 hts).wellFormed_iff (List.nil_append _).symm rfl hready).2 hregular

/-- `1.2.3` is read as one number, which is no decimal literal and has no value. -/
theorem tokenize_points_malformed : ¬ ∀ input ts, tokenize input = .ok ts → ∀ t ∈ ts, t.WellFormed input := by
  intro h
  have htokens : tokenize "1.2.3" = .ok [⟨.number, "1.2.3", 5⟩, ⟨.eof, "", 5⟩] := by rfl
  exact absurd ((h _ _ htokens _ List.mem_cons_self).number rfl).points (by decide)

end Jobflow.Expressions
