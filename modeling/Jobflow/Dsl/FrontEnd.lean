import Jobflow.Dsl.Grammar

/-!
# Workflow DSL: sources that the front end reads, refuses or never leaves

`parse_answers_iff`: the parser comes to an end on a source unless some constraint's body has a token in it that
`parseConstraint` has no branch for. `accepts_whole_iff`: an accepted source is one workflow declaration unless
something follows the declaration's closing brace.
-/

namespace Jobflow.Dsl

open TokenLoop

/-! ## Declarations of a body -/

theorem declaration_sound (fuel : Nat) :
    Sound (peekIs .rbrace) (fun _ => False) (declaration fuel) Declaration := by
  intro b b' ts rest _ h
  left
  unfold declaration at h
  split at h
  · obtain ⟨⟨task, ts₁⟩, e₁, h₁⟩ := bind_ok h
    cases h₁
    obtain ⟨pre, rfl, htask⟩ := parseTask_ok e₁
    exact ⟨pre, rfl, .task htask⟩
  split at h
  · obtain ⟨⟨c, ts₁⟩, e₁, h₁⟩ := bind_ok h
    cases h₁
    obtain ⟨pre, rfl, hc⟩ := parseConstraint_ok e₁
    exact ⟨pre, rfl, .constraint hc⟩
  · cases h

theorem Opening.peekKeyword {kw id : String} {pre : List DslToken} (h : Opening kw id pre) (kw' : String)
    (ts : List DslToken) : peekKeyword kw' (pre ++ ts) = decide (kw = kw') := by
  cases h with
  | intro hk _ _ _ _ => exact peekKeyword_cons hk kw' _

theorem TaskDecl.peekKeyword {task : TaskDslNode} {pre : List DslToken} (h : TaskDecl task pre) (kw : String)
    (ts : List DslToken) : peekKeyword kw (pre ++ ts) = decide ("task" = kw) := by
  cases h with
  | intro hopen _ _ _ =>
    rw [List.append_assoc]
    exact hopen.peekKeyword kw _

theorem ConstraintDecl.peekKeyword {c : ConstraintDslNode} {pre : List DslToken} (h : ConstraintDecl c pre)
    (kw : String) (ts : List DslToken) : peekKeyword kw (pre ++ ts) = decide ("constraint" = kw) := by
  cases h with
  | intro hopen _ _ =>
    rw [List.append_assoc]
    exact hopen.peekKeyword kw _

theorem Declaration.led {b b' : WorkflowBody} {pre : List DslToken} (h : Declaration b b' pre) :
    LedByKeyword pre := by
  cases h with
  | task htask => cases htask with | intro hopen _ _ _ => exact hopen.led _
  | constraint hc => cases hc with | intro hopen _ _ => exact hopen.led _

theorem declaration_reads (fuel : Nat) :
    Reads .outOfFuel (peekIs .rbrace) (fun _ => true) fuel (declaration fuel) Declaration where
  starts ts h := h.led.starts ts
  reads {b b' pre ts} h _ := by
    cases h with
    | task htask =>
      rcases parseTask_reads fuel htask ts with hparse | ⟨hparse, hfuel⟩
      · simp [declaration, htask.peekKeyword, hparse]
      · exact .inr ⟨by simp [declaration, htask.peekKeyword, hparse], hfuel⟩
    | constraint hc =>
      rcases parseConstraint_reads fuel hc ts with hparse | ⟨hparse, hfuel⟩
      · simp [declaration, hc.peekKeyword, hparse]
      · exact .inr ⟨by simp [declaration, hc.peekKeyword, hparse], hfuel⟩

theorem OpenConstraint.peekKeyword {pre : List DslToken} (h : OpenConstraint pre) (kw : String)
    (ts : List DslToken) : peekKeyword kw (pre ++ ts) = decide ("constraint" = kw) := by
  cases h with
  | intro hopen _ =>
    rw [List.append_assoc]
    exact hopen.peekKeyword kw _

theorem OpenConstraint.led {pre : List DslToken} (h : OpenConstraint pre) : LedByKeyword pre := by
  cases h with
  | intro hopen _ => exact hopen.led _

theorem declaration_stuck (fuel : Nat) (b : WorkflowBody) {pre ts : List DslToken} (h : OpenConstraint pre)
    (hts : ¬ ConstraintToken (peek ts)) : declaration fuel b (pre ++ ts) = .error .outOfFuel := by
  simp [declaration, h.peekKeyword, parseConstraint_stuck fuel h hts]

theorem declaration_spent {fuel : Nat} {b : WorkflowBody} {ts : List DslToken} (hfuel : ts.length < fuel)
    (h : declaration fuel b ts = .error .outOfFuel) :
    ∃ pre rest, ts = pre ++ rest ∧ OpenConstraint pre ∧ ¬ ConstraintToken (peek rest) := by
  unfold declaration at h
  split at h
  · rcases bind_spent h with h₁ | ⟨_, -, h₁⟩
    · exact absurd h₁ (parseTask_answers hfuel)
    · cases h₁
  split at h
  · rcases bind_spent h with h₁ | ⟨_, -, h₁⟩
    · exact parseConstraint_spent hfuel h₁
    · cases h₁
  · cases h

/-! ## Workflows -/

theorem parseTokens_sound {fuel : Nat} {w : WorkflowDslNode} {ts rest : List DslToken}
    (h : parseTokens fuel ts = .ok (w, rest)) : ∃ pre, ts = pre ++ rest ∧ WorkflowDecl w pre := by
  obtain ⟨⟨name, ts₁⟩, e₁, h₁⟩ := bind_ok h
  obtain ⟨⟨version, ts₂⟩, e₂, h₂⟩ := bind_ok h₁
  obtain ⟨⟨b, ts₃⟩, e₃, h₃⟩ := bind_ok h₂
  obtain ⟨⟨brace, ts₄⟩, e₄, h₄⟩ := bind_ok h₃
  cases h₄
  obtain ⟨pre, rfl, hopen⟩ := opening_ok e₁
  obtain ⟨field, rfl, hfield⟩ := field_ok (by decide) e₂
  obtain ⟨-, decls, rfl, hdecls⟩ := loopUntil_sound (declaration_sound fuel) e₃
  obtain ⟨rfl, hbrace⟩ := expect_ok (by decide) e₄
  exact ⟨(pre ++ (field ++ decls)) ++ [brace], by simp, .intro (.intro hopen hfield hdecls) hbrace⟩

theorem parseTokens_complete {fuel : Nat} {w : WorkflowDslNode} {pre : List DslToken} (h : WorkflowDecl w pre)
    (ts : List DslToken) (hfuel : pre.length < fuel) : parseTokens fuel (pre ++ ts) = .ok (w, ts) := by
  cases h with
  | @intro _ version brace b _ hopen hbrace =>
    cases hopen with
    | @intro pre field decls hpre hfield hdecls =>
      have hstop : peekIs .rbrace (brace :: ts) = true := by simp [peekIs, hbrace]
      simp only [List.length_append] at hfuel
      have hloop := (loopUntil_reads_stop (declaration_reads fuel) hdecls rfl hstop).resolve_right
        (by rintro ⟨-, hle⟩; omega)
      simp [parseTokens, opening_reads hpre, field_reads hfield, hloop, expect_cons _ hbrace]

/-- What stands before some point of a constraint's body. -/
def InsideConstraint (pre : List DslToken) : Prop :=
  ∃ name version b front inner, pre = front ++ inner ∧ OpenWorkflow name version b front ∧ OpenConstraint inner

theorem parseTokens_stuck (fuel : Nat) {pre ts : List DslToken} (h : InsideConstraint pre)
    (hts : ¬ ConstraintToken (peek ts)) : parseTokens fuel (pre ++ ts) = .error .outOfFuel := by
  obtain ⟨_, _, b, _, inner, rfl, hopen, hinner⟩ := h
  cases hopen with
  | @intro pre field decls hpre hfield hdecls =>
    have hloop : loopUntil .outOfFuel (peekIs .rbrace) (declaration fuel) fuel {} (decls ++ (inner ++ ts)) =
        .error .outOfFuel := by
      rcases loopUntil_reads (declaration_reads fuel) hdecls (inner ++ ts) rfl fuel with
        ⟨k, -, hloop⟩ | ⟨hloop, -⟩
      · rw [hloop]
        exact loopUntil_error (hinner.led.starts ts).1 (declaration_stuck fuel b hinner hts) k
      · exact hloop
    simp [parseTokens, opening_reads hpre, field_reads hfield, hloop]

theorem parseTokens_spent {fuel : Nat} {ts : List DslToken} (hfuel : ts.length < fuel)
    (h : parseTokens fuel ts = .error .outOfFuel) :
    ∃ pre rest, ts = pre ++ rest ∧ InsideConstraint pre ∧ ¬ ConstraintToken (peek rest) := by
  rcases bind_spent h with h₁ | ⟨⟨name, ts₁⟩, e₁, h₁⟩
  · exact absurd h₁ (opening_answers _ _)
  obtain ⟨pre, rfl, hpre⟩ := opening_ok e₁
  rcases bind_spent h₁ with h₂ | ⟨⟨version, ts₂⟩, e₂, h₂⟩
  · exact absurd h₂ (field_answers _ _ _)
  obtain ⟨field, rfl, hfield⟩ := field_ok (by decide) e₂
  simp only [List.length_append] at hfuel
  rcases bind_spent h₂ with h₃ | ⟨_, -, h₃⟩
  · obtain ⟨b, decls, rest, rfl, hdecls, -, hrest⟩ :=
      loopUntil_spent (declaration_sound fuel) (fun h => (h.led.starts []).2.2) (by omega) h₃
    rw [List.length_append] at hfuel
    obtain ⟨inner, rest, rfl, hinner, hnext⟩ := declaration_spent (by omega) (hrest.resolve_right id)
    exact ⟨(pre ++ (field ++ decls)) ++ inner, rest, by simp,
      ⟨name, version, b, _, inner, rfl, .intro hpre hfield hdecls, hinner⟩, hnext⟩
  rcases bind_spent h₃ with h₄ | ⟨_, -, h₄⟩
  · exact absurd h₄ (expect_answers _ _)
  · cases h₄

/-! ## The front end comes to an end -/

/-- The tokens of a source. -/
def Lexes (source : String) (ts : List DslToken) : Prop := ∃ fuel, tokenize fuel source = .ok ts

/-- A constraint's body has a token that is no `}` and starts none of its fields; the end of the input is one. -/
def StuckInConstraint (source : String) : Prop :=
  ∃ pre rest, Lexes source (pre ++ rest) ∧ InsideConstraint pre ∧ ¬ ConstraintToken (peek rest)

theorem parse_stuck {source : String} (h : StuckInConstraint source) (fuel : Nat) :
    parse fuel source = .error .outOfFuel := by
  obtain ⟨pre, rest, ⟨fuel', hlex⟩, hinside, hnext⟩ := h
  rcases tokenize_unique hlex fuel with htokens | htokens
  · simp [parse, htokens, parseTokens_stuck fuel hinside hnext]
  · simp [parse, htokens]

theorem parse_of_lexes {source : String} {ts : List DslToken} (h : Lexes source ts) :
    ∃ fuel, ts.length < fuel ∧ parse fuel source = (parseTokens fuel ts >>= fun r => .ok r.1) := by
  obtain ⟨fuel, h⟩ := h
  refine ⟨fuel + ts.length + 1, by omega, ?_⟩
  have htokens : tokenize (fuel + ts.length + 1) source = .ok ts := tokenize_mono h (by omega)
  simp only [parse, htokens, ok_bind]

/-- The lexer answers on every source; the parser does so unless some constraint's body has a token in it that is
neither its closing brace nor the start of a field. -/
theorem parse_answers_iff (source : String) :
    ((∃ fuel, tokenize fuel source ≠ .error .outOfFuel) ∧ ∃ fuel, parse fuel source ≠ .error .outOfFuel) ↔
      ¬ StuckInConstraint source := by
  constructor
  · rintro ⟨-, fuel, hparse⟩ hstuck
    exact hparse (parse_stuck hstuck fuel)
  · intro hstuck
    refine ⟨tokenize_answers source, ?_⟩
    obtain ⟨fuel, htokens⟩ := tokenize_answers source
    cases hlex : tokenize fuel source with
    | error e =>
      refine ⟨fuel, ?_⟩
      rw [hlex] at htokens
      simpa [parse, hlex] using htokens
    | ok ts =>
      obtain ⟨fuel', hlength, hparse⟩ := parse_of_lexes ⟨fuel, hlex⟩
      refine ⟨fuel', fun hspent => hstuck ?_⟩
      rw [hparse] at hspent
      rcases bind_spent hspent with hspent | ⟨_, -, hspent⟩
      · obtain ⟨pre, rest, rfl, hinside, hnext⟩ := parseTokens_spent hlength hspent
        exact ⟨pre, rest, ⟨fuel, hlex⟩, hinside, hnext⟩
      · cases hspent

/-- The tokens of `workflow w: { version: 1`. -/
def headerTokens : List DslToken :=
  [⟨.keyword, "workflow", ⟨1, 1⟩⟩, ⟨.ident, "w", ⟨1, 10⟩⟩, ⟨.colon, ":", ⟨1, 11⟩⟩, ⟨.lbrace, "\x7b", ⟨1, 13⟩⟩] ++
    ([⟨.keyword, "version", ⟨1, 15⟩⟩, ⟨.colon, ":", ⟨1, 22⟩⟩, ⟨.number, "1", ⟨1, 24⟩⟩] ++ [])

theorem headerTokens_open : OpenWorkflow "w" ⟨.number, "1", ⟨1, 24⟩⟩ {} headerTokens :=
  .intro (.intro ⟨rfl, rfl⟩ rfl rfl rfl rfl) (.intro ⟨rfl, rfl⟩ rfl rfl) (.nil _)

/-- More declarations can follow. -/
theorem OpenWorkflow.append {name : String} {version : DslToken} {b b' : WorkflowBody} {pre decls : List DslToken}
    (h : OpenWorkflow name version b pre) (hdecls : Seq Declaration b b' decls) :
    OpenWorkflow name version b' (pre ++ decls) := by
  cases h with
  | @intro pre field before hpre hfield hbefore =>
    simp only [List.append_assoc]
    exact .intro hpre hfield (hbefore.append hdecls)

/-- A source that ends inside a constraint's body. -/
def unfinished : String := "workflow w: \x7b version: 1 constraint c: \x7b"

/-- The end of the input has no branch in `parseConstraint`. -/
theorem unfinished_never_answers :
    ¬ ((∃ fuel, tokenize fuel unfinished ≠ .error .outOfFuel) ∧
      ∃ fuel, parse fuel unfinished ≠ .error .outOfFuel) := by
  rintro ⟨-, fuel, hparse⟩
  let head : List DslToken := [⟨.keyword, "constraint", ⟨1, 26⟩⟩, ⟨.ident, "c", ⟨1, 37⟩⟩, ⟨.colon, ":", ⟨1, 38⟩⟩,
    ⟨.lbrace, "\x7b", ⟨1, 40⟩⟩]
  have hlex : Lexes unfinished ((headerTokens ++ (head ++ [])) ++ [⟨.eof, "", ⟨1, 41⟩⟩]) := ⟨12, by decide +kernel⟩
  have hopen : OpenConstraint (head ++ []) := .intro (.intro ⟨rfl, rfl⟩ rfl rfl rfl rfl) (.nil _)
  have hinside : InsideConstraint (headerTokens ++ (head ++ [])) := ⟨_, _, _, _, _, rfl, headerTokens_open, hopen⟩
  exact hparse (parse_stuck ⟨_, _, hlex, hinside, by simp [ConstraintToken, DslToken.IsKeyword]⟩ fuel)

/-! ## Accepted sources -/

/-- The values behind each `kw`, in order. -/
def declared (kw : String) : List DslToken → List String
  | t :: u :: ts => if t.IsKeyword kw then u.value :: declared kw (u :: ts) else declared kw (u :: ts)
  | _ => []

theorem declared_keyword {kw : String} {t : DslToken} (h : t.IsKeyword kw) (u : DslToken) (ts : List DslToken) :
    declared kw (t :: u :: ts) = u.value :: declared kw (u :: ts) := by
  rw [declared, if_pos h]

theorem declared_other {kw : String} {pre : List DslToken} (h : ∀ t ∈ pre, ¬ t.IsKeyword kw) (ts : List DslToken) :
    declared kw (pre ++ ts) = declared kw ts := by
  induction pre with
  | nil => rfl
  | cons t pre ih =>
    obtain ⟨ht, hpre⟩ := List.forall_mem_cons.1 h
    rw [← ih hpre, List.cons_append]
    cases pre ++ ts with
    | nil => rfl
    | cons u us => rw [declared, if_neg ht]

/-- The keywords of a declaration other than the one it begins with. -/
def FieldWord (t : DslToken) : Prop :=
  t.type = .keyword → t.value ∈ ["handler", "timeout", "depends", "optional", "expr", "warn", "block", "version"]

theorem FieldWord.not_keyword {t : DslToken} (h : FieldWord t) {kw : String} (hkw : kw ∈ ["task", "constraint"]) :
    ¬ t.IsKeyword kw := by
  rintro ⟨htype, rfl⟩
  have hmem := h htype
  simp only [List.mem_cons, List.not_mem_nil, or_false] at hkw
  rcases hkw with hkw | hkw <;> simp [hkw] at hmem

theorem fieldWord_of_type {t : DslToken} {type : DslTokenType} (h : t.type = type) (hne : type ≠ .keyword) :
    FieldWord t := fun htype => absurd (h.symm.trans htype) hne

theorem Field.words {kw : String} {type : DslTokenType} {t : DslToken} {pre : List DslToken} (h : Field kw type t pre)
    (htype : type ≠ .keyword)
    (hkw : kw ∈ ["handler", "timeout", "depends", "optional", "expr", "warn", "block", "version"]) :
    ∀ u ∈ pre, FieldWord u := by
  cases h with
  | @intro k colon t hk hcolon ht =>
    simp only [List.forall_mem_cons, List.not_mem_nil, false_implies, implies_true, and_true]
    exact ⟨fun _ => hk.2 ▸ hkw, fieldWord_of_type hcolon (by decide), fieldWord_of_type ht htype⟩

theorem DependsItem.words {ids ids' : List String} {pre : List DslToken} (h : DependsItem ids ids' pre) :
    ∀ u ∈ pre, FieldWord u := by
  have hitem : ∀ {t : DslToken}, t.type = .ident ∨ t.type = .string → FieldWord t := by
    rintro t (ht | ht) <;> exact fieldWord_of_type ht (by decide)
  cases h with
  | item ht => simpa using hitem ht
  | separated ht hcomma => simpa using ⟨hitem ht, fieldWord_of_type hcomma (by decide)⟩

theorem TaskField.words {f f' : TaskFields} {pre : List DslToken} (h : TaskField f f' pre) :
    ∀ u ∈ pre, FieldWord u := by
  cases h with
  | handler hfield => exact hfield.words (by decide) (by simp)
  | timeout hfield => exact hfield.words (by decide) (by simp)
  | depends hfield hitems hclose =>
    intro u hu
    simp only [List.mem_append, List.mem_singleton] at hu
    rcases hu with hu | hu | rfl
    · exact hfield.words (by decide) (by simp) u hu
    · exact hitems.forall_mem DependsItem.words u hu
    · exact fieldWord_of_type hclose (by decide)
  | @optional k hk =>
    intro u hu
    obtain rfl := List.mem_singleton.1 hu
    intro _
    simp [hk.2]

theorem ConstraintField.words {c c' : ConstraintFields} {pre : List DslToken} (h : ConstraintField c c' pre) :
    ∀ u ∈ pre, FieldWord u := by
  cases h with
  | expr hfield => exact hfield.words (by decide) (by simp)
  | warn hk | block hk =>
    intro u hu
    obtain rfl := List.mem_singleton.1 hu
    intro _
    simp [hk.2]

/-- A declaration is declared by the keyword it begins with, and declares nothing more. -/
theorem declared_opening {kw kw' id : String} {pre fields : List DslToken} {close : DslToken}
    (hopen : Opening kw' id pre) (hfields : ∀ t ∈ fields, FieldWord t) (hclose : close.type = .rbrace)
    (hkw : kw ∈ ["task", "constraint"]) (ts : List DslToken) :
    declared kw ((pre ++ (fields ++ [close])) ++ ts) = (if kw' = kw then [id] else []) ++ declared kw ts := by
  have hrest : declared kw ((fields ++ [close]) ++ ts) = declared kw ts := by
    refine declared_other (fun t ht => ?_) ts
    rcases List.mem_append.1 ht with ht | ht
    · exact (hfields t ht).not_keyword hkw
    · rw [List.mem_singleton.1 ht]
      exact (fieldWord_of_type hclose (by decide)).not_keyword hkw
  rw [List.append_assoc, ← hrest]
  cases hopen with
  | @intro k name colon brace hk hname hid hcolon hbrace =>
    have htail : ∀ us, declared kw ([name, colon, brace] ++ us) = declared kw us := by
      refine declared_other ?_
      simp only [List.forall_mem_cons, List.not_mem_nil, false_implies, implies_true, and_true]
      exact ⟨(fieldWord_of_type hname (by decide)).not_keyword hkw,
        (fieldWord_of_type hcolon (by decide)).not_keyword hkw, (fieldWord_of_type hbrace (by decide)).not_keyword hkw⟩
    split
    · rename_i heq
      subst heq hid
      exact (declared_keyword hk _ _).trans (congrArg (name.value :: ·) (htail _))
    · rename_i hne
      have hk' : ∀ t ∈ [k], ¬ t.IsKeyword kw := by
        rintro t ht ⟨-, hvalue⟩
        rw [List.mem_singleton.1 ht, hk.2] at hvalue
        exact hne hvalue
      exact (declared_other hk' _).trans (htail _)

/-- What a declaration declares is what it adds to the body. -/
theorem Declaration.declared {b b' : WorkflowBody} {pre : List DslToken} (h : Declaration b b' pre)
    (ts : List DslToken) :
    b.tasks.map TaskDslNode.id ++ Dsl.declared "task" (pre ++ ts) =
        b'.tasks.map TaskDslNode.id ++ Dsl.declared "task" ts ∧
      b.constraints.map ConstraintDslNode.id ++ Dsl.declared "constraint" (pre ++ ts) =
        b'.constraints.map ConstraintDslNode.id ++ Dsl.declared "constraint" ts := by
  cases h with
  | task htask =>
    cases htask with
    | intro hopen hfields hbrace _ =>
      have hwords := hfields.forall_mem TaskField.words
      constructor <;> rw [declared_opening hopen hwords hbrace (by simp)] <;> simp
  | constraint hc =>
    cases hc with
    | intro hopen hfields hbrace =>
      have hwords := hfields.forall_mem ConstraintField.words
      constructor <;> rw [declared_opening hopen hwords hbrace (by simp)] <;> simp

/-- What the declarations of a body declare is what the body gets. -/
theorem declared_decls {b b' : WorkflowBody} {decls : List DslToken} (h : Seq Declaration b b' decls)
    (ts : List DslToken) :
    b.tasks.map TaskDslNode.id ++ declared "task" (decls ++ ts) =
        b'.tasks.map TaskDslNode.id ++ declared "task" ts ∧
      b.constraints.map ConstraintDslNode.id ++ declared "constraint" (decls ++ ts) =
        b'.constraints.map ConstraintDslNode.id ++ declared "constraint" ts := by
  induction h with
  | nil b => exact ⟨rfl, rfl⟩
  | cons hpre hpost ih =>
    rw [List.append_assoc]
    exact ⟨(hpre.declared _).1.trans ih.1, (hpre.declared _).2.trans ih.2⟩

theorem WorkflowDecl.declared {w : WorkflowDslNode} {pre : List DslToken} (h : WorkflowDecl w pre)
    {eof : DslToken} (heof : eof.type = .eof) :
    declared "task" (pre ++ [eof]) = w.tasks.map TaskDslNode.id ∧
      declared "constraint" (pre ++ [eof]) = w.constraints.map ConstraintDslNode.id := by
  cases h with
  | @intro name version close b _ hopen hclose =>
    cases hopen with
    | @intro pre field decls hpre hfield hdecls =>
      have hend : ∀ kw ∈ ["task", "constraint"], Dsl.declared kw [close, eof] = [] := by
        intro kw hkw
        have hnone : ∀ t ∈ [close, eof], ¬ t.IsKeyword kw := by
          simp only [List.forall_mem_cons, List.not_mem_nil, false_implies, implies_true, and_true]
          exact ⟨(fieldWord_of_type hclose (by decide)).not_keyword hkw,
            (fieldWord_of_type heof (by decide)).not_keyword hkw⟩
        exact declared_other hnone []
      have hhead : ∀ kw ∈ ["task", "constraint"],
          Dsl.declared kw ((pre ++ (field ++ decls) ++ [close]) ++ [eof]) =
            Dsl.declared kw (decls ++ [close, eof]) := by
        intro kw hkw
        have hfields : ∀ t ∈ field, ¬ t.IsKeyword kw := fun t ht =>
          (hfield.words (by decide) (by simp) t ht).not_keyword hkw
        have hw : ∀ t ∈ pre, ¬ t.IsKeyword kw := by
          cases hpre with
          | @intro k name colon brace hk hname _ hcolon hbrace =>
            simp only [List.forall_mem_cons, List.not_mem_nil, false_implies, implies_true, and_true]
            refine ⟨?_, (fieldWord_of_type hname (by decide)).not_keyword hkw,
              (fieldWord_of_type hcolon (by decide)).not_keyword hkw,
              (fieldWord_of_type hbrace (by decide)).not_keyword hkw⟩
            rintro ⟨-, rfl⟩
            rw [hk.2] at hkw
            simp at hkw
        simp only [List.append_assoc, declared_other hw, declared_other hfields, List.cons_append, List.nil_append]
      obtain ⟨htasks, hconstraints⟩ := declared_decls hdecls [close, eof]
      rw [hhead "task" (by simp), hhead "constraint" (by simp)]
      rw [hend "task" (by simp), List.append_nil] at htasks
      rw [hend "constraint" (by simp), List.append_nil] at hconstraints
      exact ⟨htasks, hconstraints⟩

/-- The source is the workflow `w` as a whole: its tokens are one declaration and the end, its literals are closed, and
the tasks and constraints declared in it are those of `w`. -/
def ReadsWhole (source : String) (w : WorkflowDslNode) : Prop :=
  ∃ ts eof, Lexes source (ts ++ [eof]) ∧ eof.type = .eof ∧ WorkflowDecl w ts ∧ LiteralsClosed source ∧
    declared "task" (ts ++ [eof]) = w.tasks.map TaskDslNode.id ∧
    declared "constraint" (ts ++ [eof]) = w.constraints.map ConstraintDslNode.id

/-- Something stands behind the closing brace of the workflow. -/
def Trailing (source : String) : Prop :=
  ∃ w pre t rest, Lexes source (pre ++ t :: rest) ∧ WorkflowDecl w pre ∧ t.type ≠ .eof

theorem Lexes.unique {source : String} {ts us : List DslToken} (h : Lexes source ts) (h' : Lexes source us) :
    ts = us := by
  obtain ⟨fuel, h⟩ := h
  obtain ⟨fuel', h'⟩ := h'
  rcases tokenize_unique h fuel' with heq | heq
  · exact Except.ok.inj (heq.symm.trans h')
  · rw [h'] at heq
    cases heq

/-- A sequence of tokens begins with at most one workflow. -/
theorem WorkflowDecl.unique {w w' : WorkflowDslNode} {pre pre' ts ts' : List DslToken} (h : WorkflowDecl w pre)
    (h' : WorkflowDecl w' pre') (heq : pre ++ ts = pre' ++ ts') : w = w' ∧ ts = ts' := by
  let fuel := pre.length + pre'.length + 1
  have hread : parseTokens fuel (pre ++ ts) = .ok (w, ts) := parseTokens_complete h ts (by omega)
  have hread' : parseTokens fuel (pre' ++ ts') = .ok (w', ts') := parseTokens_complete h' ts' (by omega)
  rw [heq, hread'] at hread
  simpa [eq_comm] using hread

/-- Without anything behind the declaration, what `parse` accepts is the whole source. -/
theorem parse_readsWhole {source : String} (htrail : ¬ Trailing source) {fuel : Nat} {w : WorkflowDslNode}
    (h : parse fuel source = .ok w) : ReadsWhole source w := by
  obtain ⟨ts, hlex, h₁⟩ := bind_ok h
  obtain ⟨⟨w', rest⟩, hparse, h₂⟩ := bind_ok h₁
  cases h₂
  obtain ⟨pre, rfl, hw⟩ := parseTokens_sound hparse
  obtain ⟨front, eof, heq, heof, hfront⟩ := tokenizeFrom_eof hlex
  have hclose : ∃ front close, pre = front ++ [close] ∧ close.type = .rbrace := by
    cases hw with
    | intro hopen hclose => exact ⟨_, _, rfl, hclose⟩
  obtain ⟨front', close, rfl, hclose⟩ := hclose
  -- the rest is the end: it is not empty, and does not go on
  have hrest : rest = [eof] := by
    cases rest with
    | nil =>
      rw [List.append_nil] at heq
      obtain ⟨-, hlast⟩ := List.append_inj' heq rfl
      cases hlast
      rw [hclose] at heof
      cases heof
    | cons t rest =>
      have ht : t.type = .eof := by
        by_contra hne
        exact htrail ⟨_, _, t, rest, ⟨fuel, hlex⟩, hw, hne⟩
      rcases List.eq_nil_or_concat rest with rfl | ⟨rest, u, rfl⟩
      · obtain ⟨-, hlast⟩ := List.append_inj' heq rfl
        exact hlast
      · have hlast : ((front' ++ [close]) ++ t :: rest) ++ [u] = front ++ [eof] := by simpa using heq
        obtain ⟨hinit, -⟩ := List.append_inj' hlast rfl
        exact absurd ht (hfront t (by rw [← hinit]; simp))
  subst hrest
  obtain ⟨htasks, hconstraints⟩ := hw.declared heof
  refine ⟨_, eof, ⟨fuel, hlex⟩, heof, hw, ?_, htasks, hconstraints⟩
  rcases tokenizeFrom_mode hlex with hmode | ⟨init, t, u, hts, ht⟩
  · exact hmode
  · -- an open literal would be the last token, and that is the brace
    have hlast : (front' ++ [close]) ++ [eof] = (init ++ [t]) ++ [u] := by simpa using hts
    obtain ⟨hinit, -⟩ := List.append_inj' hlast rfl
    obtain ⟨-, hlast⟩ := List.append_inj' hinit rfl
    cases hlast
    rw [hclose] at ht
    cases ht

/-- The declaration is accepted, whatever follows it. -/
theorem not_readsWhole_of_trailing {source : String} (h : Trailing source) :
    ∃ fuel w, parse fuel source = .ok w ∧ ¬ ReadsWhole source w := by
  obtain ⟨w, pre, t, rest, hlex, hw, ht⟩ := h
  obtain ⟨fuel, hlength, hparse⟩ := parse_of_lexes hlex
  rw [parseTokens_complete hw (t :: rest) (by simp at hlength; omega)] at hparse
  refine ⟨fuel, w, hparse, ?_⟩
  rintro ⟨ts, eof, hlex', heof, hw', -⟩
  obtain ⟨-, hrest⟩ := hw.unique hw' (hlex.unique hlex')
  cases hrest
  exact ht heof

/-- Every accepted source is one workflow declaration as a whole, with closed literals and all of its tasks and
constraints in the syntax tree, if and only if nothing follows a declaration. -/
theorem accepts_whole_iff (source : String) :
    (∀ fuel w, parse fuel source = .ok w → ReadsWhole source w) ↔ ¬ Trailing source := by
  constructor
  · intro hwhole htrail
    obtain ⟨fuel, w, hparse, hnot⟩ := not_readsWhole_of_trailing htrail
    exact hnot (hwhole fuel w hparse)
  · intro htrail fuel w hparse
    exact parse_readsWhole htrail hparse

/-- A source with a task behind the closing brace of the workflow. -/
def taskBehind : String := "workflow w: \x7b version: 1 \x7d task t: \x7b \x7d"

/-- The task is left out of the accepted workflow. -/
theorem taskBehind_dropped : ¬ ∀ fuel w, parse fuel taskBehind = .ok w → ReadsWhole taskBehind w := by
  intro hwhole
  have hlex : Lexes taskBehind
      ((headerTokens ++ [⟨.rbrace, "\x7d", ⟨1, 26⟩⟩]) ++ ⟨.keyword, "task", ⟨1, 28⟩⟩ :: [⟨.ident, "t", ⟨1, 33⟩⟩,
        ⟨.colon, ":", ⟨1, 34⟩⟩, ⟨.lbrace, "\x7b", ⟨1, 36⟩⟩, ⟨.rbrace, "\x7d", ⟨1, 38⟩⟩, ⟨.eof, "", ⟨1, 39⟩⟩]) :=
    ⟨14, by decide +kernel⟩
  have htrail : Trailing taskBehind := ⟨_, _, _, _, hlex, .intro headerTokens_open rfl, by simp⟩
  obtain ⟨fuel, w, hparse, hnot⟩ := not_readsWhole_of_trailing htrail
  exact hnot (hwhole fuel w hparse)

end Jobflow.Dsl
