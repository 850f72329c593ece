import Jobflow.Dsl.Parser

/-!
# Workflow DSL: the grammar of the token stream

The grammar of a workflow declaration, read off the language and not off the parser's control flow: which token
sequences are a task, a constraint, a body, and which syntax tree they stand for. The parser's loops read what it says
of their items, and nothing else (`Sound`, `Complete`); the front end does so as a whole (`parseTokens_sound` and
`parseTokens_complete`, in `Dsl.FrontEnd`).
-/

namespace Jobflow.Dsl

open Js (Exception Number)
open TokenLoop

/-! ## Grammar -/

def DslToken.IsKeyword (t : DslToken) (kw : String) : Prop := t.type = .keyword ∧ t.value = kw

instance (t : DslToken) (kw : String) : Decidable (t.IsKeyword kw) :=
  inferInstanceAs (Decidable (_ ∧ _))

/-- `kw name : {` -/
inductive Opening (kw id : String) : List DslToken → Prop where
  | intro {k name colon brace : DslToken} : k.IsKeyword kw → name.type = .ident → name.value = id →
      colon.type = .colon → brace.type = .lbrace → Opening kw id [k, name, colon, brace]

/-- `kw : value` -/
inductive Field (kw : String) (type : DslTokenType) : DslToken → List DslToken → Prop where
  | intro {k colon t : DslToken} : k.IsKeyword kw → colon.type = .colon → t.type = type →
      Field kw type t [k, colon, t]

/-- An identifier or a literal of a `depends` list, with or without a comma behind it. -/
inductive DependsItem : List String → List String → List DslToken → Prop where
  | item {ids : List String} {t : DslToken} : t.type = .ident ∨ t.type = .string →
      DependsItem ids (ids ++ [t.value]) [t]
  | separated {ids : List String} {t comma : DslToken} : t.type = .ident ∨ t.type = .string → comma.type = .comma →
      DependsItem ids (ids ++ [t.value]) [t, comma]

/-- A field of a task, and what it sets. -/
inductive TaskField : TaskFields → TaskFields → List DslToken → Prop where
  | handler {f : TaskFields} {t : DslToken} {pre : List DslToken} : Field "handler" .string t pre →
      TaskField f { f with handler := t.value } pre
  | timeout {f : TaskFields} {t : DslToken} {pre : List DslToken} : Field "timeout" .number t pre →
      TaskField f { f with timeoutMs := .parse t.value } pre
  | depends {f : TaskFields} {t close : DslToken} {ids : List String} {pre items : List DslToken} :
      Field "depends" .lbracket t pre → Seq DependsItem f.dependsOn ids items → close.type = .rbracket →
      TaskField f { f with dependsOn := ids } (pre ++ (items ++ [close]))
  | optional {f : TaskFields} {k : DslToken} : k.IsKeyword "optional" → TaskField f { f with optional := true } [k]

inductive TaskDecl : TaskDslNode → List DslToken → Prop where
  | intro {id : String} {f : TaskFields} {pre fields : List DslToken} {brace : DslToken} : Opening "task" id pre →
      Seq TaskField {} f fields → brace.type = .rbrace → f.handler ≠ "" →
      TaskDecl ⟨id, f.handler, f.timeoutMs, f.dependsOn, f.optional⟩ (pre ++ (fields ++ [brace]))

inductive ConstraintField : ConstraintFields → ConstraintFields → List DslToken → Prop where
  | expr {c : ConstraintFields} {t : DslToken} {pre : List DslToken} : Field "expr" .string t pre →
      ConstraintField c { c with expr := t.value } pre
  | warn {c : ConstraintFields} {k : DslToken} : k.IsKeyword "warn" →
      ConstraintField c { c with severity := .warn } [k]
  | block {c : ConstraintFields} {k : DslToken} : k.IsKeyword "block" →
      ConstraintField c { c with severity := .block } [k]

inductive ConstraintDecl : ConstraintDslNode → List DslToken → Prop where
  | intro {id : String} {c : ConstraintFields} {pre fields : List DslToken} {brace : DslToken} :
      Opening "constraint" id pre → Seq ConstraintField {} c fields → brace.type = .rbrace →
      ConstraintDecl ⟨id, c.expr, c.severity⟩ (pre ++ (fields ++ [brace]))

/-- A declaration of a workflow's body. -/
inductive Declaration : WorkflowBody → WorkflowBody → List DslToken → Prop where
  | task {b : WorkflowBody} {task : TaskDslNode} {pre : List DslToken} : TaskDecl task pre →
      Declaration b { b with tasks := b.tasks ++ [task] } pre
  | constraint {b : WorkflowBody} {c : ConstraintDslNode} {pre : List DslToken} : ConstraintDecl c pre →
      Declaration b { b with constraints := b.constraints ++ [c] } pre

/-- `workflow name : { version : number` and declarations. -/
inductive OpenWorkflow : String → DslToken → WorkflowBody → List DslToken → Prop where
  | intro {name : String} {version : DslToken} {b : WorkflowBody} {pre field decls : List DslToken} :
      Opening "workflow" name pre → Field "version" .number version field → Seq Declaration {} b decls →
      OpenWorkflow name version b (pre ++ (field ++ decls))

inductive WorkflowDecl : WorkflowDslNode → List DslToken → Prop where
  | intro {name : String} {version brace : DslToken} {b : WorkflowBody} {pre : List DslToken} :
      OpenWorkflow name version b pre → brace.type = .rbrace →
      WorkflowDecl ⟨name, .parse version.value, b.tasks, b.constraints⟩ (pre ++ [brace])

/-! ## Runs that end with tokens, with an error, or not at all -/

theorem bind_ok {α β : Type} {x : Except Halt α} {f : α → Except Halt β} {b : β} (h : x >>= f = .ok b) :
    ∃ a, x = .ok a ∧ f a = .ok b := by
  cases x with
  | error e => cases h
  | ok a => exact ⟨a, rfl, h⟩

theorem bind_spent {α β : Type} {x : Except Halt α} {f : α → Except Halt β} (h : x >>= f = .error .outOfFuel) :
    x = .error .outOfFuel ∨ ∃ a, x = .ok a ∧ f a = .error .outOfFuel := by
  cases x with
  | error e =>
    cases h
    exact .inl rfl
  | ok a => exact .inr ⟨a, rfl, h⟩

@[simp] theorem ok_bind {α β : Type} (a : α) (f : α → Except Halt β) : (Except.ok a >>= f) = f a := rfl

@[simp] theorem error_bind {α β : Type} (e : Halt) (f : α → Except Halt β) :
    ((Except.error e : Except Halt α) >>= f) = .error e := rfl

/-! ## Single tokens -/

@[simp] theorem peek_cons (t : DslToken) (ts : List DslToken) : peek (t :: ts) = t := rfl

theorem peekKeyword_iff {kw : String} {ts : List DslToken} : peekKeyword kw ts = true ↔ (peek ts).IsKeyword kw := by
  simp [peekKeyword, DslToken.IsKeyword]

theorem expect_cons {type : DslTokenType} {t : DslToken} (ts : List DslToken) (h : t.type = type) :
    expect type (t :: ts) = .ok (t, ts) := by
  simp [expect, h]

theorem expect_ok {type : DslTokenType} (heof : type ≠ .eof) {t : DslToken} {ts rest : List DslToken}
    (h : expect type ts = .ok (t, rest)) : ts = t :: rest ∧ t.type = type := by
  unfold expect at h
  dsimp only at h
  split at h
  · cases h
  · rename_i htype
    rw [not_not] at htype
    cases ts with
    | nil => exact absurd htype.symm heof
    | cons u us =>
      cases h
      exact ⟨rfl, htype⟩

theorem expect_answers (type : DslTokenType) (ts : List DslToken) : expect type ts ≠ .error .outOfFuel := by
  unfold expect
  dsimp only
  split <;> simp [Halt.error]

theorem expectKeyword_cons {kw : String} {t : DslToken} (ts : List DslToken) (h : t.IsKeyword kw) :
    expectKeyword kw (t :: ts) = .ok ts := by
  simp [expectKeyword, expect_cons ts h.1, h.2]

theorem expectKeyword_ok {kw : String} {ts rest : List DslToken} (h : expectKeyword kw ts = .ok rest) :
    ∃ t, ts = t :: rest ∧ t.IsKeyword kw := by
  obtain ⟨⟨t, us⟩, ht, hvalue⟩ := bind_ok h
  obtain ⟨rfl, htype⟩ := expect_ok (by decide) ht
  dsimp only at hvalue
  split at hvalue
  · cases hvalue
  · rename_i hne
    cases hvalue
    exact ⟨t, rfl, htype, not_not.1 hne⟩

theorem expectKeyword_answers (kw : String) (ts : List DslToken) : expectKeyword kw ts ≠ .error .outOfFuel := by
  intro h
  rcases bind_spent h with h | ⟨⟨t, us⟩, -, h⟩
  · exact expect_answers _ _ h
  · dsimp only at h
    split at h <;> simp [Halt.error] at h

theorem expectIdentOrString_cons {t : DslToken} (ts : List DslToken) (h : t.type = .ident ∨ t.type = .string) :
    expectIdentOrString (t :: ts) = .ok (t.value, ts) := by
  simp [expectIdentOrString, h]

theorem expectIdentOrString_ok {id : String} {ts rest : List DslToken} (h : expectIdentOrString ts = .ok (id, rest)) :
    ∃ t, ts = t :: rest ∧ t.value = id ∧ (t.type = .ident ∨ t.type = .string) := by
  unfold expectIdentOrString at h
  dsimp only at h
  split at h
  · rename_i htype
    cases ts with
    | nil => rcases htype with htype | htype <;> cases htype
    | cons t us =>
      cases h
      exact ⟨t, rfl, rfl, htype⟩
  · cases h

/-! ## Openings and fields -/

theorem opening_reads {kw id : String} {pre : List DslToken} (h : Opening kw id pre) (ts : List DslToken) :
    opening kw (pre ++ ts) = .ok (id, ts) := by
  cases h with
  | intro hk hname hid hcolon hbrace =>
    simp [opening, expectIdent, expectKeyword_cons _ hk, expect_cons _ hname, expect_cons _ hcolon,
      expect_cons _ hbrace, hid]

theorem opening_ok {kw id : String} {ts rest : List DslToken} (h : opening kw ts = .ok (id, rest)) :
    ∃ pre, ts = pre ++ rest ∧ Opening kw id pre := by
  obtain ⟨ts₁, e₁, h₁⟩ := bind_ok h
  obtain ⟨⟨name, ts₂⟩, e₂, h₂⟩ := bind_ok h₁
  obtain ⟨⟨t, ts₃⟩, e₃, hvalue⟩ := bind_ok e₂
  obtain ⟨⟨colon, ts₄⟩, e₄, h₃⟩ := bind_ok h₂
  obtain ⟨⟨brace, ts₅⟩, e₅, h₄⟩ := bind_ok h₃
  cases hvalue
  cases h₄
  obtain ⟨k, rfl, hk⟩ := expectKeyword_ok e₁
  obtain ⟨rfl, htype⟩ := expect_ok (by decide) e₃
  obtain ⟨rfl, hcolon⟩ := expect_ok (by decide) e₄
  obtain ⟨rfl, hbrace⟩ := expect_ok (by decide) e₅
  exact ⟨_, rfl, .intro hk htype rfl hcolon hbrace⟩

theorem opening_answers (kw : String) (ts : List DslToken) : opening kw ts ≠ .error .outOfFuel := by
  intro h
  rcases bind_spent h with h | ⟨_, -, h⟩
  · exact expectKeyword_answers _ _ h
  rcases bind_spent h with h | ⟨_, -, h⟩
  · rcases bind_spent h with h | ⟨_, -, h⟩
    · exact expect_answers _ _ h
    · cases h
  rcases bind_spent h with h | ⟨_, -, h⟩
  · exact expect_answers _ _ h
  rcases bind_spent h with h | ⟨_, -, h⟩
  · exact expect_answers _ _ h
  · cases h

theorem field_reads {kw : String} {type : DslTokenType} {t : DslToken} {pre : List DslToken}
    (h : Field kw type t pre) (ts : List DslToken) : field kw type (pre ++ ts) = .ok (t, ts) := by
  cases h with
  | intro hk hcolon ht => simp [field, expectKeyword_cons _ hk, expect_cons _ hcolon, expect_cons _ ht]

theorem field_ok {kw : String} {type : DslTokenType} (heof : type ≠ .eof) {t : DslToken} {ts rest : List DslToken}
    (h : field kw type ts = .ok (t, rest)) : ∃ pre, ts = pre ++ rest ∧ Field kw type t pre := by
  obtain ⟨ts₁, e₁, h₁⟩ := bind_ok h
  obtain ⟨⟨colon, ts₂⟩, e₂, e₃⟩ := bind_ok h₁
  obtain ⟨k, rfl, hk⟩ := expectKeyword_ok e₁
  obtain ⟨rfl, hcolon⟩ := expect_ok (by decide) e₂
  obtain ⟨rfl, ht⟩ := expect_ok heof e₃
  exact ⟨_, rfl, .intro hk hcolon ht⟩

theorem field_answers (kw : String) (type : DslTokenType) (ts : List DslToken) :
    field kw type ts ≠ .error .outOfFuel := by
  intro h
  rcases bind_spent h with h | ⟨_, -, h⟩
  · exact expectKeyword_answers _ _ h
  rcases bind_spent h with h | ⟨_, -, h⟩
  · exact expect_answers _ _ h
  · exact expect_answers _ _ h

/-! ## Rounds of the loops -/

theorem dependsItem_sound : Sound (peekIs .rbracket) (fun _ => False) dependsItem DependsItem := by
  intro ids ids' ts rest _ h
  obtain ⟨⟨id, ts₁⟩, e₁, h₁⟩ := bind_ok h
  obtain ⟨t, rfl, rfl, ht⟩ := expectIdentOrString_ok e₁
  left
  dsimp only at h₁
  split at h₁
  · obtain ⟨⟨comma, ts₂⟩, e₂, h₂⟩ := bind_ok h₁
    obtain ⟨rfl, hcomma⟩ := expect_ok (by decide) e₂
    cases h₂
    exact ⟨[t, comma], rfl, .separated ht hcomma⟩
  · cases h₁
    exact ⟨[t], rfl, .item ht⟩

theorem dependsItem_reads (fuel : Nat) :
    Reads .outOfFuel (peekIs .rbracket) (fun ts => !peekIs .comma ts) fuel dependsItem DependsItem where
  starts ts h := by
    cases h with
    | item ht => rcases ht with ht | ht <;> simp [peekIs, ht]
    | separated ht hcomma => rcases ht with ht | ht <;> simp [peekIs, ht]
  reads h hts := by
    left
    cases h with
    | item ht =>
      rw [peekIs, Bool.not_eq_true', decide_eq_false_iff_not] at hts
      simp [dependsItem, expectIdentOrString_cons _ ht, hts]
    | separated ht hcomma => simp [dependsItem, expectIdentOrString_cons _ ht, hcomma, expect_cons _ hcomma]

theorem dependsItem_answers (ids : List String) (ts : List DslToken) : dependsItem ids ts ≠ .error .outOfFuel := by
  intro h
  rcases bind_spent h with h | ⟨_, -, h⟩
  · unfold expectIdentOrString at h
    dsimp only at h
    split at h <;> simp [Halt.error] at h
  · dsimp only at h
    split at h
    · rcases bind_spent h with h | ⟨_, -, h⟩
      · exact expect_answers _ _ h
      · cases h
    · cases h

theorem DependsItem.length {ids ids' : List String} {pre : List DslToken} (h : DependsItem ids ids' pre) :
    0 < pre.length := by
  cases h <;> simp

/-- The loop over a `depends` list comes to an end: each round takes a token. -/
theorem depends_answers {fuel : Nat} (ids : List String) {ts : List DslToken} (hfuel : ts.length < fuel) :
    loopUntil .outOfFuel (peekIs .rbracket) dependsItem fuel ids ts ≠ .error .outOfFuel :=
  loopUntil_answers dependsItem_sound DependsItem.length (fun ids ts _ => dependsItem_answers ids ts) ids hfuel

theorem taskField_sound (fuel : Nat) : Sound (peekIs .rbrace) (fun _ => False) (taskField fuel) TaskField := by
  intro f f' ts rest _ h
  left
  unfold taskField at h
  split at h
  · obtain ⟨⟨t, ts₁⟩, e₁, h₁⟩ := bind_ok h
    obtain ⟨pre, rfl, hfield⟩ := field_ok (by decide) e₁
    cases h₁
    exact ⟨pre, rfl, .handler hfield⟩
  split at h
  · obtain ⟨⟨t, ts₁⟩, e₁, h₁⟩ := bind_ok h
    obtain ⟨pre, rfl, hfield⟩ := field_ok (by decide) e₁
    cases h₁
    exact ⟨pre, rfl, .timeout hfield⟩
  split at h
  · obtain ⟨⟨t, ts₁⟩, e₁, h₁⟩ := bind_ok h
    obtain ⟨⟨ids, ts₂⟩, e₂, h₂⟩ := bind_ok h₁
    obtain ⟨⟨close, ts₃⟩, e₃, h₃⟩ := bind_ok h₂
    cases h₃
    obtain ⟨pre, rfl, hfield⟩ := field_ok (by decide) e₁
    obtain ⟨-, items, rfl, hitems⟩ := loopUntil_sound dependsItem_sound e₂
    obtain ⟨rfl, hclose⟩ := expect_ok (by decide) e₃
    exact ⟨pre ++ (items ++ [close]), by simp, .depends hfield hitems hclose⟩
  split at h
  · obtain ⟨ts₁, e₁, h₁⟩ := bind_ok h
    obtain ⟨k, rfl, hk⟩ := expectKeyword_ok e₁
    cases h₁
    exact ⟨[k], rfl, .optional hk⟩
  · cases h

theorem peekKeyword_cons {kw : String} {t : DslToken} (h : t.IsKeyword kw) (kw' : String) (ts : List DslToken) :
    peekKeyword kw' (t :: ts) = decide (kw = kw') := by
  simp [peekKeyword, h.1, h.2]

theorem Field.peekKeyword {kw : String} {type : DslTokenType} {t : DslToken} {pre : List DslToken}
    (h : Field kw type t pre) (kw' : String) (ts : List DslToken) :
    peekKeyword kw' (pre ++ ts) = decide (kw = kw') := by
  cases h with
  | intro hk _ _ => exact peekKeyword_cons hk kw' _

/-- The sequence starts with a keyword. -/
def LedByKeyword (pre : List DslToken) : Prop := ∃ k post kw, pre = k :: post ∧ k.IsKeyword kw

theorem Field.led {kw : String} {type : DslTokenType} {t : DslToken} {pre : List DslToken}
    (h : Field kw type t pre) (post : List DslToken) : LedByKeyword (pre ++ post) := by
  cases h with
  | intro hk _ _ => exact ⟨_, _, kw, rfl, hk⟩

theorem Opening.led {kw id : String} {pre : List DslToken} (h : Opening kw id pre) (post : List DslToken) :
    LedByKeyword (pre ++ post) := by
  cases h with
  | intro hk _ _ _ _ => exact ⟨_, _, kw, rfl, hk⟩

theorem LedByKeyword.starts {pre : List DslToken} (h : LedByKeyword pre) (ts : List DslToken) :
    peekIs .rbrace (pre ++ ts) = false ∧ true = true ∧ 0 < pre.length := by
  obtain ⟨k, post, kw, rfl, hk⟩ := h
  simp [peekIs, hk.1]

theorem TaskField.led {f f' : TaskFields} {pre : List DslToken} (h : TaskField f f' pre) : LedByKeyword pre := by
  cases h with
  | handler hfield | timeout hfield => simpa using hfield.led []
  | depends hfield hitems hclose => exact hfield.led _
  | optional hk => exact ⟨_, [], _, rfl, hk⟩

theorem taskField_reads (fuel : Nat) :
    Reads .outOfFuel (peekIs .rbrace) (fun _ => true) fuel (taskField fuel) TaskField where
  starts ts h := h.led.starts ts
  reads {f f' pre ts} h _ := by
    cases h with
    | handler hfield => simp [taskField, hfield.peekKeyword, field_reads hfield]
    | timeout hfield => simp [taskField, hfield.peekKeyword, field_reads hfield]
    | @depends _ close ids pre items hfield hitems hclose =>
      have hnext : (!peekIs .comma (close :: ts)) = true := by simp [peekIs, hclose]
      have hstop : peekIs .rbracket (close :: ts) = true := by simp [peekIs, hclose]
      rcases loopUntil_reads_stop (dependsItem_reads fuel) hitems hnext hstop with hloop | ⟨hloop, hfuel⟩
      · simp [taskField, hfield.peekKeyword, field_reads hfield, hloop, expect_cons _ hclose]
      · right
        simp only [taskField, List.append_assoc, hfield.peekKeyword, field_reads hfield, List.length_append]
        refine ⟨?_, by omega⟩
        simp [hloop]
    | optional hk => simp [taskField, peekKeyword_cons hk, expectKeyword_cons _ hk]

theorem taskField_answers {fuel : Nat} (f : TaskFields) (ts : List DslToken) (hfuel : ts.length < fuel) :
    taskField fuel f ts ≠ .error .outOfFuel := by
  intro h
  unfold taskField at h
  split at h
  · rcases bind_spent h with h | ⟨_, -, h⟩
    · exact field_answers _ _ _ h
    · cases h
  split at h
  · rcases bind_spent h with h | ⟨_, -, h⟩
    · exact field_answers _ _ _ h
    · cases h
  split at h
  · rcases bind_spent h with h₁ | ⟨⟨t, ts₁⟩, e₁, h₁⟩
    · exact field_answers _ _ _ h₁
    obtain ⟨pre, rfl, -⟩ := field_ok (by decide) e₁
    rw [List.length_append] at hfuel
    rcases bind_spent h₁ with h₂ | ⟨_, -, h₂⟩
    · exact depends_answers _ (by omega) h₂
    rcases bind_spent h₂ with h₃ | ⟨_, -, h₃⟩
    · exact expect_answers _ _ h₃
    · cases h₃
  split at h
  · rcases bind_spent h with h | ⟨_, -, h⟩
    · exact expectKeyword_answers _ _ h
    · cases h
  · cases h

/-! ## Tasks -/

theorem parseTask_ok {fuel : Nat} {task : TaskDslNode} {ts rest : List DslToken}
    (h : parseTask fuel ts = .ok (task, rest)) : ∃ pre, ts = pre ++ rest ∧ TaskDecl task pre := by
  obtain ⟨⟨id, ts₁⟩, e₁, h₁⟩ := bind_ok h
  obtain ⟨⟨f, ts₂⟩, e₂, h₂⟩ := bind_ok h₁
  obtain ⟨⟨brace, ts₃⟩, e₃, h₃⟩ := bind_ok h₂
  obtain ⟨pre, rfl, hopen⟩ := opening_ok e₁
  obtain ⟨-, fields, rfl, hfields⟩ := loopUntil_sound (taskField_sound fuel) e₂
  obtain ⟨rfl, hbrace⟩ := expect_ok (by decide) e₃
  dsimp only at h₃
  split at h₃
  · cases h₃
  · rename_i hhandler
    cases h₃
    exact ⟨pre ++ (fields ++ [brace]), by simp, .intro hopen hfields hbrace hhandler⟩

theorem parseTask_reads (fuel : Nat) {task : TaskDslNode} {pre : List DslToken} (h : TaskDecl task pre)
    (ts : List DslToken) :
    parseTask fuel (pre ++ ts) = .ok (task, ts) ∨
      parseTask fuel (pre ++ ts) = .error .outOfFuel ∧ fuel ≤ pre.length := by
  cases h with
  | @intro id f pre fields brace hopen hfields hbrace hhandler =>
    have hstop : peekIs .rbrace (brace :: ts) = true := by simp [peekIs, hbrace]
    rcases loopUntil_reads_stop (taskField_reads fuel) hfields rfl hstop with hloop | ⟨hloop, hfuel⟩
    · left
      simp [parseTask, opening_reads hopen, hloop, expect_cons _ hbrace, hhandler]
    · right
      simp only [parseTask, List.append_assoc, opening_reads hopen, List.length_append]
      refine ⟨?_, by omega⟩
      simp [hloop]

theorem parseTask_answers {fuel : Nat} {ts : List DslToken} (hfuel : ts.length < fuel) :
    parseTask fuel ts ≠ .error .outOfFuel := by
  intro h
  rcases bind_spent h with h₁ | ⟨⟨id, ts₁⟩, e₁, h₁⟩
  · exact opening_answers _ _ h₁
  obtain ⟨pre, rfl, -⟩ := opening_ok e₁
  rw [List.length_append] at hfuel
  rcases bind_spent h₁ with h₂ | ⟨_, -, h₂⟩
  · exact loopUntil_answers (taskField_sound fuel) (fun h => (h.led.starts []).2.2) taskField_answers _ (by omega) h₂
  rcases bind_spent h₂ with h₃ | ⟨_, -, h₃⟩
  · exact expect_answers _ _ h₃
  · dsimp only at h₃
    split at h₃ <;> simp [Halt.error] at h₃

/-! ## Constraints -/

/-- A token on which the loop of `parseConstraint` goes on. -/
def ConstraintToken (t : DslToken) : Prop :=
  t.type = .rbrace ∨ t.IsKeyword "expr" ∨ t.IsKeyword "warn" ∨ t.IsKeyword "block"

theorem constraintField_sound :
    Sound (peekIs .rbrace) (fun ts => ¬ ConstraintToken (peek ts)) constraintField ConstraintField := by
  intro c c' ts rest hstop h
  unfold constraintField at h
  split at h
  · left
    obtain ⟨⟨t, ts₁⟩, e₁, h₁⟩ := bind_ok h
    obtain ⟨pre, rfl, hfield⟩ := field_ok (by decide) e₁
    cases h₁
    exact ⟨pre, rfl, .expr hfield⟩
  split at h
  · left
    obtain ⟨ts₁, e₁, h₁⟩ := bind_ok h
    obtain ⟨k, rfl, hk⟩ := expectKeyword_ok e₁
    cases h₁
    exact ⟨[k], rfl, .warn hk⟩
  split at h
  · left
    obtain ⟨ts₁, e₁, h₁⟩ := bind_ok h
    obtain ⟨k, rfl, hk⟩ := expectKeyword_ok e₁
    cases h₁
    exact ⟨[k], rfl, .block hk⟩
  · rename_i hexpr hwarn hblock
    cases h
    rw [peekKeyword_iff] at hexpr hwarn hblock
    refine .inr ⟨?_, rfl, rfl⟩
    rintro (hbrace | hk | hk | hk)
    · simp [peekIs, hbrace] at hstop
    · exact hexpr hk
    · exact hwarn hk
    · exact hblock hk

theorem ConstraintField.led {c c' : ConstraintFields} {pre : List DslToken} (h : ConstraintField c c' pre) :
    LedByKeyword pre := by
  cases h with
  | expr hfield => simpa using hfield.led []
  | warn hk | block hk => exact ⟨_, [], _, rfl, hk⟩

theorem constraintField_reads (fuel : Nat) :
    Reads .outOfFuel (peekIs .rbrace) (fun _ => true) fuel constraintField ConstraintField where
  starts ts h := h.led.starts ts
  reads h _ := by
    left
    cases h with
    | expr hfield => simp [constraintField, hfield.peekKeyword, field_reads hfield]
    | warn hk => simp [constraintField, peekKeyword_cons hk, expectKeyword_cons _ hk]
    | block hk => simp [constraintField, peekKeyword_cons hk, expectKeyword_cons _ hk]

/-- Any other token stays, and the loop with it. -/
theorem constraintField_idle {c : ConstraintFields} {ts : List DslToken} (h : ¬ ConstraintToken (peek ts)) :
    peekIs .rbrace ts = false ∧ constraintField c ts = .ok (c, ts) := by
  simp only [ConstraintToken, ← peekKeyword_iff, not_or, Bool.not_eq_true] at h
  obtain ⟨hbrace, hexpr, hwarn, hblock⟩ := h
  simp [peekIs, hbrace, constraintField, hexpr, hwarn, hblock]

theorem constraintField_answers (c : ConstraintFields) (ts : List DslToken) :
    constraintField c ts ≠ .error .outOfFuel := by
  intro h
  unfold constraintField at h
  split at h
  · rcases bind_spent h with h | ⟨_, -, h⟩
    · exact field_answers _ _ _ h
    · cases h
  split at h
  · rcases bind_spent h with h | ⟨_, -, h⟩
    · exact expectKeyword_answers _ _ h
    · cases h
  split at h
  · rcases bind_spent h with h | ⟨_, -, h⟩
    · exact expectKeyword_answers _ _ h
    · cases h
  · cases h

theorem parseConstraint_ok {fuel : Nat} {c : ConstraintDslNode} {ts rest : List DslToken}
    (h : parseConstraint fuel ts = .ok (c, rest)) : ∃ pre, ts = pre ++ rest ∧ ConstraintDecl c pre := by
  obtain ⟨⟨id, ts₁⟩, e₁, h₁⟩ := bind_ok h
  obtain ⟨⟨f, ts₂⟩, e₂, h₂⟩ := bind_ok h₁
  obtain ⟨⟨brace, ts₃⟩, e₃, h₃⟩ := bind_ok h₂
  cases h₃
  obtain ⟨pre, rfl, hopen⟩ := opening_ok e₁
  obtain ⟨-, fields, rfl, hfields⟩ := loopUntil_sound constraintField_sound e₂
  obtain ⟨rfl, hbrace⟩ := expect_ok (by decide) e₃
  exact ⟨pre ++ (fields ++ [brace]), by simp, .intro hopen hfields hbrace⟩

theorem parseConstraint_reads (fuel : Nat) {c : ConstraintDslNode} {pre : List DslToken} (h : ConstraintDecl c pre)
    (ts : List DslToken) :
    parseConstraint fuel (pre ++ ts) = .ok (c, ts) ∨
      parseConstraint fuel (pre ++ ts) = .error .outOfFuel ∧ fuel ≤ pre.length := by
  cases h with
  | @intro id f pre fields brace hopen hfields hbrace =>
    have hstop : peekIs .rbrace (brace :: ts) = true := by simp [peekIs, hbrace]
    rcases loopUntil_reads_stop (constraintField_reads fuel) hfields rfl hstop with hloop | ⟨hloop, hfuel⟩
    · left
      simp [parseConstraint, opening_reads hopen, hloop, expect_cons _ hbrace]
    · right
      simp only [parseConstraint, List.append_assoc, opening_reads hopen, List.length_append]
      refine ⟨?_, by omega⟩
      simp [hloop]

/-- A constraint declaration up to some point of its body. -/
inductive OpenConstraint : List DslToken → Prop where
  | intro {id : String} {c : ConstraintFields} {pre fields : List DslToken} : Opening "constraint" id pre →
      Seq ConstraintField {} c fields → OpenConstraint (pre ++ fields)

theorem parseConstraint_stuck (fuel : Nat) {pre ts : List DslToken} (h : OpenConstraint pre)
    (hts : ¬ ConstraintToken (peek ts)) : parseConstraint fuel (pre ++ ts) = .error .outOfFuel := by
  cases h with
  | @intro id c pre fields hopen hfields =>
    obtain ⟨hstop, hidle⟩ := constraintField_idle (c := c) hts
    have hloop : loopUntil .outOfFuel (peekIs .rbrace) constraintField fuel {} (fields ++ ts) = .error .outOfFuel := by
      rcases loopUntil_reads (constraintField_reads fuel) hfields ts rfl fuel with ⟨k, -, hloop⟩ | ⟨hloop, -⟩
      · rw [hloop]
        exact loopUntil_stuck hstop hidle k
      · exact hloop
    simp [parseConstraint, opening_reads hopen, hloop]

theorem parseConstraint_spent {fuel : Nat} {ts : List DslToken} (hfuel : ts.length < fuel)
    (h : parseConstraint fuel ts = .error .outOfFuel) :
    ∃ pre rest, ts = pre ++ rest ∧ OpenConstraint pre ∧ ¬ ConstraintToken (peek rest) := by
  rcases bind_spent h with h₁ | ⟨⟨id, ts₁⟩, e₁, h₁⟩
  · exact absurd h₁ (opening_answers _ _)
  obtain ⟨pre, rfl, hopen⟩ := opening_ok e₁
  rw [List.length_append] at hfuel
  rcases bind_spent h₁ with h₂ | ⟨_, -, h₂⟩
  · obtain ⟨c, fields, rest, rfl, hfields, -, hrest⟩ :=
      loopUntil_spent constraintField_sound (fun h => (h.led.starts []).2.2) (by omega) h₂
    refine ⟨pre ++ fields, rest, by simp, .intro hopen hfields, ?_⟩
    exact hrest.resolve_left (constraintField_answers _ _)
  rcases bind_spent h₂ with h₃ | ⟨_, -, h₃⟩
  · exact absurd h₃ (expect_answers _ _)
  · cases h₃

end Jobflow.Dsl
