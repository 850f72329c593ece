import Jobflow.Expressions.Leading
import Jobflow.Validators

/-!
# Constraints on required keys

The shipped constraints ask for a context key by the text `ctx.` followed by the key. When that text is an expression
that has a value, the evaluator reports the constraint violated if the value is truthy; when it is none, or throws, the
fallback reports it violated if the value is missing. A key that is a plain name always takes the first path, so the
verdict is the opposite of the intended one unless the value is neither truthy nor missing. Which path another key takes
is decided by what comes after its first name (`requiresKey_of_leading`, `requiresKey_operation_iff`).
-/

namespace Jobflow

open Js (Value Record Number)
open Expressions

/-- The expression that asks for a context key. -/
def requiredKey (key : String) : String := "ctx." ++ key

/-! ## The fallback -/

section
variable (key : String)

theorem requiredKey_toList : (requiredKey key).toList = 'c' :: 't' :: 'x' :: '.' :: key.toList := by
  simp [requiredKey, String.toList_append]

/-- Only texts that begin with `ctx.` ask for a key. -/
theorem requiredKey_ne {text : String} (h : ¬ "ctx.".toList <+: text.toList) : requiredKey key ≠ text := by
  rintro rfl
  exact h ⟨key.toList, by simp [requiredKey, String.toList_append]⟩

theorem fallback_requiredKey (ctx : ConstraintContext) :
    ConstraintValidator.fallback (requiredKey key) ctx = (ctx.lookup key).isMissing := by
  have hinit : "ctx.".toList.isPrefixOf (requiredKey key).toList = true := by
    rw [requiredKey_toList]
    rfl
  rw [ConstraintValidator.fallback, if_pos hinit, requiredKey_toList]
  simp

end

/-! ## Plain names -/

/-- The key is made of letters, digits and underscores only. -/
def PlainName (key : String) : Prop := ∀ c ∈ key.toList, isIdentChar c = true ∧ c ≠ '.'

instance (key : String) : Decidable (PlainName key) := List.decidableBAll _ _

section
variable {key : String}

/-- The text is not one of the three literals. -/
theorem keyword_requiredKey (key : String) : keyword (requiredKey key) = none := by
  have htrue : requiredKey key ≠ "true" := requiredKey_ne key (by decide)
  have hfalse : requiredKey key ≠ "false" := requiredKey_ne key (by decide)
  have hnull : requiredKey key ≠ "null" := requiredKey_ne key (by decide)
  simp [keyword, htrue, hfalse, hnull]

theorem parse_requiredKey (h : ∀ c ∈ key.toList, isIdentChar c = true) :
    parse (requiredKey key) = .ok (.ident (requiredKey key)) := by
  have hctx : ∀ c ∈ ['t', 'x', '.'], isIdentChar c = true := List.all_eq_true.1 (by decide)
  exact parse_name (requiredKey_toList key) (by decide) (List.forall_mem_append.2 ⟨hctx, h⟩)
    (keyword_requiredKey key)

/-- The path that `resolveIdent` follows. -/
theorem splitDots_requiredKey : splitDots (requiredKey key) = "ctx" :: splitDots key := by
  have hdot : requiredKey key = "ctx" ++ "." ++ key := by
    rw [← String.toList_inj]
    simp [requiredKey, String.toList_append]
  rw [hdot, splitDots_dot (by decide)]

theorem splitDots_plainName (h : PlainName key) : splitDots key = [key] :=
  splitDots_of_not_mem fun hmem => (h '.' hmem).2 rfl

/-- What the evaluator makes of a key of identifier characters: it follows the dots. -/
theorem evaluate_requiredKey (h : ∀ c ∈ key.toList, isIdentChar c = true) (ctx : ConstraintContext) :
    evaluate (requiredKey key) (ConstraintValidator.evalCtx ctx) =
      .ok (resolvePath (.object (some "ctx") ctx.context) (splitDots key)) := by
  rw [evaluate, parse_requiredKey h]
  simp [evalNode, resolveIdent, splitDots_requiredKey, resolvePath, ConstraintValidator.evalCtx,
    Value.isObjectType, bind, Except.bind]

theorem evaluate_plainName (h : PlainName key) (ctx : ConstraintContext) :
    evaluate (requiredKey key) (ConstraintValidator.evalCtx ctx) = .ok (ctx.lookup key) := by
  rw [evaluate_requiredKey (fun c hc => (h c hc).1), splitDots_plainName h]
  simp [resolvePath, Value.isObjectType, ConstraintContext.lookup]

end

/-! ## The verdict -/

/-- The constraint is reported violated exactly when the key is missing, and the evaluator, where it has a verdict,
agrees with the fallback. -/
def RequiresKey (key : String) (ctx : ConstraintContext) : Prop :=
  ConstraintValidator.evaluateExpression (requiredKey key) ctx = (ctx.lookup key).isMissing ∧
    ∀ b, evaluateBoolean (requiredKey key) (ConstraintValidator.evalCtx ctx) = .ok b →
      b = ConstraintValidator.fallback (requiredKey key) ctx

section
variable {key : String} {ctx : ConstraintContext}

/-- Where the evaluator throws, the fallback decides, and decides well. -/
theorem RequiresKey.of_error {e : Js.Exception}
    (h : evaluate (requiredKey key) (ConstraintValidator.evalCtx ctx) = .error e) : RequiresKey key ctx := by
  have hbool : evaluateBoolean (requiredKey key) (ConstraintValidator.evalCtx ctx) = .error e := by
    simp [evaluateBoolean, h, bind, Except.bind]
  constructor
  · rw [ConstraintValidator.evaluateExpression, if_neg (requiredKey_ne key (by decide)), hbool]
    exact fallback_requiredKey key ctx
  · intro b hb
    simp [hbool] at hb

/-- Where the evaluator gives a value, the value has to be truthy exactly when the key is missing. -/
theorem RequiresKey.iff_of_ok {v : Value}
    (h : evaluate (requiredKey key) (ConstraintValidator.evalCtx ctx) = .ok v) :
    RequiresKey key ctx ↔ v.truthy = (ctx.lookup key).isMissing := by
  have hbool : evaluateBoolean (requiredKey key) (ConstraintValidator.evalCtx ctx) = .ok v.truthy := by
    simp [evaluateBoolean, h, bind, Except.bind]
  have hverdict : ConstraintValidator.evaluateExpression (requiredKey key) ctx = v.truthy := by
    rw [ConstraintValidator.evaluateExpression, if_neg (requiredKey_ne key (by decide)), hbool]
  rw [RequiresKey, hverdict, hbool, fallback_requiredKey]
  constructor
  · exact fun h => h.1
  · rintro hv
    refine ⟨hv, ?_⟩
    rintro b ⟨⟩
    exact hv

/-- A value is truthy exactly when it is missing only if it is neither. -/
theorem truthy_eq_isMissing_iff {v : Value} :
    v.truthy = v.isMissing ↔ v = .bool false ∨ ∃ n, v = .number n ∧ (n.isNaN ∨ n.isZero) := by
  rw [← Value.not_truthy_not_missing]
  constructor
  · intro h
    by_cases hm : v.isMissing = true
    · simp [Value.missing_not_truthy hm, hm] at h
    · exact ⟨by simpa [hm] using h, by simpa using hm⟩
  · rintro ⟨ht, hm⟩
    rw [ht, hm]

/-- The verdict is right exactly where the text is no expression, or its expression throws, or holds if and only if the
key is missing. -/
theorem requiresKey_iff_meaning : RequiresKey key ctx ↔ ∀ e, Spells (requiredKey key) e →
    Throws (ConstraintValidator.evalCtx ctx) e ∨
      (Holds (ConstraintValidator.evalCtx ctx) e ↔ (ctx.lookup key).isMissing = true) := by
  cases hparse : parse (requiredKey key) with
  | error err =>
    refine iff_of_true (.of_error (by rw [evaluate, hparse]; rfl)) fun e he => ?_
    rw [parse_eq_ok_iff.2 he] at hparse
    cases hparse
  | ok e =>
    have heval : evaluate (requiredKey key) (ConstraintValidator.evalCtx ctx) =
        evalNode (ConstraintValidator.evalCtx ctx) e := by rw [evaluate, hparse]; rfl
    have hspells := parse_eq_ok_iff.1 hparse
    have honly : (∀ e', Spells (requiredKey key) e' → Throws (ConstraintValidator.evalCtx ctx) e' ∨
        (Holds (ConstraintValidator.evalCtx ctx) e' ↔ (ctx.lookup key).isMissing = true)) ↔
        Throws (ConstraintValidator.evalCtx ctx) e ∨
          (Holds (ConstraintValidator.evalCtx ctx) e ↔ (ctx.lookup key).isMissing = true) :=
      ⟨fun h => h e hspells, fun h e' he' => he'.unique hspells ▸ h⟩
    have hmeaning := evaluates (ConstraintValidator.evalCtx ctx) e
    rw [honly]
    by_cases hthrows : Throws (ConstraintValidator.evalCtx ctx) e
    · obtain ⟨err, herr⟩ := hmeaning.error hthrows
      exact iff_of_true (.of_error (heval.trans herr)) (.inl hthrows)
    · rw [RequiresKey.iff_of_ok (heval.trans (hmeaning.ok hthrows)), or_iff_right hthrows, ← truthy_value_iff,
        Bool.eq_iff_iff]

/-! ## Other spellings -/

variable {word spaces rest : List Char}

theorem identChar_ctx : ∀ c ∈ ['t', 'x', '.'], isIdentChar c = true := List.all_eq_true.1 (by decide)

theorem requiredKey_leading (hkey : key.toList = word ++ rest) :
    (requiredKey key).toList = 'c' :: ((['t', 'x', '.'] ++ word) ++ rest) := by
  rw [requiredKey_toList, hkey]
  rfl

/-- A key that is a path with white space behind it. -/
theorem requiresKey_spaced_iff (hkey : key.toList = word ++ spaces) (hword : ∀ c ∈ word, isIdentChar c = true)
    (hspaces : ∀ c ∈ spaces, Number.isSpace c = true) (hend : ∀ c ∈ spaces.head?, isIdentChar c = false) :
    RequiresKey key ctx ↔
      (resolvePath (.object (some "ctx") ctx.context) (splitDots (String.ofList word))).truthy =
        (ctx.lookup key).isMissing := by
  have hname : String.ofList ('c' :: (['t', 'x', '.'] ++ word)) = requiredKey (String.ofList word) := by
    rw [← String.toList_inj, String.toList_ofList, requiredKey_toList, String.toList_ofList]
    rfl
  have hchars : ∀ c ∈ (String.ofList word).toList, isIdentChar c = true := by rwa [String.toList_ofList]
  have hspells : Spells (requiredKey key) (.ident (requiredKey (String.ofList word))) := by
    have hleading := spells_name (requiredKey_leading hkey) (by decide)
      (List.forall_mem_append.2 ⟨identChar_ctx, hword⟩) hspaces hend
    rw [hname] at hleading
    exact hleading (keyword_requiredKey _)
  have heval : evaluate (requiredKey key) (ConstraintValidator.evalCtx ctx) =
      evaluate (requiredKey (String.ofList word)) (ConstraintValidator.evalCtx ctx) := by
    rw [evaluate, evaluate, parse_eq_ok_iff.2 hspells, parse_requiredKey hchars]
  exact RequiresKey.iff_of_ok (heval.trans (evaluate_requiredKey hchars ctx))

/-- A path does not name a function. -/
theorem leading_not_callable : String.ofList ('c' :: (['t', 'x', '.'] ++ word)) ∉ callableNames := by
  intro hmem
  have hdot : ∀ name ∈ callableNames, '.' ∉ name.toList := by decide
  exact hdot _ hmem (by simp)

/-- A key that goes on with anything but a binary operator: its text is no expression, or calls a function there is none
of. -/
theorem requiresKey_of_leading {c : Char} {cs : List Char} (hkey : key.toList = word ++ (spaces ++ c :: cs))
    (hword : ∀ c ∈ word, isIdentChar c = true) (hspaces : ∀ c ∈ spaces, Number.isSpace c = true)
    (hend : ∀ d ∈ (spaces ++ c :: cs).head?, isIdentChar d = false) (hspace : Number.isSpace c = false)
    (hop : String.ofList (readOp (c :: cs)) ∉ binaryOperators) : RequiresKey key ctx :=
  requiresKey_iff_meaning.2 fun _ he => .inl (he.throws_of_leading _ (requiredKey_leading hkey) (by decide)
    (List.forall_mem_append.2 ⟨identChar_ctx, hword⟩) hspaces hend hspace hop leading_not_callable)

/-- What is found without asking the context. -/
def rootNames : List String := "ctx" :: "output" :: inheritedCalls

/-- A name that is no literal and leads nowhere. -/
structure FreeName (name : String) : Prop where
  start : ∀ c ∈ name.toList.head?, isIdentStart c = true
  nonempty : name ≠ ""
  plain : PlainName name
  keyword : keyword name = none
  free : name ∉ rootNames

theorem FreeName.isName {name : String} (h : FreeName name) : IsName name := by
  refine ⟨?_, h.keyword⟩
  cases hchars : name.toList with
  | nil => exact absurd (String.toList_eq_nil_iff.1 hchars) h.nonempty
  | cons c word =>
    refine ⟨c, word, rfl, h.start c (by rw [hchars]; rfl), fun d hd => (h.plain d ?_).1⟩
    rw [hchars]
    exact List.mem_cons_of_mem _ hd

theorem FreeName.resolveIdent {name : String} (h : FreeName name) :
    resolveIdent name (ConstraintValidator.evalCtx ctx) = .undefined := by
  have hfree := h.free
  simp only [rootNames, inheritedCalls, List.mem_cons, not_or] at hfree
  obtain ⟨hctx, houtput, hproto, hinherited⟩ := hfree
  rw [Expressions.resolveIdent, splitDots_plainName h.plain]
  simp [resolvePath, Value.isObjectType, ConstraintValidator.evalCtx, Value.getFromObjectPrototype, Ne.symm hctx,
    Ne.symm houtput, hproto, hinherited, Value.own]

theorem requiredKey_append {name : String} {rest : List Char} (hkey : key.toList = name.toList ++ rest) :
    (requiredKey key).toList = (requiredKey name).toList ++ rest := by
  rw [requiredKey_toList, requiredKey_toList, hkey]
  rfl

theorem PlainName.isName {name : String} (h : PlainName name) : IsName (requiredKey name) :=
  ⟨⟨'c', _, requiredKey_toList name, by decide,
    List.forall_mem_append.2 ⟨identChar_ctx, fun c hc => (h c hc).1⟩⟩, keyword_requiredKey name⟩

theorem PlainName.value {name : String} (h : PlainName name) (ctx : ConstraintContext) :
    value (ConstraintValidator.evalCtx ctx) (.ident (requiredKey name)) = ctx.lookup name := by
  have heval := evaluate_plainName h ctx
  rw [evaluate, parse_requiredKey fun c hc => (h c hc).1] at heval
  exact ((evaluates (ConstraintValidator.evalCtx ctx) (.ident (requiredKey name))).ok_iff.1 heval).2

/-- The verdict on a text whose tree is known. -/
theorem requiresKey_iff_of_spells {e : ExprNode} {v : Value} (he : Spells (requiredKey key) e)
    (hvalue : value (ConstraintValidator.evalCtx ctx) e = v) :
    RequiresKey key ctx ↔ Throws (ConstraintValidator.evalCtx ctx) e ∨ v.truthy = (ctx.lookup key).isMissing := by
  have hverdict : (Holds (ConstraintValidator.evalCtx ctx) e ↔ (ctx.lookup key).isMissing = true) ↔
      v.truthy = (ctx.lookup key).isMissing := by
    rw [← truthy_value_iff, hvalue]
    exact Bool.eq_iff_iff.symm
  rw [requiresKey_iff_meaning, ← hverdict]
  exact ⟨fun h => h e he, fun h e' he' => he'.unique he ▸ h⟩

/-- A key that is a name, an operator and a name that leads nowhere: the operator is applied to the value of the first
name and to `undefined`. -/
theorem requiresKey_operation_iff {name op part : String}
    (hkey : key.toList = name.toList ++ (op.toList ++ part.toList)) (hname : PlainName name)
    (hop : op ∈ binaryOperators) (hpart : FreeName part) :
    RequiresKey key ctx ↔ Refuses op (ctx.lookup name) .undefined ∨
      (operate op (ctx.lookup name) .undefined).truthy = (ctx.lookup key).isMissing := by
  have hspells := spells_operation (requiredKey_append hkey) hname.isName hop hpart.isName
  have hvalue : value (ConstraintValidator.evalCtx ctx) (.binary op (.ident (requiredKey name)) (.ident part)) =
      operate op (ctx.lookup name) .undefined := by rw [value, hname.value, value, hpart.resolveIdent]
  rw [requiresKey_iff_of_spells hspells hvalue, Throws, Throws, Throws, hname.value, value, hpart.resolveIdent,
    false_or, false_or]

/-- A hyphenated key is read as a difference, which is NaN: the verdict is right if the key is there. -/
theorem requiresKey_hyphenated_iff {name : String} {parts : List String}
    (hkey : key.toList = name.toList ++ hyphenated parts) (hname : PlainName name)
    (hparts : ∀ part ∈ parts, FreeName part) (hne : parts ≠ []) :
    RequiresKey key ctx ↔ (ctx.lookup name).NoText ∨ (ctx.lookup key).isMissing = false := by
  have hspells := spells_hyphenated (requiredKey_append hkey) hname.isName fun part hpart => (hparts part hpart).isName
  have hnowhere : ∀ part ∈ parts, resolveIdent part (ConstraintValidator.evalCtx ctx) = .undefined :=
    fun part hpart => (hparts part hpart).resolveIdent
  obtain ⟨hthrows, hvalue⟩ := meaning_hyphenated hnowhere hne (.ident (requiredKey name))
  rw [hname.value, Throws, false_or] at hthrows
  rw [requiresKey_iff_of_spells hspells hvalue, hthrows]
  exact or_congr_right eq_comm

end

/-- **A required key is treated as such** exactly when `ctx.` and the key are no expression, or one that throws, or one
that holds if and only if the key is missing. Said of the key's characters: where the tokenizer rejects them, the
verdict is always right; and so it is, behind the name at the front of the key, whatever follows but a binary operator.
A key of letters, digits, underscores and dots, white space behind it or not, is looked up by following the dots; a
plain name is judged rightly only on `false`, zero and NaN. Of two names with an operator between them the second is
`undefined`, unless it leads somewhere by itself; a hyphenated key is judged rightly if it is there. -/
theorem required_key_iff (key : String) (ctx : ConstraintContext) :
    (RequiresKey key ctx ↔ ∀ e, Spells (requiredKey key) e → Throws (ConstraintValidator.evalCtx ctx) e ∨
        (Holds (ConstraintValidator.evalCtx ctx) e ↔ (ctx.lookup key).isMissing = true)) ∧
      (Mode.name.scan key.toList = .rejected → RequiresKey key ctx) ∧
      (∀ word spaces c cs, key.toList = word ++ (spaces ++ c :: cs) → (∀ c ∈ word, isIdentChar c = true) →
        (∀ c ∈ spaces, Number.isSpace c = true) → (∀ d ∈ (spaces ++ c :: cs).head?, isIdentChar d = false) →
        Number.isSpace c = false → String.ofList (readOp (c :: cs)) ∉ binaryOperators → RequiresKey key ctx) ∧
      (∀ word spaces, key.toList = word ++ spaces → (∀ c ∈ word, isIdentChar c = true) →
        (∀ c ∈ spaces, Number.isSpace c = true) → (∀ d ∈ spaces.head?, isIdentChar d = false) → (RequiresKey key ctx ↔
          (resolvePath (.object (some "ctx") ctx.context) (splitDots (String.ofList word))).truthy =
            (ctx.lookup key).isMissing)) ∧
      ((∀ c ∈ key.toList, isIdentChar c = true) → (RequiresKey key ctx ↔
        (resolvePath (.object (some "ctx") ctx.context) (splitDots key)).truthy = (ctx.lookup key).isMissing)) ∧
      (PlainName key → (RequiresKey key ctx ↔ ctx.lookup key = .bool false ∨
        ∃ n, ctx.lookup key = .number n ∧ (n.isNaN ∨ n.isZero))) ∧
      (∀ name op part, key.toList = name.toList ++ (op.toList ++ part.toList) → PlainName name → op ∈ binaryOperators →
        FreeName part → (RequiresKey key ctx ↔ Refuses op (ctx.lookup name) .undefined ∨
          (operate op (ctx.lookup name) .undefined).truthy = (ctx.lookup key).isMissing)) ∧
      (∀ name parts, key.toList = name.toList ++ hyphenated parts → PlainName name → (∀ part ∈ parts, FreeName part) →
        parts ≠ [] → (RequiresKey key ctx ↔ (ctx.lookup name).NoText ∨ (ctx.lookup key).isMissing = false)) := by
  refine ⟨requiresKey_iff_meaning, fun hscan => ?_, fun word spaces c cs => requiresKey_of_leading,
    fun word spaces => requiresKey_spaced_iff, fun hkey => RequiresKey.iff_of_ok (evaluate_requiredKey hkey ctx),
    fun hplain => ?_, fun name op part => requiresKey_operation_iff, fun name parts => requiresKey_hyphenated_iff⟩
  · -- the automaton is within the name when it comes to the key
    refine requiresKey_iff_meaning.2 fun e he => ?_
    obtain ⟨front, pos, hlexed, -⟩ := he
    have hscan' := Mode.scan_of_lexed hlexed (Mode.ready_between _)
    have hfront : Mode.between.scan (requiredKey key).toList = Mode.name.scan key.toList := by
      rw [requiredKey_toList]
      rfl
    exact absurd (hfront.trans hscan) hscan'
  · rw [RequiresKey.iff_of_ok (evaluate_plainName hplain ctx)]
    exact truthy_eq_isMissing_iff

/-- A run's context that has the tenant. -/
def sampleTenant : ConstraintContext := ⟨[("tenantId", .string "acme")], []⟩

/-- `ctx.tenantId` is reported violated although the context has the tenant, and the fallback disagrees. -/
theorem present_key_reported :
    ¬ RequiresKey "tenantId" sampleTenant ∧ (sampleTenant.lookup "tenantId").isMissing = false ∧
      ConstraintValidator.evaluateExpression "ctx.tenantId" sampleTenant = true ∧
      ConstraintValidator.fallback "ctx.tenantId" sampleTenant = false := by
  refine ⟨?_, by decide +kernel, by decide +kernel, by decide +kernel⟩
  rintro ⟨hverdict, -⟩
  revert hverdict
  decide +kernel

/-- The shipped constraint, asked of that context and of one whose tenant is the number zero; and a hyphenated key that
is not there. -/
theorem required_key_iff_sample :
    ¬ RequiresKey "tenantId" sampleTenant ∧ RequiresKey "tenantId" ⟨[("tenantId", .number (.finite 0))], []⟩ ∧
      ¬ RequiresKey "tenant-id" sampleTenant := by
  have hplain : PlainName "tenantId" := by decide
  have hstart : ∀ c ∈ "id".toList.head?, isIdentStart c = true := by
    rintro c ⟨⟩
    decide
  have hid : FreeName "id" := ⟨hstart, by decide, by decide, by decide, by decide⟩
  refine ⟨fun h => ?_, ?_, fun h => ?_⟩
  · simpa [ConstraintContext.lookup, sampleTenant] using ((required_key_iff "tenantId" _).2.2.2.2.2.1 hplain).1 h
  · refine ((required_key_iff "tenantId" _).2.2.2.2.2.1 hplain).2 (Or.inr ⟨.finite 0, ?_, Or.inr (by decide)⟩)
    simp [ConstraintContext.lookup]
  · have hmissing : sampleTenant.lookup "tenant" = .undefined ∧ sampleTenant.lookup "tenant-id" = .undefined := by
      simp [ConstraintContext.lookup, sampleTenant, Value.own, Value.getFromObjectPrototype,
        Value.objectPrototypeNames]
    have hverdict := ((required_key_iff "tenant-id" sampleTenant).2.2.2.2.2.2.2 "tenant" ["id"] (by decide) (by decide)
      (by simpa using hid) (by decide)).1 h
    rw [hmissing.1, hmissing.2] at hverdict
    simp [Value.isMissing] at hverdict

end Jobflow
