import Jobflow.Dsl.FrontEnd
import Jobflow.Expressions.Evaluator
import Jobflow.Expressions.Grammar

/-!
# Task names in constraint expressions

An identifier of the workflow language may contain `-` and `.`. In an expression `-` is an operator, and `resolveIdent`
takes a name apart at its dots. `output_named_iff`: the expression `output.` and a task's id gives that task's output
whatever the outputs are if and only if the id contains neither.
-/

namespace Jobflow

open Js (Value Record Number Exception)
open TokenLoop (Seq)

/-! ## The ids of the workflow language -/

/-- A letter or underscore, then letters, digits, underscores, dots and dashes. -/
def IdentText (text : String) : Prop :=
  ∃ c cs, text.toList = c :: cs ∧ Expressions.isIdentStart c = true ∧ ∀ d ∈ cs, Dsl.isIdentChar d = true

namespace Dsl

theorem singleType_ne_ident (c : Char) : singleType c ≠ some .ident := by
  unfold singleType
  repeat' split
  all_goals simp

theorem nextToken_ident {c : Char} {cs : List Char} {p : Position} {t : DslToken} {next : Cursor}
    (h : nextToken c cs p = .ok (t, next)) (htype : t.type = .ident) : IdentText t.value := by
  unfold nextToken at h
  split at h
  · rename_i type hsingle
    cases h
    cases htype
    exact absurd hsingle (singleType_ne_ident c)
  split at h
  · cases h
    cases htype
  split at h
  · cases h
    cases htype
  split at h
  · cases h
    cases htype
  split at h
  · rename_i hstart
    cases h
    refine ⟨c, cs.takeWhile isIdentChar, ?_, hstart, fun d => List.mem_takeWhile_imp⟩
    have hc : isIdentChar c = true := by simp [isIdentChar, hstart]
    simp [hc]
  · cases h

theorem tokenizeFrom_ident : ∀ {fuel : Nat} {cs : List Char} {p : Position} {ts : List DslToken},
    tokenizeFrom fuel cs p = .ok ts → ∀ t ∈ ts, t.type = .ident → IdentText t.value
  | 0, _, _, _, h => by cases h
  | fuel + 1, cs, p, ts, h => by
    rcases tokenizeFrom_ok h with ⟨-, rfl⟩ | ⟨c, rest, t, next, tail, -, hnext, htail, rfl⟩
    · intro t ht htype
      rw [List.mem_singleton] at ht
      rw [ht] at htype
      cases htype
    · exact List.forall_mem_cons.2 ⟨nextToken_ident hnext, tokenizeFrom_ident htail⟩

/-- Some token of a declaration is the identifier that names the task. -/
def NamedBy (ts : List DslToken) (id : String) : Prop := ∃ t ∈ ts, t.type = .ident ∧ t.value = id

theorem TaskDecl.named {task : TaskDslNode} {pre : List DslToken} (h : TaskDecl task pre) : NamedBy pre task.id := by
  cases h with
  | intro hopen _ _ _ =>
    cases hopen with
    | @intro k name colon brace _ htype hvalue _ _ => exact ⟨name, by simp, htype, hvalue⟩

theorem declarations_named {b b' : WorkflowBody} {pre : List DslToken} (h : Seq Declaration b b' pre) :
    ∀ task ∈ b'.tasks, task ∈ b.tasks ∨ NamedBy pre task.id := by
  induction h with
  | nil b => exact fun task htask => .inl htask
  | @cons b b₁ b₂ pre post hdecl _ ih =>
    have here : ∀ task ∈ b₁.tasks, task ∈ b.tasks ∨ NamedBy pre task.id := by
      cases hdecl with
      | task htask =>
        intro task hmem
        rcases List.mem_append.1 hmem with hmem | hmem
        · exact .inl hmem
        · rw [List.mem_singleton.1 hmem]
          exact .inr htask.named
      | constraint hc => exact fun task hmem => .inl hmem
    intro task hmem
    rcases ih task hmem with hmem | ⟨t, ht, hname⟩
    · rcases here task hmem with hmem | ⟨t, ht, hname⟩
      · exact .inl hmem
      · exact .inr ⟨t, List.mem_append_left _ ht, hname⟩
    · exact .inr ⟨t, List.mem_append_right _ ht, hname⟩

theorem WorkflowDecl.tasks_named {w : WorkflowDslNode} {pre : List DslToken} (h : WorkflowDecl w pre) :
    ∀ task ∈ w.tasks, NamedBy pre task.id := by
  cases h with
  | @intro _ _ brace b _ hopen _ =>
    cases hopen with
    | @intro pre field decls hpre hfield hdecls =>
      intro task htask
      rcases declarations_named hdecls task htask with hmem | ⟨t, ht, hname⟩
      · cases hmem
      · exact ⟨t, by simp [ht], hname⟩

end Dsl

/-- An id of a task of some workflow that the parser accepts. -/
def DslTaskId (id : String) : Prop :=
  ∃ fuel source w, Dsl.parse fuel source = .ok w ∧ ∃ task ∈ w.tasks, task.id = id

theorem DslTaskId.identText {id : String} (h : DslTaskId id) : IdentText id := by
  obtain ⟨fuel, source, w, hparse, task, htask, rfl⟩ := h
  obtain ⟨ts, htokens, hparse⟩ := Dsl.bind_ok hparse
  obtain ⟨⟨w', rest⟩, hread, hend⟩ := Dsl.bind_ok hparse
  cases hend
  obtain ⟨pre, rfl, hdecl⟩ := Dsl.parseTokens_sound hread
  obtain ⟨t, ht, htype, hvalue⟩ := hdecl.tasks_named task htask
  rw [← hvalue]
  exact Dsl.tokenizeFrom_ident htokens t (List.mem_append_left _ ht) htype

/-! ## What the expression gives -/

/-- Every task's output is an object. -/
def TaskOutputs (outputs : Record) : Prop := ∀ p ∈ outputs, ∃ ref props, p.2 = Value.object ref props

/-- `output.` and an id, the way a constraint asks for a task's output. -/
def outputExpression (id : String) : String := "output" ++ "." ++ id

/-- `{ output: taskOutputs }`. -/
def outputContext (outputs : Record) : Record := [("output", .object (some "output") outputs)]

section
open Expressions
variable {id : String}

theorem outputExpression_toList (id : String) :
    (outputExpression id).toList = 'o' :: ("utput.".toList ++ id.toList) := by
  simp [outputExpression, String.toList_append]

theorem keyword_outputExpression (id : String) : keyword (outputExpression id) = none := by
  have hne : ∀ text : String, text.toList.head? ≠ some 'o' → outputExpression id ≠ text := by
    rintro text hhead rfl
    exact hhead (by rw [outputExpression_toList]; rfl)
  simp [keyword, hne "true" (by decide), hne "false" (by decide), hne "null" (by decide)]

/-- Without a dash the whole text is one name. -/
theorem parse_outputExpression (h : IdentText id) (hdash : '-' ∉ id.toList) :
    parse (outputExpression id) = .ok (.ident (outputExpression id)) := by
  refine parse_name (outputExpression_toList id) (by decide) ?_ (keyword_outputExpression id)
  have hroot : ∀ d ∈ "utput.".toList, isIdentChar d = true := List.all_eq_true.1 (by decide)
  refine List.forall_mem_append.2 ⟨hroot, ?_⟩
  obtain ⟨c, cs, hid, hc, hcs⟩ := h
  rw [hid] at hdash ⊢
  simp only [List.mem_cons, not_or] at hdash
  refine List.forall_mem_cons.2 ⟨by simp [isIdentChar, hc], fun d hd => ?_⟩
  have hne : d ≠ '-' := fun heq => hdash.2 (heq ▸ hd)
  have := hcs d hd
  simpa [Dsl.isIdentChar, isIdentChar, hne] using this

theorem evaluate_outputExpression (h : IdentText id) (hdash : '-' ∉ id.toList) (outputs : Record) :
    evaluate (outputExpression id) (outputContext outputs) =
      .ok (resolvePath (.object (some "output") outputs) (splitDots id)) := by
  have hsplit : splitDots (outputExpression id) = "output" :: splitDots id := splitDots_dot (by decide) id
  rw [evaluate, parse_outputExpression h hdash]
  simp [evalNode, resolveIdent, hsplit, resolvePath, outputContext, Value.isObjectType, bind, Except.bind, Value.get,
    Value.own]

/-! ### A dash -/

/-- A name in front of an operator is an operand of it. -/
theorem binary_of_op {l : Level} {e : ExprNode} {tokens : List Token} : Derives l e tokens →
    ∀ {t u : Token} {ts : List Token}, tokens = t :: u :: ts → t.type = .ident → u.type = .op →
      ∃ op left right, e = .binary op left right
  | .tighter _ h, _, _, _, htokens, ht, hu => binary_of_op h htokens ht hu
  | .left _ _ _ _, _, _, _, _, _, _ => ⟨_, _, _, rfl⟩
  | .comparison _ _ _, _, _, _, _, _, _ => ⟨_, _, _, rfl⟩
  | .not hop _, _, _, _, htokens, ht, _ | .neg hop _, _, _, _, htokens, ht, _ => by
    cases htokens
    rw [hop.1] at ht
    cases ht
  | .number _, _, _, _, htokens, _, _ | .string _, _, _, _, htokens, _, _ | .keyword _ _, _, _, _, htokens, _, _
  | .ident _ _, _, _, _, htokens, _, _ => by cases htokens
  | .call _ _ hopening _ _, _, _, _, htokens, _, hu => by
    obtain ⟨-, htail⟩ := List.cons.inj htokens
    obtain ⟨rfl, -⟩ := List.cons.inj htail
    rw [hopening] at hu
    cases hu
  | .paren hopening _ _, _, _, _, htokens, ht, _ => by
    obtain ⟨rfl, -⟩ := List.cons.inj htokens
    rw [hopening] at ht
    cases ht

/-- An operator gives a boolean or a number. -/
theorem applyBinary_ne_object {op : String} {l r v : Value} (h : applyBinary op l r = .ok v) (ref : Option String)
    (props : Record) : v ≠ .object ref props := by
  have hnumeric : ∀ {f : Number → Number → Value}, (∀ x y, f x y ≠ .object ref props) →
      (do .ok (f (← l.toNumber) (← r.toNumber)) : Except Exception Value) = .ok v → v ≠ .object ref props := by
    intro f hf hv
    obtain ⟨x, -, hv⟩ := bind_ok hv
    obtain ⟨y, -, hv⟩ := bind_ok hv
    cases hv
    exact hf x y
  have hbool : ∀ {x : Except Exception Bool} {f : Bool → Bool},
      (do .ok (.bool (f (← x))) : Except Exception Value) = .ok v → v ≠ .object ref props := by
    intro x f hv
    obtain ⟨b, -, hv⟩ := bind_ok hv
    cases hv
    simp
  unfold applyBinary at h
  dsimp only at h
  split at h
  · exact hbool (f := id) h
  · exact hbool (f := not) h
  · exact hnumeric (fun _ _ => by simp) h
  · exact hnumeric (fun _ _ => by simp) h
  · exact hnumeric (fun _ _ => by simp) h
  · exact hnumeric (fun _ _ => by simp) h
  · cases h
    simp
  · cases h
    simp
  · exact hnumeric (fun _ _ => by simp) h
  · exact hnumeric (fun _ _ => by simp) h
  · exact hnumeric (fun _ _ => by simp) h
  · exact hnumeric (fun _ _ => by simp) h
  · cases h

/-- The tokens up to the first dash. -/
theorem tokenize_dash {ts : List Token} (hid : IdentText id) (hdash : '-' ∈ id.toList)
    (h : tokenize (outputExpression id) = .ok ts) : ∃ t u us, ts = t :: u :: us ∧ t.type = .ident ∧ u.type = .op := by
  obtain ⟨c, cs, hchars, hc, hcs⟩ := hid
  have hall : ∀ d ∈ id.toList, d ≠ '-' → isIdentChar d = true := by
    intro d hd hne
    rw [hchars] at hd
    rcases List.mem_cons.1 hd with rfl | hd
    · simp [isIdentChar, hc]
    · simpa [Dsl.isIdentChar, isIdentChar, hne] using hcs d hd
  obtain ⟨text, rest, hsplit, htext⟩ := split_quote hdash
  have hname : ∀ d ∈ "utput.".toList ++ text, isIdentChar d = true := by
    refine List.forall_mem_append.2 ⟨List.all_eq_true.1 (by decide), fun d hd => hall d ?_ fun heq => htext (heq ▸ hd)⟩
    rw [hsplit]
    exact List.mem_append_left _ hd
  have hop : readOp ('-' :: ([] ++ rest)) = ['-'] := by
    cases rest <;> simp [readOp]
  rw [tokenize, outputExpression_toList, hsplit, ← List.append_assoc,
    tokenizeFrom_ident 0 (charKind_of_isIdentStart (by decide)) hname (by simp; decide)] at h
  obtain ⟨us, hus, rfl⟩ := bind_cons_ok h
  rw [← List.nil_append rest, tokenizeFrom_op _ (by decide) hop] at hus
  obtain ⟨vs, -, rfl⟩ := bind_cons_ok hus
  exact ⟨_, _, vs, rfl, rfl, rfl⟩

/-- With a dash the text is an operation, which gives no object. -/
theorem evaluate_dash (hid : IdentText id) (hdash : '-' ∈ id.toList) (ctx : Record) (ref : Option String)
    (props : Record) : evaluate (outputExpression id) ctx ≠ .ok (.object ref props) := by
  intro h
  obtain ⟨e, hparse, heval⟩ := bind_ok h
  obtain ⟨front, pos, htokens, hreads⟩ := parse_ok hparse
  obtain ⟨t, u, us, hts, ht, hu⟩ := tokenize_dash hid hdash htokens
  have hfront : ∃ rest, front = t :: u :: rest := by
    match front, hts with
    | [], hts => cases hts
    | [_], hts =>
      cases hts
      cases hu
    | _ :: _ :: rest, hts =>
      cases hts
      exact ⟨rest, rfl⟩
  obtain ⟨rest, rfl⟩ := hfront
  obtain ⟨op, left, right, rfl⟩ := binary_of_op hreads.derives rfl ht hu
  obtain ⟨l, -, heval⟩ := bind_ok heval
  obtain ⟨r, -, heval⟩ := bind_ok heval
  exact applyBinary_ne_object heval ref props rfl

/-! ### A dot -/

/-- Neither an object nor an array of the context. -/
def Builtin (v : Value) : Prop := (∀ ref items, v ≠ .array ref items) ∧ ∀ ref props, v ≠ .object ref props

theorem builtin_fromObjectPrototype {proto : Value} (h : Builtin proto) (key : String) :
    Builtin (Value.getFromObjectPrototype proto key) := by
  unfold Value.getFromObjectPrototype
  split_ifs
  · exact h
  · simp [Builtin]
  · simp [Builtin]

theorem Builtin.get {v : Value} (h : Builtin v) (key : String) : Builtin (v.get key) := by
  cases v with
  | object ref props => exact absurd rfl (h.2 ref props)
  | array ref items => exact absurd rfl (h.1 ref items)
  | native n =>
    cases n with
    | function name => simp [Value.get, Builtin]
    | objectPrototype => exact builtin_fromObjectPrototype (by simp [Builtin]) key
    | arrayPrototype =>
      simp only [Value.get, Value.getFromArrayPrototype]
      split_ifs
      · simp [Builtin]
      · simp [Builtin]
      · exact builtin_fromObjectPrototype (by simp [Builtin]) key
  | _ => simp [Value.get, Builtin]

theorem Builtin.resolvePath {v : Value} (h : Builtin v) (ps : List String) : Builtin (resolvePath v ps) := by
  induction ps generalizing v with
  | nil => exact h
  | cons p ps ih =>
    unfold Expressions.resolvePath
    split_ifs
    · simp [Builtin]
    · exact ih (h.get p)

/-- With a dot the name is a path into the outputs, which the id as a key is not on. -/
theorem evaluate_dot (hid : IdentText id) (hdash : '-' ∉ id.toList) (hdot : '.' ∈ id.toList) :
    evaluate (outputExpression id) (outputContext [(id, .object none [])]) ≠ .ok (.object none []) := by
  rw [evaluate_outputExpression hid hdash]
  obtain ⟨text, rest, hsplit, htext⟩ := split_quote hdot
  have hpath : id = String.ofList text ++ "." ++ String.ofList rest := by
    rw [← String.toList_inj]
    simp [String.toList_append, hsplit]
  have hne : id ≠ String.ofList text := by
    intro heq
    rw [heq, String.toList_ofList] at hdot
    exact htext hdot
  have hget : Builtin ((Value.object (some "output") [(id, .object none [])]).get (String.ofList text)) := by
    have hown : Value.own [(id, Value.object none [])] (String.ofList text) = none := by simp [Value.own, hne]
    rw [Value.get, hown]
    exact builtin_fromObjectPrototype (by simp [Builtin]) _
  intro h
  rw [hpath, splitDots_dot (by rwa [String.toList_ofList]), ← hpath] at h
  exact (hget.resolvePath _).2 none [] (Except.ok.inj h)

end

/-- A task of the workflow language can be named in an expression if and only if its id has no dash and no dot. -/
theorem output_named_iff {id : String} (h : DslTaskId id) :
    (∀ outputs output, TaskOutputs outputs → Value.own outputs id = some output →
      Expressions.evaluate (outputExpression id) (outputContext outputs) = .ok output) ↔
    '-' ∉ id.toList ∧ '.' ∉ id.toList := by
  have hid := h.identText
  constructor
  · intro hnamed
    have hsingle := hnamed [(id, .object none [])] (.object none []) (by simp [TaskOutputs]) (by simp [Value.own])
    have hdash : '-' ∉ id.toList := fun hdash => evaluate_dash hid hdash _ _ _ hsingle
    exact ⟨hdash, fun hdot => evaluate_dot hid hdash hdot hsingle⟩
  · rintro ⟨hdash, hdot⟩ outputs output - hown
    rw [evaluate_outputExpression hid hdash, Expressions.splitDots_of_not_mem hdot]
    simp [Expressions.resolvePath, Value.isObjectType, Value.get, hown]

/-- A workflow with one task. -/
def oneTask (id : String) : String :=
  "workflow w: \x7b version: 1 task " ++ id ++ ": \x7b handler: 'h' \x7d \x7d"

theorem dslTaskId_plain : DslTaskId "charge" :=
  ⟨60, oneTask "charge", ⟨"w", .finite 1, [⟨"charge", "h", .finite 30000, [], false⟩], []⟩, by decide +kernel,
    _, List.mem_cons_self, rfl⟩

theorem output_named_iff_sample :
    (∀ outputs output, TaskOutputs outputs → Value.own outputs "charge" = some output →
      Expressions.evaluate (outputExpression "charge") (outputContext outputs) = .ok output) ↔
    '-' ∉ "charge".toList ∧ '.' ∉ "charge".toList :=
  output_named_iff dslTaskId_plain

/-- `output.charge-card` is the difference of two names, and no output. -/
theorem dashed_task_unnamed : ¬ ∀ id, DslTaskId id → ∀ outputs output, TaskOutputs outputs →
    Value.own outputs id = some output →
    Expressions.evaluate (outputExpression id) (outputContext outputs) = .ok output := by
  intro h
  have hid : DslTaskId "charge-card" :=
    ⟨60, oneTask "charge-card", ⟨"w", .finite 1, [⟨"charge-card", "h", .finite 30000, [], false⟩], []⟩,
      by decide +kernel, _, List.mem_cons_self, rfl⟩
  have hevaluate := h _ hid [("charge-card", .object none [])] (.object none []) (by simp [TaskOutputs]) rfl
  exact evaluate_dash hid.identText (by decide) _ _ _ hevaluate

end Jobflow
