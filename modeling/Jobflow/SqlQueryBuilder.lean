import Mathlib.Data.List.Induction
import Jobflow.Js.Value

/-!
# Building SQL (src/storage/sql/query-builder.ts)

The builder numbers a placeholder by the length of the parameter list it has just pushed to. A statement is read here
as texts and values in order (`SqlPiece`); what is built are its texts with the values' numbers between them, and the
values (`build_eq`).
-/

namespace Jobflow

open Js (Value)

/-! ## The source -/

/-- Of an operator's texts `=`, `!=`, `>`, `<`, `>=`, `<=`, `in` and `like`. -/
inductive SqlOp where
  | equal | notEqual | greater | less | greaterOrEqual | lessOrEqual | inList | like
  deriving DecidableEq

def SqlOp.text : SqlOp → String
  | .equal => "="
  | .notEqual => "!="
  | .greater => ">"
  | .less => "<"
  | .greaterOrEqual => ">="
  | .lessOrEqual => "<="
  | .inList => "in"
  | .like => "like"

structure SqlCondition where
  column : String
  op : SqlOp
  value : Value

structure SqlQuery where
  table : String
  columns : List String
  conditions : List SqlCondition
  orderBy : Option (String × Bool)
  limit : Option Js.Number
  offset : Option Js.Number

/-- What `build` answers, and what it has while it builds. -/
structure BuiltSql where
  sql : String
  params : List Value

/-- A call on the builder. `desc` is given or `false`. -/
inductive SqlCall where
  | select (columns : List String)
  | where_ (column : String) (op : SqlOp) (value : Value)
  | orderBy (column : String) (desc : Bool)
  | limit (n : Js.Number)
  | offset (n : Js.Number)
  | build

/-- The constructor (query-builder.ts:22-24). -/
def SqlQuery.new (table : String) : SqlQuery := ⟨table, ["*"], [], none, none, none⟩

/-- query-builder.ts:26-49; `build` writes to nothing but its own variables. -/
def SqlQuery.call (q : SqlQuery) : SqlCall → SqlQuery
  | .select columns => { q with columns := if columns.length ≠ 0 then columns else ["*"] }
  | .where_ column op value => { q with conditions := q.conditions ++ [⟨column, op, value⟩] }
  | .orderBy column desc => { q with orderBy := some (column, desc) }
  | .limit n => { q with limit := some n }
  | .offset n => { q with offset := some n }
  | .build => q

def SqlQuery.after (table : String) (calls : List SqlCall) : SqlQuery := calls.foldl .call (.new table)

/-- What `arr.map` goes over. Only arrays have it; an object with a `map` of its own counts as having none. -/
def mappedOver : Value → Except Js.Exception (List Value)
  | .array _ items => .ok items
  | .native .arrayPrototype => .ok []
  | .undefined => .error (.typeError "Cannot read properties of undefined (reading 'map')")
  | .null => .error (.typeError "Cannot read properties of null (reading 'map')")
  | _ => .error (.typeError "arr.map is not a function")

/-- `params.push(v)`, then `$${params.length}`. -/
def pushParam (params : List Value) (v : Value) : List Value × String :=
  let params := params ++ [v]
  (params, "$" ++ toString params.length)

/-- `arr.map` (query-builder.ts:58-61). -/
def bindEach (params : List Value) : List Value → List Value × List String
  | [] => (params, [])
  | v :: arr =>
    let (params, placeholder) := pushParam params v
    let (params, placeholders) := bindEach params arr
    (params, placeholder :: placeholders)

/-- One condition (query-builder.ts:55-67). -/
def SqlCondition.part (c : SqlCondition) (params : List Value) : Except Js.Exception (List Value × String) :=
  if c.op = .inList then
    match mappedOver c.value with
    | .error e => .error e
    | .ok arr =>
      let (params, placeholders) := bindEach params arr
      .ok (params, c.column ++ " IN (" ++ ", ".intercalate placeholders ++ ")")
  else
    let (params, placeholder) := pushParam params c.value
    let op := if c.op = .like then "LIKE" else c.op.text
    .ok (params, c.column ++ " " ++ op ++ " " ++ placeholder)

/-- `this.query.conditions.map`. -/
def conditionParts (params : List Value) : List SqlCondition → Except Js.Exception (List Value × List String)
  | [] => .ok (params, [])
  | c :: conditions =>
    match c.part params with
    | .error e => .error e
    | .ok (params, part) =>
      match conditionParts params conditions with
      | .error e => .error e
      | .ok (params, parts) => .ok (params, part :: parts)

def BuiltSql.withConditions (b : BuiltSql) (conditions : List SqlCondition) : Except Js.Exception BuiltSql :=
  if conditions.length ≠ 0 then
    match conditionParts b.params conditions with
    | .error e => .error e
    | .ok (params, parts) => .ok ⟨b.sql ++ " WHERE " ++ " AND ".intercalate parts, params⟩
  else .ok b

def BuiltSql.withOrder (b : BuiltSql) : Option (String × Bool) → BuiltSql
  | none => b
  | some (column, desc) => { b with sql := b.sql ++ " ORDER BY " ++ column ++ " " ++ if desc then "DESC" else "ASC" }

/-- The clauses of a limit and of an offset (query-builder.ts:73-80). -/
def BuiltSql.withNumber (keyword : String) (b : BuiltSql) : Option Js.Number → BuiltSql
  | none => b
  | some n =>
    let (params, placeholder) := pushParam b.params (.number n)
    ⟨b.sql ++ " " ++ keyword ++ " " ++ placeholder, params⟩

/-- query-builder.ts:51-82. -/
def SqlQuery.build (q : SqlQuery) : Except Js.Exception BuiltSql :=
  let cols := ", ".intercalate q.columns
  match BuiltSql.withConditions ⟨"SELECT " ++ cols ++ " FROM " ++ q.table, []⟩ q.conditions with
  | .error e => .error e
  | .ok b => .ok (((b.withOrder q.orderBy).withNumber "LIMIT" q.limit).withNumber "OFFSET" q.offset)

/-! ## Statements with their values in place -/

inductive SqlPiece where
  | text (s : String)
  | bound (v : Value)

namespace SqlPiece

/-- The values of a statement, from left to right. -/
def values (pieces : List SqlPiece) : List Value :=
  pieces.filterMap fun
    | text _ => none
    | bound v => some v

/-- The statement with the numbers after `n` in its values' place. -/
def numbered (n : Nat) : List SqlPiece → String
  | [] => ""
  | text s :: rest => s ++ numbered n rest
  | bound _ :: rest => "$" ++ toString (n + 1) ++ numbered (n + 1) rest

@[simp] theorem values_nil : values [] = [] := rfl
@[simp] theorem values_text (s : String) (rest : List SqlPiece) : values (text s :: rest) = values rest := rfl
@[simp] theorem values_bound (v : Value) (rest : List SqlPiece) : values (bound v :: rest) = v :: values rest := rfl
@[simp] theorem values_append (a b : List SqlPiece) : values (a ++ b) = values a ++ values b := List.filterMap_append

theorem numbered_append (a b : List SqlPiece) :
    ∀ n, numbered n (a ++ b) = numbered n a ++ numbered (n + (values a).length) b := by
  induction a with
  | nil => simp [numbered]
  | cons piece a ih =>
    intro n
    cases piece with
    | text s => simp [numbered, ih, String.append_assoc]
    | bound v => simp [numbered, ih, String.append_assoc, Nat.add_assoc, Nat.add_comm 1]

end SqlPiece

open SqlPiece

/-- The list of an `in`; nothing for what is no list. -/
def elements (value : Value) : List Value := (mappedOver value).toOption.getD []

def SqlCondition.pieces (c : SqlCondition) : List SqlPiece :=
  if c.op = .inList then
    text (c.column ++ " IN (") :: ((elements c.value).map bound).intersperse (text ", ") ++ [text ")"]
  else [text (c.column ++ " " ++ (if c.op = .like then "LIKE" else c.op.text) ++ " "), bound c.value]

def andPieces (conditions : List SqlCondition) : List SqlPiece :=
  [text " AND "].intercalate (conditions.map SqlCondition.pieces)

def conditionPieces (conditions : List SqlCondition) : List SqlPiece :=
  if conditions.length ≠ 0 then text " WHERE " :: andPieces conditions else []

def orderPieces : Option (String × Bool) → List SqlPiece
  | none => []
  | some (column, desc) => [text (" ORDER BY " ++ column ++ " " ++ if desc then "DESC" else "ASC")]

def numberPieces (keyword : String) : Option Js.Number → List SqlPiece
  | none => []
  | some n => [text (" " ++ keyword ++ " "), bound (.number n)]

def SqlQuery.pieces (q : SqlQuery) : List SqlPiece :=
  text ("SELECT " ++ ", ".intercalate q.columns ++ " FROM " ++ q.table) :: conditionPieces q.conditions ++
    orderPieces q.orderBy ++ numberPieces "LIMIT" q.limit ++ numberPieces "OFFSET" q.offset

/-- The lists of all `in` conditions are lists. -/
def Mappable (c : SqlCondition) : Prop := c.op = .inList → ∃ items, mappedOver c.value = .ok items

/-! ## What is built -/

theorem bindEach_params (params arr : List Value) : (bindEach params arr).1 = params ++ arr := by
  induction arr generalizing params with
  | nil => exact (List.append_nil params).symm
  | cons v arr ih => rw [bindEach, pushParam, ih, List.append_assoc, List.singleton_append]

theorem bindEach_placeholders (params arr : List Value) :
    ", ".intercalate (bindEach params arr).2 = numbered params.length ((arr.map bound).intersperse (text ", ")) := by
  induction arr generalizing params with
  | nil => simp [bindEach, numbered]
  | cons v arr ih =>
    have ih := ih (params ++ [v])
    rw [List.length_append, List.length_singleton] at ih
    cases arr with
    | nil => simp [bindEach, pushParam, numbered]
    | cons w arr =>
      rw [List.map_cons, List.map_cons, List.intersperse_cons_cons, numbered, numbered, ← List.map_cons, ← ih]
      simp [bindEach, pushParam, String.intercalate_cons_cons, String.append_assoc]

theorem values_list (items : List Value) : values ((items.map bound).intersperse (text ", ")) = items := by
  induction items with
  | nil => rfl
  | cons v items ih =>
    cases items with
    | nil => rfl
    | cons w items =>
      rw [List.map_cons, List.map_cons, List.intersperse_cons_cons, values_bound, values_text, ← List.map_cons, ih]

theorem SqlCondition.part_eq {c : SqlCondition} (h : Mappable c) (params : List Value) :
    c.part params = .ok (params ++ values c.pieces, numbered params.length c.pieces) := by
  unfold SqlCondition.part SqlCondition.pieces
  by_cases hop : c.op = .inList
  · obtain ⟨items, hitems⟩ := h hop
    have helements : elements c.value = items := by rw [elements, hitems]; rfl
    simp only [hop, if_true, hitems, helements, bindEach_params, bindEach_placeholders, List.cons_append, numbered,
      values_text, values_append, values_nil, numbered_append, values_list, List.append_nil, String.append_assoc,
      String.append_empty]
  · simp only [hop, if_false, pushParam, numbered, values_text, values_bound, values_nil, List.length_append,
      List.length_singleton, String.append_empty]

theorem SqlCondition.part_error {c : SqlCondition} (h : ¬ Mappable c) (params : List Value) :
    ∃ e, c.part params = .error e := by
  unfold Mappable at h
  push Not at h
  obtain ⟨hop, hnone⟩ := h
  unfold SqlCondition.part
  rw [if_pos hop]
  cases hmapped : mappedOver c.value with
  | error e => exact ⟨e, rfl⟩
  | ok items => exact absurd hmapped (hnone items)

theorem andPieces_cons_cons (c d : SqlCondition) (conditions : List SqlCondition) :
    andPieces (c :: d :: conditions) = c.pieces ++ text " AND " :: andPieces (d :: conditions) := by
  unfold andPieces
  rw [List.map_cons, List.map_cons, List.intercalate_cons_cons, List.append_assoc, List.singleton_append]

theorem andPieces_singleton (c : SqlCondition) : andPieces [c] = c.pieces := by simp [andPieces]

theorem values_andPieces_cons (c : SqlCondition) (conditions : List SqlCondition) :
    values (andPieces (c :: conditions)) = values c.pieces ++ values (andPieces conditions) := by
  cases conditions with
  | nil => rw [andPieces_singleton]; exact (List.append_nil _).symm
  | cons d conditions => rw [andPieces_cons_cons, values_append, values_text]

theorem conditionParts_eq {conditions : List SqlCondition} (h : ∀ c ∈ conditions, Mappable c) (params : List Value) :
    ∃ parts, conditionParts params conditions = .ok (params ++ values (andPieces conditions), parts) ∧
      parts.length = conditions.length ∧
      " AND ".intercalate parts = numbered params.length (andPieces conditions) := by
  induction conditions generalizing params with
  | nil =>
    refine ⟨[], ?_, rfl, rfl⟩
    rw [conditionParts]
    exact congrArg (fun params => Except.ok (params, [])) (List.append_nil params).symm
  | cons c conditions ih =>
    obtain ⟨parts, hparts, hlength, htext⟩ :=
      ih (fun c hc => h c (List.mem_cons_of_mem _ hc)) (params ++ values c.pieces)
    have hpart := SqlCondition.part_eq (h c List.mem_cons_self) params
    refine ⟨numbered params.length c.pieces :: parts, ?_, congrArg Nat.succ hlength, ?_⟩
    · rw [values_andPieces_cons, ← List.append_assoc]
      simp only [conditionParts, hpart, hparts]
    · cases conditions with
      | nil =>
        rw [List.length_eq_zero_iff.1 hlength]
        rw [andPieces_singleton, String.intercalate_singleton]
      | cons d conditions =>
        have hne : parts ≠ [] := by
          rintro rfl
          cases hlength
        rw [andPieces_cons_cons, numbered_append, numbered, ← List.length_append, ← htext,
          String.intercalate_cons_of_ne_nil hne, String.append_assoc]

theorem conditionParts_error {conditions : List SqlCondition} (h : ¬ ∀ c ∈ conditions, Mappable c)
    (params : List Value) : ∃ e, conditionParts params conditions = .error e := by
  induction conditions generalizing params with
  | nil => exact absurd (fun _ hc => nomatch hc) h
  | cons c conditions ih =>
    by_cases hc : Mappable c
    · have hrest : ¬ ∀ c ∈ conditions, Mappable c := fun hall => h (List.forall_mem_cons.2 ⟨hc, hall⟩)
      obtain ⟨e, he⟩ := ih hrest (params ++ values c.pieces)
      refine ⟨e, ?_⟩
      simp only [conditionParts, SqlCondition.part_eq hc, he]
    · obtain ⟨e, he⟩ := SqlCondition.part_error hc params
      refine ⟨e, ?_⟩
      simp only [conditionParts, he]

/-- What is built so far is the statement so far. -/
def BuiltSql.Has (b : BuiltSql) (pieces : List SqlPiece) : Prop := b = ⟨numbered 0 pieces, values pieces⟩

section
variable {b : BuiltSql} {pieces : List SqlPiece}

theorem BuiltSql.Has.withOrder (h : b.Has pieces) (orderBy : Option (String × Bool)) :
    (b.withOrder orderBy).Has (pieces ++ orderPieces orderBy) := by
  subst h
  cases orderBy with
  | none => simp [BuiltSql.Has, BuiltSql.withOrder, orderPieces]
  | some o => simp [BuiltSql.Has, BuiltSql.withOrder, orderPieces, numbered, numbered_append, String.append_assoc]

theorem BuiltSql.Has.withNumber (h : b.Has pieces) (keyword : String) (n : Option Js.Number) :
    (b.withNumber keyword n).Has (pieces ++ numberPieces keyword n) := by
  subst h
  cases n with
  | none => simp [BuiltSql.Has, BuiltSql.withNumber, numberPieces]
  | some n =>
    simp [BuiltSql.Has, BuiltSql.withNumber, numberPieces, pushParam, numbered, numbered_append, String.append_assoc]

theorem BuiltSql.Has.withConditions (h : b.Has pieces) {conditions : List SqlCondition}
    (hmap : ∀ c ∈ conditions, Mappable c) :
    ∃ b', b.withConditions conditions = .ok b' ∧ b'.Has (pieces ++ conditionPieces conditions) := by
  subst h
  unfold BuiltSql.withConditions conditionPieces
  split_ifs with hne
  · obtain ⟨parts, hparts, _, htext⟩ := conditionParts_eq hmap (values pieces)
    refine ⟨⟨numbered 0 pieces ++ " WHERE " ++ " AND ".intercalate parts,
      values pieces ++ values (andPieces conditions)⟩, by simp only [hparts], ?_⟩
    simp [BuiltSql.Has, numbered, numbered_append, htext, String.append_assoc]
  · exact ⟨_, rfl, by simp [BuiltSql.Has]⟩

end

/-- **What is built is the statement with its values numbered**, and the values. -/
theorem SqlQuery.build_eq {q : SqlQuery} (h : ∀ c ∈ q.conditions, Mappable c) :
    q.build = .ok ⟨numbered 0 q.pieces, values q.pieces⟩ := by
  have hstart : BuiltSql.Has ⟨"SELECT " ++ ", ".intercalate q.columns ++ " FROM " ++ q.table, []⟩
      [text ("SELECT " ++ ", ".intercalate q.columns ++ " FROM " ++ q.table)] := by
    simp [BuiltSql.Has, numbered]
  obtain ⟨b, hb, hhas⟩ := hstart.withConditions h
  have hbuilt := ((hhas.withOrder q.orderBy).withNumber "LIMIT" q.limit).withNumber "OFFSET" q.offset
  simp only [SqlQuery.build, hb]
  exact congrArg Except.ok hbuilt

theorem SqlQuery.build_error {q : SqlQuery} (h : ¬ ∀ c ∈ q.conditions, Mappable c) : ∃ e, q.build = .error e := by
  have hne : q.conditions.length ≠ 0 := by
    intro hempty
    rw [List.length_eq_zero_iff.1 hempty] at h
    exact h fun _ hc => nomatch hc
  obtain ⟨e, he⟩ := conditionParts_error h []
  refine ⟨e, ?_⟩
  simp only [SqlQuery.build, BuiltSql.withConditions, if_pos hne, he]

/-! ## Placeholders -/

/-- The placeholders of a text from left to right: each `$` with the digits behind it. -/
def placeholders : List Char → List String
  | [] => []
  | c :: cs => if c = '$' then String.ofList ('$' :: cs.takeWhile Char.isDigit) :: placeholders cs else placeholders cs

/-- No digit comes first, which would count to a number before it. -/
def NoDigitAhead (cs : List Char) : Prop := ∀ c ∈ cs.head?, ¬ c.isDigit

theorem placeholders_free {cs : List Char} (h : '$' ∉ cs) (rest : List Char) :
    placeholders (cs ++ rest) = placeholders rest := by
  induction cs with
  | nil => rfl
  | cons c cs ih =>
    have hc : c ≠ '$' := (List.ne_of_not_mem_cons h).symm
    rw [List.cons_append, placeholders, if_neg hc, ih (List.not_mem_of_not_mem_cons h)]

theorem placeholders_number (n : Nat) {rest : List Char} (h : NoDigitAhead rest) :
    placeholders ('$' :: (toString n).toList ++ rest) = ("$" ++ toString n) :: placeholders rest := by
  have hdigits : ∀ c ∈ (toString n).toList, c.isDigit := by
    intro c hc
    rw [Nat.toString_eq_repr, Nat.toList_repr] at hc
    exact Nat.isDigit_of_mem_toDigits (by decide) (by decide) hc
  have hfree : '$' ∉ (toString n).toList := fun hmem => absurd (hdigits _ hmem) (by decide)
  have htake : ((toString n).toList ++ rest).takeWhile Char.isDigit = (toString n).toList := by
    rw [List.takeWhile_append_of_pos hdigits]
    cases rest with
    | nil => simp
    | cons c rest => rw [List.takeWhile_cons_of_neg (h c rfl), List.append_nil]
  rw [List.cons_append, placeholders, if_pos rfl, placeholders_free hfree, htake]
  refine congrArg (· :: placeholders rest) (String.toList_inj.1 ?_)
  simp [String.toList_append]

def DollarFree (s : String) : Prop := '$' ∉ s.toList

instance : DecidablePred DollarFree := fun s => inferInstanceAs (Decidable ('$' ∉ s.toList))

theorem dollarFree_append {s t : String} : DollarFree (s ++ t) ↔ DollarFree s ∧ DollarFree t := by
  simp [DollarFree, String.toList_append]

namespace SqlPiece

/-- After a value comes a text that does not begin with a digit, if anything comes. -/
def Parts (rest : List SqlPiece) : Prop :=
  ∀ piece ∈ rest.head?, ∃ s c cs, piece = text s ∧ s.toList = c :: cs ∧ ¬ c.isDigit

/-- No text has a `$`, and the values are kept apart. -/
def WellSpaced : List SqlPiece → Prop
  | [] => True
  | text s :: rest => DollarFree s ∧ WellSpaced rest
  | bound _ :: rest => Parts rest ∧ WellSpaced rest

theorem Parts.noDigitAhead {rest : List SqlPiece} (h : Parts rest) (n : Nat) :
    NoDigitAhead (numbered n rest).toList := by
  cases rest with
  | nil => simp [NoDigitAhead, numbered]
  | cons piece rest =>
    obtain ⟨s, c, cs, rfl, hs, hc⟩ := h piece rfl
    simp [NoDigitAhead, numbered, String.toList_append, hs, hc]

theorem placeholders_numbered {pieces : List SqlPiece} (h : WellSpaced pieces) (n : Nat) :
    placeholders (numbered n pieces).toList =
      (List.range' (n + 1) (values pieces).length).map fun i => "$" ++ toString i := by
  induction pieces generalizing n with
  | nil => rfl
  | cons piece rest ih =>
    cases piece with
    | text s => rw [numbered, String.toList_append, placeholders_free h.1, ih h.2, values_text]
    | bound v =>
      have hnumber := placeholders_number (n + 1) (h.1.noDigitAhead (n + 1))
      rw [values_bound, List.length_cons, List.range'_succ, List.map_cons, ← ih h.2, ← hnumber, numbered]
      simp [String.toList_append]

theorem WellSpaced.append {a b : List SqlPiece} (ha : WellSpaced a) (hb : WellSpaced b) (hparts : Parts b) :
    WellSpaced (a ++ b) := by
  induction a with
  | nil => exact hb
  | cons piece a ih =>
    cases piece with
    | text s => exact ⟨ha.1, ih ha.2⟩
    | bound v =>
      refine ⟨?_, ih ha.2⟩
      cases a with
      | nil => exact hparts
      | cons next a => exact ha.1

end SqlPiece

/-! ## The pieces are well spaced -/

theorem dollarFree_intercalate {names : List String} (h : ∀ name ∈ names, DollarFree name) :
    DollarFree (", ".intercalate names) := by
  induction names with
  | nil => decide
  | cons name names ih =>
    have hname := h name List.mem_cons_self
    have ih := ih fun name hname => h name (List.mem_cons_of_mem _ hname)
    cases names with
    | nil => rwa [String.intercalate_singleton]
    | cons next names =>
      rw [String.intercalate_cons_cons]
      exact dollarFree_append.2 ⟨dollarFree_append.2 ⟨hname, by decide⟩, ih⟩

theorem SqlOp.text_free (op : SqlOp) : DollarFree (if op = .like then "LIKE" else op.text) := by
  cases op <;> decide

theorem wellSpaced_list (items : List Value) :
    WellSpaced ((items.map bound).intersperse (text ", ") ++ [text ")"]) := by
  induction items with
  | nil => exact ⟨by decide, trivial⟩
  | cons v items ih =>
    cases items with
    | nil => exact ⟨by simp [Parts], by decide, trivial⟩
    | cons w items =>
      rw [List.map_cons, List.map_cons, List.intersperse_cons_cons, ← List.map_cons]
      exact ⟨by simp [Parts], by decide, ih⟩

theorem SqlCondition.wellSpaced_pieces {c : SqlCondition} (h : DollarFree c.column) : WellSpaced c.pieces := by
  unfold SqlCondition.pieces
  by_cases hop : c.op = .inList
  · rw [if_pos hop]
    exact ⟨dollarFree_append.2 ⟨h, by decide⟩, wellSpaced_list _⟩
  · rw [if_neg hop]
    refine ⟨?_, by simp [Parts], trivial⟩
    simp only [dollarFree_append]
    exact ⟨⟨⟨h, by decide⟩, c.op.text_free⟩, by decide⟩

theorem parts_and (rest : List SqlPiece) : Parts (text " AND " :: rest) := by simp [Parts]

theorem wellSpaced_andPieces {conditions : List SqlCondition} (h : ∀ c ∈ conditions, DollarFree c.column) :
    WellSpaced (andPieces conditions) := by
  induction conditions with
  | nil => trivial
  | cons c conditions ih =>
    have hc := SqlCondition.wellSpaced_pieces (h c List.mem_cons_self)
    have ih := ih fun c hc => h c (List.mem_cons_of_mem _ hc)
    cases conditions with
    | nil => rwa [andPieces_singleton]
    | cons d conditions =>
      rw [andPieces_cons_cons]
      exact hc.append ⟨by decide, ih⟩ (parts_and _)

structure SqlQuery.NamesFree (q : SqlQuery) : Prop where
  table : DollarFree q.table
  columns : ∀ name ∈ q.columns, DollarFree name
  conditions : ∀ c ∈ q.conditions, DollarFree c.column
  orderBy : ∀ o ∈ q.orderBy, DollarFree o.1

theorem SqlQuery.NamesFree.wellSpaced {q : SqlQuery} (h : q.NamesFree) : WellSpaced q.pieces := by
  have hselect : WellSpaced (text ("SELECT " ++ ", ".intercalate q.columns ++ " FROM " ++ q.table) ::
      conditionPieces q.conditions) := by
    refine ⟨?_, ?_⟩
    · simp only [dollarFree_append]
      exact ⟨⟨⟨by decide, dollarFree_intercalate h.columns⟩, by decide⟩, h.table⟩
    · unfold conditionPieces
      split_ifs
      · exact ⟨by decide, wellSpaced_andPieces h.conditions⟩
      · trivial
  have horder : WellSpaced (orderPieces q.orderBy) ∧ Parts (orderPieces q.orderBy) := by
    cases ho : q.orderBy with
    | none => exact ⟨trivial, by simp [Parts, orderPieces]⟩
    | some o =>
      refine ⟨⟨?_, trivial⟩, by simp [Parts, orderPieces]⟩
      simp only [dollarFree_append]
      exact ⟨⟨⟨by decide, h.orderBy o ho⟩, by decide⟩, by split_ifs <;> decide⟩
  have hnumber : ∀ keyword, DollarFree keyword → ∀ n,
      WellSpaced (numberPieces keyword n) ∧ Parts (numberPieces keyword n) := by
    intro keyword hkeyword n
    cases n with
    | none => exact ⟨trivial, by simp [Parts, numberPieces]⟩
    | some n =>
      refine ⟨⟨?_, by simp [Parts], trivial⟩, by simp [Parts, numberPieces]⟩
      simp only [dollarFree_append]
      exact ⟨⟨by decide, hkeyword⟩, by decide⟩
  have hlimit := hnumber "LIMIT" (by decide) q.limit
  have hoffset := hnumber "OFFSET" (by decide) q.offset
  exact ((hselect.append horder.1 horder.2).append hlimit.1 hlimit.2).append hoffset.1 hoffset.2

/-! ## The calls -/

/-- The columns a call names. -/
def SqlCall.names : SqlCall → List String
  | .select columns => columns
  | .where_ column _ _ => [column]
  | .orderBy column _ => [column]
  | .limit _ | .offset _ | .build => []

def conditionValues (op : SqlOp) (value : Value) : List Value := if op = .inList then elements value else [value]

def SqlCall.whereValues : SqlCall → List Value
  | .where_ _ op value => conditionValues op value
  | _ => []

def SqlCall.limitGiven : SqlCall → Option Js.Number
  | .limit n => some n
  | _ => none

def SqlCall.offsetGiven : SqlCall → Option Js.Number
  | .offset n => some n
  | _ => none

/-- An `in` is given a list. -/
def SqlCall.ListGiven : SqlCall → Prop
  | .where_ _ op value => op = .inList → ∃ ref items, value = .array ref items
  | _ => True

/-- The values of the calls: those of the conditions, the last limit, the last offset. -/
def boundValues (calls : List SqlCall) : List Value :=
  calls.flatMap SqlCall.whereValues ++ (calls.filterMap SqlCall.limitGiven).getLast?.toList.map .number ++
    (calls.filterMap SqlCall.offsetGiven).getLast?.toList.map .number

section
variable {table : String} {calls : List SqlCall}

theorem SqlQuery.after_append (table : String) (calls : List SqlCall) (call : SqlCall) :
    SqlQuery.after table (calls ++ [call]) = (SqlQuery.after table calls).call call := by
  simp [SqlQuery.after]

theorem SqlQuery.namesFree_after (htable : DollarFree table)
    (h : ∀ call ∈ calls, ∀ name ∈ call.names, DollarFree name) :
    (SqlQuery.after table calls).NamesFree := by
  induction calls using List.reverseRecOn with
  | nil =>
    have hstar : ∀ name ∈ ["*"], DollarFree name := by decide
    exact ⟨htable, hstar, nofun, nofun⟩
  | append_singleton calls call ih =>
    have ih := ih fun call hcall => h call (List.mem_append_left _ hcall)
    have hnames := h call (List.mem_append_right _ List.mem_cons_self)
    rw [SqlQuery.after_append]
    cases call with
    | select columns =>
      refine { ih with columns := ?_ }
      intro name hname
      simp only [SqlQuery.call] at hname
      split_ifs at hname
      · exact hnames name hname
      · rw [List.mem_singleton.1 hname]
        decide
    | where_ column op value =>
      refine { ih with conditions := List.forall_mem_append.2 ⟨ih.conditions, ?_⟩ }
      rintro c hc
      rw [List.mem_singleton.1 hc]
      exact hnames column List.mem_cons_self
    | orderBy column desc =>
      refine { ih with orderBy := ?_ }
      intro o ho
      rw [← Option.some.inj ho]
      exact hnames column List.mem_cons_self
    | limit n => exact { ih with }
    | offset n => exact { ih with }
    | build => exact ih

theorem SqlCondition.values_pieces (c : SqlCondition) : values c.pieces = conditionValues c.op c.value := by
  unfold SqlCondition.pieces conditionValues
  split_ifs
  · simp [values_list]
  all_goals rfl

theorem values_andPieces (conditions : List SqlCondition) :
    values (andPieces conditions) = conditions.flatMap fun c => conditionValues c.op c.value := by
  induction conditions with
  | nil => rfl
  | cons c conditions ih => rw [values_andPieces_cons, ih, SqlCondition.values_pieces, List.flatMap_cons]

theorem SqlQuery.values_pieces (q : SqlQuery) : values q.pieces =
    q.conditions.flatMap (fun c => conditionValues c.op c.value) ++ q.limit.toList.map .number ++
      q.offset.toList.map .number := by
  have hconditions : values (conditionPieces q.conditions) =
      q.conditions.flatMap fun c => conditionValues c.op c.value := by
    unfold conditionPieces
    split_ifs with hne
    · exact values_andPieces _
    · rw [List.length_eq_zero_iff.1 (not_not.1 hne)]
      rfl
  have horder : values (orderPieces q.orderBy) = [] := by cases q.orderBy <;> rfl
  have hnumber : ∀ keyword n, values (numberPieces keyword n) = n.toList.map .number := by
    intro keyword n
    cases n <;> rfl
  rw [SqlQuery.pieces, values_append, values_append, values_append, values_text, hconditions, horder, hnumber, hnumber,
    List.append_nil]

theorem SqlQuery.boundValues_after (table : String) (calls : List SqlCall) :
    values (SqlQuery.after table calls).pieces = boundValues calls := by
  have hfields : ((SqlQuery.after table calls).conditions.flatMap fun c => conditionValues c.op c.value) =
        calls.flatMap SqlCall.whereValues ∧
      (SqlQuery.after table calls).limit = (calls.filterMap SqlCall.limitGiven).getLast? ∧
      (SqlQuery.after table calls).offset = (calls.filterMap SqlCall.offsetGiven).getLast? := by
    induction calls using List.reverseRecOn with
    | nil => exact ⟨rfl, rfl, rfl⟩
    | append_singleton calls call ih =>
      obtain ⟨hconditions, hlimit, hoffset⟩ := ih
      rw [SqlQuery.after_append, List.flatMap_append, List.filterMap_append, List.filterMap_append]
      cases call <;> simp [SqlQuery.call, SqlCall.whereValues, SqlCall.limitGiven, SqlCall.offsetGiven, hconditions,
        hlimit, hoffset]
  rw [SqlQuery.values_pieces, hfields.1, hfields.2.1, hfields.2.2, boundValues]

theorem SqlQuery.mappable_after (h : ∀ call ∈ calls, call.ListGiven) :
    ∀ c ∈ (SqlQuery.after table calls).conditions, Mappable c := by
  induction calls using List.reverseRecOn with
  | nil => nofun
  | append_singleton calls call ih =>
    have ih := ih fun call hcall => h call (List.mem_append_left _ hcall)
    have hcall := h call (List.mem_append_right _ List.mem_cons_self)
    rw [SqlQuery.after_append]
    cases call with
    | where_ column op value =>
      refine List.forall_mem_append.2 ⟨ih, ?_⟩
      intro c hc hop
      rw [List.mem_singleton.1 hc] at hop ⊢
      obtain ⟨ref, items, rfl⟩ := hcall hop
      exact ⟨items, rfl⟩
    | select _ | orderBy _ _ | limit _ | offset _ | build => exact ih

/-- **Placeholders line up with parameters**: the statement that is built numbers them from 1 on, and the parameters are
the values of the calls in order. It is built whenever each `in` is given a list, and again the same. -/
theorem build_lines_up (htable : DollarFree table) (h : ∀ call ∈ calls, ∀ name ∈ call.names, DollarFree name) :
    (∀ built, (SqlQuery.after table calls).build = .ok built →
      placeholders built.sql.toList = (List.range' 1 built.params.length).map (fun i => "$" ++ toString i) ∧
      built.params = boundValues calls) ∧
    ((∀ call ∈ calls, call.ListGiven) → ∃ built, (SqlQuery.after table calls).build = .ok built) ∧
    (SqlQuery.after table (calls ++ [.build])).build = (SqlQuery.after table calls).build := by
  refine ⟨fun built hbuilt => ?_, fun hlists => ⟨_, SqlQuery.build_eq (SqlQuery.mappable_after hlists)⟩, ?_⟩
  · have hmappable : ∀ c ∈ (SqlQuery.after table calls).conditions, Mappable c := by
      by_contra hnot
      obtain ⟨e, he⟩ := SqlQuery.build_error hnot
      cases hbuilt.symm.trans he
    obtain rfl := Except.ok.inj (hbuilt.symm.trans (SqlQuery.build_eq hmappable))
    have hspaced := (SqlQuery.namesFree_after htable h).wellSpaced
    exact ⟨placeholders_numbered hspaced 0, SqlQuery.boundValues_after table calls⟩
  · rw [SqlQuery.after_append]
    rfl

end

/-- The second example of the tests with a limit and an offset behind it. -/
def sqlSample : List SqlCall :=
  [.limit (.ofInt 10), .where_ "status" .inList (.array none [.string "pending", .string "running"]),
    .offset (.ofInt 20)]

theorem build_lines_up_sample : ∃ built, (SqlQuery.after "runs" sqlSample).build = .ok built ∧
    built.sql = "SELECT * FROM runs WHERE status IN ($1, $2) LIMIT $3 OFFSET $4" ∧
    placeholders built.sql.toList = ["$1", "$2", "$3", "$4"] ∧
    built.params = [.string "pending", .string "running", .number (.ofInt 10), .number (.ofInt 20)] := by
  have hspec := @build_lines_up "runs" sqlSample (by decide) (by decide)
  obtain ⟨built, hbuilt⟩ := hspec.2.1 (by simp [sqlSample, SqlCall.ListGiven])
  obtain ⟨hnumbers, hparams⟩ := hspec.1 built hbuilt
  have hlength : built.params.length = 4 := by rw [hparams]; rfl
  rw [hlength] at hnumbers
  obtain rfl := Except.ok.inj hbuilt
  exact ⟨_, hbuilt, rfl, hnumbers, hparams⟩

end Jobflow
