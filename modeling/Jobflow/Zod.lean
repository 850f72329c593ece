import Jobflow.Js.KeptFields
import Jobflow.Js.Order

/-!
# The schema library

zod is a package that the repository depends on. `Zod` names the combinators its schemas are made of, and `Zod.Laws` is
what they rely on: the documented behaviour of each on plain data. It does not say whether `z.number()` takes an
infinity, nor what `z.record` makes of a member named `__proto__`.

`z.ReadsBack s v a`: what JSON keeps of the value `v` the schema `s` reads as `a`. There is one lemma for each
combinator, so a record comes back if its fields do.
-/

namespace Jobflow

open Js (Value Record Number IsData IsFieldName)

/-! ## The parameter -/

/-- A check of `z.number()`. -/
inductive NumberCheck where
  | int
  | min (bound : Rat)
  | max (bound : Rat)
  | positive

def NumberCheck.passes (n : Number) : NumberCheck → Bool
  | .int => n.isInteger
  | .min bound => (Number.finite bound).le n
  | .max bound => n.le (.finite bound)
  | .positive => (Number.finite 0).lt n

theorem NumberCheck.passes_unsigned (n : Number) (c : NumberCheck) : c.passes n.unsigned = c.passes n := by
  cases n <;> cases c <;> rfl

/-- The integer that a whole number is. -/
def wholeOf (n : Number) : Int := (n.toRat?.getD 0).floor

/-- A whole number is an integer. -/
theorem isInteger_eq {n : Number} (h : n.isInteger = true) : n.toRat? = some (wholeOf n : Rat) := by
  cases n with
  | finite q =>
    have hq : ((q.num : Int) : Rat) = q := Rat.coe_int_num_of_den_eq_one (of_decide_eq_true h)
    rw [wholeOf, Number.toRat?, Option.getD_some, ← hq, Rat.floor_intCast]
  | negZero => rfl
  | _ => cases h

/-- A number of the language that has passed these checks. -/
structure Checked (checks : List NumberCheck) (n : Number) : Prop where
  passes : checks.all (·.passes n) = true
  isBinary64 : n.IsBinary64
  ne_nan : n ≠ .nan

section
variable {checks : List NumberCheck} {n : Number}

theorem Checked.isData (h : Checked checks n) : IsData (.number n) := .number h.isBinary64

theorem Checked.pass (h : Checked checks n) {c : NumberCheck} (hc : c ∈ checks) : c.passes n = true :=
  List.all_eq_true.1 h.passes c hc

/-- A checked integer, and its bounds. -/
theorem Checked.whole (h : Checked checks n) (hint : .int ∈ checks) : n.toRat? = some (wholeOf n : Rat) :=
  isInteger_eq (h.pass hint)

theorem Checked.le_whole (h : Checked checks n) (hint : .int ∈ checks) {b : Int} (hb : .min b ∈ checks) :
    b ≤ wholeOf n := by
  have hle := (Number.le_iff rfl (h.whole hint)).1 (h.pass hb)
  exact_mod_cast hle

theorem Checked.whole_le (h : Checked checks n) (hint : .int ∈ checks) {b : Int} (hb : .max b ∈ checks) :
    wholeOf n ≤ b := by
  have hle := (Number.le_iff (h.whole hint) rfl).1 (h.pass hb)
  exact_mod_cast hle

theorem Checked.whole_pos (h : Checked checks n) (hint : .int ∈ checks) (hpos : .positive ∈ checks) :
    0 < wholeOf n := by
  have hlt := (Number.lt_iff rfl (h.whole hint)).1 (h.pass hpos)
  exact_mod_cast hlt

theorem Checked.unsigned_eq (h : Checked checks n) (hpos : .positive ∈ checks) : n.unsigned = n := by
  cases n with
  | negZero => cases h.pass hpos
  | _ => rfl

end

theorem utf16Length_pos {s : String} (h : s ≠ "") : 1 ≤ Value.utf16Length s := by
  have hgrows (cs : List Char) (n : Nat) : n ≤ cs.foldl (fun n c => n + if c.toNat ≤ 0xFFFF then 1 else 2) n := by
    induction cs generalizing n with
    | nil => exact le_rfl
    | cons c cs ih => exact (Nat.le_add_right _ _).trans (ih _)
  unfold Value.utf16Length
  cases hs : s.toList with
  | nil => exact absurd (String.toList_eq_nil_iff.1 hs) h
  | cons c cs =>
    refine le_trans ?_ (hgrows cs _)
    dsimp only
    split <;> omega

/-- A `Record<string, α>` lists its keys as `Object.keys` does. -/
structure Dictionary (α : Type) where
  entries : List (String × α)
  nodup : (entries.map Prod.fst).Nodup
  ordered : Js.inKeyOrder entries = entries

/-- The fields of an object schema, and what is made of what they read. -/
inductive Shape (Schema : Type → Type) : Type → Type 1 where
  | done {α : Type} (a : α) : Shape Schema α
  | field {α β : Type} (shape : Shape Schema (β → α)) (key : String) (schema : Schema β) : Shape Schema α

def Shape.keys {Schema : Type → Type} : {α : Type} → Shape Schema α → List String
  | _, .done _ => []
  | _, .field shape key _ => shape.keys ++ [key]

/-- Object keys that occur once, and that no object inherits. -/
def Shape.Proper {Schema : Type → Type} {α : Type} (shape : Shape Schema α) : Prop :=
  shape.keys.Nodup ∧ ∀ key ∈ shape.keys, IsFieldName key

/-- What the program uses of zod. -/
structure Zod where
  /-- A schema by the type that `z.infer` gives it. -/
  Schema : Type → Type
  /-- The data of `schema.safeParse(v)`, if it succeeds. -/
  parse : {α : Type} → Schema α → Value → Option α
  /-- `z.string().min(length)`; for `z.string()` the length is 0. -/
  string : (length : Nat) → Schema String
  /-- `z.boolean()`. -/
  boolean : Schema Bool
  /-- `z.number()` with its checks. -/
  number : List NumberCheck → Schema Number
  /-- `z.enum([..])`. -/
  enumeration : {α : Type} → List (String × α) → Schema α
  /-- `z.array(schema).min(length)`; for `z.array(schema)` the length is 0. -/
  array : {α : Type} → (length : Nat) → Schema α → Schema (List α)
  /-- `z.record(schema)`. -/
  record : {α : Type} → Schema α → Schema (Dictionary α)
  /-- `z.object({..})`. -/
  object : {α : Type} → Shape Schema α → Schema α
  /-- `schema.optional()`. -/
  optional : {α : Type} → Schema α → Schema (Option α)
  /-- `schema.default(value)`. -/
  withDefault : {α : Type} → Value → Schema α → Schema α

/-- What the fields of a value are read as. -/
def Zod.readFields (z : Zod) (v : Value) : {α : Type} → Shape z.Schema α → Option α
  | _, .done a => some a
  | _, .field shape key schema =>
    (z.readFields v shape).bind fun f => (z.parse schema (v.get key)).bind fun b => some (f b)

/-- The documented behaviour. -/
structure Zod.Laws (z : Zod) : Prop where
  string_of : ∀ length s, z.parse (z.string length) (.string s) =
    if length ≤ Value.utf16Length s then some s else none
  string_only : ∀ {length v s}, z.parse (z.string length) v = some s → v = .string s
  boolean_of : ∀ b, z.parse z.boolean (.bool b) = some b
  number_of : ∀ checks {n : Number}, n.toRat?.isSome = true → z.parse (z.number checks) (.number n) =
    if checks.all (·.passes n) then some n else none
  number_only : ∀ {checks v n}, z.parse (z.number checks) v = some n →
    v = .number n ∧ n ≠ .nan ∧ checks.all (·.passes n) = true
  enumeration_of : ∀ {α : Type} (names : List (String × α)) s, (names.map Prod.fst).Nodup →
    z.parse (z.enumeration names) (.string s) = InsertionMap.lookupIn names s
  array_of : ∀ {α : Type} (length : Nat) (schema : z.Schema α) ref vs,
    z.parse (z.array length schema) (.array ref vs) = (vs.mapM (z.parse schema)).filter fun as => length ≤ as.length
  array_only : ∀ {α : Type} {length : Nat} {schema : z.Schema α} {v as}, IsData v →
    z.parse (z.array length schema) v = some as → ∃ ref vs, v = .array ref vs
  record_of : ∀ {α : Type} (schema : z.Schema α) ref {props : Record} {d : Dictionary α},
    (∀ p ∈ props, p.1 ≠ "__proto__") →
    (Js.inKeyOrder props).mapM (fun p => (z.parse schema p.2).map fun a => (p.1, a)) = some d.entries →
    z.parse (z.record schema) (.object ref props) = some d
  object_of : ∀ {α : Type} {shape : Shape z.Schema α} ref props, shape.Proper →
    z.parse (z.object shape) (.object ref props) = z.readFields (.object ref props) shape
  object_only : ∀ {α : Type} {shape : Shape z.Schema α} {v a}, IsData v → z.parse (z.object shape) v = some a →
    ∃ ref props, v = .object ref props
  optional_undefined : ∀ {α : Type} (schema : z.Schema α), z.parse (z.optional schema) .undefined = some none
  optional_of : ∀ {α : Type} (schema : z.Schema α) {v}, v ≠ .undefined →
    z.parse (z.optional schema) v = (z.parse schema v).map some
  default_of : ∀ {α : Type} (value : Value) (schema : z.Schema α) {v}, v ≠ .undefined →
    z.parse (z.withDefault value schema) v = z.parse schema v

namespace Zod

/-- What JSON keeps of `v` the schema reads as `a`. -/
def ReadsBack {α : Type} (z : Zod) (schema : z.Schema α) (v : Value) (a : α) : Prop :=
  ∃ w, Js.canonical v = some w ∧ z.parse schema w = some a

namespace Laws

section
variable {z : Zod} {α : Type} {schema : z.Schema α} {v : Value} {a : α}

/-! ## Through a text and back -/

theorem readsBack_string (hz : z.Laws) {length : Nat} {s : String} (h : length ≤ Value.utf16Length s) :
    z.ReadsBack (z.string length) (.string s) s :=
  ⟨_, rfl, (hz.string_of length s).trans (if_pos h)⟩

theorem readsBack_text (hz : z.Laws) (s : String) : z.ReadsBack (z.string 0) (.string s) s :=
  hz.readsBack_string (Nat.zero_le _)

theorem readsBack_nonempty (hz : z.Laws) {s : String} (h : s ≠ "") : z.ReadsBack (z.string 1) (.string s) s :=
  hz.readsBack_string (utf16Length_pos h)

theorem readsBack_boolean (hz : z.Laws) (b : Bool) : z.ReadsBack z.boolean (.bool b) b := ⟨_, rfl, hz.boolean_of b⟩

/-- A finite number comes back, but for the sign of a zero. -/
theorem readsBack_number (hz : z.Laws) {checks : List NumberCheck} {n : Number} (hfinite : n.toRat?.isSome = true)
    (h : Checked checks n) : z.ReadsBack (z.number checks) (.number n) n.unsigned := by
  have hkept : Js.canonical (.number n) = some (.number n.unsigned) := by
    cases n with
    | finite q => rfl
    | negZero => rfl
    | _ => cases hfinite
  have hpasses : checks.all (·.passes n.unsigned) = true := by simpa [NumberCheck.passes_unsigned] using h.passes
  refine ⟨_, hkept, (hz.number_of checks ?_).trans (if_pos hpasses)⟩
  rwa [Number.toRat?_unsigned]

theorem readsBack_whole (hz : z.Laws) {checks : List NumberCheck} {n : Number} (h : Checked checks n)
    (hint : .int ∈ checks) : z.ReadsBack (z.number checks) (.number n) n.unsigned :=
  hz.readsBack_number (by rw [h.whole hint]; rfl) h

theorem readsBack_enumeration (hz : z.Laws) {names : List (String × α)} {s : String} (h : (s, a) ∈ names)
    (hn : (names.map Prod.fst).Nodup) : z.ReadsBack (z.enumeration names) (.string s) a :=
  ⟨_, rfl, (hz.enumeration_of names s hn).trans (InsertionMap.lookupIn_of_mem hn h)⟩

theorem mapM_canonicalItems {encode : α → Value} {as : List α} (h : ∀ a ∈ as, z.ReadsBack schema (encode a) a) :
    (Js.canonicalItems (as.map encode)).mapM (z.parse schema) = some as := by
  induction as with
  | nil => rfl
  | cons a as ih =>
    obtain ⟨w, hw, ha⟩ := h a List.mem_cons_self
    have has := ih fun b hb => h b (List.mem_cons_of_mem _ hb)
    simp [Js.canonicalItems, hw, ha, has]

theorem readsBack_array (hz : z.Laws) {length : Nat} {encode : α → Value} {as : List α}
    (hlength : length ≤ as.length) (h : ∀ a ∈ as, z.ReadsBack schema (encode a) a) :
    z.ReadsBack (z.array length schema) (.array none (as.map encode)) as := by
  refine ⟨_, rfl, ?_⟩
  rw [hz.array_of, mapM_canonicalItems h]
  exact Option.filter_some_pos (by simpa using hlength)

theorem canonicalProps_texts : ∀ d : List (String × String),
    Js.canonicalProps (d.map fun p => (p.1, .string p.2)) = d.map fun p => (p.1, .string p.2)
  | [] => rfl
  | p :: d => by rw [List.map_cons, Js.canonicalProps, Js.canonical, canonicalProps_texts d]

theorem mapM_texts (hz : z.Laws) (d : List (String × String)) : ((d.map fun p => (p.1, Value.string p.2)).mapM fun p =>
    (z.parse (z.string 0) p.2).map fun s => (p.1, s)) = some d := by
  induction d with
  | nil => rfl
  | cons p d ih =>
    have hp : z.parse (z.string 0) (.string p.2) = some p.2 := (hz.string_of 0 p.2).trans (if_pos (Nat.zero_le _))
    simp [ih, hp]

theorem readsBack_record (hz : z.Laws) {d : Dictionary String} (hproto : ∀ p ∈ d.entries, p.1 ≠ "__proto__") :
    z.ReadsBack (z.record (z.string 0)) (.object none (d.entries.map fun p => (p.1, .string p.2))) d := by
  refine ⟨_, rfl, ?_⟩
  have hprops : Js.inKeyOrder (d.entries.map fun p => (p.1, Value.string p.2)) =
      d.entries.map fun p => (p.1, .string p.2) := by
    rw [Js.inKeyOrder_map Value.string, d.ordered]
  rw [canonicalProps_texts, hprops]
  refine hz.record_of _ _ (fun p hp => ?_) ?_
  · obtain ⟨q, hq, rfl⟩ := List.mem_map.1 hp
    exact hproto q hq
  · rw [hprops]
    exact hz.mapM_texts d.entries

theorem readsBack_object (hz : z.Laws) {shape : Shape z.Schema α} {props : Record} (hproper : shape.Proper)
    (h : z.readFields (.object none (Js.inKeyOrder (Js.canonicalProps props))) shape = some a) :
    z.ReadsBack (z.object shape) (.object none props) a :=
  ⟨_, rfl, (hz.object_of _ _ hproper).trans h⟩

/-! ## Fields -/

variable {props : Record} {key : String}

/-- The field of what JSON keeps of an object. -/
theorem get_kept (hkeys : (props.map Prod.fst).Nodup) (hkey : IsFieldName key) (hown : Value.own props key = some v) :
    (Value.object none (Js.inKeyOrder (Js.canonicalProps props))).get key = (Js.canonical v).getD .undefined := by
  rw [Js.get_fieldName hkey, Js.own_kept hkeys, hown, Option.bind_some]

theorem field_kept (hkeys : (props.map Prod.fst).Nodup) (hkey : IsFieldName key) (hown : Value.own props key = some v)
    (h : z.ReadsBack schema v a) :
    z.parse schema ((Value.object none (Js.inKeyOrder (Js.canonicalProps props))).get key) = some a := by
  obtain ⟨w, hw, ha⟩ := h
  rw [get_kept hkeys hkey hown, hw]
  exact ha

/-- A field of an optional schema that is there. -/
theorem present_kept (hz : z.Laws) (hkeys : (props.map Prod.fst).Nodup) (hkey : IsFieldName key)
    (hown : Value.own props key = some v) (h : z.ReadsBack schema v a) :
    z.parse (z.optional schema) ((Value.object none (Js.inKeyOrder (Js.canonicalProps props))).get key) =
      some (some a) := by
  obtain ⟨w, hw, ha⟩ := h
  have hne : w ≠ .undefined := fun hundefined => Js.canonical_ne_undefined (hundefined ▸ hw)
  rw [get_kept hkeys hkey hown, hw, Option.getD_some, hz.optional_of schema hne, ha, Option.map_some]

/-- A field that may be `undefined`. -/
theorem optional_kept (hz : z.Laws) {encode : α → Value} {a : Option α} (hkeys : (props.map Prod.fst).Nodup)
    (hkey : IsFieldName key) (hown : Value.own props key = some ((a.map encode).getD .undefined))
    (h : ∀ b ∈ a, z.ReadsBack schema (encode b) b) :
    z.parse (z.optional schema) ((Value.object none (Js.inKeyOrder (Js.canonicalProps props))).get key) = some a := by
  cases a with
  | none =>
    rw [get_kept hkeys hkey hown]
    exact hz.optional_undefined schema
  | some b => exact hz.present_kept hkeys hkey hown (h b rfl)

theorem default_kept (hz : z.Laws) {value : Value} (hkeys : (props.map Prod.fst).Nodup) (hkey : IsFieldName key)
    (hown : Value.own props key = some v) (h : z.ReadsBack schema v a) :
    z.parse (z.withDefault value schema) ((Value.object none (Js.inKeyOrder (Js.canonicalProps props))).get key) =
      some a := by
  obtain ⟨w, hw, ha⟩ := h
  have hne : w ≠ .undefined := fun hundefined => Js.canonical_ne_undefined (hundefined ▸ hw)
  rw [get_kept hkeys hkey hown, hw, Option.getD_some, hz.default_of value schema hne, ha]

/-! ## What a schema lets through -/

theorem string_ne (hz : z.Laws) {s : String} (h : z.parse (z.string 1) v = some s) : s ≠ "" := by
  rintro rfl
  rw [hz.string_only h, hz.string_of 1] at h
  cases h

theorem number_spec (hz : z.Laws) {checks : List NumberCheck} {n : Number} (hv : IsData v)
    (h : z.parse (z.number checks) v = some n) : Checked checks n := by
  obtain ⟨rfl, hnan, hchecks⟩ := hz.number_only h
  cases hv with
  | number hn => exact ⟨hchecks, hn, hnan⟩

theorem mapM_spec {P : α → Prop} (hspec : ∀ {v a}, IsData v → z.parse schema v = some a → P a) :
    ∀ {vs : List Value} {as : List α}, (∀ v ∈ vs, IsData v) → vs.mapM (z.parse schema) = some as → ∀ a ∈ as, P a
  | [], as, _, h => by
    obtain rfl := Option.some.inj h
    exact List.forall_mem_nil _
  | v :: vs, as, hvs, h => by
    simp only [List.mapM_cons, Option.bind_eq_bind, Option.bind_eq_some_iff, Option.pure_def, Option.some.injEq] at h
    obtain ⟨a, ha, as', has', rfl⟩ := h
    exact List.forall_mem_cons.2 ⟨hspec (hvs v List.mem_cons_self) ha,
      mapM_spec hspec (fun v hv => hvs v (List.mem_cons_of_mem _ hv)) has'⟩

theorem array_spec (hz : z.Laws) {P : α → Prop} (hspec : ∀ {v a}, IsData v → z.parse schema v = some a → P a)
    {length : Nat} {as : List α} (hv : IsData v) (h : z.parse (z.array length schema) v = some as) :
    length ≤ as.length ∧ ∀ a ∈ as, P a := by
  obtain ⟨ref, vs, rfl⟩ := hz.array_only hv h
  rw [hz.array_of, Option.filter_eq_some_iff, decide_eq_true_eq] at h
  cases hv with
  | array hvs => exact ⟨h.2, mapM_spec hspec hvs h.1⟩

theorem optional_spec (hz : z.Laws) {P : α → Prop} (hspec : ∀ {a}, z.parse schema v = some a → P a) {a : Option α}
    (h : z.parse (z.optional schema) v = some a) : ∀ b ∈ a, P b := by
  intro b hb
  obtain rfl := Option.mem_def.1 hb
  by_cases hundefined : v = .undefined
  · rw [hundefined, hz.optional_undefined] at h
    cases h
  · rw [hz.optional_of schema hundefined] at h
    obtain ⟨b', hb', heq⟩ := Option.map_eq_some_iff.1 h
    exact hspec (Option.some.inj heq ▸ hb')

/-- An object schema reads an object by its fields. -/
theorem object_spec (hz : z.Laws) {shape : Shape z.Schema α} (hv : IsData v) (hproper : shape.Proper)
    (h : z.parse (z.object shape) v = some a) :
    z.readFields v shape = some a ∧ ∀ {key : String}, IsFieldName key → IsData (v.get key) := by
  obtain ⟨ref, props, rfl⟩ := hz.object_only hv h
  exact ⟨(hz.object_of ref props hproper).symm.trans h, hv.get⟩

end

end Laws

/-! ## Combinators that obey them -/

namespace Plain

/-- A schema by what it reads. -/
abbrev Schema (α : Type) := Value → Option α

def string (length : Nat) : Schema String
  | .string s => if length ≤ Value.utf16Length s then some s else none
  | _ => none

def boolean : Schema Bool
  | .bool b => some b
  | _ => none

def number (checks : List NumberCheck) : Schema Number
  | .number n => if n ≠ .nan ∧ checks.all (·.passes n) = true then some n else none
  | _ => none

def enumeration {α : Type} (names : List (String × α)) : Schema α
  | .string s => InsertionMap.lookupIn names s
  | _ => none

def array {α : Type} (length : Nat) (schema : Schema α) : Schema (List α)
  | .array _ vs => (vs.mapM schema).filter fun as => length ≤ as.length
  | _ => none

def record {α : Type} (schema : Schema α) : Schema (Dictionary α)
  | .object _ props =>
    (((Js.inKeyOrder props).filter fun p => p.1 ≠ "__proto__").mapM fun p => (schema p.2).map fun a => (p.1, a)).bind
      fun entries =>
        if h : (entries.map Prod.fst).Nodup then
          some ⟨Js.inKeyOrder entries, ((Js.perm_inKeyOrder entries).map _).nodup_iff.2 h,
            Js.inKeyOrder_inKeyOrder entries⟩
        else none
  | _ => none

theorem record_of {α : Type} {schema : Schema α} {ref : Option String} {props : Record} {d : Dictionary α}
    (hproto : ∀ p ∈ props, p.1 ≠ "__proto__")
    (h : (Js.inKeyOrder props).mapM (fun p => (schema p.2).map fun a => (p.1, a)) = some d.entries) :
    record schema (.object ref props) = some d := by
  have hkept : (Js.inKeyOrder props).filter (fun p => p.1 ≠ "__proto__") = Js.inKeyOrder props :=
    List.filter_eq_self.2 fun p hp => by simpa using hproto p ((Js.perm_inKeyOrder props).subset hp)
  rw [record, hkept, h, Option.bind_some, dif_pos d.nodup]
  simp only [d.ordered]

def readFields (v : Value) : {α : Type} → Shape Schema α → Option α
  | _, .done a => some a
  | _, .field shape key schema => (readFields v shape).bind fun f => (schema (v.get key)).bind fun b => some (f b)

def object {α : Type} (shape : Shape Schema α) : Schema α
  | .object ref props => readFields (.object ref props) shape
  | _ => none

def optional {α : Type} (schema : Schema α) : Schema (Option α)
  | .undefined => some none
  | v => (schema v).map some

def withDefault {α : Type} (value : Value) (schema : Schema α) : Schema α
  | .undefined => schema value
  | v => schema v

end Plain

/-- Combinators that behave so; an infinity is a number, and a member named `__proto__` is left out. -/
def plain : Zod where
  Schema := Plain.Schema
  parse schema := schema
  string := Plain.string
  boolean := Plain.boolean
  number := Plain.number
  enumeration := Plain.enumeration
  array := Plain.array
  record := Plain.record
  object := Plain.object
  optional := Plain.optional
  withDefault := Plain.withDefault

theorem readFields_plain (v : Value) : ∀ {α : Type} (shape : Shape Plain.Schema α),
    plain.readFields v shape = Plain.readFields v shape
  | _, .done _ => rfl
  | _, .field shape key schema =>
    congrArg (fun f => f.bind fun f => (schema (v.get key)).bind fun b => some (f b)) (readFields_plain v shape)

theorem laws_plain : plain.Laws where
  string_of _ _ := rfl
  string_only {length v s} h := by
    cases v with
    | string t =>
      simp only [plain, Plain.string] at h
      split_ifs at h
      rw [Option.some.inj h]
    | _ => cases h
  boolean_of _ := rfl
  number_of checks n hfinite := by
    have hnan : n ≠ .nan := by
      rintro rfl
      cases hfinite
    simp [plain, Plain.number, hnan]
  number_only {checks v n} h := by
    cases v with
    | number m =>
      simp only [plain, Plain.number] at h
      split_ifs at h with hm
      obtain rfl := Option.some.inj h
      exact ⟨rfl, hm⟩
    | _ => cases h
  enumeration_of _ _ _ := rfl
  array_of _ _ _ _ := rfl
  array_only {α length schema v as} _ h := by
    cases v with
    | array ref vs => exact ⟨ref, vs, rfl⟩
    | _ => cases h
  record_of _ ref _ _ hproto h := @Plain.record_of _ _ ref _ _ hproto h
  object_of ref props _ := (readFields_plain _ _).symm
  object_only {α shape v a} _ h := by
    cases v with
    | object ref props => exact ⟨ref, props, rfl⟩
    | _ => cases h
  optional_undefined _ := rfl
  optional_of {α} schema {v} hv := by
    cases v with
    | undefined => exact absurd rfl hv
    | _ => rfl
  default_of {α} value schema {v} hv := by
    cases v with
    | undefined => exact absurd rfl hv
    | _ => rfl

end Zod

end Jobflow
