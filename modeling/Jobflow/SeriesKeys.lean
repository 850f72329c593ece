import Mathlib.Data.List.Sort
import Mathlib.Data.String.Basic
import Jobflow.Js.Json

/-!
# The keys of metric series (src/metrics/registry.ts)

The registry files a series under one string, made of its name and its labels, and `snapshot` reads them off it again.
`keyPreserves_of_plain` says for which names and labels nothing is lost.
-/

namespace Jobflow

/-! ## The encoding -/

/-- A `Record<string, string>` of labels, in the order in which they were set. -/
abbrev Labels := InsertionMap String String

/-- `Object.entries(labels)`: array indices come first, in ascending order. -/
def Labels.entriesInOrder (labels : Labels) : List (String × String) := Js.inKeyOrder labels.entries

/-- `localeCompare` of the host's locale. -/
abbrev Collation := String → String → Int

namespace MetricsRegistry

/-- `key` (registry.ts:45-50). -/
def seriesKey (localeCompare : Collation) (name : String) (labels : Labels) : String :=
  let parts := (labels.entriesInOrder.insertionSort fun a b => localeCompare a.1 b.1 ≤ 0).map
    fun e => e.1 ++ "=" ++ e.2
  name ++ "|" ++ ",".intercalate parts

/-- The loop of `parseKey` over the parts of the labels. -/
def parseLabels (labelStr : List Char) : Labels :=
  (labelStr.splitOn ',').foldl (fun labels part =>
    match part.splitOn '=' with
    | k :: v :: _ =>
      -- a string that is assigned to `__proto__` goes nowhere
      if k ≠ [] ∧ v ≠ [] ∧ String.ofList k ≠ "__proto__" then labels.set (String.ofList k) (String.ofList v)
      else labels
    | _ => labels) .empty

/-- `parseKey` (registry.ts:52-62). -/
def parseKey (key : String) : String × Labels :=
  match key.toList.splitOn '|' with
  | name :: labelStr :: _ => (String.ofList name, if labelStr = [] then .empty else parseLabels labelStr)
  | [name] => (String.ofList name, .empty)
  | [] => (key, .empty)

end MetricsRegistry

/-! ## What it preserves -/

/-- The key stands for the name and the labels, in whatever order they are listed. -/
structure KeyPreserves (localeCompare : Collation) (name : String) (labels : Labels) : Prop where
  sameName : (MetricsRegistry.parseKey (MetricsRegistry.seriesKey localeCompare name labels)).1 = name
  sameLabels : (MetricsRegistry.parseKey (MetricsRegistry.seriesKey localeCompare name labels)).2.entries.Perm
    labels.entries
  sameKey : ∀ labels' : Labels, labels'.entries.Perm labels.entries →
    MetricsRegistry.seriesKey localeCompare name labels' = MetricsRegistry.seriesKey localeCompare name labels

/-- A text that is not empty and has none of the separators. -/
def PlainText (text : String) : Prop := text ≠ "" ∧ '|' ∉ text.toList ∧ ',' ∉ text.toList ∧ '=' ∉ text.toList

instance (text : String) : Decidable (PlainText text) := inferInstanceAs (Decidable (_ ∧ _))

def PlainLabels (labels : Labels) : Prop :=
  ∀ e ∈ labels.entries, PlainText e.1 ∧ PlainText e.2 ∧ e.1 ≠ "__proto__"

instance (labels : Labels) : Decidable (PlainLabels labels) :=
  inferInstanceAs (Decidable (∀ e ∈ labels.entries, _))

/-- `localeCompare` puts the names of the labels in one order. -/
structure Orders (localeCompare : Collation) (labels : Labels) : Prop where
  total : ∀ a b, localeCompare a b ≤ 0 ∨ localeCompare b a ≤ 0
  trans : ∀ a b c, localeCompare a b ≤ 0 → localeCompare b c ≤ 0 → localeCompare a c ≤ 0
  apart : ∀ a ∈ labels.keys, ∀ b ∈ labels.keys, localeCompare a b ≤ 0 → localeCompare b a ≤ 0 → a = b

section
variable {localeCompare : Collation} {name : String} {labels labels' : Labels}

theorem Labels.perm_entriesInOrder (labels : Labels) : labels.entriesInOrder.Perm labels.entries :=
  Js.perm_inKeyOrder _

/-- The labels in the order in which the key lists them. -/
def Labels.sorted (localeCompare : Collation) (labels : Labels) : List (String × String) :=
  labels.entriesInOrder.insertionSort fun a b => localeCompare a.1 b.1 ≤ 0

theorem Labels.perm_sorted (labels : Labels) : (labels.sorted localeCompare).Perm labels.entries :=
  (List.perm_insertionSort _ _).trans labels.perm_entriesInOrder

/-- Labels that are put in one order are listed the same way, wherever they come from. -/
theorem Labels.sorted_congr (ho : Orders localeCompare labels) (h : labels'.entries.Perm labels.entries) :
    labels'.sorted localeCompare = labels.sorted localeCompare := by
  let r : String × String → String × String → Prop := fun a b => localeCompare a.1 b.1 ≤ 0
  have : Std.Total r := ⟨fun a b => ho.total a.1 b.1⟩
  have : IsTrans (String × String) r := ⟨fun a b c => ho.trans a.1 b.1 c.1⟩
  have hsorted (labels : Labels) : (labels.sorted localeCompare).Pairwise r := List.pairwise_insertionSort r _
  refine List.Perm.eq_of_pairwise (fun a b ha hb hab hba => ?_) (hsorted labels') (hsorted labels)
    ((labels'.perm_sorted.trans h).trans labels.perm_sorted.symm)
  have ha := h.subset (labels'.perm_sorted.subset ha)
  have hb := labels.perm_sorted.subset hb
  have hname := ho.apart a.1 (List.mem_map_of_mem ha) b.1 (List.mem_map_of_mem hb) hab hba
  exact List.inj_on_of_nodup_map labels.nodup ha hb hname

/-- A part of the key is read as the label that it was written for. -/
theorem MetricsRegistry.parseLabels_intercalate {entries : List (String × String)} (hne : entries ≠ [])
    (hplain : ∀ e ∈ entries, PlainText e.1 ∧ PlainText e.2 ∧ e.1 ≠ "__proto__") :
    parseLabels ([','].intercalate (entries.map fun e => e.1.toList ++ '=' :: e.2.toList)) =
      InsertionMap.ofList entries := by
  have hcomma : ∀ part ∈ entries.map fun e => e.1.toList ++ '=' :: e.2.toList, ',' ∉ part := by
    intro part hpart
    obtain ⟨e, he, rfl⟩ := List.mem_map.1 hpart
    obtain ⟨⟨-, -, hk, -⟩, ⟨-, -, hv, -⟩, -⟩ := hplain e he
    simp [hk, hv]
  rw [parseLabels, List.splitOn_intercalate _ hcomma (by simpa using hne), List.foldl_map, InsertionMap.ofList]
  refine List.foldl_ext _ _ _ fun labels e he => ?_
  obtain ⟨⟨hk, -, -, hkeq⟩, ⟨hv, -, -, hveq⟩, hproto⟩ := hplain e he
  have hsplit : (e.1.toList ++ '=' :: e.2.toList).splitOn '=' = [e.1.toList, e.2.toList] := by
    rw [List.splitOn_append_cons_self_of_not_mem hkeq, List.splitOn_eq_singleton hveq]
  rw [hsplit]
  dsimp only
  rw [String.ofList_toList, String.ofList_toList, if_pos ⟨by simpa using hk, by simpa using hv, hproto⟩]

/-- Joined texts have no character that none of them has, but the separator. -/
theorem not_mem_intercalate {c sep : Char} (hsep : c ≠ sep) : ∀ {texts : List (List Char)}, (∀ text ∈ texts, c ∉ text) →
    c ∉ [sep].intercalate texts
  | [], _ => by simp
  | [text], h => by simpa using h text
  | text :: text' :: texts, h => by
    rw [List.intercalate_cons_cons]
    have hrest := not_mem_intercalate hsep fun t ht => h t (List.mem_cons_of_mem text ht)
    simp [hsep, hrest, h text List.mem_cons_self]

theorem MetricsRegistry.toList_seriesKey (name : String) (labels : Labels) :
    (seriesKey localeCompare name labels).toList = name.toList ++ '|' ::
      [','].intercalate ((labels.sorted localeCompare).map fun e => e.1.toList ++ '=' :: e.2.toList) := by
  have hparts : (fun e : String × String => e.1.toList ++ '=' :: e.2.toList) =
      String.toList ∘ fun e => e.1 ++ "=" ++ e.2 := by
    funext e
    simp
  rw [hparts, ← List.map_map]
  simp only [seriesKey, String.toList_append, String.toList_intercalate, List.append_assoc]
  rfl

/-- A key of plain texts is read as what it was made of. -/
theorem MetricsRegistry.parseKey_seriesKey (hname : '|' ∉ name.toList) (hplain : PlainLabels labels) :
    parseKey (seriesKey localeCompare name labels) = (name, InsertionMap.ofList (labels.sorted localeCompare)) := by
  have hsorted : ∀ e ∈ labels.sorted localeCompare, PlainText e.1 ∧ PlainText e.2 ∧ e.1 ≠ "__proto__" :=
    fun e he => hplain e (labels.perm_sorted.subset he)
  have hbar : '|' ∉ [','].intercalate
      ((labels.sorted localeCompare).map fun e => e.1.toList ++ '=' :: e.2.toList) := by
    refine not_mem_intercalate (by decide) fun part hpart => ?_
    obtain ⟨e, he, rfl⟩ := List.mem_map.1 hpart
    obtain ⟨⟨-, hk, -⟩, ⟨-, hv, -⟩, -⟩ := hsorted e he
    simp [hk, hv]
  rw [parseKey, toList_seriesKey, List.splitOn_append_cons_self_of_not_mem hname, List.splitOn_eq_singleton hbar]
  dsimp only
  rw [String.ofList_toList]
  cases hentries : labels.sorted localeCompare with
  | nil => rfl
  | cons e entries =>
    have hne : [','].intercalate ((e :: entries).map fun e => e.1.toList ++ '=' :: e.2.toList) ≠ [] := by
      cases entries <;> simp [List.intercalate_cons_cons]
    rw [if_neg hne, parseLabels_intercalate (List.cons_ne_nil _ _) (hentries ▸ hsorted)]

/-- The entries that are read are the labels in the order of the key. -/
theorem Labels.entries_ofList_sorted (labels : Labels) :
    (InsertionMap.ofList (labels.sorted localeCompare)).entries = labels.sorted localeCompare :=
  InsertionMap.entries_ofList ((labels.perm_sorted.map Prod.fst).nodup_iff.2 labels.nodup)

/-- A key depends on nothing but the name and the labels in its order. -/
theorem MetricsRegistry.seriesKey_congr (h : labels'.sorted localeCompare = labels.sorted localeCompare) :
    seriesKey localeCompare name labels' = seriesKey localeCompare name labels := by
  unfold Labels.sorted at h
  rw [seriesKey, h]
  rfl

/-- **What a key preserves**: a name without the separator, and labels of plain texts that are told apart. -/
theorem keyPreserves_of_plain (hname : '|' ∉ name.toList) (hplain : PlainLabels labels)
    (ho : Orders localeCompare labels) : KeyPreserves localeCompare name labels := by
  have hparse := @MetricsRegistry.parseKey_seriesKey localeCompare _ _ hname hplain
  refine ⟨by rw [hparse], ?_, fun labels' h => ?_⟩
  · rw [hparse, Labels.entries_ofList_sorted]
    exact labels.perm_sorted
  · exact MetricsRegistry.seriesKey_congr (Labels.sorted_congr ho h)

/-! ## What is read off a key -/

/-- The parts of a text are made of its characters, but for the separator. -/
theorem mem_splitOn {a : Char} : ∀ {text : List Char}, ∀ part ∈ text.splitOn a, a ∉ part ∧ ∀ c ∈ part, c ∈ text
  | [] => by simp
  | c :: text => by
    have ih := @mem_splitOn a text
    rw [List.splitOn_cons_eq_if_modifyHead]
    by_cases hc : c = a
    · subst hc
      simp only [beq_self_eq_true, if_true, List.mem_cons]
      rintro part (rfl | hpart)
      · simp
      · exact ⟨(ih part hpart).1, fun c' hc' => .inr ((ih part hpart).2 c' hc')⟩
    · rw [if_neg (by simpa using hc)]
      obtain ⟨first, rest, hsplit⟩ := List.exists_cons_of_ne_nil (List.splitOn_ne_nil a text)
      rw [hsplit] at ih ⊢
      simp only [List.modifyHead_cons, List.mem_cons]
      rintro part (rfl | hpart)
      · obtain ⟨hnot, hsub⟩ := ih first List.mem_cons_self
        refine ⟨by simp [Ne.symm hc, hnot], fun c' hc' => ?_⟩
        rcases List.mem_cons.1 hc' with rfl | hc'
        · exact .inl rfl
        · exact .inr (hsub c' hc')
      · obtain ⟨hnot, hsub⟩ := ih part (List.mem_cons_of_mem _ hpart)
        exact ⟨hnot, fun c' hc' => .inr (hsub c' hc')⟩

theorem PlainLabels.set {k v : String} (h : PlainLabels labels) (hk : PlainText k) (hv : PlainText v)
    (hproto : k ≠ "__proto__") : PlainLabels (labels.set k v) := by
  intro e he
  have hget : (labels.set k v).get e.1 = some e.2 := InsertionMap.get_eq_some.2 he
  rw [InsertionMap.get_set] at hget
  split at hget
  · rename_i hkey
    rw [← hkey, ← Option.some.inj hget]
    exact ⟨hk, hv, hproto⟩
  · exact h e (InsertionMap.get_eq_some.1 hget)

/-- Whatever the labels were, those that are read are plain. -/
theorem MetricsRegistry.parseLabels_plain {labelStr : List Char} (hbar : '|' ∉ labelStr) :
    PlainLabels (parseLabels labelStr) := by
  have hfold : ∀ parts : List (List Char), (∀ part ∈ parts, ',' ∉ part ∧ '|' ∉ part) → ∀ labels : Labels,
      PlainLabels labels → PlainLabels (parts.foldl (fun labels part =>
        match part.splitOn '=' with
        | k :: v :: _ =>
          if k ≠ [] ∧ v ≠ [] ∧ String.ofList k ≠ "__proto__" then labels.set (String.ofList k) (String.ofList v)
          else labels
        | _ => labels) labels) := by
    intro parts
    induction parts with
    | nil => exact fun _ _ h => h
    | cons part parts ih =>
      intro hparts labels hlabels
      refine ih (fun p hp => hparts p (List.mem_cons_of_mem _ hp)) _ ?_
      obtain ⟨hcomma, hbar⟩ := hparts part List.mem_cons_self
      dsimp only
      split
      · rename_i k v rest hsplit
        split
        · rename_i hgood
          have hplain : ∀ text ∈ part.splitOn '=', text ≠ [] → PlainText (String.ofList text) := by
            intro text htext hne
            obtain ⟨heq, hsub⟩ := mem_splitOn text htext
            refine ⟨by simpa using hne, ?_, ?_, ?_⟩ <;> rw [String.toList_ofList]
            · exact fun h => hbar (hsub _ h)
            · exact fun h => hcomma (hsub _ h)
            · exact heq
          rw [hsplit] at hplain
          exact hlabels.set (hplain k (by simp) hgood.1) (hplain v (by simp) hgood.2.1) hgood.2.2
        · exact hlabels
      · exact hlabels
  refine hfold _ (fun part hpart => ?_) _ (fun e he => absurd he List.not_mem_nil)
  obtain ⟨hcomma, hsub⟩ := mem_splitOn part hpart
  exact ⟨hcomma, fun h => hbar (hsub _ h)⟩

/-- So are its name and its labels. -/
theorem MetricsRegistry.parseKey_plain (key : String) :
    '|' ∉ (parseKey key).1.toList ∧ PlainLabels (parseKey key).2 := by
  have hnone : PlainLabels .empty := fun e he => absurd he List.not_mem_nil
  have hparts := @mem_splitOn '|' key.toList
  unfold parseKey
  split
  · rename_i name labelStr rest hsplit
    rw [hsplit] at hparts
    refine ⟨by simpa using (hparts name (by simp)).1, ?_⟩
    dsimp only
    split
    · exact hnone
    · exact parseLabels_plain (hparts labelStr (by simp)).1
  · rename_i name hsplit
    rw [hsplit] at hparts
    exact ⟨by simpa using (hparts name (by simp)).1, hnone⟩
  · rename_i hsplit
    exact absurd hsplit (List.splitOn_ne_nil _ _)

end

/-- Texts in the order of their characters. -/
def byCharacters : Collation := fun a b => if a ≤ b then if b ≤ a then 0 else -1 else 1

theorem byCharacters_orders (labels : Labels) : Orders byCharacters labels := by
  have hle (a b : String) : byCharacters a b ≤ 0 ↔ a ≤ b := by
    unfold byCharacters
    split
    · split <;> simp_all
    · simp_all
  refine ⟨fun a b => ?_, fun a b c => ?_, fun a _ b _ => ?_⟩
  · rw [hle, hle]
    exact le_total a b
  · rw [hle, hle, hle]
    exact le_trans
  · rw [hle, hle]
    exact le_antisymm

end Jobflow
