import Mathlib.Data.List.Induction
import Mathlib.Data.List.Nodup

/-!
# Insertion-ordered maps

A finite map that remembers the order in which its keys were first set: setting a present key
keeps its place, setting a new key appends. The keys of the entry list are distinct by
construction, so every lemma about `get` may speak of *the* entry of a key.
-/

/-- An association list with distinct keys, in order of first insertion. -/
structure InsertionMap (K V : Type) where
  entries : List (K × V)
  nodup : (entries.map Prod.fst).Nodup

namespace InsertionMap

variable {K V : Type} [DecidableEq K]

/-- The value of the entry with key `k`, scanning from the front. -/
def lookupIn (es : List (K × V)) (k : K) : Option V := (es.find? (fun e => e.1 = k)).map Prod.snd

@[simp] theorem lookupIn_nil (k : K) : lookupIn ([] : List (K × V)) k = none := rfl

@[simp] theorem lookupIn_cons (e : K × V) (es : List (K × V)) (k : K) :
    lookupIn (e :: es) k = if e.1 = k then some e.2 else lookupIn es k := by
  by_cases h : e.1 = k <;> simp [lookupIn, h]

theorem lookupIn_append (es fs : List (K × V)) (k : K) :
    lookupIn (es ++ fs) k = (lookupIn es k).or (lookupIn fs k) := by
  induction es with
  | nil => simp
  | cons e es ih => by_cases h : e.1 = k <;> simp [h, ih]

theorem mem_of_lookupIn {es : List (K × V)} {k : K} {v : V} (h : lookupIn es k = some v) : (k, v) ∈ es := by
  induction es with
  | nil => simp at h
  | cons e es ih =>
    rw [lookupIn_cons] at h
    split at h
    · rename_i hk
      cases h
      rw [← hk]
      exact List.mem_cons_self
    · exact List.mem_cons_of_mem _ (ih h)

theorem lookupIn_of_mem {es : List (K × V)} (hn : (es.map Prod.fst).Nodup) {k : K} {v : V} (h : (k, v) ∈ es) :
    lookupIn es k = some v := by
  induction es with
  | nil => simp at h
  | cons e es ih =>
    rw [List.map_cons, List.nodup_cons] at hn
    rcases List.mem_cons.1 h with rfl | h
    · simp
    · have hne : e.1 ≠ k := fun he => hn.1 (he ▸ List.mem_map_of_mem (f := Prod.fst) h)
      simp [hne, ih hn.2 h]

theorem lookupIn_eq_none {es : List (K × V)} {k : K} : lookupIn es k = none ↔ k ∉ es.map Prod.fst := by
  induction es with
  | nil => simp
  | cons e es ih =>
    by_cases h : e.1 = k
    · simp [h]
    · simp [h, ih, Ne.symm h]

/-! ## Operations -/

def empty : InsertionMap K V := ⟨[], by simp⟩

/-- `map.get(k)`. -/
def get (m : InsertionMap K V) (k : K) : Option V := lookupIn m.entries k

/-- `map.has(k)`. -/
def has (m : InsertionMap K V) (k : K) : Bool := (m.get k).isSome

/-- `[...map.keys()]`. -/
def keys (m : InsertionMap K V) : List K := m.entries.map Prod.fst

/-- `[...map.values()]`. -/
def values (m : InsertionMap K V) : List V := m.entries.map Prod.snd

/-- Replace the value stored under `k`, leaving every key in place. -/
def replaceIn (es : List (K × V)) (k : K) (v : V) : List (K × V) :=
  es.map (fun e => if e.1 = k then (e.1, v) else e)

theorem keys_replaceIn (es : List (K × V)) (k : K) (v : V) :
    (replaceIn es k v).map Prod.fst = es.map Prod.fst := by
  rw [replaceIn, List.map_map]
  refine List.map_congr_left fun e _ => ?_
  by_cases h : e.1 = k <;> simp [h]

theorem lookupIn_replaceIn (es : List (K × V)) (k k' : K) (v : V) :
    lookupIn (replaceIn es k v) k' = if k = k' then (lookupIn es k').map (fun _ => v) else lookupIn es k' := by
  induction es with
  | nil => simp [replaceIn]
  | cons e es ih =>
    rw [replaceIn] at ih
    by_cases hek : e.1 = k
    · by_cases hk : k = k' <;> simp [replaceIn, hek, hk, ih]
    · by_cases hk : k = k'
      · subst hk
        simp [replaceIn, hek, ih]
      · simp [replaceIn, hek, hk, ih]

/-- `map.set(k, v)`. -/
def set (m : InsertionMap K V) (k : K) (v : V) : InsertionMap K V :=
  if h : k ∈ m.entries.map Prod.fst then ⟨replaceIn m.entries k v, by rw [keys_replaceIn]; exact m.nodup⟩
  else ⟨m.entries ++ [(k, v)], by
    rw [List.map_append]
    refine List.Nodup.append m.nodup (by simp) ?_
    intro a ha hb
    simp only [List.map_cons, List.map_nil, List.mem_singleton] at hb
    exact h (hb ▸ ha)⟩

/-- `map.delete(k)`. -/
def delete (m : InsertionMap K V) (k : K) : InsertionMap K V :=
  ⟨m.entries.filter (fun e => !decide (e.1 = k)), m.nodup.sublist ((List.filter_sublist).map _)⟩

/-- `new Map(pairs)`: later pairs overwrite earlier ones. -/
def ofList (es : List (K × V)) : InsertionMap K V := es.foldl (fun m e => m.set e.1 e.2) empty

/-! ## What `get` sees -/

@[simp] theorem get_empty (k : K) : (empty : InsertionMap K V).get k = none := rfl

theorem get_set (m : InsertionMap K V) (k k' : K) (v : V) :
    (m.set k v).get k' = if k = k' then some v else m.get k' := by
  unfold set get
  split
  · rename_i h
    rw [lookupIn_replaceIn]
    by_cases hk : k = k'
    · subst hk
      obtain ⟨w, hw⟩ := Option.ne_none_iff_exists'.1 (mt lookupIn_eq_none.1 (not_not.2 h))
      simp [hw]
    · simp [hk]
  · rename_i h
    by_cases hk : k = k'
    · subst hk
      simp [lookupIn_append, lookupIn_eq_none.2 h]
    · simp [lookupIn_append, hk]

@[simp] theorem get_set_self (m : InsertionMap K V) (k : K) (v : V) : (m.set k v).get k = some v := by
  simp [get_set]

theorem get_set_ne (m : InsertionMap K V) {k k' : K} (v : V) (h : k ≠ k') : (m.set k v).get k' = m.get k' := by
  simp [get_set, h]

theorem lookupIn_filter_ne (es : List (K × V)) (k k' : K) :
    lookupIn (es.filter (fun e => !decide (e.1 = k))) k' = if k = k' then none else lookupIn es k' := by
  induction es with
  | nil => simp
  | cons e es ih =>
    by_cases he : e.1 = k
    · by_cases hk : k = k' <;> simp_all
    · by_cases hk : k = k'
      · subst hk
        simp_all
      · simp [he, hk, ih]

theorem get_delete (m : InsertionMap K V) (k k' : K) :
    (m.delete k).get k' = if k = k' then none else m.get k' :=
  lookupIn_filter_ne m.entries k k'

theorem get_eq_some {m : InsertionMap K V} {k : K} {v : V} : m.get k = some v ↔ (k, v) ∈ m.entries :=
  ⟨mem_of_lookupIn, lookupIn_of_mem m.nodup⟩

/-! ## Building from pairs -/

theorem get_foldl_set (es : List (K × V)) (m : InsertionMap K V) (k : K) :
    (es.foldl (fun m e => m.set e.1 e.2) m).get k = (lookupIn es.reverse k).or (m.get k) := by
  induction es generalizing m with
  | nil => simp
  | cons e es ih =>
    rw [List.foldl_cons, ih, List.reverse_cons, lookupIn_append, get_set, Option.or_assoc]
    by_cases h : e.1 = k <;> simp [h]

/-- The last pair with key `k` wins. -/
theorem get_ofList (es : List (K × V)) (k : K) : (ofList es).get k = lookupIn es.reverse k := by
  simp [ofList, get_foldl_set]

theorem get_ofList_of_mem {es : List (K × V)} (hn : (es.map Prod.fst).Nodup) {k : K} {v : V} (h : (k, v) ∈ es) :
    (ofList es).get k = some v := by
  rw [get_ofList]
  refine lookupIn_of_mem ?_ (List.mem_reverse.2 h)
  rw [List.map_reverse]
  exact List.nodup_reverse.2 hn

/-- Pairs with distinct keys are the entries, in their order. -/
theorem entries_ofList {es : List (K × V)} (hn : (es.map Prod.fst).Nodup) : (ofList es).entries = es := by
  have hfold : ∀ (fs : List (K × V)) (m : InsertionMap K V), ((m.entries ++ fs).map Prod.fst).Nodup →
      (fs.foldl (fun m e => m.set e.1 e.2) m).entries = m.entries ++ fs := by
    intro fs
    induction fs with
    | nil => simp
    | cons e fs ih =>
      intro m hm
      have hnew : e.1 ∉ m.entries.map Prod.fst := by
        intro hmem
        rw [List.map_append, List.map_cons] at hm
        exact (List.nodup_append.1 hm).2.2 _ hmem _ List.mem_cons_self rfl
      have hset : (m.set e.1 e.2).entries = m.entries ++ [e] := by
        unfold set
        rw [dif_neg hnew]
      rw [List.foldl_cons, ih, hset, List.append_assoc, List.singleton_append]
      rw [hset, List.append_assoc, List.singleton_append]
      exact hm
  simpa [ofList, empty] using hfold es empty (by simpa [empty] using hn)

/-- The last element with key `k` wins. -/
theorem get_ofList_map {A : Type} (f : A → K) (g : A → V) (l : List A) (k : K) :
    (ofList (l.map fun a => (f a, g a))).get k = (l.reverse.find? fun a => f a = k).map g := by
  rw [get_ofList, ← List.map_reverse, lookupIn, List.find?_map, Option.map_map]
  rfl

theorem mem_of_get_ofList {es : List (K × V)} {k : K} {v : V} (h : (ofList es).get k = some v) : (k, v) ∈ es := by
  rw [get_ofList] at h
  exact List.mem_reverse.1 (mem_of_lookupIn h)

/-! ## Collecting under keys -/

/-- A map that is updated under the key of each element in turn holds, under each key, what its elements have come
to. -/
theorem get_foldl_update {A : Type} (key : A → K) (init : V) (f : V → A → V) (l : List A) (k : K) :
    (l.foldl (fun m a => m.set (key a) (f ((m.get (key a)).getD init) a)) empty).get k =
      if l.filter (fun a => key a = k) = [] then none else some ((l.filter fun a => key a = k).foldl f init) := by
  induction l using List.reverseRecOn with
  | nil => rfl
  | append_singleton l a ih =>
    rw [List.foldl_append, List.foldl_cons, List.foldl_nil, get_set]
    by_cases hk : key a = k
    · have hfilter : (l ++ [a]).filter (fun a => key a = k) = l.filter (fun a => key a = k) ++ [a] := by simp [hk]
      rw [if_pos hk, hfilter, if_neg (by simp), List.foldl_append, hk, ih]
      by_cases hnone : l.filter (fun a => key a = k) = []
      · rw [if_pos hnone, hnone]
        rfl
      · rw [if_neg hnone]
        rfl
    · have hfilter : (l ++ [a]).filter (fun a => key a = k) = l.filter (fun a => key a = k) := by simp [hk]
      rw [if_neg hk, hfilter, ih]

/-- A key that is there has one entry. -/
theorem countP_entries {m : InsertionMap K V} {k : K} (h : k ∈ m.keys) : m.entries.countP (fun e => e.1 = k) = 1 := by
  have hcount := List.count_eq_one_of_mem m.nodup h
  rw [List.count_eq_countP, List.countP_map] at hcount
  rw [← hcount]
  exact List.countP_congr fun e _ => by simp

end InsertionMap
