import Mathlib.Data.List.Perm.Subperm
import Mathlib.Data.List.Dedup
import Jobflow.Lib.InsertionMap

/-!
# The most recent entries

A map lists its values by the first writes of their keys, `lastWritten` lists them by the last. The ends of the two
lists agree just if what is at the end of the second was also first written after all that stands before it
(`recent_eq_iff`).
-/

/-! ## Entries that are appended -/

/-- A store that appends an entry for each thing it is told has the entries in the order it was told. -/
theorem foldl_appends {σ α β : Type} (log : σ → List β) (entry : α → β) (step : σ → α → σ)
    (hstep : ∀ s a, log (step s a) = log s ++ [entry a]) (s : σ) (told : List α) :
    log (told.foldl step s) = log s ++ told.map entry := by
  induction told generalizing s with
  | nil => exact (List.append_nil _).symm
  | cons a told ih => rw [List.foldl_cons, ih, hstep, List.append_assoc, List.map_cons, List.singleton_append]

/-! ## The ends of two orders -/

/-- The last `m` of a list, or all if there are fewer. -/
def lastOf {α : Type} (m : Nat) (xs : List α) : List α := xs.drop (xs.length - min m xs.length)

section
variable {α : Type}

@[simp] theorem length_lastOf (m : Nat) (xs : List α) : (lastOf m xs).length = min m xs.length := by
  unfold lastOf
  rw [List.length_drop]
  omega

theorem lastOf_append_singleton (m : Nat) (xs : List α) (x : α) :
    lastOf (m + 1) (xs ++ [x]) = lastOf m xs ++ [x] := by
  unfold lastOf
  rw [List.length_append, List.length_singleton, Nat.add_min_add_right, Nat.add_sub_add_right,
    List.drop_append_of_le_length (Nat.sub_le _ _)]

theorem append_lastOf (m : Nat) (xs : List α) : xs.take (xs.length - min m xs.length) ++ lastOf m xs = xs :=
  List.take_append_drop _ xs

variable {rank : α → Nat} {xs ys : List α}

/-- A list in the order of a rank and another with the same elements end alike just if the end of the other is in that
order, and behind what stands before it. -/
theorem lastOf_eq_iff (hperm : xs.Perm ys) (hxs : xs.Pairwise (rank · < rank ·)) (m : Nat) : lastOf m xs = lastOf m ys ↔
    ∀ before y after, ys = before ++ y :: after → after.length < m → ∀ x ∈ before, rank x < rank y := by
  constructor
  · rintro hends before y after rfl hafter x hx
    -- the end of both begins before `y`
    obtain ⟨mid, hmid⟩ : y :: after <:+ lastOf m (before ++ y :: after) := by
      refine List.suffix_of_suffix_length_le (List.suffix_append before _) (List.drop_suffix _ _) ?_
      rw [length_lastOf, List.length_append, List.length_cons]
      omega
    have hsplit := append_lastOf m xs
    rw [hends, ← hmid, ← List.append_assoc] at hsplit
    rw [← hsplit] at hperm hxs
    have hbefore := (List.perm_append_right_iff _).1 hperm
    exact (List.pairwise_append.1 hxs).2.2 x (hbefore.mem_iff.2 hx) y List.mem_cons_self
  · intro hrank
    induction ys using List.reverseRecOn generalizing xs m with
    | nil => rw [hperm.eq_nil]
    | append_singleton ys y ih =>
      cases m with
      | zero => simp [lastOf]
      | succ m =>
        -- the greatest rank is the last in both
        have hlast : ∀ x ∈ ys, rank x < rank y := hrank ys y [] rfl (Nat.succ_pos m)
        obtain ⟨xs, z, rfl⟩ : ∃ init z, xs = init ++ [z] := by
          refine ⟨_, _, (List.dropLast_append_getLast ?_).symm⟩
          rintro rfl
          simpa using hperm.length_eq
        have hzy : z = y := by
          by_contra hne
          have hz : z ∈ ys := by
            simpa [hne] using hperm.mem_iff.1 (List.mem_append_right xs List.mem_cons_self)
          have hy : y ∈ xs := by
            simpa [Ne.symm hne] using hperm.mem_iff.2 (List.mem_append_right ys List.mem_cons_self)
          have hyz := (List.pairwise_append.1 hxs).2.2 y hy z List.mem_cons_self
          exact absurd (hlast z hz) (Nat.lt_asymm hyz)
        subst hzy
        rw [lastOf_append_singleton, lastOf_append_singleton]
        refine congrArg (· ++ [z]) (ih ((List.perm_append_right_iff _).1 hperm) (List.pairwise_append.1 hxs).1 m ?_)
        rintro before y' after rfl hafter x hx
        refine hrank before y' (after ++ [z]) (by simp) ?_ x hx
        rw [List.length_append, List.length_singleton]
        omega

end

namespace InsertionMap

variable {K V : Type} [DecidableEq K]

/-! ## First writes -/

theorem keys_set (m : InsertionMap K V) (k : K) (v : V) :
    (m.set k v).keys = if k ∈ m.keys then m.keys else m.keys ++ [k] := by
  unfold set keys
  split_ifs
  · exact keys_replaceIn _ _ _
  · rw [List.map_append, List.map_singleton]

theorem ofList_append (es : List (K × V)) (e : K × V) : ofList (es ++ [e]) = (ofList es).set e.1 e.2 := by
  simp [ofList]

theorem mem_keys_ofList {es : List (K × V)} {k : K} : k ∈ (ofList es).keys ↔ k ∈ es.map Prod.fst := by
  induction es using List.reverseRecOn with
  | nil => rfl
  | append_singleton es e ih =>
    rw [ofList_append, keys_set, List.map_append, List.map_singleton, List.mem_append, List.mem_singleton, ← ih]
    split_ifs with hmem
    · exact ⟨.inl, fun h => h.elim id fun hk => hk ▸ hmem⟩
    · rw [List.mem_append, List.mem_singleton]

/-- The entries stand in the order of the first writes. -/
theorem keys_ofList_pairwise (es : List (K × V)) :
    (ofList es).keys.Pairwise fun a b => (es.map Prod.fst).idxOf a < (es.map Prod.fst).idxOf b := by
  induction es using List.reverseRecOn with
  | nil => exact List.Pairwise.nil
  | append_singleton es e ih =>
    have hold : ∀ k ∈ (ofList es).keys, ((es ++ [e]).map Prod.fst).idxOf k = (es.map Prod.fst).idxOf k := by
      intro k hk
      rw [List.map_append, List.idxOf_append, if_pos (mem_keys_ofList.1 hk)]
    have ih := ih.imp_of_mem fun ha hb hlt => (hold _ ha).symm ▸ (hold _ hb).symm ▸ hlt
    rw [ofList_append, keys_set]
    split_ifs with hmem
    · exact ih
    · refine List.pairwise_append.2 ⟨ih, List.pairwise_singleton _ _, fun a ha b hb => ?_⟩
      rw [List.mem_singleton.1 hb, hold a ha, List.map_append, List.idxOf_append, if_neg (mt mem_keys_ofList.2 hmem)]
      have hlt := List.idxOf_lt_length_of_mem (mem_keys_ofList.1 ha)
      omega

/-- A map of as many entries as were written was written under different keys. -/
theorem nodup_of_length_ofList {es : List (K × V)} (h : es.length ≤ (ofList es).entries.length) :
    (es.map Prod.fst).Nodup := by
  have hsubset : (ofList es).keys ⊆ (es.map Prod.fst).dedup := fun k hk => List.mem_dedup.2 (mem_keys_ofList.1 hk)
  have hle := (List.subperm_of_subset (ofList es).nodup hsubset).length_le
  rw [List.length_map] at hle
  have hlength : (es.map Prod.fst).length ≤ (es.map Prod.fst).dedup.length := by
    rw [List.length_map]
    exact Nat.le_trans h hle
  exact List.dedup_eq_self.1 ((List.dedup_sublist _).eq_of_length_le hlength)

/-! ## Values under their keys -/

section
variable (key : V → K) (vs : List V)

/-- The map that values with a key of their own are written to. -/
def ofValues : InsertionMap K V := ofList (vs.map fun v => (key v, v))

/-- What was written and not overwritten, in the order it was written. -/
def lastWritten : List V → List V
  | [] => []
  | v :: vs => if key v ∈ vs.map key then lastWritten vs else v :: lastWritten vs

variable {key vs}

theorem mem_lastWritten {v : V} : v ∈ lastWritten key vs ↔ vs.reverse.find? (fun w => key w = key v) = some v := by
  induction vs with
  | nil => simp [lastWritten]
  | cons w vs ih =>
    rw [List.reverse_cons, List.find?_append, List.find?_singleton, lastWritten]
    by_cases hkey : key w = key v
    · rw [if_pos (decide_eq_true hkey)]
      by_cases hw : key w ∈ vs.map key
      · obtain ⟨u, hu, hukey⟩ := List.mem_map.1 hw
        have hfound : (vs.reverse.find? fun w => key w = key v).isSome := by
          rw [List.find?_isSome]
          exact ⟨u, List.mem_reverse.2 hu, decide_eq_true (hukey.trans hkey)⟩
        rw [if_pos hw, ih, Option.or_of_isSome hfound]
      · have hnone : (vs.reverse.find? fun w => key w = key v) = none := by
          refine List.find?_eq_none.2 fun u hu => ?_
          rw [decide_eq_true_eq, ← hkey]
          exact fun hukey => hw (List.mem_map.2 ⟨u, List.mem_reverse.1 hu, hukey⟩)
        rw [if_neg hw, List.mem_cons, ih, hnone, Option.none_or, Option.some.injEq]
        simp [eq_comm]
    · have hfalse : ¬ decide (key w = key v) = true := by simpa using hkey
      rw [if_neg hfalse, Option.or_none, ← ih]
      split_ifs
      · rfl
      · exact List.mem_cons.trans (or_iff_right fun h => hkey (congrArg key h.symm))

theorem lastWritten_eq_nil : lastWritten key vs = [] ↔ vs = [] := by
  induction vs with
  | nil => exact Iff.rfl
  | cons v vs ih =>
    rw [lastWritten]
    split_ifs with hv
    · obtain ⟨w, hw, _⟩ := List.mem_map.1 hv
      simp [ih, List.ne_nil_of_mem hw]
    · simp

theorem keys_lastWritten {k : K} (h : k ∈ (lastWritten key vs).map key) : k ∈ vs.map key := by
  obtain ⟨v, hv, rfl⟩ := List.mem_map.1 h
  exact List.mem_map_of_mem (List.mem_reverse.1 (List.mem_of_find?_eq_some (mem_lastWritten.1 hv)))

theorem nodup_lastWritten (key : V → K) (vs : List V) : ((lastWritten key vs).map key).Nodup := by
  induction vs with
  | nil => exact List.nodup_nil
  | cons v vs ih =>
    rw [lastWritten]
    split_ifs with hv
    · exact ih
    · exact List.nodup_cons.2 ⟨mt keys_lastWritten hv, ih⟩

theorem key_of_mem_ofValues {e : K × V} (h : e ∈ (ofValues key vs).entries) : e.1 = key e.2 := by
  have hmem : e ∈ vs.map fun v => (key v, v) := mem_of_get_ofList (get_eq_some.2 h)
  obtain ⟨v, _, rfl⟩ := List.mem_map.1 hmem
  rfl

theorem mem_ofValues {v : V} : v ∈ (ofValues key vs).values ↔ (ofValues key vs).get (key v) = some v := by
  rw [get_eq_some]
  constructor
  · intro h
    obtain ⟨e, he, rfl⟩ := List.mem_map.1 h
    rwa [← key_of_mem_ofValues he]
  · exact fun h => List.mem_map_of_mem h

/-- The map holds the last writes. -/
theorem values_perm_lastWritten (key : V → K) (vs : List V) : (ofValues key vs).values.Perm (lastWritten key vs) := by
  have hvalues : (ofValues key vs).values.Nodup := by
    refine List.Nodup.of_map key ?_
    have hkeys : (ofValues key vs).values.map key = (ofValues key vs).keys := by
      rw [values, keys, List.map_map]
      exact List.map_congr_left fun e he => (key_of_mem_ofValues he).symm
    rw [hkeys]
    exact (ofValues key vs).nodup
  refine (List.perm_ext_iff_of_nodup hvalues (List.Nodup.of_map key (nodup_lastWritten key vs))).2 fun v => ?_
  rw [mem_ofValues, mem_lastWritten, ofValues, get_ofList_map key fun v => v, Option.map_id']

/-- **The most recent entries**: the end of the map's list is the end of the list of last writes just if each key there
was first written after every key before it. -/
theorem recent_eq_iff (key : V → K) (vs : List V) (m : Nat) :
    lastOf m (ofValues key vs).values = lastOf m (lastWritten key vs) ↔
      ∀ before v after, lastWritten key vs = before ++ v :: after → after.length < m →
        ∀ w ∈ before, (vs.map key).idxOf (key w) < (vs.map key).idxOf (key v) := by
  refine @lastOf_eq_iff _ (fun v => (vs.map key).idxOf (key v)) _ _ (values_perm_lastWritten key vs) ?_ m
  have hfirst := keys_ofList_pairwise (vs.map fun v => (key v, v))
  rw [keys, List.pairwise_map, List.map_map] at hfirst
  rw [values, List.pairwise_map]
  refine hfirst.imp_of_mem fun ha hb hlt => ?_
  rw [← key_of_mem_ofValues ha, ← key_of_mem_ofValues hb]
  exact hlt

end

end InsertionMap
