import Jobflow.Lib.InsertionMap
import Jobflow.Lib.EventSystem

/-!
# Systems seen in part

* `EventSystem.exec_project`: if each step is one step of the part, or none, then a run is a run of the part.
* `InsertionMap.restrict`: the entries under some of the keys, and what the operations do to them.
* `List.filter_set_pos`, `List.getElem?_filter_countP`: the place of an element among those that pass.
-/

namespace EventSystem

variable {σ ε τ δ : Type}

/-- What an event does to the part that `proj` shows: the event of the part that `observe` shows, or nothing. -/
def Follows (step' : τ → δ → Option τ) (t : τ) (e : Option δ) (t' : τ) : Prop :=
  match e with
  | some e => step' t e = some t'
  | none => t' = t

/-- A run, seen in part. -/
theorem exec_project {step : σ → ε → Option σ} {step' : τ → δ → Option τ} {proj : σ → τ} {observe : σ → ε → Option δ}
    {I : σ → Prop} (h : ∀ s e s', I s → step s e = some s' →
      I s' ∧ Follows step' (proj s) (observe s e) (proj s')) {es : List ε} :
    ∀ {s s' : σ}, I s → exec step s es = some s' →
      exec step' (proj s) (trace step observe s es) = some (proj s') := by
  induction es with
  | nil =>
    intro s s' _ hs
    cases hs
    rfl
  | cons e es ih =>
    intro s s' hI hs
    obtain ⟨m, hm, hs⟩ := exec_cons.1 hs
    obtain ⟨hI', hfollows⟩ := h s e m hI hm
    have hrest := ih hI' hs
    rw [trace, hm]
    dsimp only
    cases hobserve : observe s e with
    | none =>
      rw [hobserve] at hfollows
      rw [show proj m = proj s from hfollows] at hrest
      exact hrest
    | some e' =>
      rw [hobserve] at hfollows
      exact exec_cons.2 ⟨_, hfollows, hrest⟩

end EventSystem

namespace InsertionMap

variable {K V : Type} {m : InsertionMap K V} {p : K → Bool} {k : K}

/-- The entries whose keys pass. -/
def restrict (p : K → Bool) (m : InsertionMap K V) : InsertionMap K V :=
  ⟨m.entries.filter fun e => p e.1, m.nodup.sublist (List.filter_sublist.map _)⟩

theorem ext_entries {m m' : InsertionMap K V} (h : m.entries = m'.entries) : m = m' := by
  cases m
  cases m'
  cases h
  rfl

theorem mem_keys_restrict : k ∈ (m.restrict p).entries.map Prod.fst ↔ p k = true ∧ k ∈ m.entries.map Prod.fst := by
  simp only [restrict, List.mem_map, List.mem_filter]
  constructor
  · rintro ⟨e, ⟨he, hp⟩, rfl⟩
    exact ⟨hp, e, he, rfl⟩
  · rintro ⟨hp, e, he, rfl⟩
    exact ⟨e, ⟨he, hp⟩, rfl⟩

variable [DecidableEq K]

theorem get_restrict (h : p k = true) : (m.restrict p).get k = m.get k := by
  unfold get restrict
  dsimp only
  induction m.entries with
  | nil => rfl
  | cons e es ih =>
    by_cases hk : e.1 = k
    · rw [List.filter_cons_of_pos (hk ▸ h), lookupIn_cons, lookupIn_cons, if_pos hk, if_pos hk]
    · rw [lookupIn_cons, if_neg hk, ← ih]
      by_cases hp : p e.1 = true
      · rw [@List.filter_cons_of_pos _ (fun e : K × V => p e.1) e es hp, lookupIn_cons, if_neg hk]
      · rw [@List.filter_cons_of_neg _ (fun e : K × V => p e.1) e es hp]

theorem has_restrict (h : p k = true) : (m.restrict p).has k = m.has k := by
  rw [has, has, get_restrict h]

theorem filter_replaceIn (p : K → Bool) (es : List (K × V)) (k : K) (v : V) :
    (replaceIn es k v).filter (fun e => p e.1) = replaceIn (es.filter fun e => p e.1) k v := by
  unfold replaceIn
  rw [List.filter_map]
  refine congrArg _ (List.filter_congr fun e _ => ?_)
  rw [Function.comp_apply]
  split_ifs <;> rfl

theorem restrict_set (h : p k = true) (v : V) : (m.set k v).restrict p = (m.restrict p).set k v := by
  apply ext_entries
  unfold set
  by_cases hk : k ∈ m.entries.map Prod.fst
  · rw [dif_pos hk, dif_pos (mem_keys_restrict.2 ⟨h, hk⟩)]
    exact filter_replaceIn p m.entries k v
  · rw [dif_neg hk, dif_neg fun hmem => hk (mem_keys_restrict.1 hmem).2]
    simp [restrict, h]

theorem replaceIn_of_not_mem {es : List (K × V)} (h : ∀ e ∈ es, e.1 ≠ k) (v : V) : replaceIn es k v = es := by
  refine (List.map_congr_left fun e he => ?_).trans (List.map_id es)
  exact if_neg (h e he)

theorem restrict_set_of_not (h : p k = false) (v : V) : (m.set k v).restrict p = m.restrict p := by
  apply ext_entries
  unfold set
  by_cases hk : k ∈ m.entries.map Prod.fst
  · rw [dif_pos hk]
    refine (filter_replaceIn p m.entries k v).trans (replaceIn_of_not_mem (fun e he hek => ?_) v)
    rw [← hek, (List.mem_filter.1 he).2] at h
    cases h
  · rw [dif_neg hk]
    simp [restrict, h]

theorem restrict_delete (p : K → Bool) (k : K) : (m.delete k).restrict p = (m.restrict p).delete k := by
  apply ext_entries
  simp only [restrict, delete, List.filter_filter, Bool.and_comm]

theorem delete_restrict_of_not (h : p k = false) : (m.restrict p).delete k = m.restrict p := by
  apply ext_entries
  refine List.filter_eq_self.2 fun e he => ?_
  rw [Bool.not_eq_true', decide_eq_false_iff_not]
  rintro rfl
  rw [(List.mem_filter.1 he).2] at h
  cases h

end InsertionMap

/-! ## Positions among the elements that pass -/

namespace List

variable {α : Type} {p : α → Bool} {l : List α} {i j : Nat} {a b : α}

theorem getElem?_filter_countP (hi : l[i]? = some a) (ha : p a = true) :
    (l.filter p)[(l.take i).countP p]? = some a := by
  induction l generalizing i with
  | nil => cases hi
  | cons x l ih =>
    cases i with
    | zero =>
      obtain rfl := Option.some.inj hi
      rw [filter_cons_of_pos ha]
      rfl
    | succ i =>
      rw [getElem?_cons_succ] at hi
      rw [take_succ_cons]
      by_cases hx : p x = true
      · rw [filter_cons_of_pos hx, countP_cons_of_pos hx, getElem?_cons_succ]
        exact ih hi
      · rw [filter_cons_of_neg hx, countP_cons_of_neg hx]
        exact ih hi

theorem filter_set_pos (hi : l[i]? = some a) (ha : p a = true) (hb : p b = true) :
    (l.set i b).filter p = (l.filter p).set ((l.take i).countP p) b := by
  induction l generalizing i with
  | nil => cases hi
  | cons x l ih =>
    cases i with
    | zero =>
      obtain rfl := Option.some.inj hi
      rw [set_cons_zero, filter_cons_of_pos ha, filter_cons_of_pos hb]
      rfl
    | succ i =>
      rw [getElem?_cons_succ] at hi
      rw [set_cons_succ, take_succ_cons]
      by_cases hx : p x = true
      · rw [filter_cons_of_pos hx, filter_cons_of_pos hx, countP_cons_of_pos hx, set_cons_succ, ih hi]
      · rw [filter_cons_of_neg hx, filter_cons_of_neg hx, countP_cons_of_neg hx, ih hi]

theorem filter_set_neg (hi : l[i]? = some a) (ha : p a = false) (hb : p b = false) :
    (l.set i b).filter p = l.filter p := by
  induction l generalizing i with
  | nil => cases hi
  | cons x l ih =>
    cases i with
    | zero =>
      obtain rfl := Option.some.inj hi
      simp [ha, hb]
    | succ i =>
      rw [getElem?_cons_succ] at hi
      rw [set_cons_succ, filter_cons, filter_cons, ih hi]

theorem countP_take_set (hi : l[i]? = some a) (h : p b = p a) (j : Nat) :
    ((l.set i b).take j).countP p = (l.take j).countP p := by
  induction l generalizing i j with
  | nil => cases hi
  | cons x l ih =>
    cases j with
    | zero => rfl
    | succ j =>
      cases i with
      | zero =>
        obtain rfl := Option.some.inj hi
        rw [set_cons_zero, take_succ_cons, take_succ_cons, countP_cons, countP_cons, h]
      | succ i =>
        rw [getElem?_cons_succ] at hi
        rw [set_cons_succ, take_succ_cons, take_succ_cons, countP_cons, countP_cons, ih hi]

theorem countP_take_append (h : j ≤ l.length) (l' : List α) : ((l ++ l').take j).countP p = (l.take j).countP p := by
  rw [take_append_of_le_length h]

end List
