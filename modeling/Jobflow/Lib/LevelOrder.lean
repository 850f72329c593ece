import Mathlib.Data.List.Nodup
import Mathlib.Data.List.Perm.Subperm
import Jobflow.Lib.DependencyGraph

/-!
# Dependency levels by counting

Kahn's algorithm, one level at a time. Every node has a counter, at first the length of its list of dependencies;
each node of a level lowers the counter of every node that depends on it, and the nodes whose counters become zero
are the next level.

`levelsFrom_spec` says what the levels are: the nodes of a level are those that are not in an earlier one and whose
dependencies, counted with repetitions, are as many as the different ones among the earlier levels. A node whose
list names a dependency twice is therefore in no level, and neither is a node that depends on it. The number of a
node is one more than the largest number of its dependencies (`LevelSpec.number`).
-/

namespace DependencyGraph

variable {α : Type} [DecidableEq α]

/-! ## The algorithm -/

/-- The counters, and the nodes whose counters have become zero. -/
structure Sweep (α : Type) where
  degree : α → Int
  next : List α

/-- Node `id` has been placed: lower the counter of `a` if it depends on `id`. -/
def Sweep.relax (deps : α → List α) (id : α) (st : Sweep α) (a : α) : Sweep α :=
  if id ∈ deps a then
    { degree := fun b => if b = a then st.degree a - 1 else st.degree b
      next := if st.degree a - 1 = 0 ∧ a ∉ st.next then st.next ++ [a] else st.next }
  else st

/-- Node `id` has been placed: go through all nodes. -/
def Sweep.place (nodes : List α) (deps : α → List α) (st : Sweep α) (id : α) : Sweep α :=
  nodes.foldl (Sweep.relax deps id) st

/-- The levels from `ready` on; `none` when the fuel does not suffice. -/
def levelsFrom (nodes : List α) (deps : α → List α) : Nat → (α → Int) → List α → Option (List (List α))
  | 0, _, _ => none
  | fuel + 1, degree, ready =>
    if ready = [] then some []
    else
      let st := ready.foldl (Sweep.place nodes deps) ⟨degree, []⟩
      (levelsFrom nodes deps fuel st.degree st.next).map (ready :: ·)

/-! ## What the counters count -/

/-- How many of the placed nodes `a` depends on. -/
def placedDeps (deps : α → List α) (placed : List α) (a : α) : Nat := placed.countP (· ∈ deps a)

/-- As many as the list of dependencies of `a` is long. -/
def Full (deps : α → List α) (placed : List α) (a : α) : Prop := placedDeps deps placed a = (deps a).length

section
variable {deps : α → List α} {placed : List α} {a : α}

theorem placedDeps_append (more : List α) :
    placedDeps deps (placed ++ more) a = placedDeps deps placed a + placedDeps deps more a :=
  List.countP_append

theorem placed_subperm (hn : placed.Nodup) : (placed.filter (· ∈ deps a)).Subperm (deps a) :=
  (hn.filter _).subperm fun b hb => by simpa using (List.mem_filter.1 hb).2

theorem placedDeps_le (hn : placed.Nodup) : placedDeps deps placed a ≤ (deps a).length := by
  rw [placedDeps, List.countP_eq_length_filter]
  exact (placed_subperm hn).length_le

/-- The dependencies are then all placed, and no two of them are the same. -/
theorem full_iff (hn : placed.Nodup) : Full deps placed a ↔ (deps a).Nodup ∧ ∀ b ∈ deps a, b ∈ placed := by
  constructor
  · intro h
    have hperm : (placed.filter (· ∈ deps a)).Perm (deps a) := by
      refine (placed_subperm hn).perm_of_length_le (Nat.le_of_eq ?_)
      rw [← List.countP_eq_length_filter]
      exact h.symm
    refine ⟨hperm.nodup_iff.1 (hn.filter _), fun b hb => ?_⟩
    exact (List.mem_filter.1 (hperm.mem_iff.2 hb)).1
  · rintro ⟨hd, hall⟩
    refine Nat.le_antisymm (placedDeps_le hn) ?_
    rw [placedDeps, List.countP_eq_length_filter]
    exact (hd.subperm fun b hb => List.mem_filter.2 ⟨hall b hb, by simpa using hb⟩).length_le

theorem Full.mono (hn : (placed ++ more).Nodup) (h : Full deps placed a) : Full deps (placed ++ more) a := by
  have hle : placedDeps deps (placed ++ more) a ≤ (deps a).length := placedDeps_le hn
  rw [placedDeps_append] at hle
  unfold Full at h ⊢
  rw [placedDeps_append]
  omega

end

/-! ## One node is placed -/

section
variable {deps : α → List α} {nodes : List α} {id : α}

/-- What placing a node does to the counters and to the list. -/
theorem place_spec (hn : nodes.Nodup) : ∀ (st : Sweep α),
    (∀ b, (Sweep.place nodes deps st id).degree b =
      if b ∈ nodes ∧ id ∈ deps b then st.degree b - 1 else st.degree b) ∧
    (∀ b, b ∈ (Sweep.place nodes deps st id).next ↔
      b ∈ st.next ∨ b ∈ nodes ∧ id ∈ deps b ∧ st.degree b - 1 = 0) ∧
    (st.next.Nodup → (Sweep.place nodes deps st id).next.Nodup) := by
  unfold Sweep.place
  induction nodes with
  | nil => simp
  | cons a nodes ih =>
    intro st
    rw [List.nodup_cons] at hn
    obtain ⟨hdeg, hnext, hnodup⟩ := ih hn.2 (st.relax deps id a)
    rw [List.foldl_cons]
    by_cases hid : id ∈ deps a
    · have hrelax : st.relax deps id a =
          { degree := fun b => if b = a then st.degree a - 1 else st.degree b
            next := if st.degree a - 1 = 0 ∧ a ∉ st.next then st.next ++ [a] else st.next } := by
        rw [Sweep.relax, if_pos hid]
      rw [hrelax] at hdeg hnext hnodup ⊢
      refine ⟨fun b => ?_, fun b => ?_, fun hst => hnodup ?_⟩
      · rw [hdeg]
        by_cases hba : b = a
        · subst hba
          simp [hn.1, hid]
        · simp [hba]
      · rw [hnext]
        by_cases hba : b = a
        · subst hba
          by_cases hz : st.degree b - 1 = 0 <;> by_cases hm : b ∈ st.next <;> simp [hn.1, hid, hz, hm]
        · by_cases hz : st.degree a - 1 = 0 ∧ a ∉ st.next <;> simp [hba, hz]
      · dsimp only
        split
        · rename_i hz
          exact List.nodup_append.2 ⟨hst, List.nodup_singleton a, fun x hx y hy hxy =>
            hz.2 (List.mem_singleton.1 hy ▸ hxy ▸ hx)⟩
        · exact hst
    · have hrelax : st.relax deps id a = st := by rw [Sweep.relax, if_neg hid]
      rw [hrelax] at hdeg hnext hnodup ⊢
      refine ⟨fun b => ?_, fun b => ?_, hnodup⟩
      · rw [hdeg]
        by_cases hba : b = a
        · subst hba
          simp [hid]
        · simp [hba]
      · rw [hnext]
        by_cases hba : b = a
        · subst hba
          simp [hid]
        · simp [hba]

/-! ## One level is placed -/

/-- Placing the nodes of `ready` one after the other, when those of `base` have been placed, and of these those of
`placed` before the level was begun. -/
theorem sweep_spec (hn : nodes.Nodup) {placed : List α} : ∀ (ready base : List α) (st : Sweep α),
    placed <+: base → (base ++ ready).Nodup →
    (∀ b ∈ nodes, st.degree b = ((deps b).length : Int) - placedDeps deps base b) →
    (∀ b, b ∈ st.next ↔ b ∈ nodes ∧ Full deps base b ∧ ¬ Full deps placed b) → st.next.Nodup →
    let st' := ready.foldl (Sweep.place nodes deps) st
    (∀ b ∈ nodes, st'.degree b = ((deps b).length : Int) - placedDeps deps (base ++ ready) b) ∧
      (∀ b, b ∈ st'.next ↔ b ∈ nodes ∧ Full deps (base ++ ready) b ∧ ¬ Full deps placed b) ∧ st'.next.Nodup := by
  intro ready
  induction ready with
  | nil =>
    intro base st _ _ hdeg hnext hnodup
    simpa using ⟨hdeg, hnext, hnodup⟩
  | cons id ready ih =>
    intro base st hpre hbase hdeg hnext hnodup
    obtain ⟨hdeg', hnext', hnodup'⟩ := @place_spec _ _ deps _ id hn st
    have hsplit : base ++ id :: ready = (base ++ [id]) ++ ready := by simp
    rw [hsplit] at hbase ⊢
    have hone : (base ++ [id]).Nodup := (List.nodup_append.1 hbase).1
    have hcount : ∀ b, placedDeps deps (base ++ [id]) b = placedDeps deps base b + if id ∈ deps b then 1 else 0 := by
      intro b
      rw [placedDeps_append]
      simp [placedDeps, List.countP_cons]
    have hbefore : ∀ b, placedDeps deps placed b ≤ placedDeps deps base b := by
      intro b
      obtain ⟨more, rfl⟩ := hpre
      rw [placedDeps_append]
      omega
    have hle : ∀ b, placedDeps deps (base ++ [id]) b ≤ (deps b).length := fun b => placedDeps_le hone
    refine ih (base ++ [id]) _ (hpre.trans (List.prefix_append _ _)) hbase (fun b hb => ?_) (fun b => ?_)
      (hnodup' hnodup)
    · rw [hdeg', hcount]
      by_cases hid : id ∈ deps b
      · rw [if_pos ⟨hb, hid⟩, if_pos hid, hdeg b hb]
        omega
      · rw [if_neg fun h => hid h.2, if_neg hid, hdeg b hb]
        omega
    · rw [hnext', hnext]
      have hlb := hle b
      have hbb := hbefore b
      have hcb := hcount b
      unfold Full
      constructor
      · rintro (⟨hb, hfull, hnot⟩ | ⟨hb, hid, hzero⟩)
        · exact ⟨hb, by split at hcb <;> omega, hnot⟩
        · rw [hdeg b hb] at hzero
          rw [if_pos hid] at hcb
          exact ⟨hb, by omega, by omega⟩
      · rintro ⟨hb, hfull, hnot⟩
        by_cases hid : id ∈ deps b
        · rw [if_pos hid] at hcb
          refine .inr ⟨hb, hid, ?_⟩
          rw [hdeg b hb]
          omega
        · rw [if_neg hid] at hcb
          exact .inl ⟨hb, by omega, hnot⟩

end

/-! ## All levels -/

/-- `levels` are the levels that follow when the nodes of `placed` have been placed. -/
inductive LevelSpec (nodes : List α) (deps : α → List α) : List α → List (List α) → Prop where
  | done {placed : List α} (h : ∀ b ∈ nodes, Full deps placed b → b ∈ placed) : LevelSpec nodes deps placed []
  | level {placed ready : List α} {rest : List (List α)} (hne : ready ≠ []) (hnodup : (placed ++ ready).Nodup)
      (hready : ∀ b, b ∈ ready ↔ b ∈ nodes ∧ Full deps placed b ∧ b ∉ placed)
      (h : LevelSpec nodes deps (placed ++ ready) rest) : LevelSpec nodes deps placed (ready :: rest)

section
variable {nodes : List α} {deps : α → List α}

theorem levelsFrom_spec (hn : nodes.Nodup) : ∀ (fuel : Nat) (placed : List α) (degree : α → Int) (ready : List α),
    (placed ++ ready).Nodup → (∀ b ∈ placed, b ∈ nodes ∧ Full deps placed b) →
    (∀ b ∈ nodes, degree b = ((deps b).length : Int) - placedDeps deps placed b) →
    (∀ b, b ∈ ready ↔ b ∈ nodes ∧ Full deps placed b ∧ b ∉ placed) → nodes.length < fuel + placed.length →
    ∃ levels, levelsFrom nodes deps fuel degree ready = some levels ∧ LevelSpec nodes deps placed levels := by
  intro fuel
  induction fuel with
  | zero =>
    intro placed degree ready hnodup hplaced _ _ hfuel
    have := ((List.nodup_append.1 hnodup).1.subperm fun b hb => (hplaced b hb).1).length_le
    omega
  | succ fuel ih =>
    intro placed degree ready hnodup hplaced hdeg hready hfuel
    unfold levelsFrom
    by_cases hne : ready = []
    · rw [if_pos hne]
      refine ⟨[], rfl, .done fun b hb hfull => not_not.1 fun hnot => ?_⟩
      have := (hready b).2 ⟨hb, hfull, hnot⟩
      rw [hne] at this
      cases this
    · rw [if_neg hne]
      obtain ⟨hdeg', hnext, hnodup'⟩ := @sweep_spec _ _ _ _ hn placed ready placed ⟨degree, []⟩
        (List.prefix_refl _) hnodup hdeg (by simp) List.nodup_nil
      have hfull : ∀ b ∈ placed ++ ready, b ∈ nodes ∧ Full deps (placed ++ ready) b := fun b hb => by
        rcases List.mem_append.1 hb with hb | hb
        · exact ⟨(hplaced b hb).1, (hplaced b hb).2.mono hnodup⟩
        · obtain ⟨hmem, hf, _⟩ := (hready b).1 hb
          exact ⟨hmem, hf.mono hnodup⟩
      have hnext' : ∀ b, b ∈ (ready.foldl (Sweep.place nodes deps) ⟨degree, []⟩).next ↔
          b ∈ nodes ∧ Full deps (placed ++ ready) b ∧ b ∉ placed ++ ready := fun b => by
        rw [hnext]
        refine and_congr_right fun hb => and_congr_right fun _ => not_congr ?_
        constructor
        · intro hf
          by_cases hmem : b ∈ placed
          · exact List.mem_append_left _ hmem
          · exact List.mem_append_right _ ((hready b).2 ⟨hb, hf, hmem⟩)
        · intro hmem
          rcases List.mem_append.1 hmem with hmem | hmem
          · exact (hplaced b hmem).2
          · exact ((hready b).1 hmem).2.1
      have hnodup₁ : ((placed ++ ready) ++ (ready.foldl (Sweep.place nodes deps) ⟨degree, []⟩).next).Nodup :=
        List.nodup_append.2 ⟨hnodup, hnodup', fun x hx y hy hxy => ((hnext' y).1 hy).2.2 (hxy ▸ hx)⟩
      have hfuel' : nodes.length < fuel + (placed ++ ready).length := by
        have := List.length_pos_of_ne_nil hne
        rw [List.length_append]
        omega
      obtain ⟨levels, hlevels, hspec⟩ := ih _ _ _ hnodup₁ hfull hdeg' hnext' hfuel'
      refine ⟨ready :: levels, ?_, .level hne hnodup hready hspec⟩
      dsimp only
      rw [hlevels, Option.map_some]

variable {placed : List α} {levels : List (List α)}

theorem LevelSpec.nodup (h : LevelSpec nodes deps placed levels) (hp : placed.Nodup) :
    (placed ++ levels.flatten).Nodup := by
  induction h with
  | done => simpa using hp
  | level _ hnodup _ _ ih => simpa using ih hnodup

theorem LevelSpec.ne_nil (h : LevelSpec nodes deps placed levels) : ∀ level ∈ levels, level ≠ [] := by
  induction h with
  | done => simp
  | level hne _ _ _ ih =>
    intro level hlevel
    rcases List.mem_cons.1 hlevel with rfl | hlevel
    · exact hne
    · exact ih level hlevel

/-- Every node whose dependencies are different and placed is placed. -/
theorem LevelSpec.complete (h : LevelSpec nodes deps placed levels) :
    ∀ b ∈ nodes, Full deps (placed ++ levels.flatten) b → b ∈ placed ++ levels.flatten := by
  induction h with
  | done h => simpa using h
  | level _ _ _ _ ih => simpa using ih

/-- What the members of a level have in common. -/
theorem LevelSpec.mem_level (h : LevelSpec nodes deps placed levels) {n : Nat} {level : List α}
    (hl : levels[n]? = some level) : ∀ b, b ∈ level ↔
      b ∈ nodes ∧ Full deps (placed ++ (levels.take n).flatten) b ∧ b ∉ placed ++ (levels.take n).flatten := by
  induction h generalizing n with
  | done => simp at hl
  | level _ _ hready _ ih =>
    cases n with
    | zero =>
      rw [List.getElem?_cons_zero, Option.some.injEq] at hl
      subst hl
      simpa using hready
    | succ n =>
      rw [List.getElem?_cons_succ] at hl
      simpa using ih hl

/-- The number of the level that `a` is in. -/
def levelNumber (levels : List (List α)) (a : α) : Nat := levels.findIdx (a ∈ ·)

theorem levelNumber_of_mem {n : Nat} {level : List α} {a : α} (hl : levels[n]? = some level) (ha : a ∈ level)
    (hnot : a ∉ (levels.take n).flatten) : levelNumber levels a = n := by
  obtain ⟨hlt, rfl⟩ := List.getElem?_eq_some_iff.1 hl
  refine (List.findIdx_eq hlt).2 ⟨by simpa using ha, fun j hj => ?_⟩
  rw [decide_eq_false_iff_not]
  intro hmem
  refine hnot (List.mem_flatten.2 ⟨levels[j], ?_, hmem⟩)
  rw [List.mem_take_iff_getElem]
  exact ⟨j, by omega, rfl⟩

theorem mem_of_levelNumber_lt {n : Nat} {a : α} (ha : a ∈ levels.flatten) (h : levelNumber levels a < n) :
    a ∈ (levels.take n).flatten := by
  obtain ⟨level, hlevel, hmem⟩ := List.mem_flatten.1 ha
  have hlt : levels.findIdx (a ∈ ·) < levels.length :=
    List.findIdx_lt_length_of_exists ⟨level, hlevel, by simpa using hmem⟩
  have hfound := List.findIdx_getElem (w := hlt)
  rw [decide_eq_true_eq] at hfound
  refine List.mem_flatten.2 ⟨_, ?_, hfound⟩
  rw [List.mem_take_iff_getElem]
  exact ⟨_, by unfold levelNumber at h; omega, rfl⟩

theorem levelNumber_lt {n : Nat} {a : α} (ha : a ∈ (levels.take n).flatten) : levelNumber levels a < n := by
  obtain ⟨level, hlevel, hmem⟩ := List.mem_flatten.1 ha
  obtain ⟨j, hj, rfl⟩ := List.mem_take_iff_getElem.1 hlevel
  by_contra hle
  have hj' : j < levels.findIdx (a ∈ ·) := by
    unfold levelNumber at hle
    omega
  have hnot := List.not_of_lt_findIdx hj'
  simp only [decide_eq_false_iff_not] at hnot
  exact hnot hmem

end

section
variable {nodes : List α} {deps : α → List α} {levels : List (List α)} {a : α}

/-- Where a node of some level stands. -/
theorem LevelSpec.exists_level (h : LevelSpec nodes deps [] levels) (ha : a ∈ levels.flatten) :
    ∃ n level, levels[n]? = some level ∧ a ∈ level ∧ a ∈ nodes ∧ (deps a).Nodup ∧
      (∀ b ∈ deps a, b ∈ (levels.take n).flatten) ∧ a ∉ (levels.take n).flatten := by
  obtain ⟨level, hlevel, hmem⟩ := List.mem_flatten.1 ha
  obtain ⟨n, hl⟩ := List.mem_iff_getElem?.1 hlevel
  obtain ⟨hnode, hfull, hnot⟩ := (h.mem_level hl a).1 hmem
  rw [List.nil_append] at hfull hnot
  have hnodup : (levels.take n).flatten.Nodup := by
    have := h.nodup List.nodup_nil
    rw [List.nil_append, ← List.take_append_drop n levels, List.flatten_append] at this
    exact (List.nodup_append.1 this).1
  obtain ⟨hd, hall⟩ := (full_iff hnodup).1 hfull
  exact ⟨n, level, hl, hmem, hnode, hd, hall, hnot⟩

/-- A node of a level depends on different nodes, which are in levels too. -/
theorem LevelSpec.of_mem (h : LevelSpec nodes deps [] levels) (ha : a ∈ levels.flatten) :
    a ∈ nodes ∧ (deps a).Nodup ∧ ∀ b ∈ deps a, b ∈ levels.flatten := by
  obtain ⟨n, _, _, _, hnode, hd, hall, _⟩ := h.exists_level ha
  refine ⟨hnode, hd, fun b hb => ?_⟩
  rw [← List.take_append_drop n levels, List.flatten_append]
  exact List.mem_append_left _ (hall b hb)

/-- A dependency of a node of the level after `n` is missing from the levels before `n`. -/
theorem LevelSpec.exists_last (h : LevelSpec nodes deps [] levels) {n : Nat} {level : List α}
    (hl : levels[n]? = some level) (hnode : a ∈ nodes) (hd : (deps a).Nodup)
    (hnot : a ∉ (levels.take (n + 1)).flatten) : ∃ b ∈ deps a, b ∉ (levels.take n).flatten := by
  by_contra hall
  have hall : ∀ b ∈ deps a, b ∈ (levels.take n).flatten := by
    intro b hb
    by_contra hmem
    exact hall ⟨b, hb, hmem⟩
  have htake : (levels.take (n + 1)).flatten = (levels.take n).flatten ++ level := by
    rw [List.take_add_one, hl, Option.toList_some, List.flatten_append, List.flatten_singleton]
  have hnodup : (levels.take n).flatten.Nodup := by
    have := h.nodup List.nodup_nil
    rw [List.nil_append, ← List.take_append_drop n levels, List.flatten_append] at this
    exact (List.nodup_append.1 this).1
  rw [htake, List.mem_append, not_or] at hnot
  refine hnot.2 ((h.mem_level hl a).2 ⟨hnode, ?_, ?_⟩)
  · exact (full_iff hnodup).2 ⟨hd, hall⟩
  · exact hnot.1

/-- The number of a node: zero without dependencies, else one more than the largest of theirs. -/
theorem LevelSpec.number (h : LevelSpec nodes deps [] levels) (ha : a ∈ levels.flatten) :
    (deps a = [] → levelNumber levels a = 0) ∧
      (deps a ≠ [] → ∃ b ∈ deps a, levelNumber levels a = levelNumber levels b + 1 ∧
        ∀ c ∈ deps a, levelNumber levels c ≤ levelNumber levels b) := by
  obtain ⟨n, level, hl, hmem, hnode, hd, hall, hnot⟩ := h.exists_level ha
  rw [levelNumber_of_mem hl hmem hnot]
  cases n with
  | zero =>
    refine ⟨fun _ => rfl, fun hne => ?_⟩
    obtain ⟨b, hb⟩ := List.exists_mem_of_ne_nil _ hne
    simpa using hall b hb
  | succ m =>
    obtain ⟨hlt, _⟩ := List.getElem?_eq_some_iff.1 hl
    have hm : levels[m]? = some levels[m] := List.getElem?_eq_getElem (by omega)
    obtain ⟨b, hb, hlast⟩ := h.exists_last hm hnode hd hnot
    have hbm : b ∈ levels[m] := by
      have := hall b hb
      rw [List.take_add_one, hm, Option.toList_some, List.flatten_append, List.flatten_singleton,
        List.mem_append] at this
      exact this.resolve_left hlast
    rw [← levelNumber_of_mem hm hbm hlast]
    refine ⟨fun hnil => by simp [hnil] at hb, fun _ => ⟨b, hb, rfl, fun c hc => ?_⟩⟩
    have hlt := levelNumber_lt (hall c hc)
    rw [levelNumber_of_mem hm hbm hlast]
    omega

/-- In an acyclic graph without repeated dependencies every node is in a level. -/
theorem LevelSpec.covers (h : LevelSpec nodes deps [] levels) {finished : List α} (ho : FinishOrder deps finished)
    (hd : ∀ a ∈ nodes, (deps a).Nodup ∧ ∀ b ∈ deps a, b ∈ nodes) :
    ∀ a ∈ finished, a ∈ nodes → a ∈ levels.flatten := by
  induction ho with
  | nil => simp
  | @cons x l _ hdeps _ ih =>
    intro a ha hnode
    rcases List.mem_cons.1 ha with rfl | ha
    · have hnodup := h.nodup List.nodup_nil
      have hfull : Full deps ([] ++ levels.flatten) a := (full_iff hnodup).2 ⟨(hd a hnode).1, fun b hb => by
        rw [List.nil_append]
        exact ih b (hdeps b hb) ((hd a hnode).2 b hb)⟩
      simpa using h.complete a hnode hfull
    · exact ih a ha hnode

end

end DependencyGraph
