import Mathlib.Logic.Relation
import Mathlib.Data.List.Nodup

/-!
# Dependency graphs and the depth-first cycle check

`deps a` lists what `a` depends on. A *finish order* is a list in which every node comes before its
dependencies (the order in which a depth-first search finishes nodes, newest first); it certifies
that the graph below it has no cycle, and it yields a ready node in every nonempty pending set.

`visit` is the depth-first search with a `visiting` and a `visited` set: it stops at a node that is
still being visited. `visitAll_finishOrder`: when it gets through, the visited nodes are a finish
order. `visitAll_cycle`: when it stops at a node, there is a cycle through it.
`visitAll_enough_fuel`: with one unit of fuel more than there are nodes with dependencies, the
recursion never runs dry, so the fuel is not part of the answer.
-/

namespace DependencyGraph

variable {α : Type}

/-! ## Finish orders -/

/-- Every node of the list comes before all its dependencies. -/
inductive FinishOrder (deps : α → List α) : List α → Prop
  | nil : FinishOrder deps []
  | cons {a : α} {l : List α} : a ∉ l → (∀ b ∈ deps a, b ∈ l) → FinishOrder deps l → FinishOrder deps (a :: l)

theorem FinishOrder.closed {deps : α → List α} {l : List α} (h : FinishOrder deps l) :
    ∀ a ∈ l, ∀ b ∈ deps a, b ∈ l := by
  induction h with
  | nil => simp
  | cons _ hdeps _ ih =>
    intro x hx b hb
    rcases List.mem_cons.1 hx with rfl | hx
    · exact List.mem_cons_of_mem _ (hdeps b hb)
    · exact List.mem_cons_of_mem _ (ih x hx b hb)

theorem FinishOrder.nodup {deps : α → List α} {l : List α} (h : FinishOrder deps l) : l.Nodup := by
  induction h with
  | nil => exact List.nodup_nil
  | cons ha _ _ ih => exact List.nodup_cons.2 ⟨ha, ih⟩

/-- Whatever is reachable from the tail of a finish order stays in the tail. -/
theorem FinishOrder.reach {deps : α → List α} {l : List α} (h : FinishOrder deps l) {a b : α} (ha : a ∈ l)
    (hab : Relation.TransGen (fun x y => y ∈ deps x) a b) : b ∈ l := by
  induction hab with
  | single hb => exact h.closed a ha _ hb
  | tail _ hb ih => exact h.closed _ ih _ hb

theorem FinishOrder.acyclic {deps : α → List α} {l : List α} (h : FinishOrder deps l) :
    ∀ a ∈ l, ¬ Relation.TransGen (fun x y => y ∈ deps x) a a := by
  induction h with
  | nil => simp
  | @cons a l ha hdeps hl ih =>
    intro x hx hcyc
    rcases List.mem_cons.1 hx with rfl | hx
    · obtain ⟨y, hy, hyx⟩ := Relation.TransGen.head'_iff.1 hcyc
      rcases Relation.reflTransGen_iff_eq_or_transGen.1 hyx with rfl | hyx
      · exact ha (hdeps _ hy)
      · exact ha (hl.reach (hdeps y hy) hyx)
    · exact ih x hx hcyc

/-- A nonempty pending set below a finish order has a member none of whose dependencies is pending. -/
theorem FinishOrder.exists_ready {deps : α → List α} {l : List α} (h : FinishOrder deps l) (pending : α → Prop) :
    (∃ a ∈ l, pending a) → ∃ a ∈ l, pending a ∧ ∀ b ∈ deps a, ¬ pending b := by
  induction h with
  | nil => simp
  | @cons a l _ hdeps _ ih =>
    rintro ⟨x, hx, hp⟩
    by_cases hl : ∃ y ∈ l, pending y
    · obtain ⟨y, hy, hpy, hd⟩ := ih hl
      exact ⟨y, List.mem_cons_of_mem _ hy, hpy, hd⟩
    · have hxa : x = a := by
        rcases List.mem_cons.1 hx with rfl | hx
        · rfl
        · exact absurd ⟨x, hx, hp⟩ hl
      subst hxa
      exact ⟨x, List.mem_cons_self, hp, fun b hb hpb => hl ⟨b, hdeps b hb, hpb⟩⟩

/-! ## The search -/

/-- The two sets a search carries. -/
structure Marks (α : Type) where
  visiting : List α
  visited : List α

/-- Why a search stopped early. -/
inductive Stop (α : Type) where
  | cycle (a : α)
  | outOfFuel

variable [DecidableEq α]

/-- Visit `a`: finished nodes are skipped, a node still being visited closes a cycle, any other node
is marked, its dependencies are visited in order, and it is moved to the finished ones. -/
def visit (deps : α → List α) : Nat → α → Marks α → Except (Stop α) (Marks α)
  | 0, _, _ => .error .outOfFuel
  | fuel + 1, a, m =>
    if a ∈ m.visited then .ok m
    else if a ∈ m.visiting then .error (.cycle a)
    else do
      let m' ← (deps a).foldlM (fun m b => visit deps fuel b m) { m with visiting := a :: m.visiting }
      .ok { visiting := m'.visiting.filter (· ≠ a), visited := a :: m'.visited }

/-- Visit every node of a list in order, from empty sets. -/
def visitAll (deps : α → List α) (fuel : Nat) (nodes : List α) : Except (Stop α) (Marks α) :=
  nodes.foldlM (fun m a => visit deps fuel a m) ⟨[], []⟩

/-! ## When it gets through -/

/-- What the two sets satisfy between visits. -/
structure Marks.Ok (deps : α → List α) (m : Marks α) : Prop where
  order : FinishOrder deps m.visited
  apart : ∀ a ∈ m.visiting, a ∉ m.visited

/-- What a visit (or a list of visits) that gets through has done. -/
structure Visited (deps : α → List α) (targets : List α) (m m' : Marks α) : Prop where
  ok : m'.Ok deps
  visiting : m'.visiting = m.visiting
  grows : ∀ a ∈ m.visited, a ∈ m'.visited
  reached : ∀ a ∈ targets, a ∈ m'.visited

theorem visits_ok {deps : α → List α} {fuel : Nat}
    (hvisit : ∀ a m m', m.Ok deps → visit deps fuel a m = .ok m' → Visited deps [a] m m') :
    ∀ (l : List α) (m m' : Marks α), m.Ok deps → l.foldlM (fun m b => visit deps fuel b m) m = .ok m' →
      Visited deps l m m'
  | [], m, m', hm, h => by
    cases h
    exact ⟨hm, rfl, fun _ h => h, by simp⟩
  | b :: l, m, m', hm, h => by
    rw [List.foldlM_cons] at h
    cases hb : visit deps fuel b m with
    | error e => rw [hb] at h; cases h
    | ok m₁ =>
      rw [hb] at h
      have h₁ := hvisit b m m₁ hm hb
      have h₂ := visits_ok hvisit l m₁ m' h₁.ok h
      refine ⟨h₂.ok, h₂.visiting.trans h₁.visiting, fun a ha => h₂.grows a (h₁.grows a ha), fun a ha => ?_⟩
      rcases List.mem_cons.1 ha with rfl | ha
      · exact h₂.grows a (h₁.reached a (by simp))
      · exact h₂.reached a ha

theorem visit_ok {deps : α → List α} : ∀ (fuel : Nat) (a : α) (m m' : Marks α),
    m.Ok deps → visit deps fuel a m = .ok m' → Visited deps [a] m m'
  | 0, _, _, _, _, h => by cases h
  | fuel + 1, a, m, m', hm, h => by
    simp only [visit] at h
    split at h
    · rename_i hv
      cases h
      exact ⟨hm, rfl, fun _ h => h, by simpa using hv⟩
    · rename_i hv
      split at h
      · cases h
      · rename_i hg
        cases hf : (deps a).foldlM (fun m b => visit deps fuel b m) { m with visiting := a :: m.visiting } with
        | error e => rw [hf] at h; cases h
        | ok m₁ =>
          rw [hf] at h
          cases h
          -- the node is on the stack while its dependencies are visited
          have hm₀ : Marks.Ok deps { m with visiting := a :: m.visiting } :=
            ⟨hm.order, fun x hx => (List.mem_cons.1 hx).elim (fun he => he ▸ hv) (hm.apart x)⟩
          have h₁ := visits_ok (fun b m m' => visit_ok fuel b m m') (deps a) _ m₁ hm₀ hf
          have hvis : m₁.visiting = a :: m.visiting := h₁.visiting
          have ha₁ : a ∉ m₁.visited := h₁.ok.apart a (by simp [hvis])
          have hback : m₁.visiting.filter (fun x => decide (x ≠ a)) = m.visiting := by
            rw [hvis, List.filter_cons_of_neg (by simp)]
            refine List.filter_eq_self.2 fun x hx => ?_
            have hxa : x ≠ a := fun he => hg (he ▸ hx)
            simp [hxa]
          refine ⟨⟨.cons ha₁ h₁.reached h₁.ok.order, ?_⟩, hback, fun x hx => ?_, by simp⟩
          · intro x hx
            simp only [hback] at hx
            simp only [List.mem_cons, not_or]
            exact ⟨fun he => hg (he ▸ hx), h₁.ok.apart x (by simp [hvis, hx])⟩
          · exact List.mem_cons_of_mem _ (h₁.grows x hx)

/-- A search that gets through has put its nodes, and all they depend on, in a finish order. -/
theorem visitAll_finishOrder {deps : α → List α} {fuel : Nat} {nodes : List α} {m : Marks α}
    (h : visitAll deps fuel nodes = .ok m) : FinishOrder deps m.visited ∧ ∀ a ∈ nodes, a ∈ m.visited := by
  have := visits_ok (fun a m m' => visit_ok fuel a m m') nodes _ m ⟨.nil, by simp⟩ h
  exact ⟨this.ok.order, this.reached⟩

/-! ## When it finds a cycle -/

/-- A search that stops at a node being visited has found a cycle through it. -/
theorem visit_cycle {deps : α → List α} {b : α} : ∀ (fuel : Nat) (a : α) (m : Marks α), m.Ok deps →
    (∀ x ∈ m.visiting, Relation.TransGen (fun x y => y ∈ deps x) x a) →
    visit deps fuel a m = .error (.cycle b) → Relation.TransGen (fun x y => y ∈ deps x) b b
  | 0, _, _, _, _, h => by cases h
  | fuel + 1, a, m, hm, hpath, h => by
    simp only [visit] at h
    split at h
    · cases h
    · rename_i hv
      split at h
      · rename_i hg
        cases h
        exact hpath _ hg
      · have hm₀ : Marks.Ok deps { m with visiting := a :: m.visiting } :=
          ⟨hm.order, fun x hx => (List.mem_cons.1 hx).elim (fun he => he ▸ hv) (hm.apart x)⟩
        -- whatever is being visited leads to the node, and from there to each dependency
        have hstep : ∀ c ∈ deps a, ∀ x ∈ a :: m.visiting, Relation.TransGen (fun x y => y ∈ deps x) x c := by
          intro c hc x hx
          rcases List.mem_cons.1 hx with rfl | hx
          · exact .single hc
          · exact (hpath x hx).tail hc
        have hfold : ∀ (l : List α) (m₁ : Marks α), m₁.Ok deps → m₁.visiting = a :: m.visiting →
            (∀ c ∈ l, c ∈ deps a) → l.foldlM (fun m b => visit deps fuel b m) m₁ = .error (.cycle b) →
            Relation.TransGen (fun x y => y ∈ deps x) b b := by
          intro l
          induction l with
          | nil => intro _ _ _ _ h; cases h
          | cons c l ih =>
            intro m₁ hm₁ hvis hl h
            have hpath₁ : ∀ x ∈ m₁.visiting, Relation.TransGen (fun x y => y ∈ deps x) x c := by
              rw [hvis]
              exact hstep c (hl c List.mem_cons_self)
            rw [List.foldlM_cons] at h
            cases hr : visit deps fuel c m₁ with
            | error e =>
              rw [hr] at h
              cases h
              exact visit_cycle fuel c m₁ hm₁ hpath₁ hr
            | ok m₂ =>
              rw [hr] at h
              have h₂ := visit_ok fuel c m₁ m₂ hm₁ hr
              exact ih m₂ h₂.ok (h₂.visiting.trans hvis) (fun x hx => hl x (List.mem_cons_of_mem _ hx)) h
        cases hf : (deps a).foldlM (fun m b => visit deps fuel b m) { m with visiting := a :: m.visiting } with
        | error e =>
          rw [hf] at h
          cases h
          exact hfold (deps a) _ hm₀ rfl (fun _ h => h) hf
        | ok m₁ =>
          rw [hf] at h
          cases h

theorem visitAll_cycle {deps : α → List α} {b : α} {fuel : Nat} {nodes : List α}
    (h : visitAll deps fuel nodes = .error (.cycle b)) : Relation.TransGen (fun x y => y ∈ deps x) b b := by
  have hall : ∀ (l : List α) (m : Marks α), m.Ok deps → m.visiting = [] →
      l.foldlM (fun m a => visit deps fuel a m) m = .error (.cycle b) →
      Relation.TransGen (fun x y => y ∈ deps x) b b := by
    intro l
    induction l with
    | nil => intro _ _ _ h; cases h
    | cons c l ih =>
      intro m hm hvis h
      rw [List.foldlM_cons] at h
      cases hr : visit deps fuel c m with
      | error e =>
        rw [hr] at h
        cases h
        exact visit_cycle fuel c m hm (by simp [hvis]) hr
      | ok m₂ =>
        rw [hr] at h
        have h₂ := visit_ok fuel c m m₂ hm hr
        exact ih m₂ h₂.ok (h₂.visiting.trans hvis) h
  exact hall nodes _ ⟨.nil, by simp⟩ rfl h

/-! ## The fuel is enough -/

/-- How many of the nodes with dependencies are not being visited. -/
def slack (nodes visiting : List α) : Nat := (nodes.filter (fun a => a ∉ visiting)).length

theorem slack_cons {nodes visiting : List α} {a : α} (hn : nodes.Nodup) (ha : a ∈ nodes) (hg : a ∉ visiting) :
    slack nodes (a :: visiting) + 1 = slack nodes visiting := by
  unfold slack
  induction nodes with
  | nil => simp at ha
  | cons x xs ih =>
    rw [List.nodup_cons] at hn
    rcases List.mem_cons.1 ha with rfl | hxs
    · have hrest : xs.filter (fun y => y ∉ a :: visiting) = xs.filter (fun y => y ∉ visiting) :=
        List.filter_congr fun y hy => by
          have : y ≠ a := fun he => hn.1 (he ▸ hy)
          simp [this]
      rw [List.filter_cons_of_neg (by simp), List.filter_cons_of_pos (by simpa using hg), hrest]
      rfl
    · have hxa : x ≠ a := fun he => hn.1 (he ▸ hxs)
      by_cases hx : x ∈ visiting
      · rw [List.filter_cons_of_neg (by simp [hx]), List.filter_cons_of_neg (by simp [hx])]
        exact ih hn.2 hxs
      · rw [List.filter_cons_of_pos (by simp [hx, hxa]), List.filter_cons_of_pos (by simp [hx])]
        have := ih hn.2 hxs
        simp only [List.length_cons]
        omega

theorem visit_enough_fuel {deps : α → List α} {nodes : List α} (hn : nodes.Nodup)
    (hdeps : ∀ a, deps a ≠ [] → a ∈ nodes) : ∀ (fuel : Nat) (a : α) (m : Marks α),
    m.Ok deps → slack nodes m.visiting < fuel → visit deps fuel a m ≠ .error .outOfFuel
  | 0, _, _, _, h => by omega
  | fuel + 1, a, m, hm, hlt => by
    simp only [visit]
    split
    · simp
    · rename_i hv
      split
      · simp
      · rename_i hg
        have hm₀ : Marks.Ok deps { m with visiting := a :: m.visiting } :=
          ⟨hm.order, fun x hx => (List.mem_cons.1 hx).elim (fun he => he ▸ hv) (hm.apart x)⟩
        have hfold : ∀ (l : List α) (m₁ : Marks α), m₁.Ok deps → m₁.visiting = a :: m.visiting → a ∈ nodes →
            l.foldlM (fun m b => visit deps fuel b m) m₁ ≠ .error .outOfFuel := by
          intro l
          induction l with
          | nil => intro m₁ _ _ _; simp [pure, Except.pure]
          | cons b l ih =>
            intro m₁ hm₁ hvis ha
            have hs := slack_cons hn ha hg
            have hb := visit_enough_fuel hn hdeps fuel b m₁ hm₁ (by rw [hvis]; omega)
            rw [List.foldlM_cons]
            cases hr : visit deps fuel b m₁ with
            | error e =>
              rw [hr] at hb
              simpa [bind, Except.bind] using hb
            | ok m₂ =>
              have h₂ := visit_ok fuel b m₁ m₂ hm₁ hr
              simpa [bind, Except.bind] using ih m₂ h₂.ok (h₂.visiting.trans hvis) ha
        cases hd : deps a with
        | nil => simp [pure, Except.pure, bind, Except.bind]
        | cons b l =>
          have ha : a ∈ nodes := hdeps a (by simp [hd])
          have := hfold (b :: l) _ hm₀ rfl ha
          cases hr : (b :: l).foldlM (fun m b => visit deps fuel b m)
              { m with visiting := a :: m.visiting } with
          | error e => simpa [hr, bind, Except.bind] using this
          | ok m₂ => simp [bind, Except.bind]

/-- With one unit of fuel more than there are nodes with dependencies the search always answers. -/
theorem visitAll_enough_fuel {deps : α → List α} {nodes : List α} (hn : nodes.Nodup)
    (hdeps : ∀ a, deps a ≠ [] → a ∈ nodes) {fuel : Nat} (hfuel : nodes.length < fuel) (targets : List α) :
    visitAll deps fuel targets ≠ .error .outOfFuel := by
  have hall : ∀ (l : List α) (m : Marks α), m.Ok deps → m.visiting = [] →
      l.foldlM (fun m a => visit deps fuel a m) m ≠ .error .outOfFuel := by
    intro l
    induction l with
    | nil => intro m _ _; simp [pure, Except.pure]
    | cons b l ih =>
      intro m hm hvis
      have hslack : slack nodes m.visiting < fuel := by
        rw [hvis, slack]
        exact Nat.lt_of_le_of_lt (List.length_filter_le _ _) hfuel
      have hb := visit_enough_fuel hn hdeps fuel b m hm hslack
      rw [List.foldlM_cons]
      cases hr : visit deps fuel b m with
      | error e =>
        rw [hr] at hb
        simpa [bind, Except.bind] using hb
      | ok m₂ =>
        have h₂ := visit_ok fuel b m m₂ hm hr
        simpa [bind, Except.bind] using ih m₂ h₂.ok (h₂.visiting.trans hvis)
  exact hall targets _ ⟨.nil, by simp⟩ rfl

/-- A search from all the nodes that have dependencies stops at a cycle exactly when there is one. -/
theorem visitAll_error_iff {deps : α → List α} {nodes targets : List α} (hn : nodes.Nodup)
    (hdeps : ∀ a, deps a ≠ [] → a ∈ nodes) {fuel : Nat} (hfuel : nodes.length < fuel)
    (htargets : ∀ a ∈ nodes, a ∈ targets) :
    (∃ stop, visitAll deps fuel targets = .error stop) ↔
      ∃ a, Relation.TransGen (fun x y => y ∈ deps x) a a := by
  constructor
  · rintro ⟨stop, h⟩
    cases stop with
    | cycle a => exact ⟨a, visitAll_cycle h⟩
    | outOfFuel => exact absurd h (visitAll_enough_fuel hn hdeps hfuel targets)
  · rintro ⟨a, hcycle⟩
    cases h : visitAll deps fuel targets with
    | error stop => exact ⟨stop, rfl⟩
    | ok m =>
      obtain ⟨ho, hreached⟩ := visitAll_finishOrder h
      obtain ⟨b, hb, _⟩ := Relation.TransGen.head'_iff.1 hcycle
      have ha : a ∈ m.visited := hreached a (htargets a (hdeps a (List.ne_nil_of_mem hb)))
      exact absurd hcycle (ho.acyclic a ha)

end DependencyGraph
