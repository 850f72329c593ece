import Mathlib.Data.Finset.Lattice.Fold
import Mathlib.Data.List.Perm.Basic
import Mathlib.Order.Lattice.Nat
import Jobflow.Lib.DependencyGraph

/-!
# Depth-first post-order

A search that marks a key when it comes to it, goes on to the keys that the key's node depends on, and then puts out
the node. Keys without a node are only marked; a key that is marked is not looked at again, so a cycle is cut where the
search comes back to it.

`visitAll_ok`: whatever the graph is, a search from given keys with enough fuel puts out the node of every key it comes
to exactly once. `visitAll_depsFirst`: when the graph has no cycle, it puts out every node after the nodes that it
depends on.
-/

namespace PostOrder

variable {K N : Type} [DecidableEq K]

structure State (K N : Type) where
  visited : List K
  out : List N

/-- Visit the key `k`. -/
def visit (node : K → Option N) (deps : N → List K) : Nat → K → State K N → Option (State K N)
  | 0, _, _ => none
  | fuel + 1, k, s =>
    if k ∈ s.visited then some s
    else
      let s := { s with visited := k :: s.visited }
      match node k with
      | none => some s
      | some n => do
        let s ← (deps n).foldlM (fun s d => visit node deps fuel d s) s
        some { s with out := s.out ++ [n] }

/-- Visit the keys of a list in order, from nothing. -/
def visitAll (node : K → Option N) (deps : N → List K) (fuel : Nat) (ks : List K) : Option (State K N) :=
  ks.foldlM (fun s k => visit node deps fuel k s) ⟨[], []⟩

/-! ## What a search has put out -/

section

variable {node : K → Option N} {deps : N → List K} {key : N → K}

/-- What holds between visits; `pending` are the keys whose dependencies are being visited. -/
structure State.Ok (node : K → Option N) (key : N → K) (pending : List K) (s : State K N) : Prop where
  nodup : (s.out.map key).Nodup
  listed : ∀ n ∈ s.out, node (key n) = some n ∧ key n ∈ s.visited
  done : ∀ k ∈ s.visited, ∀ n, node k = some n → k ∈ pending ∨ n ∈ s.out
  pending : ∀ k ∈ pending, k ∈ s.visited ∧ k ∉ s.out.map key

omit [DecidableEq K] in
theorem State.Ok.initial : State.Ok node key [] (⟨[], []⟩ : State K N) := ⟨by simp, by simp, by simp, by simp⟩

/-- What a visit of the keys `targets` has done. -/
structure Visited (node : K → Option N) (key : N → K) (pending targets : List K) (s s' : State K N) : Prop where
  ok : s'.Ok node key pending
  grows : ∀ k ∈ s.visited, k ∈ s'.visited
  reached : ∀ k ∈ targets, k ∈ s'.visited

theorem slack_mono {keys visited visited' : List K} (h : ∀ k ∈ visited, k ∈ visited') :
    DependencyGraph.slack keys visited' ≤ DependencyGraph.slack keys visited := by
  refine (List.monotone_filter_right keys fun k hk => ?_).length_le
  rw [decide_eq_true_eq] at hk ⊢
  exact fun hmem => hk (h k hmem)

/-- Visits in a row, when each of them comes to an end. -/
theorem visits_ok {keys pending : List K} {fuel : Nat}
    (hvisit : ∀ k s, s.Ok node key pending → DependencyGraph.slack keys s.visited < fuel →
      ∃ s', visit node deps fuel k s = some s' ∧ Visited node key pending [k] s s') :
    ∀ (ks : List K) (s : State K N), s.Ok node key pending → DependencyGraph.slack keys s.visited < fuel →
      ∃ s', ks.foldlM (fun s k => visit node deps fuel k s) s = some s' ∧ Visited node key pending ks s s'
  | [], s, hs, _ => ⟨s, rfl, hs, fun _ h => h, by simp⟩
  | k :: ks, s, hs, hfuel => by
    obtain ⟨s₁, hk, h₁⟩ := hvisit k s hs hfuel
    obtain ⟨s₂, hks, h₂⟩ := visits_ok hvisit ks s₁ h₁.ok (Nat.lt_of_le_of_lt (slack_mono h₁.grows) hfuel)
    refine ⟨s₂, ?_, h₂.ok, fun k hk => h₂.grows k (h₁.grows k hk), fun k' hk' => ?_⟩
    · rw [List.foldlM_cons, hk]
      exact hks
    · rcases List.mem_cons.1 hk' with rfl | hk'
      · exact h₂.grows _ (h₁.reached _ (by simp))
      · exact h₂.reached _ hk'

section

omit [DecidableEq K]

variable {pending : List K} {k : K} {n : N} {s : State K N}

/-- A key without a node is marked, and that is all. -/
theorem State.Ok.skip (hs : s.Ok node key pending) (hn : node k = none) :
    State.Ok node key pending { s with visited := k :: s.visited } := by
  refine ⟨hs.nodup, ?_, ?_, ?_⟩
  · intro n hout
    exact ⟨(hs.listed n hout).1, List.mem_cons_of_mem _ (hs.listed n hout).2⟩
  · intro k' hk' n hn'
    rcases List.mem_cons.1 hk' with rfl | hk'
    · rw [hn] at hn'
      cases hn'
    · exact hs.done k' hk' n hn'
  · intro k' hk'
    exact ⟨List.mem_cons_of_mem _ (hs.pending k' hk').1, (hs.pending k' hk').2⟩

/-- A key is pending while its dependencies are visited. -/
theorem State.Ok.enter (hs : s.Ok node key pending) (hmem : k ∉ s.visited) :
    State.Ok node key (k :: pending) { s with visited := k :: s.visited } := by
  refine ⟨hs.nodup, ?_, ?_, ?_⟩
  · intro m hm
    exact ⟨(hs.listed m hm).1, List.mem_cons_of_mem _ (hs.listed m hm).2⟩
  · intro k' hk' m hm
    rcases List.mem_cons.1 hk' with rfl | hk'
    · exact .inl List.mem_cons_self
    · exact (hs.done k' hk' m hm).imp_left (List.mem_cons_of_mem _)
  · intro k' hk'
    rcases List.mem_cons.1 hk' with rfl | hk'
    · refine ⟨List.mem_cons_self, fun hout => ?_⟩
      obtain ⟨m, hm, rfl⟩ := List.mem_map.1 hout
      exact hmem (hs.listed m hm).2
    · exact ⟨List.mem_cons_of_mem _ (hs.pending k' hk').1, (hs.pending k' hk').2⟩

/-- When its dependencies have been visited its node is put out. -/
theorem State.Ok.leave (hs : s.Ok node key (k :: pending)) (hn : node k = some n) (hkey : key n = k)
    (hk : k ∉ pending) : State.Ok node key pending { s with out := s.out ++ [n] } := by
  obtain ⟨hkmem, hkout⟩ := hs.pending k List.mem_cons_self
  refine ⟨?_, ?_, ?_, ?_⟩
  · rw [List.map_append, List.nodup_append]
    refine ⟨hs.nodup, by simp, ?_⟩
    rintro a ha b hb rfl
    rw [List.map_singleton, List.mem_singleton, hkey] at hb
    exact hkout (hb ▸ ha)
  · intro m hm
    rcases List.mem_append.1 hm with hm | hm
    · exact hs.listed m hm
    · rw [List.mem_singleton.1 hm, hkey]
      exact ⟨hn, hkmem⟩
  · intro k' hk' m hm
    rcases hs.done k' hk' m hm with hpending | hm'
    · rcases List.mem_cons.1 hpending with rfl | hpending
      · rw [hn] at hm
        cases hm
        exact .inr (by simp)
      · exact .inl hpending
    · exact .inr (List.mem_append_left _ hm')
  · intro k' hk'
    have h' := hs.pending k' (List.mem_cons_of_mem _ hk')
    refine ⟨h'.1, ?_⟩
    rw [List.map_append, List.mem_append, List.map_singleton, List.mem_singleton, hkey]
    rintro (hmem' | rfl)
    · exact h'.2 hmem'
    · exact hk hk'

end

theorem visit_ok {keys : List K} (hkeys : keys.Nodup) (hnode : ∀ {k n}, node k = some n → k ∈ keys ∧ key n = k) :
    ∀ (fuel : Nat) (pending : List K) (k : K) (s : State K N), s.Ok node key pending →
      DependencyGraph.slack keys s.visited < fuel →
      ∃ s', visit node deps fuel k s = some s' ∧ Visited node key pending [k] s s'
  | 0, _, _, _, _, hfuel => by omega
  | fuel + 1, pending, k, s, hs, hfuel => by
    unfold visit
    by_cases hmem : k ∈ s.visited
    · rw [if_pos hmem]
      exact ⟨s, rfl, hs, fun _ h => h, by simpa using hmem⟩
    · rw [if_neg hmem]
      cases hn : node k with
      | none => exact ⟨_, rfl, hs.skip hn, fun _ h => List.mem_cons_of_mem _ h, by simp⟩
      | some n =>
        obtain ⟨hk, hkey⟩ := hnode hn
        have hslack := DependencyGraph.slack_cons hkeys hk hmem
        have hfuel' : DependencyGraph.slack keys (k :: s.visited) < fuel := by omega
        obtain ⟨s₁, hfold, h₁⟩ :=
          visits_ok (fun k s => visit_ok hkeys hnode fuel _ k s) (deps n) _ (hs.enter hmem) hfuel'
        have hpending : k ∉ pending := fun h => hmem (hs.pending k h).1
        refine ⟨{ s₁ with out := s₁.out ++ [n] }, ?_, h₁.ok.leave hn hkey hpending, ?_, ?_⟩
        · dsimp only
          rw [hfold]
          rfl
        · exact fun k' hk' => h₁.grows k' (List.mem_cons_of_mem _ hk')
        · simpa using h₁.grows k List.mem_cons_self

/-- A search from the keys `ks` comes to an end; it puts out nodes of different keys only, and among them the node of
each of the keys. -/
theorem visitAll_ok {keys : List K} (hkeys : keys.Nodup) (hnode : ∀ {k n}, node k = some n → k ∈ keys ∧ key n = k)
    {fuel : Nat} (hfuel : keys.length < fuel) (ks : List K) :
    ∃ s, visitAll node deps fuel ks = some s ∧ (s.out.map key).Nodup ∧ (∀ n ∈ s.out, node (key n) = some n) ∧
      ∀ k ∈ ks, ∀ n, node k = some n → n ∈ s.out := by
  have hslack : DependencyGraph.slack keys [] < fuel := Nat.lt_of_le_of_lt (List.length_filter_le _ _) hfuel
  obtain ⟨s, hs, h⟩ := visits_ok (fun k s => visit_ok hkeys hnode fuel [] k s) ks _ .initial hslack
  refine ⟨s, hs, h.ok.nodup, fun n hn => (h.ok.listed n hn).1, fun k hk n hn => ?_⟩
  exact (h.ok.done k (h.reached k hk) n hn).resolve_left List.not_mem_nil

/-! ## The order of what is put out -/

/-- The node of the key `k` depends on the key `d`. -/
def Edge (node : K → Option N) (deps : N → List K) (k d : K) : Prop := ∃ n, node k = some n ∧ d ∈ deps n

/-- Every node stands behind the nodes it depends on. -/
def DepsFirst (node : K → Option N) (deps : N → List K) (out : List N) : Prop :=
  ∀ before n after, out = before ++ n :: after → ∀ d ∈ deps n, ∀ m, node d = some m → m ∈ before

section

omit [DecidableEq K]

variable {out : List N} {n : N}

theorem DepsFirst.snoc (h : DepsFirst node deps out) (hn : ∀ d ∈ deps n, ∀ m, node d = some m → m ∈ out) :
    DepsFirst node deps (out ++ [n]) := by
  intro before n' after hsplit d hd m hm
  rcases List.append_eq_append_iff.1 hsplit with ⟨between, hbefore, hlast⟩ | ⟨between, hout, hlast⟩
  · cases between with
    | nil =>
      obtain ⟨rfl, rfl⟩ := List.cons.inj hlast
      rw [hbefore, List.append_nil]
      exact hn d hd m hm
    | cons x xs => simp at hlast
  · cases between with
    | nil =>
      obtain ⟨rfl, rfl⟩ := List.cons.inj hlast
      rw [List.append_nil] at hout
      rw [← hout]
      exact hn d hd m hm
    | cons x xs =>
      obtain ⟨rfl, -⟩ := List.cons.inj hlast
      exact h before n' xs hout d hd m hm

theorem DepsFirst.init (h : DepsFirst node deps (out ++ [n])) : DepsFirst node deps out := by
  rintro before n' after rfl d hd m hm
  exact h before n' (after ++ [n]) (by simp) d hd m hm

theorem DepsFirst.last (h : DepsFirst node deps (out ++ [n])) : ∀ d ∈ deps n, ∀ m, node d = some m → m ∈ out :=
  h out n [] rfl

end

/-- Visits in a row, when each of them keeps the order. -/
theorem visits_first {keys pending : List K} (hkeys : keys.Nodup)
    (hnode : ∀ {k n}, node k = some n → k ∈ keys ∧ key n = k) {fuel : Nat} :
    ∀ (ks : List K), (∀ k ∈ ks, ∀ s s', s.Ok node key pending → DependencyGraph.slack keys s.visited < fuel →
        DepsFirst node deps s.out → visit node deps fuel k s = some s' → DepsFirst node deps s'.out) →
      ∀ (s s' : State K N), s.Ok node key pending → DependencyGraph.slack keys s.visited < fuel →
        DepsFirst node deps s.out → ks.foldlM (fun s k => visit node deps fuel k s) s = some s' →
        DepsFirst node deps s'.out
  | [], _, s, s', _, _, hfirst, h => by
    cases h
    exact hfirst
  | k :: ks, hvisit, s, s', hs, hfuel, hfirst, h => by
    obtain ⟨s₁, hk, h₁⟩ : ∃ s₁, visit node deps fuel k s = some s₁ ∧ Visited node key pending [k] s s₁ :=
      visit_ok hkeys hnode fuel pending k s hs hfuel
    rw [List.foldlM_cons, hk] at h
    exact visits_first hkeys hnode ks (fun k' hk' => hvisit k' (List.mem_cons_of_mem _ hk')) s₁ s' h₁.ok
      (Nat.lt_of_le_of_lt (slack_mono h₁.grows) hfuel) (hvisit k List.mem_cons_self s s₁ hs hfuel hfirst hk) h

/-- The pending keys lead to the key that is visited, so without a cycle none of its dependencies is pending. -/
theorem visit_first {keys : List K} (hkeys : keys.Nodup) (hnode : ∀ {k n}, node k = some n → k ∈ keys ∧ key n = k)
    (hacyclic : ∀ k, ¬ Relation.TransGen (Edge node deps) k k) :
    ∀ (fuel : Nat) (pending : List K) (k : K), (∀ p ∈ pending, Relation.TransGen (Edge node deps) p k) →
      ∀ (s s' : State K N), s.Ok node key pending → DependencyGraph.slack keys s.visited < fuel →
        DepsFirst node deps s.out → visit node deps fuel k s = some s' → DepsFirst node deps s'.out
  | 0, _, _, _, _, _, _, hfuel, _, _ => by omega
  | fuel + 1, pending, k, hchain, s, s', hs, hfuel, hfirst, h => by
    unfold visit at h
    by_cases hmem : k ∈ s.visited
    · rw [if_pos hmem] at h
      cases h
      exact hfirst
    · rw [if_neg hmem] at h
      cases hn : node k with
      | none =>
        rw [hn] at h
        cases h
        exact hfirst
      | some n =>
        rw [hn] at h
        obtain ⟨hk, hkey⟩ := hnode hn
        have hslack := DependencyGraph.slack_cons hkeys hk hmem
        have hfuel' : DependencyGraph.slack keys (k :: s.visited) < fuel := by omega
        obtain ⟨s₁, hfold, h₁⟩ :=
          visits_ok (fun k s => visit_ok hkeys hnode fuel _ k s) (deps n) _ (hs.enter hmem) hfuel'
        have hchain' : ∀ d ∈ deps n, ∀ p ∈ k :: pending, Relation.TransGen (Edge node deps) p d := by
          intro d hd p hp
          rcases List.mem_cons.1 hp with rfl | hp
          · exact .single ⟨n, hn, hd⟩
          · exact (hchain p hp).tail ⟨n, hn, hd⟩
        have hfirst₁ : DepsFirst node deps s₁.out :=
          visits_first hkeys hnode (deps n)
            (fun d hd => visit_first hkeys hnode hacyclic fuel (k :: pending) d (hchain' d hd))
            _ s₁ (hs.enter hmem) hfuel' hfirst hfold
        dsimp only at h
        rw [hfold] at h
        cases h
        refine hfirst₁.snoc fun d hd m hm => ?_
        refine (h₁.ok.done d (h₁.reached d hd) m hm).resolve_left fun hpending => ?_
        exact hacyclic d (hchain' d hd d hpending)

/-- Without a cycle the search puts out every node after the nodes it depends on. -/
theorem visitAll_depsFirst {keys : List K} (hkeys : keys.Nodup)
    (hnode : ∀ {k n}, node k = some n → k ∈ keys ∧ key n = k)
    (hacyclic : ∀ k, ¬ Relation.TransGen (Edge node deps) k k) {fuel : Nat} (hfuel : keys.length < fuel) {ks : List K}
    {s : State K N} (h : visitAll node deps fuel ks = some s) : DepsFirst node deps s.out := by
  have hslack : DependencyGraph.slack keys [] < fuel := Nat.lt_of_le_of_lt (List.length_filter_le _ _) hfuel
  refine visits_first hkeys hnode ks (fun k _ => visit_first hkeys hnode hacyclic fuel [] k (by simp)) _ s .initial
    hslack ?_ h
  intro before n after hsplit
  simp at hsplit

/-! ## Depths -/

/-- How long the longest chain of dependencies from a key is; a key without a node has none. -/
structure IsDepth (node : K → Option N) (deps : N → List K) (depth : K → Nat) : Prop where
  unknown : ∀ k, node k = none → depth k = 0
  known : ∀ k n, node k = some n → depth k = (deps n).toFinset.sup depth + 1

variable {depth depth' : K → Nat}

/-- A node is deeper than what it depends on. -/
theorem IsDepth.lt (h : IsDepth node deps depth) {k d : K} (he : Edge node deps k d) : depth d < depth k := by
  obtain ⟨n, hn, hd⟩ := he
  rw [h.known k n hn]
  exact Nat.lt_succ_of_le (Finset.le_sup (f := depth) (List.mem_toFinset.2 hd))

/-- Where keys have depths there is no cycle. -/
theorem IsDepth.acyclic (h : IsDepth node deps depth) : ∀ k, ¬ Relation.TransGen (Edge node deps) k k := by
  have hlt : ∀ k d, Relation.TransGen (Edge node deps) k d → depth d < depth k := by
    intro k d hkd
    induction hkd with
    | single he => exact h.lt he
    | tail _ he ih => exact (h.lt he).trans ih
  exact fun k hk => lt_irrefl _ (hlt k k hk)

/-- The nodes that are put out in order have one depth only. -/
theorem IsDepth.eq_on {out : List N} (h : IsDepth node deps depth) (h' : IsDepth node deps depth')
    (hkey : ∀ {k n}, node k = some n → key n = k) (hout : ∀ n ∈ out, node (key n) = some n)
    (hfirst : DepsFirst node deps out) : ∀ n ∈ out, depth (key n) = depth' (key n) := by
  induction out using List.reverseRecOn with
  | nil => simp
  | append_singleton out n ih =>
    have hlisted : ∀ m ∈ out, depth (key m) = depth' (key m) :=
      ih (fun m hm => hout m (List.mem_append_left _ hm)) hfirst.init
    intro m hm
    rcases List.mem_append.1 hm with hm | hm
    · exact hlisted m hm
    · obtain rfl := List.mem_singleton.1 hm
      have hnode := hout m (List.mem_append_right _ (by simp))
      rw [h.known _ m hnode, h'.known _ m hnode]
      refine congrArg (· + 1) (Finset.sup_congr rfl fun d hd => ?_)
      cases hdep : node d with
      | none => rw [h.unknown d hdep, h'.unknown d hdep]
      | some u =>
        have hu := hlisted u (hfirst.last d (List.mem_toFinset.1 hd) u hdep)
        rwa [hkey hdep] at hu

/-- So there is one depth only when all nodes are put out in order. -/
theorem IsDepth.unique {out : List N} (h : IsDepth node deps depth) (h' : IsDepth node deps depth')
    (hkey : ∀ {k n}, node k = some n → key n = k) (hout : ∀ n, n ∈ out ↔ node (key n) = some n)
    (hfirst : DepsFirst node deps out) : depth = depth' := by
  funext k
  cases hn : node k with
  | none => rw [h.unknown k hn, h'.unknown k hn]
  | some n =>
    have hk := hkey hn
    have heq := h.eq_on h' hkey (fun m hm => (hout m).1 hm) hfirst n ((hout n).2 (by rw [hk]; exact hn))
    rwa [hk] at heq

/-- A list that is sorted by depth has every node behind the nodes it depends on. -/
theorem IsDepth.depsFirst {out : List N} (h : IsDepth node deps depth)
    (hkey : ∀ {k n}, node k = some n → key n = k) (hout : ∀ n, n ∈ out ↔ node (key n) = some n)
    (hsorted : out.Pairwise fun n m => depth (key n) ≤ depth (key m)) : DepsFirst node deps out := by
  rintro before n after rfl d hd m hm
  have hn : node (key n) = some n := (hout n).1 (by simp)
  have hlt : depth (key m) < depth (key n) := by
    rw [hkey hm]
    exact h.lt ⟨n, hn, hd⟩
  have hmem : m ∈ before ++ n :: after := (hout m).2 (by rw [hkey hm]; exact hm)
  rcases List.mem_append.1 hmem with hmem | hmem
  · exact hmem
  · have hle : depth (key n) ≤ depth (key m) := by
      rcases List.mem_cons.1 hmem with rfl | hafter
      · exact le_refl _
      · exact (List.pairwise_cons.1 (List.pairwise_append.1 hsorted).2.1).1 m hafter
    omega

end

end PostOrder
