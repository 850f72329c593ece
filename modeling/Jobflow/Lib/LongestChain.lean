import Mathlib.Data.List.Chain
import Mathlib.Logic.Relation
import Mathlib.Order.Bounds.Basic
import Mathlib.Order.BoundedOrder.Basic

/-!
# Heaviest chains in a dependency graph

A chain is a list of nodes each of which is a dependency of the next. `Heaviest a` certifies a heaviest chain that ends
in `a`, `HeaviestOf as` a heaviest one that is empty or ends in one of `as`. Keeping the better of two certificates
(`HeaviestOf.snoc`) and putting a node behind its best dependency (`HeaviestOf.extend`) keep them valid, so any
recursion made of these two steps, with or without a memo, ends with a heaviest chain of the graph
(`HeaviestOf.isGreatest`). Costs need not add up exactly: each addition is only to keep the order.
-/

namespace LongestChain

variable {α M : Type} {deps : α → List α} {node : α → Prop}

/-- Nodes of the graph, each a dependency of the next. -/
structure Chain (deps : α → List α) (node : α → Prop) (l : List α) : Prop where
  nodes : ∀ a ∈ l, node a
  linked : l.IsChain fun a b => a ∈ deps b

theorem Chain.nil : Chain deps node [] := ⟨by simp, .nil⟩

theorem Chain.left {l l' : List α} (h : Chain deps node (l ++ l')) : Chain deps node l :=
  ⟨fun a ha => h.nodes a (List.mem_append_left _ ha), h.linked.left_of_append⟩

/-- A chain behind which a node is put. -/
theorem chain_concat {l : List α} {a : α} :
    Chain deps node (l ++ [a]) ↔ Chain deps node l ∧ node a ∧ ∀ b ∈ l.getLast?, b ∈ deps a := by
  constructor
  · intro h
    refine ⟨h.left, h.nodes a (by simp), fun b hb => ?_⟩
    exact (List.isChain_append.1 h.linked).2.2 b hb a (by simp)
  · rintro ⟨hl, ha, hlast⟩
    refine ⟨fun x hx => ?_, List.isChain_append.2 ⟨hl.linked, .singleton a, fun b hb x hx => ?_⟩⟩
    · rcases List.mem_append.1 hx with hx | hx
      · exact hl.nodes x hx
      · exact List.mem_singleton.1 hx ▸ ha
    · obtain rfl : a = x := by simpa using hx
      exact hlast b hb

/-- What a chain goes through lies below its last node. -/
theorem Chain.nodup (hacyclic : ∀ a, ¬ Relation.TransGen (fun x y => y ∈ deps x) a a) {l : List α}
    (h : Chain deps node l) : l.Nodup := by
  have htrans : l.IsChain (fun a b => Relation.TransGen (fun x y => y ∈ deps x) b a) :=
    h.linked.imp fun _ _ hab => .single hab
  have hpairwise : l.Pairwise (fun a b => Relation.TransGen (fun x y => y ∈ deps x) b a) :=
    haveI : Trans (fun a b => Relation.TransGen (fun x y => y ∈ deps x) b a)
        (fun a b => Relation.TransGen (fun x y => y ∈ deps x) b a)
        (fun a b => Relation.TransGen (fun x y => y ∈ deps x) b a) := ⟨fun hba hcb => hcb.trans hba⟩
    htrans.pairwise
  refine hpairwise.imp fun {a b} hba hab => ?_
  exact hacyclic a (by rwa [← hab] at hba)

section
variable [LinearOrder M] [OrderBot M] {add : M → α → M}

/-- The cost of a list: `add` puts what a node costs on what comes before it, and need not be exact. -/
def total (add : M → α → M) (l : List α) : M := l.foldl add ⊥

@[simp] theorem total_nil : total add [] = ⊥ := rfl

@[simp] theorem total_concat (l : List α) (a : α) : total add (l ++ [a]) = add (total add l) a := by
  simp [total]

/-- A heaviest chain that ends in `a`, and its cost. -/
structure Heaviest (deps : α → List α) (node : α → Prop) (add : M → α → M) (a : α) (cost : M) (path : List α) :
    Prop where
  chain : Chain deps node path
  ends : path.getLast? = some a
  total : total add path = cost
  max : ∀ l, Chain deps node (l ++ [a]) → LongestChain.total add (l ++ [a]) ≤ cost

/-- A heaviest chain among the empty one and those that end in one of `as`. -/
structure HeaviestOf (deps : α → List α) (node : α → Prop) (add : M → α → M) (as : List α) (cost : M)
    (path : List α) : Prop where
  chain : Chain deps node path
  ends : ∀ b ∈ path.getLast?, b ∈ as
  total : total add path = cost
  max : ∀ a ∈ as, ∀ l, Chain deps node (l ++ [a]) → LongestChain.total add (l ++ [a]) ≤ cost

theorem HeaviestOf.nil : HeaviestOf deps node add [] ⊥ [] :=
  ⟨.nil, by simp, rfl, by simp⟩

section
variable {as : List α} {a : α} {cost cost' : M} {path path' : List α}

/-- A name that is no node ends no chain. -/
theorem HeaviestOf.snoc_unknown (h : HeaviestOf deps node add as cost path) (ha : ¬ node a) :
    HeaviestOf deps node add (as ++ [a]) cost path := by
  refine ⟨h.chain, fun b hb => List.mem_append_left _ (h.ends b hb), h.total, fun b hb l hl => ?_⟩
  rcases List.mem_append.1 hb with hb | hb
  · exact h.max b hb l hl
  · obtain rfl := List.mem_singleton.1 hb
    exact absurd (hl.nodes b (by simp)) ha

/-- The strictly better one of two is kept. -/
theorem HeaviestOf.snoc (h : HeaviestOf deps node add as cost path) (ha : Heaviest deps node add a cost' path') :
    HeaviestOf deps node add (as ++ [a]) (if cost < cost' then cost' else cost)
      (if cost < cost' then path' else path) := by
  by_cases hlt : cost < cost'
  · rw [if_pos hlt, if_pos hlt]
    refine ⟨ha.chain, fun b hb => ?_, ha.total, fun b hb l hl => ?_⟩
    · rw [ha.ends, Option.mem_some_iff] at hb
      exact List.mem_append_right _ (by simp [hb])
    · rcases List.mem_append.1 hb with hb | hb
      · exact (h.max b hb l hl).trans hlt.le
      · obtain rfl := List.mem_singleton.1 hb
        exact ha.max l hl
  · rw [if_neg hlt, if_neg hlt]
    refine ⟨h.chain, fun b hb => List.mem_append_left _ (h.ends b hb), h.total, fun b hb l hl => ?_⟩
    rcases List.mem_append.1 hb with hb | hb
    · exact h.max b hb l hl
    · obtain rfl := List.mem_singleton.1 hb
      exact (ha.max l hl).trans (not_lt.1 hlt)

/-- A node goes behind the best of its dependencies, if its cost keeps the order of what it is put on. -/
theorem HeaviestOf.extend (hmono : Monotone fun m => add m a) (h : HeaviestOf deps node add (deps a) cost path)
    (ha : node a) : Heaviest deps node add a (add cost a) (path ++ [a]) := by
  refine ⟨chain_concat.2 ⟨h.chain, ha, h.ends⟩, by simp, by rw [total_concat, h.total], fun l hl => ?_⟩
  rw [total_concat]
  apply hmono
  obtain ⟨hchain, -, hlast⟩ := chain_concat.1 hl
  rcases List.eq_nil_or_concat' l with rfl | ⟨l', b, rfl⟩
  · exact bot_le
  · exact h.max b (hlast b (by simp)) l' hchain

/-- Over all nodes, no chain of the graph is heavier. -/
theorem HeaviestOf.isGreatest (h : HeaviestOf deps node add as cost path) (has : ∀ a, node a → a ∈ as) :
    IsGreatest {w | ∃ l, Chain deps node l ∧ LongestChain.total add l = w} cost := by
  refine ⟨⟨path, h.chain, h.total⟩, ?_⟩
  rintro _ ⟨l, hl, rfl⟩
  rcases List.eq_nil_or_concat' l with rfl | ⟨l', a, rfl⟩
  · exact bot_le
  · exact h.max a (has a (hl.nodes a (by simp))) l' hl

end

end

end LongestChain
