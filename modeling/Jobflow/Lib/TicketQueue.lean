import Mathlib.Data.List.Sort
import Mathlib.Order.Lattice.Nat

/-!
# Queues that are sorted again on every arrival

Items have a key and get tickets with consecutive numbers. A queue where each arrival is put at the end and the whole is
sorted by descending key, with a stable sort, is at any time in the order of `Ahead`: the larger key first, and among
equal keys the smaller number (`pairwise_sort_snoc`): an insertion keeps every order that refines the one it goes by
(`pairwise_orderedInsert`).
-/

namespace TicketQueue

/-- An item and the number of items that arrived before it. -/
structure Ticket (α : Type) where
  number : Nat
  item : α

variable {α β : Type}

/-- The tickets of items that have arrived in this order. -/
def tickets (items : List α) : List (Ticket α) := items.zipIdx.map fun x => ⟨x.2, x.1⟩

theorem tickets_snoc (items : List α) (item : α) :
    tickets (items ++ [item]) = tickets items ++ [⟨items.length, item⟩] := by
  simp [tickets, List.zipIdx_append]

theorem number_lt_of_mem_tickets {items : List α} {t : Ticket α} (h : t ∈ tickets items) : t.number < items.length := by
  obtain ⟨⟨item, i⟩, hmem, rfl⟩ := List.mem_map.1 h
  exact List.snd_lt_of_mem_zipIdx hmem

section
variable [LinearOrder β] {key : α → β}

/-- `t` is to be served before `u`. -/
def Ahead (key : α → β) (t u : Ticket α) : Prop :=
  key u.item < key t.item ∨ key u.item = key t.item ∧ t.number < u.number

theorem Ahead.trans {t u v : Ticket α} (htu : Ahead key t u) (huv : Ahead key u v) : Ahead key t v := by
  rcases htu with hlt | ⟨heq, hnumber⟩
  · rcases huv with hlt' | ⟨heq', -⟩
    · exact .inl (lt_trans hlt' hlt)
    · exact .inl (heq' ▸ hlt)
  · rcases huv with hlt' | ⟨heq', hnumber'⟩
    · exact .inl (heq ▸ hlt')
    · exact .inr ⟨heq'.trans heq, lt_trans hnumber hnumber'⟩

theorem Ahead.key_le {t u : Ticket α} (h : Ahead key t u) : key u.item ≤ key t.item := by
  rcases h with hlt | ⟨heq, -⟩
  · exact le_of_lt hlt
  · exact le_of_eq heq

/-! ## Sorting again -/

/-- An insertion by `r` keeps a list sorted by `lt`, when `lt` decides as `r` does on the new element. -/
theorem pairwise_orderedInsert {r lt : α → α → Prop} [DecidableRel r] (htrans : ∀ a b c, lt a b → lt b c → lt a c)
    {a : α} : ∀ {l : List α}, l.Pairwise lt → (∀ b ∈ l, r a b → lt a b) → (∀ b ∈ l, ¬ r a b → lt b a) →
      (l.orderedInsert r a).Pairwise lt
  | [], _, _, _ => List.pairwise_singleton lt a
  | b :: l, hl, hyes, hno => by
    obtain ⟨hb, hl'⟩ := List.pairwise_cons.1 hl
    by_cases hr : r a b
    · rw [List.orderedInsert_cons_of_le r l hr]
      have hab := hyes b List.mem_cons_self hr
      refine List.pairwise_cons.2 ⟨fun c hc => ?_, hl⟩
      rcases List.mem_cons.1 hc with rfl | hc
      · exact hab
      · exact htrans a b c hab (hb c hc)
    · rw [List.orderedInsert_of_not_le r l hr]
      have hba := hno b List.mem_cons_self hr
      refine List.pairwise_cons.2 ⟨fun c hc => ?_, ?_⟩
      · rcases (List.mem_orderedInsert r).1 hc with rfl | hc
        · exact hba
        · exact hb c hc
      · refine pairwise_orderedInsert htrans hl' (fun c hc => ?_) (fun c hc => ?_)
        · exact hyes c (List.mem_cons_of_mem _ hc)
        · exact hno c (List.mem_cons_of_mem _ hc)

/-- Sorting again, by key alone, after an arrival keeps the queue in order. -/
theorem pairwise_sort_snoc {r : Ticket α → Ticket α → Prop} [DecidableRel r]
    (hr : ∀ a b, r a b ↔ key b.item ≤ key a.item) {t : Ticket α} :
    ∀ {queue : List (Ticket α)}, queue.Pairwise (Ahead key) → (∀ u ∈ queue, u.number < t.number) →
      ((queue ++ [t]).insertionSort r).Pairwise (Ahead key)
  | [], _, _ => List.pairwise_singleton _ t
  | u :: queue, hqueue, hnew => by
    obtain ⟨hu, hqueue'⟩ := List.pairwise_cons.1 hqueue
    have hmem : ∀ v, v ∈ (queue ++ [t]).insertionSort r ↔ v ∈ queue ∨ v = t := by
      intro v
      rw [List.mem_insertionSort, List.mem_append, List.mem_singleton]
    rw [List.cons_append, List.insertionSort_cons]
    refine pairwise_orderedInsert (fun _ _ _ => Ahead.trans)
      (pairwise_sort_snoc hr hqueue' fun v hv => hnew v (List.mem_cons_of_mem _ hv)) ?_ ?_
    · intro v hv hle
      rw [hr] at hle
      rcases (hmem v).1 hv with hv | rfl
      · exact hu v hv
      · rcases lt_or_eq_of_le hle with hlt | heq
        · exact .inl hlt
        · exact .inr ⟨heq, hnew u List.mem_cons_self⟩
    · intro v hv hle
      rw [hr] at hle
      rcases (hmem v).1 hv with hv | rfl
      · exact absurd (hu v hv).key_le hle
      · exact .inl (lt_of_not_ge hle)

end

end TicketQueue
