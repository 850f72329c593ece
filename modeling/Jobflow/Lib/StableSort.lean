import Mathlib.Data.List.Sort

/-!
# Stable sorting under a preorder

Elements that a total preorder ranks the same are tied. A stable sort leaves tied elements in their order, and that
order is all that the result depends on, apart from which elements there are (`insertionSort_eq_iff`).
-/

namespace StableSort

variable {α : Type} {r : α → α → Prop}

/-- `a` and `b` are ranked the same. -/
def Tied (r : α → α → Prop) (a b : α) : Prop := r a b ∧ r b a

instance [DecidableRel r] (a b : α) : Decidable (Tied r a b) := inferInstanceAs (Decidable (_ ∧ _))

theorem Tied.refl [Std.Total r] (a : α) : Tied r a a := by
  rcases Std.Total.total (r := r) a a with h | h <;> exact ⟨h, h⟩

theorem Tied.symm {a b : α} (h : Tied r a b) : Tied r b a := ⟨h.2, h.1⟩

theorem Tied.trans [IsTrans α r] {a b c : α} (hab : Tied r a b) (hbc : Tied r b c) : Tied r a c :=
  ⟨IsTrans.trans _ _ _ hab.1 hbc.1, IsTrans.trans _ _ _ hbc.2 hab.2⟩

/-- The first of a sorted list is ranked up to all of them. -/
theorem rel_head [Std.Total r] {a b : α} {l : List α} (hl : (a :: l).Pairwise r) (hb : b ∈ a :: l) : r a b := by
  rcases List.mem_cons.1 hb with rfl | hb
  · exact (Tied.refl b).1
  · exact List.rel_of_pairwise_cons hl hb

/-- Sorting leaves tied elements in their order. -/
theorem filter_insertionSort [DecidableRel r] [IsTrans α r] (l : List α) (c : α) :
    (l.insertionSort r).filter (Tied r c ·) = l.filter (Tied r c ·) := by
  have hclass : (l.filter (Tied r c ·)).Pairwise r := by
    refine List.Pairwise.imp_of_mem (fun ha hb _ => ?_) (List.pairwise_of_forall fun _ _ => trivial)
    exact ((of_decide_eq_true (List.mem_filter.1 ha).2).symm.trans (of_decide_eq_true (List.mem_filter.1 hb).2)).1
  have hsub := (List.sublist_insertionSort hclass List.filter_sublist).filter (Tied r c ·)
  simp only [List.filter_filter, Bool.and_self] at hsub
  exact (hsub.eq_of_length (((List.perm_insertionSort r l).filter _).length_eq.symm)).symm

section
variable [DecidableRel r] [Std.Total r]

/-- Sorted lists with the same tied elements in the same order are the same. -/
theorem eq_of_pairwise_of_filter_eq : ∀ {l l' : List α}, l.Pairwise r → l'.Pairwise r →
    (∀ c, l.filter (Tied r c ·) = l'.filter (Tied r c ·)) → l = l'
  | [], [], _, _, _ => rfl
  | [], b :: l', _, _, h => by
    have hb := h b
    simp [Tied.refl b] at hb
  | a :: l, [], _, _, h => by
    have ha := h a
    simp [Tied.refl a] at ha
  | a :: l, b :: l', hl, hl', h => by
    have hmem : ∀ c, c ∈ a :: l ↔ c ∈ b :: l' := by
      intro c
      have hc : c ∈ (a :: l).filter (Tied r c ·) ↔ c ∈ (b :: l').filter (Tied r c ·) := by rw [h c]
      simpa only [List.mem_filter, decide_eq_true (Tied.refl c), and_true] using hc
    have hab : Tied r a b :=
      ⟨rel_head hl ((hmem b).2 List.mem_cons_self), rel_head hl' ((hmem a).1 List.mem_cons_self)⟩
    have hhead := h a
    simp only [List.filter_cons, decide_eq_true (Tied.refl a), decide_eq_true hab, if_true] at hhead
    obtain rfl : a = b := (List.cons.inj hhead).1
    refine congrArg (a :: ·) (eq_of_pairwise_of_filter_eq hl.of_cons hl'.of_cons fun c => ?_)
    have hc := h c
    by_cases hca : Tied r c a
    · simpa [List.filter_cons, hca] using hc
    · simpa [List.filter_cons, hca] using hc

/-- **What a stable sort depends on**: two lists are sorted the same way just if they have the same tied elements in the
same order. -/
theorem insertionSort_eq_iff [IsTrans α r] {l l' : List α} : l.insertionSort r = l'.insertionSort r ↔
    ∀ c, l.filter (Tied r c ·) = l'.filter (Tied r c ·) := by
  constructor
  · intro h c
    rw [← filter_insertionSort l c, h, filter_insertionSort]
  · intro h
    refine eq_of_pairwise_of_filter_eq (List.pairwise_insertionSort r l) (List.pairwise_insertionSort r l') fun c => ?_
    rw [filter_insertionSort, filter_insertionSort, h c]

end

end StableSort
