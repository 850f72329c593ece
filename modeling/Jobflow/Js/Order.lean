import Mathlib.Algebra.Order.Ring.Rat
import Jobflow.Js.Number

/-!
# Comparing JavaScript numbers

On finite numbers `<` and `<=` are those of the rationals they stand for. `NaN` compares with nothing; a bound that is
not `NaN` is below a finite number or above it.
-/

namespace Js.Number

variable {x y c : Number} {p q : Rat}

theorem lt_eq_decide (hx : x.toRat? = some p) (hy : y.toRat? = some q) : x.lt y = decide (p < q) := by
  cases x <;> cases hx <;> cases y <;> cases hy <;> rfl

theorem eq_eq_decide (hx : x.toRat? = some p) (hy : y.toRat? = some q) : x.eq y = decide (p = q) := by
  cases x <;> cases hx <;> cases y <;> cases hy <;> rfl

theorem lt_iff (hx : x.toRat? = some p) (hy : y.toRat? = some q) : x.lt y = true ↔ p < q := by
  rw [lt_eq_decide hx hy, decide_eq_true_iff]

theorem eq_iff (hx : x.toRat? = some p) (hy : y.toRat? = some q) : x.eq y = true ↔ p = q := by
  rw [eq_eq_decide hx hy, decide_eq_true_iff]

theorem le_iff (hx : x.toRat? = some p) (hy : y.toRat? = some q) : x.le y = true ↔ p ≤ q := by
  rw [le, Bool.or_eq_true, lt_iff hx hy, eq_iff hx hy, le_iff_lt_or_eq]

/-- Of a number that is not `NaN`: it is infinite or stands for a rational. -/
theorem cases_of_not_nan (h : x.isNaN = false) : (∃ s, x = .infinity s) ∨ ∃ q, x.toRat? = some q := by
  cases x with
  | nan => cases h
  | infinity s => exact .inl ⟨s, rfl⟩
  | negZero | finite q => exact .inr ⟨_, rfl⟩

theorem isNaN_of_le (h : (Number.finite q).le c = true) : c.isNaN = false := by
  cases c with
  | nan => cases h
  | _ => rfl

/-- `b >= c` or `b < c`. -/
theorem le_finite_eq_not_lt (hc : c.isNaN = false) (q : Rat) : c.le (.finite q) = !(Number.finite q).lt c := by
  rcases cases_of_not_nan hc with ⟨s, rfl⟩ | ⟨p, hp⟩
  · cases s <;> rfl
  · rw [Bool.eq_iff_iff, Bool.not_eq_true', ← Bool.not_eq_true, le_iff hp rfl, lt_iff rfl hp, not_lt]

theorem le_finite_trans (h : c.le (.finite p) = true) (hpq : p ≤ q) : c.le (.finite q) = true := by
  cases c with
  | nan => cases h
  | infinity s => cases s <;> first | rfl | cases h
  | negZero | finite r => exact (le_iff rfl rfl).2 (((le_iff rfl rfl).1 h).trans hpq)

/-- A bound above a number is not below a smaller one. -/
theorem not_le_of_lt_le (hpq : p < q) (h : (Number.finite q).le c = true) : c.le (.finite p) = false := by
  rcases cases_of_not_nan (isNaN_of_le h) with ⟨s, rfl⟩ | ⟨r, hr⟩
  · cases s <;> first | rfl | cases h
  · rw [← Bool.not_eq_true, le_iff hr rfl, not_le]
    exact hpq.trans_le ((le_iff rfl hr).1 h)

end Js.Number
