import Mathlib.Logic.Basic

/-!
# Computations that throw or return

`Settles x throws a`: the computation `x` throws if `throws` holds, and else returns `a`. A chain of computations
settles if its links do (`Settles.bind`), whatever each of them throws.
-/

structure Settles {ε α : Type} (x : Except ε α) (throws : Prop) (a : α) : Prop where
  error : throws → ∃ err, x = .error err
  ok : ¬ throws → x = .ok a

namespace Settles

variable {ε α β : Type} {x : Except ε α} {p q : Prop} {a b : α} {f : α → Except ε β} {c : β}

theorem returns (a : α) : Settles (.ok a : Except ε α) False a := ⟨False.elim, fun _ => rfl⟩

theorem throws (err : ε) (a : α) : Settles (.error err) True a := ⟨fun _ => ⟨err, rfl⟩, fun h => absurd trivial h⟩

theorem congr (h : Settles x p a) (hpq : p ↔ q) : Settles x q a := by
  rwa [propext hpq] at h

/-- The second link runs only if the first returns. -/
theorem bind (hx : Settles x p a) (hf : Settles (f a) q c) : Settles (x >>= f) (p ∨ q) c := by
  constructor
  · intro h
    by_cases hp : p
    · obtain ⟨err, herr⟩ := hx.error hp
      exact ⟨err, by rw [herr]; rfl⟩
    · rw [hx.ok hp]
      exact hf.error (h.resolve_left hp)
  · intro h
    rw [not_or] at h
    rw [hx.ok h.1]
    exact hf.ok h.2

theorem map (hx : Settles x p a) (g : α → β) : Settles (x >>= fun a => .ok (g a)) p (g a) :=
  (hx.bind (returns (g a))).congr (or_iff_left id)

/-- What it returns, and when. -/
theorem ok_iff (h : Settles x p a) : x = .ok b ↔ ¬ p ∧ a = b := by
  by_cases hp : p
  · obtain ⟨err, rfl⟩ := h.error hp
    simp [hp]
  · rw [h.ok hp]
    simp [hp]

theorem error_iff (h : Settles x p a) : (∃ err, x = .error err) ↔ p := by
  by_cases hp : p
  · exact iff_of_true (h.error hp) hp
  · rw [h.ok hp]
    simp [hp]

/-- With the value it returns, if it returns one. -/
theorem of_error_iff (h : (∃ err, x = .error err) ↔ p) (default : α) : Settles x p (x.toOption.getD default) := by
  refine ⟨h.2, fun hp => ?_⟩
  cases x with
  | error err => exact absurd (h.1 ⟨err, rfl⟩) hp
  | ok a => rfl

end Settles
