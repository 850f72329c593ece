import Jobflow.Cron

/-!
# The next run is the earliest one (src/utils/cron.ts)

Step `k` of the loop looks at the whole minute `k` minutes after the one that `after` is in, as long as there is a date
for it: past the last date the cursor is invalid, and stays so. What the loop returns is therefore the first of these
minutes that matches (`next_run_earliest`), but for a start close to the last date.
-/

namespace Jobflow

open Js (Date Number Time)

/-! ## The cursor -/

/-- The whole minute `k` minutes after the one that `t` is in; an invalid date past the last one. -/
def minuteAfter (t : Time) (k : Nat) : Date := Js.timeClip (t.ms - t.ms % Date.msPerMinute + k * Date.msPerMinute)

def WholeMinute (t : Time) : Prop := t.ms % Date.msPerMinute = 0

section
variable {expression : String} {after t m : Time} {d : Date} {e : Js.Exception} {i j k n : Nat}

theorem minuteAfter_ms (h : minuteAfter t k = some m) :
    m.ms = t.ms - t.ms % Date.msPerMinute + k * Date.msPerMinute := Js.timeClip_eq_some.1 h

/-- The first date is a whole minute, so no cursor is before it. -/
theorem startOfMinute_inRange (t : Time) : -Js.maxTime ≤ t.ms - t.ms % Date.msPerMinute := by
  have hmin := t.inRange.1
  unfold Js.maxTime Date.msPerMinute at *
  omega

theorem startOfMinute_eq (t : Time) : Date.startOfMinute (some t) = minuteAfter t 0 := by
  simp [Date.startOfMinute, minuteAfter]

theorem minuteAfter_none_iff :
    minuteAfter t k = none ↔ Js.maxTime < t.ms - t.ms % Date.msPerMinute + k * Date.msPerMinute := by
  have hmin := startOfMinute_inRange t
  have hk : 0 ≤ (k : Int) * Date.msPerMinute := Int.mul_nonneg (Int.natCast_nonneg k) (by decide)
  unfold minuteAfter Js.timeClip
  split <;> simp <;> omega

theorem minuteAfter_succ (t : Time) (k : Nat) : (minuteAfter t k).nextMinute = minuteAfter t (k + 1) := by
  have hsucc : ((k + 1 : Nat) : Int) * Date.msPerMinute = k * Date.msPerMinute + Date.msPerMinute := by
    rw [Int.natCast_succ, Int.add_mul, Int.one_mul]
  cases h : minuteAfter t k with
  | some m =>
    have hms := minuteAfter_ms h
    rw [minuteAfter, hsucc, ← Int.add_assoc, ← hms]
    rfl
  | none =>
    -- past the last date the next minute is past it too
    have hlast := minuteAfter_none_iff.1 h
    refine (minuteAfter_none_iff.2 ?_).symm
    have hpos : 0 < Date.msPerMinute := by decide
    omega

/-- A whole minute after `t` is one that the cursor comes to. -/
theorem exists_minuteAfter (hm : WholeMinute m) (hlt : t < m) : ∃ k, 0 < k ∧ minuteAfter t k = some m := by
  rw [Time.lt_def] at hlt
  unfold WholeMinute at hm
  refine ⟨((m.ms - (t.ms - t.ms % Date.msPerMinute)) / Date.msPerMinute).toNat, ?_, Js.timeClip_eq_some.2 ?_⟩
  · unfold Date.msPerMinute at *
    omega
  · unfold Date.msPerMinute at *
    omega

theorem minuteAfter_whole (h : minuteAfter t k = some m) : WholeMinute m := by
  have hms := minuteAfter_ms h
  unfold WholeMinute Date.msPerMinute at *
  omega

theorem minuteAfter_later (h : minuteAfter t k = some m) (hk : 0 < k) : t < m := by
  have hms := minuteAfter_ms h
  rw [Time.lt_def]
  unfold Date.msPerMinute at *
  omega

/-! ## The loop -/

/-- The loop returns the first cursor that matches. -/
theorem nextMatch_ok : ∀ {n i : Nat}, nextMatch expression n (minuteAfter t i) = .ok d →
    ∃ k, i < k ∧ k ≤ i + n ∧ d = minuteAfter t k ∧ matchesCron expression d = true ∧
      ∀ j, i < j → j < k → matchesCron expression (minuteAfter t j) = false
  | 0, _, h => by cases h
  | n + 1, i, h => by
    rw [nextMatch, minuteAfter_succ] at h
    by_cases hmatch : matchesCron expression (minuteAfter t (i + 1)) = true
    · rw [if_pos hmatch] at h
      obtain rfl := Except.ok.inj h
      exact ⟨i + 1, by omega, by omega, rfl, hmatch, fun j _ _ => by omega⟩
    · rw [if_neg hmatch] at h
      obtain ⟨k, hik, hkn, hd, hfires, hbefore⟩ := nextMatch_ok h
      refine ⟨k, by omega, by omega, hd, hfires, fun j hij hjk => ?_⟩
      obtain rfl | hlt := Nat.eq_or_lt_of_le (Nat.succ_le_of_lt hij)
      · exact Bool.eq_false_iff.2 hmatch
      · exact hbefore j hlt hjk

/-- It throws when no cursor matches. -/
theorem nextMatch_error : ∀ {n i : Nat}, nextMatch expression n (minuteAfter t i) = .error e →
    ∀ j, i < j → j ≤ i + n → matchesCron expression (minuteAfter t j) = false
  | 0, _, _ => fun j _ _ => by omega
  | n + 1, i, h => by
    rw [nextMatch, minuteAfter_succ] at h
    by_cases hmatch : matchesCron expression (minuteAfter t (i + 1)) = true
    · rw [if_pos hmatch] at h
      cases h
    · rw [if_neg hmatch] at h
      intro j hij hjn
      obtain rfl | hlt := Nat.eq_or_lt_of_le (Nat.succ_le_of_lt hij)
      · exact Bool.eq_false_iff.2 hmatch
      · exact nextMatch_error h j hlt (by omega)

end

/-! ## The earliest match -/

/-- `d` is the first whole minute after `after` that matches. -/
structure IsNextRun (expression : String) (after d : Time) : Prop where
  whole : WholeMinute d
  later : after < d
  fires : matchesCron expression (some d) = true
  earliest : ∀ m, WholeMinute m → after < m → m < d → matchesCron expression (some m) = false

/-- No whole minute after `after` matches. -/
def NeverFires (expression : String) (after : Time) : Prop :=
  ∀ m, WholeMinute m → after < m → matchesCron expression (some m) = false

section
variable {expression : String} {after : Time} {d : Date} {k : Nat}

/-- Minutes before a cursor are earlier cursors. -/
theorem silent_before {m : Time} (hm : WholeMinute m) (hlt : after < m)
    (hbefore : ∀ j, 0 < j → j < k → matchesCron expression (minuteAfter after j) = false)
    (hk : m.ms < after.ms - after.ms % Date.msPerMinute + k * Date.msPerMinute) :
    matchesCron expression (some m) = false := by
  obtain ⟨j, hj, hcursor⟩ := exists_minuteAfter hm hlt
  have hms := minuteAfter_ms hcursor
  rw [← hcursor]
  refine hbefore j hj ?_
  unfold Date.msPerMinute at *
  omega

/-- **The next run is the earliest**: a date that `nextCronRun` returns is the first whole minute after `after` that
matches. It is invalid only if the dates end within the horizon, with no match before, and an exception means that none
of the minutes within the horizon matches. -/
theorem next_run_earliest (expression : String) (after : Time) :
    match nextCronRun expression (some after) with
    | .ok (some d) => IsNextRun expression after d
    | .ok none => Js.maxTime < after.ms + 60 * 24 * 366 * Date.msPerMinute ∧ NeverFires expression after
    | .error _ => ∀ k, 0 < k → k ≤ 60 * 24 * 366 → matchesCron expression (minuteAfter after k) = false := by
  cases h : nextCronRun expression (some after) with
  | error e =>
    rw [nextCronRun, startOfMinute_eq] at h
    exact fun k hk hle => nextMatch_error h k hk (by omega)
  | ok d =>
    rw [nextCronRun, startOfMinute_eq] at h
    obtain ⟨k, hk, hle, hd, hfires, hbefore⟩ := nextMatch_ok h
    cases d with
    | some d =>
      refine ⟨minuteAfter_whole hd.symm, minuteAfter_later hd.symm hk, hfires, fun m hm hlt hmd => ?_⟩
      exact silent_before hm hlt hbefore (minuteAfter_ms hd.symm ▸ hmd)
    | none =>
      have hlast := minuteAfter_none_iff.1 hd.symm
      constructor
      · unfold Date.msPerMinute at *
        omega
      · exact fun m hm hlt => silent_before hm hlt hbefore (Int.lt_of_le_of_lt m.inRange.2 hlast)

end

/-- The last date there is. -/
def lastTime : Time := ⟨Js.maxTime, by decide⟩

/-- Nothing comes after the last date, and every minute matches. -/
theorem no_run_after_last : ¬ ∀ (expression : String) (after : Time) (d : Date),
    nextCronRun expression (some after) = .ok d → ∃ t, d = some t ∧ IsNextRun expression after t := by
  intro h
  have hnone : nextCronRun "* * * * *" (some lastTime) = .ok none := rfl
  obtain ⟨t, ht, -⟩ := h "* * * * *" lastTime none hnone
  cases ht

end Jobflow
