import Mathlib.Algebra.Order.Field.Power
import Mathlib.Data.Rat.Floor
import Mathlib.Tactic.FieldSimp
import Mathlib.Tactic.Linarith
import Mathlib.Tactic.NormNum
import Mathlib.Tactic.Positivity
import Mathlib.Tactic.Ring
import Jobflow.Js.Number

/-!
# Rounding to binary64

What `Number.ofRat` leaves unchanged. A positive number is a multiple of its unit in the last place (`exists_multiple`);
whatever lies within half a unit of such a multiple rounds to it (`ofRat_of_near`). So integers up to `2 ^ 53` are
exact, and seventeen significant digits tell every number (`ofRat_of_digits`).
-/

namespace Js.Number

/-! ## Powers and integers -/

theorem pow2_eq (e : Int) : pow2 e = 2 ^ e := by
  cases e with
  | ofNat n => simp [pow2]
  | negSucc n => simp [pow2, Rat.mkRat_eq_div, zpow_negSucc]

theorem pow10_eq (e : Int) : pow10 e = 10 ^ e := by
  cases e with
  | ofNat n => simp [pow10]
  | negSucc n => simp [pow10, Rat.mkRat_eq_div, zpow_negSucc]

theorem abs_roundHalfEven_sub_le (x : Rat) : |(roundHalfEven x : Rat) - x| ≤ 1 / 2 := by
  have hle := Rat.floor_le x
  have hlt := Rat.lt_floor_add_one x
  have hhalf : mkRat 1 2 = 1 / 2 := by norm_num [Rat.mkRat_eq_div]
  push_cast at hlt
  unfold roundHalfEven
  dsimp only
  rw [hhalf]
  split_ifs <;> push_cast <;> rw [abs_le] <;> constructor <;> linarith

/-- The only integer within a half. -/
theorem roundHalfEven_eq {x : Rat} {m : Int} (h : |x - m| < 1 / 2) : roundHalfEven x = m := by
  have hround := abs_roundHalfEven_sub_le x
  rw [abs_lt] at h
  rw [abs_le] at hround
  have hlt : (roundHalfEven x : Rat) < m + 1 := by linarith
  have hgt : (m : Rat) < roundHalfEven x + 1 := by linarith
  have hlt' : roundHalfEven x < m + 1 := by exact_mod_cast hlt
  have hgt' : m < roundHalfEven x + 1 := by exact_mod_cast hgt
  omega

/-- Rounding stays above an integer below. -/
theorem le_roundHalfEven {x : Rat} {m : Int} (h : (m : Rat) ≤ x) : m ≤ roundHalfEven x := by
  have hround := abs_roundHalfEven_sub_le x
  rw [abs_le] at hround
  have hgt : (m : Rat) < roundHalfEven x + 1 := by linarith
  have hgt' : m < roundHalfEven x + 1 := by exact_mod_cast hgt
  omega

/-- And below one above. -/
theorem roundHalfEven_le {x : Rat} {m : Int} (h : x ≤ m) : roundHalfEven x ≤ m := by
  have hround := abs_roundHalfEven_sub_le x
  rw [abs_le] at hround
  have hlt : (roundHalfEven x : Rat) < m + 1 := by linarith
  have hlt' : roundHalfEven x < m + 1 := by exact_mod_cast hlt
  omega

/-! ## Exponents -/

theorem two_zpow_pos (e : Int) : (0 : Rat) < 2 ^ e := zpow_pos (by norm_num) e

/-- The exponent estimated from numerator and denominator is at most one too large. -/
theorem log2_num_sub_log2_den {q : Rat} (hq : 0 < q) :
    (2 : Rat) ^ ((Nat.log2 q.num.natAbs : Int) - Nat.log2 q.den - 1) ≤ q ∧
      q < 2 ^ ((Nat.log2 q.num.natAbs : Int) - Nat.log2 q.den + 1) := by
  have hnum : 0 < q.num := Rat.num_pos.2 hq
  have hnat : q.num.natAbs ≠ 0 := by omega
  have hq_eq : q = (q.num.natAbs : Rat) / q.den := by
    rw [Nat.cast_natAbs, abs_of_pos hnum]
    exact (Rat.num_div_den q).symm
  have hden : (0 : Rat) < q.den := by exact_mod_cast q.den_pos
  have hn₁ : (2 : Rat) ^ q.num.natAbs.log2 ≤ q.num.natAbs := by exact_mod_cast Nat.log2_self_le hnat
  have hn₂ : (q.num.natAbs : Rat) < 2 ^ (q.num.natAbs.log2 + 1) := by exact_mod_cast Nat.lt_log2_self
  have hd₁ : (2 : Rat) ^ q.den.log2 ≤ q.den := by exact_mod_cast Nat.log2_self_le q.den_nz
  have hd₂ : (q.den : Rat) < 2 ^ (q.den.log2 + 1) := by exact_mod_cast Nat.lt_log2_self
  generalize q.num.natAbs.log2 = a at *
  generalize q.den.log2 = b at *
  have hpow : (2 : Rat) ^ ((a : Int) - b - 1) = 2 ^ a / 2 ^ (b + 1) := by
    rw [sub_sub, zpow_sub₀ (by norm_num)]
    norm_cast
  have hpow' : (2 : Rat) ^ ((a : Int) - b + 1) = 2 ^ (a + 1) / 2 ^ b := by
    rw [show (a : Int) - b + 1 = (a + 1 : Nat) - (b : Nat) by push_cast; ring, zpow_sub₀ (by norm_num)]
    norm_cast
  rw [hpow, hpow', hq_eq]
  constructor
  · rw [div_le_div_iff₀ (by positivity) hden]
    exact mul_le_mul hn₁ hd₂.le hden.le (by positivity)
  · rw [div_lt_div_iff₀ hden (by positivity)]
    exact mul_lt_mul hn₂ hd₁ (by positivity) (by positivity)

theorem binaryExponent_spec {q : Rat} (hq : 0 < q) :
    2 ^ binaryExponent q ≤ q ∧ q < 2 ^ (binaryExponent q + 1) := by
  obtain ⟨hlo, hhi⟩ := log2_num_sub_log2_den hq
  unfold binaryExponent
  dsimp only
  rw [pow2_eq]
  split_ifs with h
  · exact ⟨h, hhi⟩
  · refine ⟨hlo, ?_⟩
    rw [sub_add_cancel]
    exact not_le.1 h

/-- The unit in the last place. -/
def ulp (q : Rat) : Rat := pow2 (max (binaryExponent q) (-1022) - 52)

theorem ulp_eq (q : Rat) : ulp q = 2 ^ (max (binaryExponent q) (-1022) - 52) := pow2_eq _

theorem ulp_pos (q : Rat) : 0 < ulp q := by
  rw [ulp_eq]
  exact two_zpow_pos _

theorem ofRat_pos {q : Rat} (hq : 0 < q) :
    ofRat q = if (2 : Rat) ^ (1024 : Int) ≤ roundHalfEven (q / ulp q) * ulp q then .infinity false
      else if roundHalfEven (q / ulp q) * ulp q = 0 then .finite 0
      else .finite (roundHalfEven (q / ulp q) * ulp q) := by
  have habs : absRat q = q := by rw [absRat, if_neg hq.not_gt]
  unfold ofRat
  rw [if_neg hq.ne', habs]
  simp only [pow2_eq (1024 : Int), hq.not_gt, decide_false, if_false]
  rfl

/-- A number has at most 53 significant bits. -/
theorem lt_ulp {q : Rat} (hq : 0 < q) : q < 2 ^ 53 * ulp q := by
  have hle : binaryExponent q + 1 ≤ 53 + (max (binaryExponent q) (-1022) - 52) := by omega
  calc q < 2 ^ (binaryExponent q + 1) := (binaryExponent_spec hq).2
    _ ≤ 2 ^ ((53 : Int) + (max (binaryExponent q) (-1022) - 52)) := zpow_le_zpow_right₀ (by norm_num) hle
    _ = 2 ^ 53 * ulp q := by
      rw [zpow_add₀ (by norm_num), ulp_eq]
      norm_cast

theorem zpow_multiple {a b : Int} (h : a ≤ b) : ∃ k : Int, (2 : Rat) ^ b = k * 2 ^ a := by
  refine ⟨2 ^ (b - a).toNat, ?_⟩
  rw [show (((2 : Int) ^ (b - a).toNat : Int) : Rat) = 2 ^ ((b - a).toNat : Int) by push_cast; rw [zpow_natCast],
    ← zpow_add₀ (by norm_num)]
  congr 1
  omega

/-! ## What rounding leaves -/

/-- What rounds to itself is a multiple of its unit in the last place. -/
theorem exists_multiple {q : Rat} (hq : 0 < q) (h : ofRat q = .finite q) :
    (∃ m : Int, q = m * ulp q) ∧ q < 2 ^ (1024 : Int) := by
  rw [ofRat_pos hq] at h
  split_ifs at h with hbig hzero
  · exact absurd (Number.finite.inj h).symm hq.ne'
  · have hval := Number.finite.inj h
    exact ⟨⟨_, hval.symm⟩, hval ▸ not_le.1 hbig⟩

theorem ofRat_of_near {x q : Rat} {m : Int} (hx : 0 < x) (hq : 0 < q) (hlt : q < 2 ^ (1024 : Int)) (hm : q = m * ulp x)
    (hnear : |x - q| < ulp x / 2) : ofRat x = .finite q := by
  have hulp := ulp_pos x
  have hround : roundHalfEven (x / ulp x) = m := by
    refine roundHalfEven_eq ?_
    have hdiff : x / ulp x - m = (x - q) / ulp x := by
      rw [hm]
      field_simp
    rw [hdiff, abs_div, abs_of_pos hulp, div_lt_iff₀ hulp]
    linarith
  rw [ofRat_pos hx, hround, ← hm, if_neg hlt.not_ge, if_neg hq.ne']

/-- Also if `x` has another exponent. -/
theorem ofRat_of_close {x q : Rat} (hx : 0 < x) (hq : 0 < q) (h : ofRat q = .finite q) (hnear : |x - q| < ulp x / 2)
    (hnear' : |x - q| < ulp q) : ofRat x = .finite q := by
  obtain ⟨⟨m, hm⟩, hlt⟩ := exists_multiple hq h
  by_cases hle : max (binaryExponent x) (-1022) ≤ max (binaryExponent q) (-1022)
  · -- the unit of `x` divides that of `q`
    obtain ⟨k, hk⟩ := zpow_multiple (sub_le_sub_right hle 52)
    refine @ofRat_of_near x q (m * k) hx hq hlt ?_ hnear
    rw [Int.cast_mul, mul_assoc, ulp_eq x, ← hk, ← ulp_eq]
    exact hm
  · -- a power of two lies between them, and `q` is a unit away from it
    exfalso
    obtain ⟨k, hk⟩ := zpow_multiple (show max (binaryExponent q) (-1022) - 52 ≤ binaryExponent x by omega)
    rw [← ulp_eq] at hk
    have hqx : q < 2 ^ binaryExponent x :=
      (binaryExponent_spec hq).2.trans_le (zpow_le_zpow_right₀ (by norm_num) (by omega))
    have hmk : m + 1 ≤ k := by
      rw [hk] at hqx
      nth_rewrite 1 [hm] at hqx
      exact_mod_cast lt_of_mul_lt_mul_right hqx (ulp_pos q).le
    have hmk' : ((m : Rat) + 1) * ulp q ≤ k * ulp q := by
      refine mul_le_mul_of_nonneg_right ?_ (ulp_pos q).le
      exact_mod_cast hmk
    have hfar : ulp q ≤ x - q := by
      have hle := (binaryExponent_spec hx).1
      rw [hk] at hle
      linarith [add_one_mul (m : Rat) (ulp q)]
    linarith [le_abs_self (x - q)]

/-- Integers are exact as far as 53 bits go. -/
theorem ofRat_natCast {n : Nat} (hn : n ≤ 2 ^ 53) : ofRat n = .finite n := by
  rcases Nat.eq_zero_or_pos n with rfl | hpos
  · rfl
  have hq : (0 : Rat) < n := by exact_mod_cast hpos
  have hle : (n : Rat) ≤ 2 ^ (53 : Int) := by exact_mod_cast hn
  have hlt : (n : Rat) < 2 ^ (1024 : Int) := hle.trans_lt (zpow_lt_zpow_right₀ (by norm_num) (by norm_num))
  have hexp : (2 : Rat) ^ binaryExponent n ≤ 2 ^ (53 : Int) := (binaryExponent_spec hq).1.trans hle
  rw [zpow_le_zpow_iff_right₀ (by norm_num)] at hexp
  have hself : |(n : Rat) - n| < ulp n / 2 := by
    rw [sub_self, abs_zero]
    exact half_pos (ulp_pos _)
  rcases hn.lt_or_eq with hsmall | rfl
  · -- the unit is at most one
    have hsmall' : (n : Rat) < 2 ^ (53 : Int) := by exact_mod_cast hsmall
    have hexp' : (2 : Rat) ^ binaryExponent n < 2 ^ (53 : Int) := (binaryExponent_spec hq).1.trans_lt hsmall'
    rw [zpow_lt_zpow_iff_right₀ (by norm_num)] at hexp'
    obtain ⟨k, hk⟩ := zpow_multiple (show max (binaryExponent n) (-1022) - 52 ≤ 0 by omega)
    refine @ofRat_of_near n n (n * k) hq hq hlt ?_ hself
    rw [Int.cast_mul, mul_assoc, ulp_eq, ← hk]
    simp
  · obtain ⟨k, hk⟩ := zpow_multiple (show max (binaryExponent ((2 ^ 53 : Nat) : Rat)) (-1022) - 52 ≤ 53 by omega)
    refine @ofRat_of_near _ _ k hq hq hlt ?_ hself
    rw [ulp_eq, ← hk]
    norm_num

/-- **Seventeen digits tell every number**: `10 ^ 16` times a unit of decimals is more than `2 ^ 53` of its own. -/
theorem ofRat_of_digits {q d : Rat} (hq : 0 < q) (h : ofRat q = .finite q) (hd : 0 < d) (hdigits : 10 ^ 16 * d ≤ q) :
    ofRat (roundHalfEven (q / d) * d) = .finite q := by
  have hround := abs_roundHalfEven_sub_le (q / d)
  have hnear : |roundHalfEven (q / d) * d - q| ≤ d / 2 := by
    have hdiff : roundHalfEven (q / d) * d - q = (roundHalfEven (q / d) - q / d) * d := by field_simp
    rw [hdiff, abs_mul, abs_of_pos hd]
    linarith [mul_le_mul_of_nonneg_right hround hd.le]
  have hint : (10 : Int) ^ 16 ≤ roundHalfEven (q / d) := by
    refine le_roundHalfEven ?_
    rw [le_div_iff₀ hd]
    exact_mod_cast hdigits
  have hdigits' : 10 ^ 16 * d ≤ roundHalfEven (q / d) * d := by
    refine mul_le_mul_of_nonneg_right ?_ hd.le
    exact_mod_cast hint
  have hx : 0 < roundHalfEven (q / d) * d := (by positivity : (0 : Rat) < 10 ^ 16 * d).trans_le hdigits'
  refine ofRat_of_close hx hq h ?_ ?_
  · linarith [lt_ulp hx]
  · linarith [lt_ulp hq]

end Js.Number
