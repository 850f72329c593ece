import Jobflow.Js.Rounding

/-!
# Quotients rounded down

`Math.floor(a / b)` divides in binary64 and then rounds down. For integers below `2 ^ 53` the result is that of integer
division (`floor_div`): the quotient is rounded by less than what is missing to the next integer.
-/

namespace Js.Number

/-- `Math.floor`. -/
def floor : Number → Number
  | .finite q => .finite (q.floor : Int)
  | n => n

section
variable {x : Rat}

/-- Numbers that are not subnormal have 53 significant bits. -/
theorem ulp_le (hx : 0 < x) (hnormal : (2 : Rat) ^ (-1022 : Int) ≤ x) : 2 ^ 52 * ulp x ≤ x := by
  obtain ⟨hlo, hhi⟩ := binaryExponent_spec hx
  have hexp : (-1022 : Int) < binaryExponent x + 1 :=
    (zpow_lt_zpow_iff_right₀ (by norm_num)).1 (hnormal.trans_lt hhi)
  calc 2 ^ 52 * ulp x = 2 ^ ((52 : Int) + (max (binaryExponent x) (-1022) - 52)) := by
        rw [zpow_add₀ (by norm_num), ulp_eq]
        norm_cast
    _ = 2 ^ binaryExponent x := by congr 1; omega
    _ ≤ x := hlo

/-- Below `2 ^ 53` the integers are multiples of the unit. -/
theorem exists_ulp_multiple (hx : 0 < x) (hlt : x < 2 ^ 53) (m : Int) : ∃ k : Int, (m : Rat) = k * ulp x := by
  have hexp : binaryExponent x < 53 := by
    have hlt' : (2 : Rat) ^ binaryExponent x < 2 ^ (53 : Int) := by
      refine (binaryExponent_spec hx).1.trans_lt ?_
      exact_mod_cast hlt
    exact (zpow_lt_zpow_iff_right₀ (by norm_num)).1 hlt'
  obtain ⟨k, hk⟩ := zpow_multiple (show max (binaryExponent x) (-1022) - 52 ≤ 0 by omega)
  rw [zpow_zero, ← ulp_eq] at hk
  exact ⟨m * k, by rw [Int.cast_mul, mul_assoc, ← hk, mul_one]⟩

/-- Rounding moves a number by a small part of it, and not across an integer. -/
structure RoundsNear (x r : Rat) : Prop where
  near : |r - x| ≤ |x| / 2 ^ 53
  above : ∀ m : Int, (m : Rat) ≤ x → (m : Rat) ≤ r
  below : ∀ m : Int, x ≤ (m : Rat) → r ≤ (m : Rat)

theorem RoundsNear.neg {r : Rat} (h : RoundsNear x r) : RoundsNear (-x) (-r) := by
  refine ⟨?_, fun m hm => ?_, fun m hm => ?_⟩
  · rw [abs_neg, neg_sub_neg, abs_sub_comm]
    exact h.near
  · have hbelow := h.below (-m) (by push_cast; linarith)
    push_cast at hbelow
    linarith
  · have habove := h.above (-m) (by push_cast; linarith)
    push_cast at habove
    linarith

theorem roundsNear_of_pos (hnormal : (2 : Rat) ^ (-1022 : Int) ≤ x) (hlt : x < 2 ^ 53) :
    ∃ r, 0 < r ∧ ofRat x = .finite r ∧ RoundsNear x r := by
  have hx : 0 < x := (two_zpow_pos _).trans_le hnormal
  have hulp := ulp_pos x
  have hle := ulp_le hx hnormal
  obtain ⟨m, hm⟩ : ∃ m, m = roundHalfEven (x / ulp x) := ⟨_, rfl⟩
  have habove (n : Int) (hn : (n : Rat) ≤ x) : (n : Rat) ≤ m * ulp x := by
    obtain ⟨k, hk⟩ := exists_ulp_multiple hx hlt n
    have hkm : k ≤ m := hm ▸ le_roundHalfEven ((le_div_iff₀ hulp).2 (hk ▸ hn))
    rw [hk]
    exact mul_le_mul_of_nonneg_right (by exact_mod_cast hkm) hulp.le
  have hbelow (n : Int) (hn : x ≤ (n : Rat)) : m * ulp x ≤ (n : Rat) := by
    obtain ⟨k, hk⟩ := exists_ulp_multiple hx hlt n
    have hkm : m ≤ k := hm ▸ roundHalfEven_le ((div_le_iff₀ hulp).2 (hk ▸ hn))
    rw [hk]
    exact mul_le_mul_of_nonneg_right (by exact_mod_cast hkm) hulp.le
  have hpos : 0 < (m : Rat) * ulp x := by
    have hm52 : (2 : Int) ^ 52 ≤ m := by
      refine hm ▸ le_roundHalfEven ((le_div_iff₀ hulp).2 ?_)
      exact_mod_cast hle
    refine mul_pos ?_ hulp
    exact_mod_cast (show (0 : Int) < 2 ^ 52 by norm_num).trans_le hm52
  have hbound : (m : Rat) * ulp x < 2 ^ (1024 : Int) := by
    have h53 : (m : Rat) * ulp x ≤ 2 ^ (53 : Int) := by
      have h := hbelow (2 ^ 53) (by exact_mod_cast hlt.le)
      exact_mod_cast h
    exact h53.trans_lt (zpow_lt_zpow_right₀ (by norm_num) (by norm_num))
  refine ⟨m * ulp x, hpos, ?_, ?_, habove, hbelow⟩
  · rw [ofRat_pos hx, ← hm, if_neg hbound.not_ge, if_neg hpos.ne']
  · have hround := abs_roundHalfEven_sub_le (x / ulp x)
    rw [← hm] at hround
    have hdiff : (m : Rat) * ulp x - x = (m - x / ulp x) * ulp x := by field_simp
    have hhalf : |(m : Rat) - x / ulp x| * ulp x ≤ 1 / 2 * ulp x := mul_le_mul_of_nonneg_right hround hulp.le
    rw [hdiff, abs_mul, abs_of_pos hulp, abs_of_pos hx]
    linarith

theorem ofRat_neg_of_pos {r : Rat} (hx : 0 < x) (h : ofRat x = .finite r) (hr : r ≠ 0) : ofRat (-x) = .finite (-r) := by
  have habs : absRat (-x) = x := by
    rw [absRat, if_pos (neg_neg_of_pos hx), neg_neg]
  have hneg : -x < 0 := neg_neg_of_pos hx
  rw [ofRat_pos hx] at h
  unfold ofRat
  rw [if_neg hneg.ne, habs]
  dsimp only
  rw [if_pos hneg, if_pos hneg, pow2_eq, ← ulp]
  split_ifs at h ⊢ with hbig hzero
  · exact absurd (Number.finite.inj h).symm hr
  · rw [← Number.finite.inj h]

theorem exists_roundsNear (hnormal : (2 : Rat) ^ (-1022 : Int) ≤ |x|) (hlt : |x| < 2 ^ 53) :
    ∃ r, r ≠ 0 ∧ ofRat x = .finite r ∧ RoundsNear x r := by
  obtain ⟨r, hpos, hround, hnear⟩ := roundsNear_of_pos hnormal hlt
  rcases abs_cases x with ⟨habs, _⟩ | ⟨habs, hx⟩
  · rw [habs] at hround hnear
    exact ⟨r, hpos.ne', hround, hnear⟩
  · rw [habs] at hround hnear
    refine ⟨-r, neg_ne_zero.2 hpos.ne', ?_, ?_⟩
    · have hneg := ofRat_neg_of_pos (neg_pos.2 hx) hround hpos.ne'
      rwa [neg_neg] at hneg
    · have hneg := hnear.neg
      rwa [neg_neg] at hneg

end

/-- Integers in the range of 53 bits are exact. -/
theorem ofInt_eq {n : Int} (h : n.natAbs ≤ 2 ^ 53) : ofInt n = .finite n := by
  obtain ⟨k, rfl | rfl⟩ := n.eq_nat_or_neg
  · exact_mod_cast ofRat_natCast (by omega)
  · have hk : k ≤ 2 ^ 53 := by omega
    rcases Nat.eq_zero_or_pos k with rfl | hpos
    · rfl
    · have hq : (0 : Rat) < k := by exact_mod_cast hpos
      have hneg := ofRat_neg_of_pos hq (ofRat_natCast hk) hq.ne'
      unfold ofInt
      push_cast
      exact hneg

/-- A quotient of a number below `2 ^ 53` is at least `1 / b` away from the next integer, and rounding moves it by
less. -/
theorem RoundsNear.floor_eq {a b : Int} {r : Rat} (hb : 0 < b) (ha : |a| < 2 ^ 53)
    (h : RoundsNear ((a : Rat) / b) r) : r.floor = a / b := by
  have hb' : (0 : Rat) < b := by exact_mod_cast hb
  have ha' : |(a : Rat)| < 2 ^ 53 := by exact_mod_cast ha
  have hfloor : ((a / b : Int) : Rat) * b ≤ a := by exact_mod_cast Int.ediv_mul_le a hb.ne'
  have hnext : (a : Rat) + 1 ≤ ((a / b : Int) + 1) * b := by exact_mod_cast Int.lt_ediv_add_one_mul_self a hb
  have hsmall : |(a : Rat) / b| / 2 ^ 53 < 1 / b := by
    rw [abs_div, abs_of_pos hb', div_div, mul_comm, ← div_div]
    exact div_lt_div_of_pos_right ((div_lt_one (by norm_num)).2 ha') hb'
  have hgap : (a : Rat) / b + 1 / b ≤ (a / b : Int) + 1 := by
    rw [← add_div, div_le_iff₀ hb']
    exact hnext
  have hnear := (abs_le.1 h.near).2
  have hlo := h.above (a / b) ((le_div_iff₀ hb').2 hfloor)
  refine Int.le_antisymm ?_ (Rat.le_floor_iff.2 hlo)
  have hlt : (r.floor : Rat) < (a / b : Int) + 1 := (Rat.floor_le r).trans_lt (by linarith)
  exact Int.lt_add_one_iff.1 (by exact_mod_cast hlt)

/-- **`Math.floor` of a quotient of integers is their integer quotient.** -/
theorem floor_div {a b : Int} (hb : 0 < b) (hb53 : b ≤ 2 ^ 53) (ha : a.natAbs < 2 ^ 53) :
    floor (div (ofInt a) (ofInt b)) = .finite (a / b : Int) := by
  have hb' : (0 : Rat) < b := by exact_mod_cast hb
  have hlt : |a| < 2 ^ 53 := by
    rw [Int.abs_eq_natAbs]
    exact_mod_cast ha
  rw [ofInt_eq (by omega), ofInt_eq (by omega)]
  by_cases hzero : a = 0
  · subst hzero
    have hfloor : Rat.floor 0 = 0 := Rat.floor_intCast 0
    simp [div, signBit, toRat?, hb'.ne', hb'.not_gt, signedZero, floor, hfloor]
  have ha' : (a : Rat) ≠ 0 := by exact_mod_cast hzero
  have habs : (1 : Rat) ≤ |(a : Rat)| := by exact_mod_cast Int.one_le_abs hzero
  have hlt' : |(a : Rat)| < 2 ^ 53 := by exact_mod_cast hlt
  have hb53' : (b : Rat) ≤ 2 ^ 53 := by exact_mod_cast hb53
  have hquot : |(a : Rat) / b| = |(a : Rat)| / b := by rw [abs_div, abs_of_pos hb']
  have hnormal : (2 : Rat) ^ (-1022 : Int) ≤ |(a : Rat) / b| := by
    rw [hquot, le_div_iff₀ hb']
    calc (2 : Rat) ^ (-1022 : Int) * b ≤ 2 ^ (-1022 : Int) * 2 ^ (53 : Int) :=
          mul_le_mul_of_nonneg_left (by exact_mod_cast hb53') (two_zpow_pos _).le
      _ = 2 ^ (-969 : Int) := by rw [← zpow_add₀ (by norm_num)]; norm_num
      _ ≤ 1 := zpow_le_one_of_nonpos₀ (by norm_num) (by norm_num)
      _ ≤ |(a : Rat)| := habs
  have hbound : |(a : Rat) / b| < 2 ^ 53 := by
    rw [hquot, div_lt_iff₀ hb']
    have hone : (1 : Rat) ≤ b := by exact_mod_cast hb
    nlinarith
  obtain ⟨r, hr, hround, hnear⟩ := exists_roundsNear hnormal hbound
  simp only [div, toRat?, hb'.ne', ha', if_false, hround]
  split
  · rename_i heq
    exact absurd (Number.finite.inj heq) hr
  · rw [floor, hnear.floor_eq hb hlt]

/-- A product of integers in the range of 53 bits is exact. -/
theorem mul_ofInt {k b : Int} (hb : 0 < b) (hb53 : b ≤ 2 ^ 53) (h : (k * b).natAbs ≤ 2 ^ 53) :
    mul (.finite k) (ofInt b) = .finite (k * b : Int) := by
  have hb' : (0 : Rat) < b := by exact_mod_cast hb
  have hofInt := ofInt_eq h
  rw [ofInt_eq (show b.natAbs ≤ 2 ^ 53 by omega)]
  by_cases hzero : k = 0
  · subst hzero
    simp [mul, toRat?, signBit, hb'.not_gt, signedZero]
  · have hk : (k : Rat) ≠ 0 := by exact_mod_cast hzero
    unfold ofInt at hofInt
    push_cast at hofInt
    simp only [mul, toRat?, mul_eq_zero, hk, hb'.ne', or_self, if_false, hofInt]
    push_cast
    rfl

/-! ## Differences -/

theorem lt_zero_ofRat_of_one_le {q : Rat} (h : 1 ≤ q) : lt (.finite 0) (ofRat q) = true := by
  have hq : 0 < q := by linarith
  have hulp := ulp_pos q
  have hnormal : (2 : Rat) ^ (-1022 : Int) ≤ q := (zpow_le_one_of_nonpos₀ (by norm_num) (by norm_num)).trans h
  have hround : (0 : Rat) < roundHalfEven (q / ulp q) := by
    have hone : 1 ≤ roundHalfEven (q / ulp q) := by
      refine le_roundHalfEven ((le_div_iff₀ hulp).2 ?_)
      have hle := ulp_le hq hnormal
      push_cast
      linarith
    exact_mod_cast hone
  have hv : 0 < roundHalfEven (q / ulp q) * ulp q := mul_pos hround hulp
  rw [ofRat_pos hq, if_neg hv.ne']
  split_ifs
  · rfl
  · exact decide_eq_true hv

theorem lt_zero_ofRat_of_neg {q : Rat} (h : q < 0) : lt (.finite 0) (ofRat q) = false := by
  have hulp : 0 < ulp (absRat q) := ulp_pos _
  have habs : absRat q = -q := by rw [absRat, if_pos h]
  have hround : 0 ≤ roundHalfEven (-q / ulp (-q)) := by
    refine le_roundHalfEven ?_
    rw [habs] at hulp
    push_cast
    exact div_nonneg (by linarith) hulp.le
  have hv : (0 : Rat) ≤ roundHalfEven (-q / ulp (-q)) * ulp (-q) := by
    refine mul_nonneg ?_ (ulp_pos _).le
    exact_mod_cast hround
  unfold ofRat
  rw [if_neg h.ne, habs]
  dsimp only
  rw [if_pos h, if_pos h, ← ulp]
  split_ifs
  · simp [lt, h]
  · simp [lt, toRat?]
  · simpa [lt, toRat?] using hv

/-- Whether a difference of integers is positive. -/
theorem lt_zero_sub (a b : Int) : lt (.finite 0) (sub (.finite a) (.finite b)) = decide (b < a) := by
  have hsub : sub (.finite a) (.finite b) = ofRat ((a - b : Int) : Rat) := by
    unfold sub neg
    dsimp only
    split_ifs with hb
    · simp [add, toRat?, hb]
    · simp [add, toRat?, sub_eq_add_neg]
  rw [hsub]
  rcases Int.lt_trichotomy (a - b) 0 with h | h | h
  · rw [lt_zero_ofRat_of_neg (by exact_mod_cast h), eq_comm, decide_eq_false_iff_not]
    omega
  · rw [h, eq_comm]
    simp [ofRat, lt, toRat?]
    omega
  · rw [lt_zero_ofRat_of_one_le (by exact_mod_cast h), eq_comm, decide_eq_true_eq]
    omega

end Js.Number
