import Mathlib.Order.WithBot
import Jobflow.Js.Digits
import Jobflow.Js.Order

/-!
# Amounts and their rounded sums

Rounding keeps the order of what is rounded (`rounded_mono`). So among `Amount`s, the numbers from `+0` to `Infinity`,
adding one more is monotone (`Amount.add_mono`), although each sum is rounded. Whole amounts are added exactly as long
as the total is at most `2 ^ 53` (`Amount.ofNat_add`).
-/

namespace Js

namespace Number

/-! ## Rounding keeps the order -/

theorem roundHalfEven_mono {x y : Rat} (h : x ≤ y) : roundHalfEven x ≤ roundHalfEven y := by
  rcases (Rat.floor_monotone h).lt_or_eq with hlt | heq
  · -- an integer lies between them
    have hx : x ≤ ((x.floor + 1 : Int) : Rat) := (Rat.lt_floor_add_one x).le
    calc roundHalfEven x ≤ x.floor + 1 := roundHalfEven_le hx
      _ ≤ y.floor := hlt
      _ ≤ roundHalfEven y := le_roundHalfEven (Rat.floor_le y)
  · unfold roundHalfEven
    dsimp only
    rw [← heq]
    split_ifs <;> first | omega | (exfalso; linarith)

theorem binaryExponent_mono {q r : Rat} (hq : 0 < q) (h : q ≤ r) : binaryExponent q ≤ binaryExponent r := by
  have hlt : (2 : Rat) ^ binaryExponent q < 2 ^ (binaryExponent r + 1) :=
    ((binaryExponent_spec hq).1.trans h).trans_lt (binaryExponent_spec (hq.trans_le h)).2
  rw [zpow_lt_zpow_iff_right₀ (by norm_num)] at hlt
  omega

/-- The multiple of its unit that a positive number rounds to. -/
def rounded (q : Rat) : Rat := roundHalfEven (q / ulp q) * ulp q

theorem rounded_nonneg {q : Rat} (hq : 0 < q) : 0 ≤ rounded q := by
  have hround : (0 : Int) ≤ roundHalfEven (q / ulp q) := by
    apply le_roundHalfEven
    rw [Int.cast_zero]
    exact (div_pos hq (ulp_pos q)).le
  exact mul_nonneg (by exact_mod_cast hround) (ulp_pos q).le

/-- A number rounds to at most `2 ^ 53` units. -/
theorem rounded_le {q : Rat} (hq : 0 < q) : rounded q ≤ 2 ^ 53 * ulp q := by
  have hround : roundHalfEven (q / ulp q) ≤ 2 ^ 53 := by
    apply roundHalfEven_le
    rw [div_le_iff₀ (ulp_pos q)]
    exact_mod_cast (lt_ulp hq).le
  exact mul_le_mul_of_nonneg_right (by exact_mod_cast hround) (ulp_pos q).le

/-- And to no less than a multiple of its unit below it. -/
theorem le_rounded {q : Rat} {m : Int} (h : m * ulp q ≤ q) : m * ulp q ≤ rounded q := by
  have hround : m ≤ roundHalfEven (q / ulp q) := by
    apply le_roundHalfEven
    rwa [le_div_iff₀ (ulp_pos q)]
  exact mul_le_mul_of_nonneg_right (by exact_mod_cast hround) (ulp_pos q).le

theorem rounded_mono {q r : Rat} (hq : 0 < q) (h : q ≤ r) : rounded q ≤ rounded r := by
  have hexp := binaryExponent_mono hq h
  by_cases hsame : max (binaryExponent q) (-1022) = max (binaryExponent r) (-1022)
  · -- both are multiples of one unit
    have hulp : ulp q = ulp r := by rw [ulp_eq, ulp_eq, hsame]
    have hround : roundHalfEven (q / ulp r) ≤ roundHalfEven (r / ulp r) :=
      roundHalfEven_mono (div_le_div_of_nonneg_right h (ulp_pos r).le)
    rw [rounded, rounded, hulp]
    exact mul_le_mul_of_nonneg_right (by exact_mod_cast hround) (ulp_pos r).le
  · -- a power of two lies between them, a multiple of both units
    have hpow : (2 : Rat) ^ 53 * ulp q ≤ ((2 ^ 52 : Int) : Rat) * ulp r := by
      have hbelow : (53 : Int) + (max (binaryExponent q) (-1022) - 52) ≤
        52 + (max (binaryExponent r) (-1022) - 52) := by omega
      have hle : (2 : Rat) ^ ((53 : Int) + (max (binaryExponent q) (-1022) - 52)) ≤
          2 ^ ((52 : Int) + (max (binaryExponent r) (-1022) - 52)) := zpow_le_zpow_right₀ (by norm_num) hbelow
      rw [zpow_add₀ (by norm_num), zpow_add₀ (by norm_num), ← ulp_eq, ← ulp_eq] at hle
      exact_mod_cast hle
    have hbelow : ((2 ^ 52 : Int) : Rat) * ulp r ≤ r := by
      have hspec := (binaryExponent_spec (hq.trans_le h)).1
      have hr : binaryExponent r = 52 + (max (binaryExponent r) (-1022) - 52) := by omega
      rw [hr, zpow_add₀ (by norm_num), ← ulp_eq] at hspec
      exact_mod_cast hspec
    calc rounded q ≤ 2 ^ 53 * ulp q := rounded_le hq
      _ ≤ ((2 ^ 52 : Int) : Rat) * ulp r := hpow
      _ ≤ rounded r := le_rounded hbelow

/-! ## Amounts -/

/-- `+0`, the positive numbers and `Infinity`. -/
inductive IsAmount : Number → Prop where
  | finite {q : Rat} (h : 0 ≤ q) : IsAmount (.finite q)
  | infinity : IsAmount (.infinity false)

/-- How large an amount is. -/
def size : Number → WithTop Rat
  | .finite q => q
  | _ => ⊤

theorem isAmount_ofRat {q : Rat} (h : 0 ≤ q) : IsAmount (ofRat q) := by
  rcases h.eq_or_lt with rfl | hq
  · exact .finite le_rfl
  · rw [ofRat_pos hq]
    split_ifs
    · exact .infinity
    · exact .finite le_rfl
    · exact .finite (rounded_nonneg hq)

theorem size_ofRat {q : Rat} (h : 0 < q) :
    (ofRat q).size = if (2 : Rat) ^ (1024 : Int) ≤ rounded q then ⊤ else (rounded q : WithTop Rat) := by
  rw [ofRat_pos h]
  change (if _ ≤ rounded q then _ else if rounded q = 0 then _ else .finite (rounded q) : Number).size = _
  by_cases hbig : (2 : Rat) ^ (1024 : Int) ≤ rounded q
  · rw [if_pos hbig, if_pos hbig]
    rfl
  · rw [if_neg hbig, if_neg hbig]
    by_cases hzero : rounded q = 0
    · rw [if_pos hzero, hzero]
      rfl
    · rw [if_neg hzero]
      rfl

/-- What is not refused as `n <= 0`, nor NaN, is one. -/
theorem isAmount_of_not_le {n : Number} (h : n.le (.finite 0) = false) (hnan : n ≠ .nan) : IsAmount n := by
  cases n with
  | nan => exact absurd rfl hnan
  | infinity s =>
    cases s with
    | false => exact .infinity
    | true => exact absurd h (by decide)
  | negZero => exact absurd h (by decide)
  | finite q =>
    refine .finite (not_lt.1 fun hq => ?_)
    simp [le, lt, toRat?, hq] at h

/-- Nothing is rounded where there was nothing. -/
theorem zero_add {n : Number} (h : IsAmount n) (hn : n.IsBinary64) : (Number.finite 0).add n = n := by
  cases h with
  | finite hq => simpa [add, toRat?] using hn _ rfl
  | infinity => rfl

end Number

/-- A number that is an amount. -/
structure Amount where
  value : Number
  isAmount : value.IsAmount

namespace Amount

open Number (ofRat IsAmount rounded)

@[ext] theorem ext {a b : Amount} (h : a.value = b.value) : a = b := by
  cases a
  cases b
  cases h
  rfl

def zero : Amount := ⟨.finite 0, .finite le_rfl⟩

/-- Amounts are compared by their size. -/
def size (a : Amount) : WithTop Rat := a.value.size

theorem size_injective : Function.Injective size := by
  rintro ⟨n, hn⟩ ⟨m, hm⟩ h
  cases hn <;> cases hm <;> simp_all [size, Number.size]

noncomputable instance : LinearOrder Amount := LinearOrder.lift' size size_injective

theorem le_iff_size {a b : Amount} : a ≤ b ↔ a.size ≤ b.size := Iff.rfl

noncomputable instance : OrderBot Amount where
  bot := zero
  bot_le a := by
    obtain ⟨n, hn⟩ := a
    rw [le_iff_size]
    cases hn with
    | finite h => exact WithTop.coe_le_coe.2 h
    | infinity => exact le_top

@[simp] theorem value_bot : (⊥ : Amount).value = .finite 0 := rfl

/-- They compare as the numbers do. -/
theorem lt_iff {a b : Amount} : a < b ↔ a.value.lt b.value = true := by
  obtain ⟨n, hn⟩ := a
  obtain ⟨m, hm⟩ := b
  rw [← not_le, le_iff_size, not_le]
  cases hn with
  | infinity => cases hm <;> simp [size, Number.size, Number.lt]
  | finite h =>
    cases hm with
    | infinity => simp [size, Number.size, Number.lt]
    | finite h' => exact WithTop.coe_lt_coe.trans (Number.lt_iff rfl rfl).symm

theorem le_iff {a b : Amount} : a ≤ b ↔ a.value.le b.value = true := by
  obtain ⟨n, hn⟩ := a
  obtain ⟨m, hm⟩ := b
  rw [le_iff_size]
  cases hn with
  | infinity => cases hm <;> simp [size, Number.size, Number.le, Number.lt, Number.eq]
  | finite h =>
    cases hm with
    | infinity => simp [size, Number.size, Number.le, Number.lt]
    | finite h' => exact WithTop.coe_le_coe.trans (Number.le_iff rfl rfl).symm

/-- An exact result, rounded. -/
def ofExact (q : Rat) (h : 0 ≤ q) : Amount := ⟨ofRat q, Number.isAmount_ofRat h⟩

/-- Rounding keeps the order, overflow included. -/
theorem ofExact_mono {q r : Rat} (hq : 0 ≤ q) (h : q ≤ r) : ofExact q hq ≤ ofExact r (hq.trans h) := by
  rcases hq.eq_or_lt with rfl | hpos
  · exact bot_le
  · have hle := Number.rounded_mono hpos h
    rw [le_iff_size, size, size, ofExact, ofExact, Number.size_ofRat hpos, Number.size_ofRat (hpos.trans_le h)]
    by_cases hbig : (2 : Rat) ^ (1024 : Int) ≤ rounded r
    · rw [if_pos hbig]
      exact le_top
    · rw [if_neg hbig, if_neg fun hbig' => hbig (hbig'.trans hle)]
      exact WithTop.coe_le_coe.2 hle

theorem isAmount_add (a b : Amount) : IsAmount (a.value.add b.value) := by
  obtain ⟨n, hn⟩ := a
  obtain ⟨m, hm⟩ := b
  cases hn <;> cases hm
  · exact Number.isAmount_ofRat (add_nonneg ‹_› ‹_›)
  all_goals exact .infinity

/-- `a + b`. -/
def add (a b : Amount) : Amount := ⟨a.value.add b.value, isAmount_add a b⟩

@[simp] theorem value_add (a b : Amount) : (a.add b).value = a.value.add b.value := rfl

protected theorem add_comm (a b : Amount) : a.add b = b.add a := by
  obtain ⟨n, hn⟩ := a
  obtain ⟨m, hm⟩ := b
  ext
  cases hn <;> cases hm <;> simp [Number.add, Number.toRat?, add_comm]

/-- **A rounded sum is monotone.** -/
theorem add_mono (b : Amount) : Monotone fun a : Amount => a.add b := by
  rintro ⟨n, hn⟩ ⟨m, hm⟩ h
  obtain ⟨k, hk⟩ := b
  rw [le_iff_size] at h
  cases hm with
  | infinity =>
    have htop (x : WithTop Rat) : x ≤ ⊤ := le_top
    cases hk <;> exact htop _
  | finite hm =>
    cases hn with
    | infinity => exact absurd h (by simp [size, Number.size])
    | finite hn =>
      cases hk with
      | infinity => exact le_rfl
      | finite hk => exact ofExact_mono (add_nonneg hn hk) (add_le_add_left (WithTop.coe_le_coe.1 h) _)

/-! ## Whole amounts -/

def ofNat (n : Nat) : Amount := ⟨.finite n, .finite n.cast_nonneg⟩

@[simp] theorem value_ofNat (n : Nat) : (ofNat n).value = .finite n := rfl

theorem ofNat_le {n m : Nat} : ofNat n ≤ ofNat m ↔ n ≤ m := by
  rw [le_iff_size]
  simp [size, Number.size]

/-- Whole amounts are added exactly up to `2 ^ 53`. -/
theorem ofNat_add {n m : Nat} (h : n + m ≤ 2 ^ 53) : (ofNat n).add (ofNat m) = ofNat (n + m) := by
  ext
  have hexact := Number.ofRat_natCast h
  rw [Nat.cast_add] at hexact
  simpa [Number.add, Number.toRat?] using hexact

end Amount

end Js
