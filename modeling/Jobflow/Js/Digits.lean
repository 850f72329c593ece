import Jobflow.Js.Order
import Jobflow.Js.Rounding

/-!
# Numbers and their texts

The digits `String(n)` prints read back as the number (`shortestDigits_spec`), in every format they are printed in
(`positiveToText_literal`); so `Number(String(n)) === n` (`parse_toText`), and numbers
with one text are equal.
-/

namespace Js.Number

variable {q : Rat} {n : Int}

/-- A finite binary64 number. -/
def IsDouble : Number → Prop
  | .negZero => True
  | .finite q => ofRat q = .finite q
  | _ => False

/-- A number as JavaScript has it, `NaN` and the infinities included. -/
def IsBinary64 (x : Number) : Prop := ∀ q, x = .finite q → ofRat q = .finite q

theorem IsDouble.isBinary64 {x : Number} (h : x.IsDouble) : x.IsBinary64 := by
  rintro q rfl
  exact h

/-! ## The decimal point -/

theorem ten_zpow_pos (e : Int) : (0 : Rat) < 10 ^ e := zpow_pos (by norm_num) e

theorem decimalPoint_spec : ∀ {fuel : Nat} {k : Int}, 10 ^ (k - 1) ≤ q → q < 10 ^ (k + fuel) →
    10 ^ (decimalPoint q fuel k - 1) ≤ q ∧ q < 10 ^ decimalPoint q fuel k
  | 0, k, hlo, hhi => ⟨hlo, by simpa [decimalPoint] using hhi⟩
  | fuel + 1, k, hlo, hhi => by
    unfold decimalPoint
    rw [pow10_eq]
    split_ifs with h
    · exact ⟨hlo, h⟩
    · refine decimalPoint_spec ?_ ?_
      · rw [add_sub_cancel_right]
        exact not_lt.1 h
      · rwa [add_assoc, add_comm 1, ← Nat.cast_succ]

/-- A positive number is at least the least subnormal one. -/
theorem le_of_isDouble (hq : 0 < q) (h : ofRat q = .finite q) : 2 ^ (-1074 : Int) ≤ q := by
  obtain ⟨⟨m, hm⟩, _⟩ := exists_multiple hq h
  have hulp : (2 : Rat) ^ (-1074 : Int) ≤ ulp q := by
    rw [ulp_eq]
    exact zpow_le_zpow_right₀ (by norm_num) (by omega)
  have hpos : 0 < (m : Rat) := by
    rw [hm] at hq
    exact (pos_iff_pos_of_mul_pos hq).2 (ulp_pos q)
  have hone : (1 : Rat) ≤ m := by
    have : 0 < m := by exact_mod_cast hpos
    exact_mod_cast this
  rw [hm]
  nlinarith [ulp_pos q]

/-- The search for the decimal point starts below every number and ends above. -/
theorem decimalPoint_of_isDouble (hq : 0 < q) (h : ofRat q = .finite q) :
    10 ^ (decimalPoint q 640 (-323) - 1) ≤ q ∧ q < 10 ^ decimalPoint q 640 (-323) := by
  have hsmall : (10 : Rat) ^ (-324 : Int) ≤ 2 ^ (-1074 : Int) := by
    rw [zpow_neg, zpow_neg]
    refine inv_anti₀ (two_zpow_pos _) ?_
    have hnat : 2 ^ 1074 ≤ 10 ^ 324 := by decide +kernel
    exact_mod_cast hnat
  have hlarge : (2 : Rat) ^ (1024 : Int) ≤ 10 ^ (317 : Int) := by
    have hnat : 2 ^ 1024 ≤ 10 ^ 317 := by decide +kernel
    exact_mod_cast hnat
  exact decimalPoint_spec (hsmall.trans (le_of_isDouble hq h)) ((exists_multiple hq h).2.trans_le hlarge)

/-! ## The digits -/

/-- `s`, of `k` digits up to the next power of ten, reads back as `q` with the decimal point at `n`. -/
structure IsDigits (q : Rat) (n : Int) (s k : Nat) : Prop where
  pos : 1 ≤ k
  le : 10 ^ (k - 1) ≤ s
  le_pow : s ≤ 10 ^ k
  reads : ofRat (s * 10 ^ (n - k)) = .finite q
  first : s = 10 ^ k → k = 1

/-- What stops the next power of ten from being found late: it was tried as the first digit. -/
def Tried (q : Rat) (n : Int) (k : Nat) : Prop :=
  1 < k → roundHalfEven (q / 10 ^ (n - 1)) = 10 → ofRat (10 ^ n) ≠ .finite q

theorem ten_mul_zpow (n : Int) : (10 : Rat) * 10 ^ (n - 1) = 10 ^ n := by
  rw [← zpow_one_add₀ (by norm_num)]
  congr 1
  omega

theorem ten_pow_mul_zpow {j k : Nat} {m : Int} (h : j + (n - k) = m) : (10 : Rat) ^ j * 10 ^ (n - k) = 10 ^ m := by
  rw [← zpow_natCast, ← zpow_add₀ (by norm_num), h]

section
variable {k : Nat}

theorem scaled_bounds (hlo : 10 ^ (n - 1) ≤ q) (hhi : q < 10 ^ n) (hk : 1 ≤ k) :
    (10 : Rat) ^ (k - 1) ≤ q / 10 ^ (n - k) ∧ q / 10 ^ (n - k) < 10 ^ k := by
  rw [le_div_iff₀ (ten_zpow_pos _), div_lt_iff₀ (ten_zpow_pos _),
    ten_pow_mul_zpow (show ((k - 1 : Nat) : Int) + (n - k) = n - 1 by omega),
    ten_pow_mul_zpow (show (k : Int) + (n - k) = n by omega)]
  exact ⟨hlo, hhi⟩

/-- Less than a unit of the last of two or more digits below the next power of ten, the first digit rounds to it. -/
theorem round_first_digit (hhi : q < 10 ^ n) (hk : 1 < k) (hnear : (10 : Rat) ^ k ≤ q / 10 ^ (n - k) + 1) :
    roundHalfEven (q / 10 ^ (n - 1)) = 10 := by
  have hd := ten_zpow_pos (n - k)
  have hfirst : (10 : Rat) ^ (n - 1) = 10 ^ (k - 1) * 10 ^ (n - k) :=
    (ten_pow_mul_zpow (by omega)).symm
  have hnext : (10 : Rat) ^ n = 10 * (10 ^ (k - 1) * 10 ^ (n - k)) := by rw [← hfirst, ten_mul_zpow]
  have hten : (10 : Rat) ^ k = 10 * 10 ^ (k - 1) := by
    rw [← pow_succ']
    congr 1
    omega
  have hlarge : (10 : Rat) ≤ 10 ^ (k - 1) := le_self_pow₀ (by norm_num) (by omega)
  rw [hten, ← sub_le_iff_le_add, le_div_iff₀ hd] at hnear
  have hd' : 0 < (10 : Rat) ^ (k - 1) * 10 ^ (n - k) := by positivity
  refine roundHalfEven_eq ?_
  push_cast
  rw [abs_lt, hfirst, lt_sub_iff_add_lt, sub_lt_iff_lt_add, lt_div_iff₀ hd', div_lt_iff₀ hd']
  constructor
  · nlinarith
  · rw [hnext] at hhi
    linarith

theorem Tried.next (hk : 1 ≤ k) (h : Tried q n k)
    (hbad : ¬ ofRat (roundHalfEven (q / 10 ^ (n - k)) * 10 ^ (n - k)) = .finite q) : Tried q n (k + 1) := by
  intro _ hround
  by_cases hone : k = 1
  · subst hone
    push_cast at hbad
    rw [hround] at hbad
    push_cast at hbad
    rwa [ten_mul_zpow] at hbad
  · exact h (by omega) hround

/-- A neighbour that reads back. -/
theorem isDigits_of_good (hhi : q < 10 ^ n) (hk : 1 ≤ k) {s : Int} (htried : Tried q n k)
    (hs : (10 : Int) ^ (k - 1) ≤ s) (hs' : s ≤ (10 : Int) ^ k) (hnear : (s : Rat) ≤ q / 10 ^ (n - k) + 1)
    (hgood : ofRat (s * 10 ^ (n - k)) = .finite q) :
    IsDigits q n s.toNat k := by
  have hpos : 0 ≤ s := (by positivity : (0 : Int) ≤ 10 ^ (k - 1)).trans hs
  have hcast : ((s.toNat : Nat) : Int) = s := Int.toNat_of_nonneg hpos
  have hcast' : ((s.toNat : Nat) : Rat) = s := by exact_mod_cast congrArg (Int.cast : Int → Rat) hcast
  refine ⟨hk, ?_, ?_, ?_, ?_⟩
  · zify
    rwa [hcast]
  · zify
    rwa [hcast]
  · rwa [hcast']
  · intro hpow
    have hpow' : (s : Rat) = 10 ^ k := by
      rw [← hcast', hpow]
      push_cast
      rfl
    by_contra hne
    rw [hpow'] at hnear
    rw [hpow', ten_pow_mul_zpow (show (k : Int) + (n - k) = n by omega)] at hgood
    exact htried (by omega) (round_first_digit hhi (by omega) hnear) hgood

end

/-- **The digits printed read back.** -/
theorem shortestDigits_spec (hq : ofRat q = .finite q) (hlo : 10 ^ (n - 1) ≤ q) (hhi : q < 10 ^ n) :
    ∀ {fuel k : Nat}, fuel + k = 17 → 1 ≤ k → Tried q n k →
      IsDigits q n (shortestDigits q n fuel k).1 (shortestDigits q n fuel k).2
  | 0, k, hfuel, hk, htried => by
    obtain rfl : k = 17 := by omega
    have hpos : 0 < q := (ten_zpow_pos _).trans_le hlo
    obtain ⟨hlo', hhi'⟩ := scaled_bounds hlo hhi hk
    have hreads := ofRat_of_digits hpos hq (ten_zpow_pos (n - 17)) (by
      have := ten_pow_mul_zpow (show ((16 : Nat) : Int) + (n - (17 : Nat)) = n - 1 by omega)
      push_cast at this
      rw [this]
      exact hlo)
    have hround := (abs_le.1 (abs_roundHalfEven_sub_le (q / 10 ^ (n - (17 : Nat))))).2
    unfold shortestDigits
    rw [pow10_eq]
    exact isDigits_of_good hhi hk htried (le_roundHalfEven (by exact_mod_cast hlo'))
      (roundHalfEven_le (by exact_mod_cast hhi'.le)) (by linarith) hreads
  | fuel + 1, k, hfuel, hk, htried => by
    obtain ⟨hlo', hhi'⟩ := scaled_bounds hlo hhi hk
    have hnear := abs_le.1 (abs_roundHalfEven_sub_le (q / 10 ^ (n - k)))
    have hfloor := Rat.floor_le (q / 10 ^ (n - k))
    have hlo_floor : (10 : Int) ^ (k - 1) ≤ (q / 10 ^ (n - k)).floor := Rat.le_floor_iff.2 (by exact_mod_cast hlo')
    have hfloor_hi : (q / 10 ^ (n - k)).floor < (10 : Int) ^ k := Rat.floor_lt_iff.2 (by exact_mod_cast hhi')
    unfold shortestDigits
    simp only [pow10_eq, decide_eq_true_eq]
    split_ifs with hgood hsame hgood' hgood'
    · exact isDigits_of_good hhi hk htried (le_roundHalfEven (by exact_mod_cast hlo'))
        (roundHalfEven_le (by exact_mod_cast hhi'.le)) (by linarith) hgood
    · exact isDigits_of_good hhi hk htried (by omega) (by omega) (by push_cast; linarith) hgood'
    · exact shortestDigits_spec hq hlo hhi (by omega) (by omega) (htried.next hk hgood)
    · exact isDigits_of_good hhi hk htried (by omega) (by omega) (by linarith) hgood'
    · exact shortestDigits_spec hq hlo hhi (by omega) (by omega) (htried.next hk hgood)

/-! ## Reading decimals -/

/-- What a number is written with. -/
def IsNumberChar (c : Char) : Prop := c.isDigit = true ∨ c ∈ ['-', '+', '.', 'e']

def AllDigits (cs : List Char) : Prop := ∀ c ∈ cs, c.isDigit = true

theorem isDigit_eq (c : Char) : isDigit c = c.isDigit := by
  rw [Bool.eq_iff_iff]
  simp [isDigit, Char.isDigit, Char.le_def]

theorem digitValue_of_isDigit {c : Char} (h : c.isDigit = true) :
    digitValue c = some (c.toNat - '0'.toNat) ∧ c.toNat - '0'.toNat < 10 := by
  rw [← isDigit_eq, isDigit, decide_eq_true_eq] at h
  refine ⟨if_pos h, ?_⟩
  have hle : c.toNat ≤ '9'.toNat := h.2
  have hnine : '9'.toNat = 57 := rfl
  have hzero : '0'.toNat = 48 := rfl
  omega

theorem foldl_digits : ∀ {cs : List Char} (a : Nat), AllDigits cs →
    cs.foldl (fun acc c => do
      let n ← acc
      let d ← digitValue c
      if d < 10 then some (n * 10 + d) else none) (some a) = some (Nat.ofDigitChars 10 cs a)
  | [], _, _ => by simp
  | c :: cs, a, h => by
    obtain ⟨hvalue, hlt⟩ := digitValue_of_isDigit (h c List.mem_cons_self)
    rw [List.foldl_cons, Nat.ofDigitChars_cons, ← foldl_digits _ fun d hd => h d (List.mem_cons_of_mem _ hd), hvalue]
    congr 1
    simp only [Option.bind_eq_bind, Option.bind_some]
    rw [if_pos hlt, mul_comm]

theorem digitsIn_eq {cs : List Char} (hne : cs ≠ []) (h : AllDigits cs) :
    digitsIn 10 cs = some (Nat.ofDigitChars 10 cs 0) := by
  rw [digitsIn, if_neg hne]
  exact foldl_digits 0 h

/-- The value of a literal by its mantissa and what follows it. -/
def scaledBy (mantissa : Rat) : List Char → Option Rat
  | [] => some mantissa
  | c :: r =>
    if c = 'e' ∨ c = 'E' then
      let (negative, r) := splitSign r
      (digitsIn 10 r).map fun e => mantissa * pow10 (if negative then -(e : Int) else e)
    else none

theorem takeWhile_digits : ∀ {cs rest : List Char}, AllDigits cs → (∀ c ∈ rest.head?, c.isDigit = false) →
    (cs ++ rest).takeWhile isDigit = cs ∧ (cs ++ rest).dropWhile isDigit = rest
  | [], [], _, _ => ⟨rfl, rfl⟩
  | [], c :: rest, _, hrest => by
    have hc : isDigit c = false := (isDigit_eq c).trans (hrest c rfl)
    simp [hc]
  | c :: cs, rest, h, hrest => by
    have hc : isDigit c = true := (isDigit_eq c).trans (h c List.mem_cons_self)
    obtain ⟨htake, hdrop⟩ := takeWhile_digits (fun d hd => h d (List.mem_cons_of_mem _ hd)) hrest
    rw [List.cons_append, List.takeWhile_cons_of_pos hc, List.dropWhile_cons_of_pos hc, htake, hdrop]
    exact ⟨rfl, rfl⟩

theorem decimalLiteral_whole {whole rest : List Char} (hne : whole ≠ []) (h : AllDigits whole)
    (hrest : ∀ c ∈ rest.head?, c.isDigit = false ∧ c ≠ '.') :
    decimalLiteral (whole ++ rest) = scaledBy (Nat.ofDigitChars 10 whole 0) rest := by
  obtain ⟨htake, hdrop⟩ := takeWhile_digits h fun c hc => (hrest c hc).1
  unfold decimalLiteral
  simp only [htake, hdrop]
  cases rest with
  | nil => simp [hne, digitsIn_eq hne h, scaledBy, pow10]
  | cons c rest =>
    have hpoint := (hrest c rfl).2
    split
    · rename_i r heq
      exact absurd (List.cons.inj heq).1 hpoint
    · simp [hne, digitsIn_eq hne h, scaledBy, pow10]

theorem decimalLiteral_point {whole frac rest : List Char} (hne : whole ≠ []) (h : AllDigits whole)
    (h' : AllDigits frac) (hrest : ∀ c ∈ rest.head?, c.isDigit = false) :
    decimalLiteral (whole ++ '.' :: (frac ++ rest)) =
      scaledBy (Nat.ofDigitChars 10 (whole ++ frac) 0 * 10 ^ (-(frac.length : Int))) rest := by
  have hall : AllDigits (whole ++ frac) := fun c hc => (List.mem_append.1 hc).elim (h c) (h' c)
  have hne' : whole ++ frac ≠ [] := by simp [hne]
  obtain ⟨htake, hdrop⟩ := @takeWhile_digits whole ('.' :: (frac ++ rest)) h (by simp)
  obtain ⟨htake', hdrop'⟩ := takeWhile_digits h' hrest
  rw [← pow10_eq]
  unfold decimalLiteral
  simp only [htake, hdrop, htake', hdrop', hne, false_and, if_false, digitsIn_eq hne' hall, Option.getD_some]
  cases rest <;> rfl

theorem allDigits_toDigits (n : Nat) : AllDigits (Nat.toDigits 10 n) := fun _ hc =>
  Nat.isDigit_of_mem_toDigits (by decide) (by decide) hc

theorem allDigits_zeros (n : Nat) : AllDigits (zeros n) := fun c hc => by
  rw [List.eq_of_mem_replicate hc]
  rfl

theorem scaledBy_exponent (mantissa : Rat) (e : Int) :
    scaledBy mantissa ('e' :: (if e < 0 then '-' else '+') :: Nat.toDigits 10 e.natAbs) = some (mantissa * 10 ^ e) := by
  have hdigits := digitsIn_eq Nat.toDigits_ne_nil (allDigits_toDigits e.natAbs)
  rw [Nat.ofDigitChars_ten_toDigits] at hdigits
  have hread : ∀ negative : Bool, ((digitsIn 10 (Nat.toDigits 10 e.natAbs)).map fun n : Nat =>
      mantissa * pow10 (if negative then -(n : Int) else n)) =
        some (mantissa * 10 ^ (if negative then -(e.natAbs : Int) else e.natAbs)) := by
    intro negative
    rw [hdigits, Option.map_some, pow10_eq]
  by_cases hneg : e < 0
  · rw [if_pos hneg]
    refine Eq.trans ?_ ((hread true).trans ?_)
    · simp [scaledBy, splitSign, hdigits]
    · rw [if_pos rfl, show -(e.natAbs : Int) = e by omega]
  · rw [if_neg hneg]
    refine Eq.trans ?_ ((hread false).trans ?_)
    · simp [scaledBy, splitSign, hdigits]
    · rw [if_neg Bool.false_ne_true, show (e.natAbs : Int) = e by omega]

/-! ## Literals -/

/-- The parts of a decimal literal. -/
structure Literal where
  whole : List Char
  frac : List Char
  exponent : Option Int

namespace Literal

def fracText (l : Literal) : List Char := if l.frac = [] then [] else '.' :: l.frac

def exponentText (l : Literal) : List Char :=
  match l.exponent with
  | none => []
  | some e => 'e' :: (if e < 0 then '-' else '+') :: Nat.toDigits 10 e.natAbs

def text (l : Literal) : List Char := l.whole ++ (l.fracText ++ l.exponentText)

def value (l : Literal) : Rat :=
  Nat.ofDigitChars 10 (l.whole ++ l.frac) 0 * 10 ^ (-(l.frac.length : Int)) * 10 ^ l.exponent.getD 0

/-- Digits, and no zero before others. -/
structure Proper (l : Literal) : Prop where
  whole : AllDigits l.whole
  frac : AllDigits l.frac
  head : ∃ c cs, l.whole = c :: cs ∧ (c = '0' → cs = [])

theorem Proper.whole_ne_nil {l : Literal} (h : l.Proper) : l.whole ≠ [] := by
  obtain ⟨c, cs, hcs, _⟩ := h.head
  simp [hcs]

theorem head_exponentText (l : Literal) : ∀ c ∈ l.exponentText.head?, c = 'e' := by
  intro c hc
  unfold exponentText at hc
  split at hc
  · cases hc
  · exact (Option.some.inj hc).symm

theorem scaledBy_exponentText (mantissa : Rat) (l : Literal) :
    scaledBy mantissa l.exponentText = some (mantissa * 10 ^ l.exponent.getD 0) := by
  unfold exponentText
  split
  · rename_i hnone
    simp [scaledBy, hnone]
  · rename_i e hsome
    rw [scaledBy_exponent, hsome]
    rfl

theorem decimalLiteral_text {l : Literal} (h : l.Proper) : decimalLiteral l.text = some l.value := by
  have hhead := l.head_exponentText
  unfold text fracText value
  by_cases hfrac : l.frac = []
  · rw [if_pos hfrac, List.nil_append, decimalLiteral_whole h.whole_ne_nil h.whole, scaledBy_exponentText, hfrac]
    · simp
    · intro c hc
      rw [hhead c hc]
      decide
  · rw [if_neg hfrac, List.cons_append, decimalLiteral_point h.whole_ne_nil h.whole h.frac, scaledBy_exponentText]
    intro c hc
    rw [hhead c hc]
    rfl

end Literal

/-! ## Layout -/

/-- The digits `s`, `k` of them, with the decimal point at `n`. -/
def layout (s k : Nat) (n : Int) : List Char :=
  let ds := Nat.toDigits 10 s
  if (k : Int) ≤ n ∧ n ≤ 21 then ds ++ zeros (n - k).toNat
  else if 0 < n ∧ n ≤ 21 then ds.take n.toNat ++ '.' :: ds.drop n.toNat
  else if -6 < n ∧ n ≤ 0 then '0' :: '.' :: zeros (-n).toNat ++ ds
  else
    let e := n - 1
    let exponent := (if e < 0 then '-' else '+') :: Nat.toDigits 10 e.natAbs
    match ds with
    | [d] => d :: 'e' :: exponent
    | d :: ds => d :: '.' :: ds ++ 'e' :: exponent
    | [] => []

/-- All the digits may round up to the next power of ten. -/
def layoutDigits (n : Int) (digits : Nat × Nat) : List Char :=
  if digits.1 = 10 ^ digits.2 then layout 1 digits.2 (n + 1) else layout digits.1 digits.2 n

theorem positiveToText_eq (q : Rat) :
    positiveToText q =
      layoutDigits (decimalPoint q 640 (-323)) (shortestDigits q (decimalPoint q 640 (-323)) 16 1) := by
  unfold positiveToText layoutDigits
  dsimp only
  generalize shortestDigits q (decimalPoint q 640 (-323)) 16 1 = digits
  by_cases h : digits.1 = 10 ^ digits.2
  · simp only [h, if_true]
    rfl
  · simp only [h, if_false]
    rfl

theorem ten_zpow_natCast (n : Nat) : (10 : Rat) ^ (n : Int) = ((10 ^ n : Nat) : Rat) := by
  rw [zpow_natCast]
  push_cast
  rfl

theorem length_toDigits {s k : Nat} (hk : 1 ≤ k) (hlo : 10 ^ (k - 1) ≤ s) (hhi : s < 10 ^ k) :
    (Nat.toDigits 10 s).length = k := by
  have hle := (Nat.length_toDigits_le_iff (by decide) (by omega : 0 < k)).2 hhi
  rcases Nat.eq_or_lt_of_le hk with rfl | hone
  · have := @Nat.length_toDigits_pos 10 s
    omega
  · have hge := mt (Nat.length_toDigits_le_iff (by decide) (by omega : 0 < k - 1)).1 hlo.not_gt
    omega

/-- No number but zero begins with a zero. -/
theorem toDigits_head_ne_zero : ∀ {s : Nat}, 0 < s → ∃ c cs, Nat.toDigits 10 s = c :: cs ∧ c ≠ '0' := by
  intro s
  induction s using Nat.strong_induction_on with
  | _ s ih =>
    intro hs
    by_cases hlt : s < 10
    · refine ⟨Nat.digitChar s, [], Nat.toDigits_of_lt_base hlt, ?_⟩
      have hdigits : ∀ n < 10, 0 < n → Nat.digitChar n ≠ '0' := by decide
      exact hdigits s hlt hs
    · obtain ⟨c, cs, hcs, hne⟩ := ih (s / 10) (by omega) (by omega)
      exact ⟨c, cs ++ [Nat.digitChar (s % 10)], by rw [Nat.toDigits_of_base_le (by decide) (by omega), hcs]; rfl, hne⟩

/-- Each layout is a literal of the number. -/
theorem layout_eq {s k : Nat} (hk : 1 ≤ k) (hlo : 10 ^ (k - 1) ≤ s) (hhi : s < 10 ^ k) (n : Int) :
    ∃ l : Literal, layout s k n = l.text ∧ l.Proper ∧ l.value = (s : Rat) * 10 ^ (n - k) := by
  have hdigits := allDigits_toDigits s
  have hlen := length_toDigits hk hlo hhi
  have hvalue := @Nat.ofDigitChars_ten_toDigits s
  obtain ⟨d, ds, hds, hd⟩ := toDigits_head_ne_zero (show 0 < s from (by positivity : 0 < 10 ^ (k - 1)).trans_le hlo)
  unfold layout
  dsimp only
  by_cases hwhole : (k : Int) ≤ n ∧ n ≤ 21
  · refine ⟨⟨Nat.toDigits 10 s ++ zeros (n - k).toNat, [], none⟩, ?_, ⟨?_, ?_, ?_⟩, ?_⟩
    · simp [if_pos hwhole, Literal.text, Literal.fracText, Literal.exponentText]
    · exact fun c hc => (List.mem_append.1 hc).elim (hdigits c) (allDigits_zeros _ c)
    · simp [AllDigits]
    · exact ⟨d, ds ++ zeros (n - k).toNat, by rw [hds]; rfl, fun h => absurd h hd⟩
    · rw [← Int.toNat_of_nonneg (show 0 ≤ n - k by omega), ten_zpow_natCast]
      simp [Literal.value, Nat.ofDigitChars_append, zeros, mul_comm]
  rw [if_neg hwhole]
  by_cases hpoint : 0 < n ∧ n ≤ 21
  · have hfrac : (Nat.toDigits 10 s).drop n.toNat ≠ [] := by
      rw [ne_eq, List.drop_eq_nil_iff, hlen]
      omega
    refine ⟨⟨(Nat.toDigits 10 s).take n.toNat, (Nat.toDigits 10 s).drop n.toNat, none⟩, ?_, ⟨?_, ?_, ?_⟩, ?_⟩
    · simp only [if_pos hpoint, Literal.text, Literal.fracText, Literal.exponentText, if_neg hfrac, List.append_nil]
    · exact fun c hc => hdigits c (List.mem_of_mem_take hc)
    · exact fun c hc => hdigits c (List.mem_of_mem_drop hc)
    · obtain ⟨m, hm⟩ : ∃ m, n.toNat = m + 1 := ⟨n.toNat - 1, by omega⟩
      exact ⟨d, ds.take m, by rw [hds, hm]; rfl, fun h => absurd h hd⟩
    · simp only [Literal.value, List.take_append_drop, hvalue, List.length_drop, hlen, Option.getD_none, zpow_zero,
        mul_one]
      congr 2
      omega
  rw [if_neg hpoint]
  by_cases hsmall : -6 < n ∧ n ≤ 0
  · refine ⟨⟨['0'], zeros (-n).toNat ++ Nat.toDigits 10 s, none⟩, ?_, ⟨?_, ?_, ?_⟩, ?_⟩
    · simp [if_pos hsmall, Literal.text, Literal.fracText, Literal.exponentText]
    · simp [AllDigits]
    · exact fun c hc => (List.mem_append.1 hc).elim (allDigits_zeros _ c) (hdigits c)
    · exact ⟨'0', [], rfl, fun _ => rfl⟩
    · have hzero : Nat.ofDigitChars 10 ['0'] 0 = 0 := rfl
      simp only [Literal.value, Nat.ofDigitChars_append, zeros, Nat.ofDigitChars_replicate_zero, hzero, mul_zero,
        hvalue, List.length_append, List.length_replicate, hlen, Option.getD_none, zpow_zero, mul_one]
      congr 2
      omega
  rw [if_neg hsmall]
  rw [hds] at hdigits hlen hvalue ⊢
  refine ⟨⟨[d], ds, some (n - 1)⟩, ?_, ⟨?_, ?_, ?_⟩, ?_⟩
  · cases ds with
    | nil => rfl
    | cons d' ds => simp [Literal.text, Literal.fracText, Literal.exponentText]
  · exact fun c hc => hdigits c (by simp_all)
  · exact fun c hc => hdigits c (List.mem_cons_of_mem _ hc)
  · exact ⟨d, [], rfl, fun _ => rfl⟩
  · rw [Literal.value, List.singleton_append, hvalue, mul_assoc, ← zpow_add₀ (by norm_num)]
    congr 2
    rw [← hlen]
    simp
    ring

theorem isNumberChar_of_isDigit {cs : List Char} (h : AllDigits cs) : ∀ c ∈ cs, IsNumberChar c := fun c hc =>
  .inl (h c hc)

/-- Every layout begins with a digit. -/
theorem layout_head (s k : Nat) (n : Int) : ∃ c cs, layout s k n = c :: cs ∧ c.isDigit = true := by
  have hdigits := allDigits_toDigits s
  obtain ⟨d, ds, hds⟩ := List.exists_cons_of_ne_nil (@Nat.toDigits_ne_nil s 10)
  have hd : d.isDigit = true := hdigits d (hds ▸ List.mem_cons_self)
  unfold layout
  rw [hds]
  dsimp only
  split_ifs with hwhole hpoint hsmall
  · exact ⟨d, _, rfl, hd⟩
  · obtain ⟨m, hm⟩ : ∃ m, n.toNat = m + 1 := ⟨n.toNat - 1, by omega⟩
    rw [hm]
    exact ⟨d, _, rfl, hd⟩
  · exact ⟨'0', _, rfl, rfl⟩
  all_goals cases ds <;> exact ⟨d, _, rfl, hd⟩

theorem exponent_chars (e : Int) :
    ∀ c ∈ 'e' :: (if e < 0 then '-' else '+') :: Nat.toDigits 10 e.natAbs, IsNumberChar c := by
  intro c hc
  rcases List.mem_cons.1 hc with rfl | hc
  · exact .inr (by decide)
  rcases List.mem_cons.1 hc with rfl | hc
  · split_ifs <;> exact .inr (by decide)
  · exact isNumberChar_of_isDigit (allDigits_toDigits _) c hc

theorem layout_chars (s k : Nat) (n : Int) : ∀ c ∈ layout s k n, IsNumberChar c := by
  have hdigits := isNumberChar_of_isDigit (allDigits_toDigits s)
  have hzeros (m : Nat) := isNumberChar_of_isDigit (allDigits_zeros m)
  have hpoint : IsNumberChar '.' := .inr (by decide)
  have hexponent := exponent_chars (n - 1)
  unfold layout
  dsimp only
  by_cases hwhole : (k : Int) ≤ n ∧ n ≤ 21
  · rw [if_pos hwhole]
    exact fun c hc => (List.mem_append.1 hc).elim (hdigits c) (hzeros _ c)
  rw [if_neg hwhole]
  by_cases hamong : 0 < n ∧ n ≤ 21
  · rw [if_pos hamong]
    intro c hc
    rcases List.mem_append.1 hc with hc | hc
    · exact hdigits c (List.mem_of_mem_take hc)
    rcases List.mem_cons.1 hc with rfl | hc
    · exact hpoint
    · exact hdigits c (List.mem_of_mem_drop hc)
  rw [if_neg hamong]
  by_cases hsmall : -6 < n ∧ n ≤ 0
  · rw [if_pos hsmall]
    intro c hc
    rcases List.mem_append.1 hc with hc | hc
    · rcases List.mem_cons.1 hc with rfl | hc
      · exact .inl rfl
      rcases List.mem_cons.1 hc with rfl | hc
      · exact hpoint
      · exact hzeros _ c hc
    · exact hdigits c hc
  rw [if_neg hsmall]
  generalize Nat.toDigits 10 s = ds at *
  match ds with
  | [] => simp
  | [d] =>
    intro c hc
    rcases List.mem_cons.1 hc with rfl | hc
    · exact hdigits c List.mem_cons_self
    · exact hexponent c hc
  | d :: d' :: ds =>
    intro c hc
    rcases List.mem_append.1 hc with hc | hc
    · rcases List.mem_cons.1 hc with rfl | hc
      · exact hdigits c List.mem_cons_self
      rcases List.mem_cons.1 hc with rfl | hc
      · exact hpoint
      · exact hdigits c (List.mem_cons_of_mem _ hc)
    · exact hexponent c hc

/-- **A positive number is printed as a literal that rounds to it.** -/
theorem positiveToText_literal (hq : 0 < q) (h : ofRat q = .finite q) :
    ∃ l : Literal, positiveToText q = l.text ∧ l.Proper ∧ ofRat l.value = .finite q := by
  obtain ⟨hlo, hhi⟩ := decimalPoint_of_isDouble hq h
  rw [positiveToText_eq]
  generalize decimalPoint q 640 (-323) = n at *
  have hspec := shortestDigits_spec h hlo hhi (show 16 + 1 = 17 from rfl) le_rfl fun hone => absurd hone (by decide)
  generalize shortestDigits q n 16 1 = digits at *
  obtain ⟨s, k⟩ := digits
  unfold layoutDigits
  split_ifs with hpow
  · have hk : k = 1 := hspec.first hpow
    have hs : s = 10 ^ k := hpow
    subst hk
    obtain ⟨l, hl, hproper, hvalue⟩ := @layout_eq 1 1 le_rfl (by decide) (by decide) (n + 1)
    refine ⟨l, hl, hproper, ?_⟩
    have hreads := hspec.reads
    rw [hs] at hreads
    rw [hvalue]
    convert hreads using 2
    push_cast
    rw [add_sub_cancel_right, one_mul, ten_mul_zpow]
  · obtain ⟨l, hl, hproper, hvalue⟩ := layout_eq hspec.pos hspec.le (lt_of_le_of_ne hspec.le_pow hpow) n
    exact ⟨l, hl, hproper, hvalue ▸ hspec.reads⟩

/-! ## Reading back -/

theorem positiveToText_head (q : Rat) : ∃ c cs, positiveToText q = c :: cs ∧ c.isDigit = true := by
  rw [positiveToText_eq, layoutDigits]
  split_ifs <;> exact layout_head _ _ _

theorem positiveToText_chars (q : Rat) : ∀ c ∈ positiveToText q, IsNumberChar c := by
  rw [positiveToText_eq, layoutDigits]
  split_ifs <;> exact layout_chars _ _ _

theorem toText_chars {x : Number} {p : Rat} (hx : x.toRat? = some p) :
    x.toText.toList ≠ [] ∧ ∀ c ∈ x.toText.toList, IsNumberChar c := by
  have hzero : "0".toList ≠ [] ∧ ∀ c ∈ "0".toList, IsNumberChar c := by
    refine ⟨by decide, fun c hc => .inl ?_⟩
    rw [List.mem_singleton.1 hc]
    rfl
  have hne (q : Rat) : positiveToText q ≠ [] := by
    obtain ⟨c, cs, hcs, _⟩ := positiveToText_head q
    simp [hcs]
  cases x with
  | nan => cases hx
  | infinity s => cases hx
  | negZero => exact hzero
  | finite q =>
    unfold toText
    dsimp only
    split_ifs
    · exact hzero
    · rw [String.toList_ofList]
      exact ⟨List.cons_ne_nil _ _, fun c hc =>
        (List.mem_cons.1 hc).elim (fun h => h ▸ .inr (by decide)) (positiveToText_chars _ c)⟩
    · rw [String.toList_ofList]
      exact ⟨hne _, positiveToText_chars _⟩

theorem trim_of_chars {cs : List Char} (hchars : ∀ c ∈ cs, IsNumberChar c) : trim cs = cs := by
  have hspace : ∀ c ∈ cs, isSpace c = false := by
    intro c hc
    rcases hchars c hc with h | h
    · rw [Char.isDigit, Bool.and_eq_true, decide_eq_true_eq, decide_eq_true_eq] at h
      have hlo : 48 ≤ c.toNat := h.1
      have hhi : c.toNat ≤ 57 := h.2
      simp [isSpace]
      omega
    · simp only [List.mem_cons, List.not_mem_nil, or_false] at h
      rcases h with rfl | rfl | rfl | rfl <;> rfl
  have hdrop : ∀ {cs : List Char}, (∀ c ∈ cs, isSpace c = false) → cs.dropWhile isSpace = cs := by
    intro cs h
    cases cs with
    | nil => rfl
    | cons c cs => exact List.dropWhile_cons_of_neg (by simp [h c List.mem_cons_self])
  rw [trim, hdrop hspace, hdrop (by simpa using hspace), List.reverse_reverse]

/-- What a number is written with is neither space nor the begin of another literal. -/
theorem parse_of_chars {cs : List Char} (hne : cs ≠ []) (hchars : ∀ c ∈ cs, IsNumberChar c) :
    parse (String.ofList cs) = match decimalLiteral (splitSign cs).2 with
      | none => .nan
      | some q => if (splitSign cs).1 then neg (ofRat q) else ofRat q := by
  have hletter (c : Char) (hc : ¬ IsNumberChar c) : c ∉ cs := fun hmem => hc (hchars c hmem)
  unfold parse
  rw [String.toList_ofList, trim_of_chars hchars]
  split
  · exact absurd rfl hne
  · exact absurd (by simp) (hletter 'x' (by unfold IsNumberChar; decide))
  · exact absurd (by simp) (hletter 'X' (by unfold IsNumberChar; decide))
  · exact absurd (by simp) (hletter 'o' (by unfold IsNumberChar; decide))
  · exact absurd (by simp) (hletter 'O' (by unfold IsNumberChar; decide))
  · exact absurd (by simp) (hletter 'b' (by unfold IsNumberChar; decide))
  · exact absurd (by simp) (hletter 'B' (by unfold IsNumberChar; decide))
  · have hword : (splitSign cs).2 ≠ "Infinity".toList := by
      intro heq
      have hmem : 'I' ∈ (splitSign cs).2 := heq ▸ by decide
      refine hletter 'I' (by unfold IsNumberChar; decide) ?_
      unfold splitSign at hmem
      split at hmem
      · exact List.mem_cons_of_mem _ hmem
      · exact List.mem_cons_of_mem _ hmem
      · exact hmem
    generalize splitSign cs = signed at *
    obtain ⟨negative, cs⟩ := signed
    exact if_neg hword

theorem ofRat_neg (h : q < 0) (hq : ofRat q = .finite q) : ofRat (-q) = .finite (-q) := by
  have habs : absRat (-q) = absRat q := by
    rw [absRat, absRat, if_pos h, if_neg (by linarith)]
  unfold ofRat at hq ⊢
  rw [habs]
  simp only [h.ne, neg_eq_zero, if_false, h, decide_true, if_true, not_lt.2 (neg_nonneg.2 h.le)] at hq ⊢
  split_ifs at hq ⊢
  · rw [neg_eq_iff_eq_neg.1 (Number.finite.inj hq)]

theorem parse_zero : parse "0" = .finite 0 := by
  have hread : decimalLiteral ['0'] = some 0 := by
    simpa [scaledBy, Nat.ofDigitChars_cons] using
      @decimalLiteral_whole ['0'] [] (by simp) (by simp [AllDigits]) (by simp)
  refine (@parse_of_chars ['0'] (by simp) (by simp [IsNumberChar])).trans ?_
  simp [splitSign, hread, ofRat]

theorem splitSign_of_isDigit {c : Char} (h : c.isDigit = true) (cs : List Char) :
    splitSign (c :: cs) = (false, c :: cs) := by
  unfold splitSign
  split
  · rename_i heq
    rw [(List.cons.inj heq).1] at h
    cases h
  · rename_i heq
    rw [(List.cons.inj heq).1] at h
    cases h
  · rfl

/-- The text of a positive number, without and with the sign. -/
theorem parse_positiveToText (hq : 0 < q) (h : ofRat q = .finite q) :
    parse (String.ofList (positiveToText q)) = .finite q ∧
      parse (String.ofList ('-' :: positiveToText q)) = neg (.finite q) := by
  obtain ⟨l, hl, hproper, hround⟩ := positiveToText_literal hq h
  have hread : decimalLiteral (positiveToText q) = some l.value := hl ▸ Literal.decimalLiteral_text hproper
  have hchars := positiveToText_chars q
  constructor
  · obtain ⟨c, cs, hcs, hdigit⟩ := positiveToText_head q
    have hsign : splitSign (positiveToText q) = (false, positiveToText q) := by rw [hcs, splitSign_of_isDigit hdigit]
    rw [parse_of_chars (by simp [hcs]) hchars, hsign, hread]
    exact hround
  · have hchars' : ∀ c ∈ '-' :: positiveToText q, IsNumberChar c := fun c hc =>
      (List.mem_cons.1 hc).elim (fun h => h ▸ .inr (by decide)) (hchars c)
    rw [parse_of_chars (List.cons_ne_nil _ _) hchars', splitSign, hread]
    simp [hround]

/-- What the text of a number reads as: the zeros have one. -/
def unsigned : Number → Number
  | .negZero => .finite 0
  | n => n

/-- **A number's text reads back.** -/
theorem parse_toText {x : Number} (h : x.IsDouble) : parse x.toText = x.unsigned := by
  cases x with
  | nan => exact h.elim
  | infinity s => exact h.elim
  | negZero => exact parse_zero
  | finite q =>
    unfold toText
    dsimp only
    split_ifs with hzero hneg
    · rw [parse_zero, hzero]
      rfl
    · rw [(parse_positiveToText (neg_pos.2 hneg) (ofRat_neg hneg h)).2, neg, if_neg (neg_ne_zero.2 hzero), neg_neg]
      rfl
    · exact (parse_positiveToText (lt_of_le_of_ne (not_lt.1 hneg) (Ne.symm hzero)) h).1

/-- The text of a number, but for the sign. -/
theorem toText_literal {x : Number} (h : x.IsDouble) :
    ∃ l : Literal, l.Proper ∧ (x.toText.toList = l.text ∨ x.toText.toList = '-' :: l.text) := by
  have hzero : ∃ l : Literal, l.Proper ∧ "0".toList = l.text :=
    ⟨⟨['0'], [], none⟩, ⟨by simp [AllDigits], by simp [AllDigits], ⟨'0', [], rfl, fun _ => rfl⟩⟩, rfl⟩
  obtain ⟨zero, hproper, htext⟩ := hzero
  cases x with
  | nan => exact h.elim
  | infinity s => exact h.elim
  | negZero => exact ⟨zero, hproper, .inl htext⟩
  | finite q =>
    unfold toText
    dsimp only
    split_ifs with heq hneg
    · exact ⟨zero, hproper, .inl htext⟩
    · obtain ⟨l, hl, hl', _⟩ := positiveToText_literal (neg_pos.2 hneg) (ofRat_neg hneg h)
      exact ⟨l, hl', .inr (by rw [String.toList_ofList, hl])⟩
    · obtain ⟨l, hl, hl', _⟩ := positiveToText_literal (lt_of_le_of_ne (not_lt.1 hneg) (Ne.symm heq)) h
      exact ⟨l, hl', .inl (by rw [String.toList_ofList, hl])⟩

theorem toRat?_unsigned (x : Number) : x.unsigned.toRat? = x.toRat? := by
  cases x <;> rfl

theorem IsDouble.exists_toRat? {x : Number} (h : x.IsDouble) : ∃ p, x.toRat? = some p := by
  cases x with
  | nan => exact h.elim
  | infinity s => exact h.elim
  | negZero => exact ⟨_, rfl⟩
  | finite q => exact ⟨_, rfl⟩

/-- Numbers with one text are equal. -/
theorem eq_of_toText_eq {x y : Number} (hx : x.IsDouble) (hy : y.IsDouble) (h : x.toText = y.toText) :
    x.eq y = true := by
  obtain ⟨p, hp⟩ := hx.exists_toRat?
  obtain ⟨p', hp'⟩ := hy.exists_toRat?
  have hread := congrArg toRat? ((parse_toText hx).symm.trans ((congrArg parse h).trans (parse_toText hy)))
  rw [toRat?_unsigned, toRat?_unsigned, hp, hp'] at hread
  exact (eq_iff hp hp').2 (Option.some.inj hread)

end Js.Number
