import Jobflow.Js.FloorDiv
import Jobflow.Js.JsonRoundTrip

/-!
# What `JSON.parse` makes

A number that has been rounded rounds to itself, and the members of an object are collected in a map. So whatever the
text, what is parsed is plain data (`isData_of_parse`).
-/

namespace Js

namespace Number

/-! ## Rounding twice -/

/-- A rounded number is a multiple of its own unit: the unit of what it was rounded from divides it, or it is the next
power of two. -/
theorem ofRat_rounded {x q : Rat} (hx : 0 < x) (hq : 0 < q) (h : ofRat x = .finite q) : ofRat q = .finite q := by
  rw [ofRat_pos hx] at h
  split_ifs at h with hbig hzero
  · exact absurd (Number.finite.inj h).symm hq.ne'
  have hm : q = roundHalfEven (x / ulp x) * ulp x := (Number.finite.inj h).symm
  have hlt : q < 2 ^ (1024 : Int) := by
    rw [hm]
    exact not_le.1 hbig
  have hself : |q - q| < ulp q / 2 := by
    rw [sub_self, abs_zero]
    exact half_pos (ulp_pos q)
  by_cases hle : max (binaryExponent q) (-1022) ≤ max (binaryExponent x) (-1022)
  · obtain ⟨k, hk⟩ := zpow_multiple (sub_le_sub_right hle 52)
    refine @ofRat_of_near q q (roundHalfEven (x / ulp x) * k) hq hq hlt ?_ hself
    rw [Int.cast_mul, mul_assoc, ulp_eq q, ← hk, ← ulp_eq]
    exact hm
  · -- `q` is at least the next power of two, and rounding does not go beyond that
    have hexp : max (binaryExponent x) (-1022) + 1 ≤ binaryExponent q := by omega
    have htop : (2 : Rat) ^ 53 * ulp x = 2 ^ (max (binaryExponent x) (-1022) + 1) := by
      rw [ulp_eq, ← zpow_natCast, ← zpow_add₀ (by norm_num)]
      congr 1
      push_cast
      omega
    have hround : roundHalfEven (x / ulp x) ≤ (2 : Int) ^ 53 := by
      apply roundHalfEven_le
      rw [div_le_iff₀ (ulp_pos x)]
      have := (lt_ulp hx).le
      exact_mod_cast this
    have hupper : q ≤ 2 ^ (max (binaryExponent x) (-1022) + 1) := by
      rw [← htop, hm]
      refine mul_le_mul_of_nonneg_right ?_ (ulp_pos x).le
      exact_mod_cast hround
    have hlower : (2 : Rat) ^ binaryExponent q ≤ q := (binaryExponent_spec hq).1
    have hpow : (2 : Rat) ^ (max (binaryExponent x) (-1022) + 1) ≤ 2 ^ binaryExponent q :=
      zpow_le_zpow_right₀ (by norm_num) hexp
    have heq : q = 2 ^ binaryExponent q := le_antisymm (hupper.trans hpow) hlower
    obtain ⟨k, hk⟩ := zpow_multiple (show max (binaryExponent q) (-1022) - 52 ≤ binaryExponent q by omega)
    refine @ofRat_of_near q q k hq hq hlt ?_ hself
    rw [ulp_eq, ← hk]
    exact heq

theorem ofRat_nonneg {x q : Rat} (hx : 0 < x) (h : ofRat x = .finite q) : 0 ≤ q := by
  rw [ofRat_pos hx] at h
  split_ifs at h with hbig hzero
  · exact (Number.finite.inj h).le
  · rw [← Number.finite.inj h]
    have hround : (0 : Int) ≤ roundHalfEven (x / ulp x) := by
      apply le_roundHalfEven
      simpa using (div_pos hx (ulp_pos x)).le
    exact mul_nonneg (by exact_mod_cast hround) (ulp_pos x).le

/-- What a negative number is rounded to. -/
theorem ofRat_of_neg {x q : Rat} (hx : x < 0) (h : ofRat x = .finite q) : ofRat (-x) = .finite (-q) ∧ q ≠ 0 := by
  have habs : absRat x = -x := by rw [absRat, if_pos hx]
  unfold ofRat at h
  rw [if_neg hx.ne, habs] at h
  simp only [hx, decide_true, if_true] at h
  rw [← ulp, pow2_eq] at h
  rw [ofRat_pos (neg_pos.2 hx)]
  split_ifs at h with hbig hzero
  have hq := Number.finite.inj h
  refine ⟨?_, fun hq0 => hzero ?_⟩
  · rw [if_neg hbig, if_neg hzero, ← hq, neg_neg]
  · exact neg_eq_zero.1 (hq.trans hq0)

theorem isBinary64_ofRat (x : Rat) : (ofRat x).IsBinary64 := by
  intro q h
  rcases lt_trichotomy x 0 with hx | rfl | hx
  · obtain ⟨hpos, hne⟩ := ofRat_of_neg hx h
    have hq : 0 < -q := lt_of_le_of_ne (ofRat_nonneg (neg_pos.2 hx) hpos) (neg_ne_zero.2 hne).symm
    have := ofRat_neg_of_pos hq (ofRat_rounded (neg_pos.2 hx) hq hpos) (neg_ne_zero.2 hne)
    rwa [neg_neg] at this
  · obtain rfl := Number.finite.inj h
    rfl
  · rcases (ofRat_nonneg hx h).eq_or_lt with rfl | hq
    · rfl
    · exact ofRat_rounded hx hq h

theorem isBinary64_neg {n : Number} (h : n.IsBinary64) : (neg n).IsBinary64 := by
  intro q hq
  cases n with
  | finite p =>
    simp only [neg] at hq
    split_ifs at hq with hp
    obtain rfl := Number.finite.inj hq
    rcases lt_or_gt_of_ne hp with hneg | hpos
    · exact ofRat_neg hneg (h p rfl)
    · exact ofRat_neg_of_pos hpos (h p rfl) hp
  | negZero =>
    obtain rfl := Number.finite.inj hq
    rfl
  | nan | infinity _ => cases hq

theorem isBinary64_mul (x y : Number) : (mul x y).IsBinary64 := by
  have hsigned (negative : Bool) : (signedZero negative).IsBinary64 := by
    intro q hq
    cases negative <;> cases hq
    rfl
  unfold mul
  dsimp only
  split
  · split_ifs
    · exact hsigned _
    · exact isBinary64_ofRat _
  · split_ifs <;> exact fun q h => by cases h

/-- A text is read as a number of the language. -/
theorem isBinary64_parse (text : String) : (parse text).IsBinary64 := by
  have hdigits : ∀ (base : Nat) (cs : List Char),
      (((digitsIn base cs).map fun n => ofInt n).getD .nan).IsBinary64 := by
    intro base cs
    cases digitsIn base cs with
    | none => exact fun q h => by cases h
    | some n => exact isBinary64_ofRat _
  unfold parse
  split
  · intro q h
    obtain rfl := Number.finite.inj h
    rfl
  all_goals first
    | exact hdigits _ _
    | skip
  dsimp only
  split_ifs with hword hnegative
  · exact fun q h => by cases h
  · split
    · exact fun q h => by cases h
    · exact isBinary64_neg (isBinary64_ofRat _)
  · split
    · exact fun q h => by cases h
    · exact isBinary64_ofRat _

end Number

/-! ## What is read is plain data -/

namespace JsonParser

section
variable {α : Type} {item : List Char → Option (α × List Char)} {P : α → Prop} {close : Char}

theorem forall_mem_readList (h : ∀ {cs a r}, item cs = some (a, r) → P a) : ∀ {fuel : Nat} {cs r : List Char}
    {as : List α}, readList item close fuel cs = some (as, r) → ∀ a ∈ as, P a
  | fuel + 1, cs, r, as, hread => by
    simp only [readList, Option.bind_eq_bind, Option.bind_eq_some_iff] at hread
    obtain ⟨⟨a, r₁⟩, hitem, hread⟩ := hread
    split at hread
    · cases hread
    · split_ifs at hread
      · obtain ⟨⟨as', r₂⟩, hrest, hread⟩ := Option.bind_eq_some_iff.1 hread
        cases hread
        exact List.forall_mem_cons.2 ⟨h hitem, forall_mem_readList h hrest⟩
      · cases hread
        exact List.forall_mem_cons.2 ⟨h hitem, List.forall_mem_nil _⟩

theorem forall_mem_readItems (h : ∀ {cs a r}, item cs = some (a, r) → P a) {fuel : Nat} {cs r : List Char}
    {as : List α} (hread : readItems item close fuel cs = some (as, r)) : ∀ a ∈ as, P a := by
  unfold readItems at hread
  split at hread
  · cases hread
  · split_ifs at hread
    · cases hread
      exact List.forall_mem_nil _
    · exact forall_mem_readList h hread

end

theorem readMember_value {P : Value → Prop} {value : List Char → Option (Value × List Char)}
    (h : ∀ {cs v r}, value cs = some (v, r) → P v) {fuel : Nat} {cs r : List Char} {m : String × Value}
    (hread : readMember fuel value cs = some (m, r)) : P m.2 := by
  unfold readMember at hread
  split at hread
  · cases hread
  · split_ifs at hread
    obtain ⟨⟨key, r₁⟩, -, hread⟩ := Option.bind_eq_some_iff.1 hread
    dsimp only at hread
    split at hread
    · cases hread
    · split_ifs at hread
      obtain ⟨⟨v, r₂⟩, hvalue, hread⟩ := Option.bind_eq_some_iff.1 hread
      cases hread
      exact h hvalue

theorem isData_of_readWord {word cs r : List Char} {v w : Value} (hv : IsData v)
    (h : readWord word v cs = some (w, r)) : IsData w := by
  unfold readWord at h
  split_ifs at h
  cases h
  exact hv

theorem isData_of_readNumber {cs r : List Char} {v : Value} (h : readNumber cs = some (v, r)) : IsData v := by
  unfold readNumber at h
  dsimp only at h
  split_ifs at h
  cases h
  exact .number (Number.isBinary64_parse _)

theorem isData_of_readValue : ∀ {fuel : Nat} {cs r : List Char} {v : Value}, readValue fuel cs = some (v, r) → IsData v
  | fuel + 1, cs, r, v, h => by
    have ih : ∀ {cs v r}, readValue fuel cs = some (v, r) → IsData v := isData_of_readValue
    unfold readValue at h
    split at h
    · cases h
    · split_ifs at h
      · obtain ⟨⟨s, r₁⟩, -, h⟩ := Option.map_eq_some_iff.1 h
        cases h
        exact .string s
      · obtain ⟨⟨items, r₁⟩, hitems, h⟩ := Option.map_eq_some_iff.1 h
        cases h
        exact .array (forall_mem_readItems ih hitems)
      · obtain ⟨⟨members, r₁⟩, hmembers, h⟩ := Option.map_eq_some_iff.1 h
        cases h
        have hvalues : ∀ m ∈ members, IsData m.2 := forall_mem_readItems (readMember_value ih) hmembers
        refine .object (InsertionMap.ofList members).nodup fun p hp => ?_
        exact hvalues p (InsertionMap.mem_of_get_ofList (InsertionMap.get_eq_some.2 hp))
      · exact isData_of_readWord .null h
      · exact isData_of_readWord (.bool true) h
      · exact isData_of_readWord (.bool false) h
      · exact isData_of_readNumber h

end JsonParser

theorem isData_of_parse {text : List Char} {v : Value} (h : parse text = some v) : IsData v := by
  unfold parse at h
  split at h
  · rename_i hread
    split_ifs at h
    cases h
    exact JsonParser.isData_of_readValue hread
  · cases h

end Js
