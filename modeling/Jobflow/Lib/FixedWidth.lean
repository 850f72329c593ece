import Mathlib.Data.List.Basic
import Mathlib.Tactic.Ring

/-!
# Numbers of a fixed width

A number written with a fixed number of decimal digits can be read back, and a larger number is a later text. The same
holds of a record: of numbers of fixed widths, each closed by a character of its own (`read_text`, `text_lt_text`).
-/

namespace FixedWidth

/-! ## Digits -/

def digit (n : Nat) : Char := Char.ofNat (48 + n % 10)

def digitOf (c : Char) : Option Nat := if 48 ≤ c.toNat ∧ c.toNat ≤ 57 then some (c.toNat - 48) else none

/-- The last `w` decimal digits of `n`. -/
def digits : Nat → Nat → List Char
  | 0, _ => []
  | w + 1, n => digits w (n / 10) ++ [digit n]

/-- Exactly `w` digits, which are added to what has been read so far. -/
def readDigits : Nat → Nat → List Char → Option (Nat × List Char)
  | 0, acc, cs => some (acc, cs)
  | _ + 1, _, [] => none
  | w + 1, acc, c :: cs => (digitOf c).bind fun d => readDigits w (10 * acc + d) cs

theorem toNat_digit (n : Nat) : (digit n).toNat = 48 + n % 10 := by
  have hall : ∀ d < 10, (Char.ofNat (48 + d)).toNat = 48 + d := by decide
  exact hall _ (Nat.mod_lt _ (by decide))

theorem digitOf_digit (n : Nat) : digitOf (digit n) = some (n % 10) := by
  have hlt : n % 10 < 10 := Nat.mod_lt _ (by decide)
  unfold digitOf
  rw [toNat_digit, if_pos (by omega), Nat.add_sub_cancel_left]

@[simp] theorem length_digits (w n : Nat) : (digits w n).length = w := by
  induction w generalizing n with
  | zero => rfl
  | succ w ih => rw [digits, List.length_append, ih, List.length_singleton]

theorem readDigits_append (w v : Nat) : ∀ (acc : Nat) {cs : List Char}, cs.length = w → ∀ rest,
    readDigits (w + v) acc (cs ++ rest) = (readDigits w acc cs).bind fun r => readDigits v r.1 rest := by
  induction w with
  | zero =>
    intro acc cs hcs rest
    rw [List.length_eq_zero_iff.1 hcs, Nat.zero_add]
    rfl
  | succ w ih =>
    intro acc cs hcs rest
    cases cs with
    | nil => cases hcs
    | cons c cs =>
      rw [Nat.add_right_comm, List.cons_append, readDigits, readDigits]
      cases digitOf c with
      | none => rfl
      | some d => exact ih _ (Nat.succ.inj hcs) rest

theorem readDigits_digits (w n acc : Nat) (rest : List Char) (h : n < 10 ^ w) :
    readDigits w acc (digits w n ++ rest) = some (acc * 10 ^ w + n, rest) := by
  induction w generalizing n acc rest with
  | zero =>
    obtain rfl : n = 0 := Nat.lt_one_iff.1 h
    simp [digits, readDigits]
  | succ w ih =>
    have hdiv : n / 10 < 10 ^ w := Nat.div_lt_of_lt_mul (by rwa [← Nat.pow_succ'])
    rw [digits, List.append_assoc, readDigits_append w 1 acc (length_digits w _)]
    have hfirst := ih (n / 10) acc [] hdiv
    rw [List.append_nil] at hfirst
    rw [hfirst]
    simp only [Option.bind_some, List.singleton_append, readDigits, digitOf_digit, Option.some.injEq, Prod.mk.injEq,
      and_true]
    rw [Nat.pow_succ]
    have := Nat.div_add_mod n 10
    ring_nf
    omega

/-! ## Their order -/

/-- Texts of one length that differ are in the order of their beginnings. -/
theorem append_lt_append {α : Type} [LT α] {a a' r r' : List α} (h : a < a') (hlength : a.length = a'.length) :
    a ++ r < a' ++ r' := by
  induction a generalizing a' with
  | nil =>
    rw [List.length_eq_zero_iff.1 hlength.symm] at h
    exact absurd h (List.not_lt_nil _)
  | cons x a ih =>
    cases a' with
    | nil => cases hlength
    | cons y a' =>
      rw [List.cons_append, List.cons_append, List.cons_lt_cons_iff]
      rcases List.cons_lt_cons_iff.1 h with hlt | ⟨rfl, hlt⟩
      · exact .inl hlt
      · exact .inr ⟨rfl, ih hlt (Nat.succ.inj hlength)⟩

theorem append_lt_append_left {α : Type} [LT α] (a : List α) {r r' : List α} (h : r < r') :
    a ++ r < a ++ r' := by
  induction a with
  | nil => exact h
  | cons x a ih => exact List.cons_lt_cons_iff.2 (.inr ⟨rfl, ih⟩)

theorem digit_lt_digit {m n : Nat} (h : m % 10 < n % 10) : digit m < digit n := by
  have hm := toNat_digit m
  have hn := toNat_digit n
  show (digit m).toNat < (digit n).toNat
  omega

theorem digits_lt_digits {w m n : Nat} (h : m < n) (hn : n < 10 ^ w) : digits w m < digits w n := by
  induction w generalizing m n with
  | zero => exact absurd h (by omega)
  | succ w ih =>
    have hdiv : n / 10 < 10 ^ w := Nat.div_lt_of_lt_mul (by rwa [← Nat.pow_succ'])
    rw [digits, digits]
    rcases Nat.lt_or_ge (m / 10) (n / 10) with hlt | hge
    · exact append_lt_append (ih hlt hdiv) (by simp)
    · have hsame : m / 10 = n / 10 := Nat.le_antisymm (Nat.div_le_div_right h.le) hge
      rw [hsame]
      refine append_lt_append_left _ (List.cons_lt_cons_iff.2 (.inl (digit_lt_digit ?_)))
      omega

/-! ## Records -/

/-- The numbers `ns`, each with the width and the character behind it that the shape gives. -/
def text : List (Nat × Char) → List Nat → List Char
  | (w, c) :: shape, n :: ns => digits w n ++ c :: text shape ns
  | _, _ => []

def read : List (Nat × Char) → List Char → Option (List Nat × List Char)
  | [], cs => some ([], cs)
  | (w, c) :: shape, cs =>
    match readDigits w 0 cs with
    | some (n, d :: cs) => if d = c then (read shape cs).map fun r => (n :: r.1, r.2) else none
    | _ => none

/-- The numbers are as many as the shape has widths, and fit them. -/
inductive Fits : List (Nat × Char) → List Nat → Prop where
  | nil : Fits [] []
  | cons {w n : Nat} {shape : List (Nat × Char)} {ns : List Nat} (c : Char) (hn : n < 10 ^ w) (hns : Fits shape ns) :
    Fits ((w, c) :: shape) (n :: ns)

theorem read_text {shape : List (Nat × Char)} {ns : List Nat} (h : Fits shape ns) (rest : List Char) :
    read shape (text shape ns ++ rest) = some (ns, rest) := by
  induction h with
  | nil => rfl
  | cons c hn hns ih =>
    rw [text, List.append_assoc, read, readDigits_digits _ _ _ _ hn]
    simp only [List.cons_append, if_true, ih, Option.map_some, Nat.zero_mul, Nat.zero_add]

/-- A record begins with a digit. -/
theorem exists_text_eq_cons (w : Nat) (c : Char) (n : Nat) (shape : List (Nat × Char)) (ns : List Nat) :
    ∃ m cs, text ((w + 1, c) :: shape) (n :: ns) = digit m :: cs := by
  obtain ⟨m, cs, hcs⟩ : ∃ m cs, digits (w + 1) n = digit m :: cs := by
    induction w generalizing n with
    | zero => exact ⟨n, [], rfl⟩
    | succ w ih =>
      obtain ⟨m, cs, hcs⟩ := ih (n / 10)
      exact ⟨m, cs ++ [digit n], by rw [digits, hcs, List.cons_append]⟩
  exact ⟨m, _, by rw [text, hcs, List.cons_append]⟩

theorem digit_ne {c : Char} (h : digitOf c = none) (n : Nat) : digit n ≠ c := by
  rintro rfl
  rw [digitOf_digit] at h
  contradiction

theorem mem_digits {w n : Nat} {c : Char} (h : c ∈ digits w n) : ∃ m, c = digit m := by
  induction w generalizing n with
  | zero => cases h
  | succ w ih =>
    rcases List.mem_append.1 h with h | h
    · exact ih h
    · exact ⟨n, List.mem_singleton.1 h⟩

theorem mem_text {shape : List (Nat × Char)} {ns : List Nat} {c : Char} (h : c ∈ text shape ns) :
    (∃ m, c = digit m) ∨ c ∈ shape.map Prod.snd := by
  induction shape generalizing ns with
  | nil => cases h
  | cons field shape ih =>
    cases ns with
    | nil => cases h
    | cons n ns =>
      rcases List.mem_append.1 h with h | h
      · exact .inl (mem_digits h)
      · rcases List.mem_cons.1 h with rfl | h
        · exact .inr List.mem_cons_self
        · exact (ih h).imp id (List.mem_cons_of_mem _)

theorem text_lt_text {shape : List (Nat × Char)} {ms ns : List Nat} (hms : Fits shape ms) (hns : Fits shape ns)
    (h : ms < ns) : text shape ms < text shape ns := by
  induction hms generalizing ns with
  | nil =>
    cases hns
    exact absurd h (List.not_lt_nil _)
  | cons c _ _ ih =>
    cases hns with
    | cons _ hn hns =>
      rw [text, text]
      rcases List.cons_lt_cons_iff.1 h with hlt | ⟨rfl, hlt⟩
      · exact append_lt_append (digits_lt_digits hlt hn) (by simp)
      · exact append_lt_append_left _ (List.cons_lt_cons_iff.2 (.inr ⟨rfl, ih hns hlt⟩))

end FixedWidth
