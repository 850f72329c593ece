import Mathlib.Data.List.Basic

/-!
# Loops over a token stream

A hand-written parser reads a body with `while (the next token is no stop) …`, each round of which takes some tokens
off the stream and changes what has been read so far. `loopUntil` is that loop with a bound on its rounds, and `Seq`
the grammar of what it reads, over a grammar `R` of a single round.

`loopUntil_sound`, `loopUntil_reads` and `loopUntil_spent` reduce soundness, completeness and termination of the loop
to those of one round.

`loopWhile` is the same loop for a bound that is never reached, since each round takes a token: a left-recursive rule of
a grammar. `loopWhile_sound` keeps what is known of the tokens read so far.
-/

namespace TokenLoop

variable {σ τ ε : Type}

/-- One round: from what has been read and the tokens left, to the same after it. -/
abbrev Round (σ τ ε : Type) := σ → List τ → Except ε (σ × List τ)

/-- `while (!stop) round`; `spent` tells that the bound was reached. -/
def loopUntil (spent : ε) (stop : List τ → Bool) (round : Round σ τ ε) : Nat → Round σ τ ε
  | 0, _, _ => .error spent
  | fuel + 1, s, ts =>
    if stop ts then .ok (s, ts)
    else
      match round s ts with
      | .error e => .error e
      | .ok (s', rest) => loopUntil spent stop round fuel s' rest

/-- The token sequences of any number of rounds. -/
inductive Seq (R : σ → σ → List τ → Prop) : σ → σ → List τ → Prop where
  | nil (s : σ) : Seq R s s []
  | cons {s s₁ s₂ : σ} {pre post : List τ} : R s s₁ pre → Seq R s₁ s₂ post → Seq R s s₂ (pre ++ post)

theorem Seq.append {R : σ → σ → List τ → Prop} {s s₁ s₂ : σ} {pre post : List τ} (h : Seq R s s₁ pre)
    (h' : Seq R s₁ s₂ post) : Seq R s s₂ (pre ++ post) := by
  induction h with
  | nil s => exact h'
  | cons hpre hpost ih =>
    rw [List.append_assoc]
    exact .cons hpre (ih h')

/-- What holds of every token of every round holds of every token of the sequence. -/
theorem Seq.forall_mem {R : σ → σ → List τ → Prop} {P : τ → Prop} (hR : ∀ {s s' pre}, R s s' pre → ∀ t ∈ pre, P t)
    {s s' : σ} {pre : List τ} (h : Seq R s s' pre) : ∀ t ∈ pre, P t := by
  induction h with
  | nil s => simp
  | cons hpre hpost ih =>
    intro t ht
    rcases List.mem_append.1 ht with ht | ht
    · exact hR hpre t ht
    · exact ih t ht

/-- A round reads only what the grammar allows; or it does nothing, which happens only in front of `idle` tokens. -/
def Sound (stop : List τ → Bool) (idle : List τ → Prop) (round : Round σ τ ε) (R : σ → σ → List τ → Prop) : Prop :=
  ∀ {s s' : σ} {ts rest : List τ}, stop ts = false → round s ts = .ok (s', rest) →
    (∃ pre, ts = pre ++ rest ∧ R s s' pre) ∨ idle ts ∧ s' = s ∧ rest = ts

/-- A round reads each sequence of the grammar that is followed by tokens with `follow`, unless its own bound `fuel` is
too small for it; and such a sequence is itself no stop. -/
structure Reads (spent : ε) (stop follow : List τ → Bool) (fuel : Nat) (round : Round σ τ ε)
    (R : σ → σ → List τ → Prop) : Prop where
  starts {s s' : σ} {pre : List τ} (ts : List τ) : R s s' pre →
    stop (pre ++ ts) = false ∧ follow (pre ++ ts) = true ∧ 0 < pre.length
  reads {s s' : σ} {pre ts : List τ} : R s s' pre → follow ts = true →
    round s (pre ++ ts) = .ok (s', ts) ∨ round s (pre ++ ts) = .error spent ∧ fuel ≤ pre.length

section

variable {spent : ε} {stop follow : List τ → Bool} {idle : List τ → Prop} {round : Round σ τ ε}
  {R : σ → σ → List τ → Prop}

theorem loopUntil_ok {s s' : σ} {ts rest : List τ} {fuel : Nat} (hstop : stop ts = false)
    (hround : round s ts = .ok (s', rest)) :
    loopUntil spent stop round (fuel + 1) s ts = loopUntil spent stop round fuel s' rest := by
  simp [loopUntil, hstop, hround]

/-- A loop one of whose rounds reaches its own bound. -/
theorem loopUntil_error {s : σ} {ts : List τ} (hstop : stop ts = false) (hround : round s ts = .error spent) :
    ∀ fuel, loopUntil spent stop round fuel s ts = .error spent
  | 0 => rfl
  | fuel + 1 => by simp [loopUntil, hstop, hround]

/-- In front of tokens on which a round does nothing, the loop never ends. -/
theorem loopUntil_stuck {s : σ} {ts : List τ} (hstop : stop ts = false) (hround : round s ts = .ok (s, ts)) :
    ∀ fuel, loopUntil spent stop round fuel s ts = .error spent
  | 0 => rfl
  | fuel + 1 => by
    rw [loopUntil_ok hstop hround]
    exact loopUntil_stuck hstop hround fuel

theorem loopUntil_sound (hround : Sound stop idle round R) :
    ∀ {fuel : Nat} {s s' : σ} {ts rest : List τ}, loopUntil spent stop round fuel s ts = .ok (s', rest) →
      stop rest = true ∧ ∃ pre, ts = pre ++ rest ∧ Seq R s s' pre
  | 0, _, _, _, _, h => by cases h
  | fuel + 1, s, s', ts, rest, h => by
    unfold loopUntil at h
    cases hstop : stop ts with
    | true =>
      rw [hstop] at h
      cases h
      exact ⟨hstop, [], rfl, .nil s⟩
    | false =>
      simp only [hstop, Bool.false_eq_true, if_false] at h
      cases hr : round s ts with
      | error e => simp [hr] at h
      | ok r =>
        obtain ⟨s₁, mid⟩ := r
        rw [hr] at h
        obtain ⟨hend, post, rfl, hseq⟩ := loopUntil_sound hround h
        refine ⟨hend, ?_⟩
        rcases hround hstop hr with ⟨pre, rfl, hR⟩ | ⟨_, rfl, rfl⟩
        · exact ⟨pre ++ post, (List.append_assoc pre post rest).symm, .cons hR hseq⟩
        · exact ⟨post, rfl, hseq⟩

/-- A loop whose bound is larger than the number of tokens only reaches it in front of tokens that are `idle` or on
which a round reaches its own. -/
theorem loopUntil_spent (hround : Sound stop idle round R) (hstarts : ∀ {s s' pre}, R s s' pre → 0 < pre.length) :
    ∀ {fuel : Nat} {s : σ} {ts : List τ}, ts.length < fuel → loopUntil spent stop round fuel s ts = .error spent →
      ∃ s' pre rest, ts = pre ++ rest ∧ Seq R s s' pre ∧ stop rest = false ∧
        (round s' rest = .error spent ∨ idle rest)
  | 0, _, _, hfuel, _ => by omega
  | fuel + 1, s, ts, hfuel, h => by
    unfold loopUntil at h
    cases hstop : stop ts with
    | true => simp [hstop] at h
    | false =>
      simp only [hstop, Bool.false_eq_true, if_false] at h
      cases hr : round s ts with
      | error e =>
        simp only [hr, Except.error.injEq] at h
        exact ⟨s, [], ts, rfl, .nil s, hstop, .inl (h ▸ hr)⟩
      | ok r =>
        obtain ⟨s₁, mid⟩ := r
        rw [hr] at h
        rcases hround hstop hr with ⟨pre, rfl, hR⟩ | ⟨hidle, rfl, rfl⟩
        · have hpos := hstarts hR
          rw [List.length_append] at hfuel
          obtain ⟨s', post, rest, rfl, hseq, hrest⟩ := loopUntil_spent hround hstarts (by omega) h
          exact ⟨s', pre ++ post, rest, (List.append_assoc pre post rest).symm, .cons hR hseq, hrest⟩
        · exact ⟨s₁, [], mid, rfl, .nil s₁, hstop, .inr hidle⟩

/-- A loop that is never idle comes to an end, if each of its rounds does. -/
theorem loopUntil_answers (hround : Sound stop (fun _ => False) round R)
    (hstarts : ∀ {s s' pre}, R s s' pre → 0 < pre.length) {fuel : Nat}
    (hspent : ∀ s ts, ts.length < fuel → round s ts ≠ .error spent) (s : σ) {ts : List τ} (hts : ts.length < fuel) :
    loopUntil spent stop round fuel s ts ≠ .error spent := by
  intro h
  obtain ⟨s', pre, rest, rfl, _, _, hrest⟩ := loopUntil_spent hround hstarts hts h
  rw [List.length_append] at hts
  rcases hrest with hrest | hidle
  · exact hspent s' rest (by omega) hrest
  · exact hidle

/-- A loop goes on after a sequence of its grammar, with what is left of its bound; or its bound was too small. -/
theorem loopUntil_reads {bound : Nat} (hround : Reads spent stop follow bound round R) {s s' : σ} {pre : List τ}
    (hseq : Seq R s s' pre) (ts : List τ) (hts : follow ts = true) (fuel : Nat) :
    (∃ k, fuel ≤ k + pre.length ∧
      loopUntil spent stop round fuel s (pre ++ ts) = loopUntil spent stop round k s' ts) ∨
    loopUntil spent stop round fuel s (pre ++ ts) = .error spent ∧ (fuel ≤ pre.length ∨ bound ≤ pre.length) := by
  induction hseq generalizing fuel with
  | nil s => exact .inl ⟨fuel, Nat.le_refl _, rfl⟩
  | @cons s s₁ s₂ pre post hR hpost ih =>
    obtain ⟨hstop, -, hpos⟩ := hround.starts (post ++ ts) hR
    have hfollow : follow (post ++ ts) = true := by
      cases hpost with
      | nil => exact hts
      | cons hR' hpost' =>
        rw [List.append_assoc]
        exact (hround.starts _ hR').2.1
    rw [List.append_assoc, List.length_append]
    cases fuel with
    | zero => exact .inr ⟨rfl, .inl (Nat.zero_le _)⟩
    | succ fuel =>
      rcases hround.reads hR hfollow with hr | ⟨hr, hb⟩
      · rw [loopUntil_ok hstop hr]
        rcases ih fuel with ⟨k, hk, heq⟩ | ⟨heq, hk⟩
        · exact .inl ⟨k, by omega, heq⟩
        · exact .inr ⟨heq, by omega⟩
      · exact .inr ⟨loopUntil_error hstop hr _, by omega⟩

/-- With a stop behind it, the sequence is what the loop reads. -/
theorem loopUntil_reads_stop {bound : Nat} (hround : Reads spent stop follow bound round R) {s s' : σ} {pre : List τ}
    (hseq : Seq R s s' pre) {ts : List τ} (hts : follow ts = true) (hstop : stop ts = true) :
    loopUntil spent stop round bound s (pre ++ ts) = .ok (s', ts) ∨
      loopUntil spent stop round bound s (pre ++ ts) = .error spent ∧ bound ≤ pre.length := by
  rcases loopUntil_reads hround hseq ts hts bound with ⟨k, hk, heq⟩ | ⟨heq, hb⟩
  · cases k with
    | zero =>
      refine .inr ⟨heq, by omega⟩
    | succ k =>
      refine .inl ?_
      rw [heq]
      simp [loopUntil, hstop]
  · exact .inr ⟨heq, by omega⟩

end

/-! ## A bound that is never reached -/

/-- `while (go) round`; what has been read when the bound is reached is given back. -/
def loopWhile (go : List τ → Bool) (round : Round σ τ ε) : Nat → Round σ τ ε
  | 0, s, ts => .ok (s, ts)
  | fuel + 1, s, ts =>
    if go ts then
      match round s ts with
      | .error e => .error e
      | .ok (s', rest) => loopWhile go round fuel s' rest
    else .ok (s, ts)

section

variable {go : List τ → Bool} {round : Round σ τ ε}

theorem loopWhile_go {s s' : σ} {ts rest : List τ} (fuel : Nat) (hgo : go ts = true)
    (hround : round s ts = .ok (s', rest)) :
    loopWhile go round (fuel + 1) s ts = loopWhile go round fuel s' rest := by
  simp [loopWhile, hgo, hround]

theorem loopWhile_stop {s : σ} {ts : List τ} (hstop : go ts = false) :
    ∀ fuel, loopWhile go round fuel s ts = .ok (s, ts)
  | 0 => rfl
  | fuel + 1 => by simp [loopWhile, hstop]

/-- What holds of the tokens read so far and is kept by a round holds of all the loop reads. -/
theorem loopWhile_sound {P : σ → List τ → Prop}
    (hround : ∀ {s s' pre ts rest}, P s pre → go ts = true → round s ts = .ok (s', rest) →
      ∃ mid, ts = mid ++ rest ∧ P s' (pre ++ mid)) :
    ∀ {fuel : Nat} {s s' : σ} {pre ts rest : List τ}, P s pre → loopWhile go round fuel s ts = .ok (s', rest) →
      ∃ mid, ts = mid ++ rest ∧ P s' (pre ++ mid)
  | 0, s, s', pre, ts, rest, hP, h => by
    cases h
    exact ⟨[], rfl, by rwa [List.append_nil]⟩
  | fuel + 1, s, s', pre, ts, rest, hP, h => by
    unfold loopWhile at h
    cases hgo : go ts with
    | false =>
      rw [hgo] at h
      cases h
      exact ⟨[], rfl, by rwa [List.append_nil]⟩
    | true =>
      simp only [hgo, if_true] at h
      cases hr : round s ts with
      | error e => simp [hr] at h
      | ok r =>
        obtain ⟨s₁, ts₁⟩ := r
        rw [hr] at h
        obtain ⟨mid₁, rfl, hP₁⟩ := hround hP hgo hr
        obtain ⟨mid₂, rfl, hP₂⟩ := loopWhile_sound hround hP₁ h
        refine ⟨mid₁ ++ mid₂, (List.append_assoc mid₁ mid₂ rest).symm, ?_⟩
        rwa [← List.append_assoc]

end

end TokenLoop
