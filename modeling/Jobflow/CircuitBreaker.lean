import Mathlib.Data.List.Basic
import Mathlib.Data.List.Induction
import Jobflow.Js.Order

/-!
# The circuit breaker (src/handlers/http/circuit-breaker.ts)

A machine of three states and a clock. `refuses_iff_blocked` says what its answers come to: a call is refused exactly
when the failures since the last success have reached the threshold and the last of them is more recent than the
cooldown. `canExecute_after_eq_false_iff` says it for a clock that may go back, and for any threshold and cooldown.
-/

namespace Jobflow

open Js (Number)

/-! ## The machine -/

/-- `Open` is `opened`; `open` is Lean's. -/
inductive CircuitState where
  | closed | opened | halfOpen
  deriving DecidableEq

structure CircuitBreaker where
  threshold : Number
  cooldownMs : Number
  state : CircuitState
  failures : Nat
  lastFailureAt : Int

namespace CircuitBreaker

def new (threshold cooldownMs : Number) : CircuitBreaker where
  threshold := threshold
  cooldownMs := cooldownMs
  state := .closed
  failures := 0
  lastFailureAt := 0

/-- `canExecute` (circuit-breaker.ts:17-27): the breaker after the call, and the answer. -/
def canExecute (b : CircuitBreaker) (now : Int) : CircuitBreaker × Bool :=
  match b.state with
  | .closed => (b, true)
  | .opened =>
    if b.cooldownMs.le (.finite (now - b.lastFailureAt)) then ({ b with state := .halfOpen }, true) else (b, false)
  | .halfOpen => (b, true)

/-- `recordSuccess` (circuit-breaker.ts:29-32). -/
def recordSuccess (b : CircuitBreaker) : CircuitBreaker := { b with failures := 0, state := .closed }

/-- `recordFailure` (circuit-breaker.ts:34-40). -/
def recordFailure (b : CircuitBreaker) (now : Int) : CircuitBreaker :=
  { b with
    failures := b.failures + 1
    lastFailureAt := now
    state := if b.threshold.le (.finite (b.failures + 1)) then .opened else b.state }

/-- A breaker that is not open lets a call through; an open one does so when its cooldown is over, and is then half
open. -/
theorem canExecute_cases (b : CircuitBreaker) (now : Int) :
    (b.state ≠ .opened ∧ b.canExecute now = (b, true)) ∨
    (b.state = .opened ∧ b.cooldownMs.le (.finite (now - b.lastFailureAt)) = true ∧
      b.canExecute now = ({ b with state := .halfOpen }, true)) ∨
    (b.state = .opened ∧ b.cooldownMs.le (.finite (now - b.lastFailureAt)) = false ∧
      b.canExecute now = (b, false)) := by
  cases hstate : b.state with
  | closed => simp [canExecute, hstate]
  | halfOpen => simp [canExecute, hstate]
  | opened =>
    cases hover : b.cooldownMs.le (.finite (now - b.lastFailureAt)) <;> simp [canExecute, hstate, hover]

end CircuitBreaker

inductive BreakerCall where
  | canExecute | recordSuccess | recordFailure
  deriving DecidableEq

/-- Calls with the clock's readings, oldest first. -/
abbrev CallHistory := List (Int × BreakerCall)

def CircuitBreaker.call (b : CircuitBreaker) (c : Int × BreakerCall) : CircuitBreaker :=
  match c.2 with
  | .canExecute => (b.canExecute c.1).1
  | .recordSuccess => b.recordSuccess
  | .recordFailure => b.recordFailure c.1

/-- A new breaker after some calls. -/
def CircuitBreaker.after (threshold cooldownMs : Number) (past : CallHistory) : CircuitBreaker :=
  past.foldl .call (.new threshold cooldownMs)

/-! ## What the history says -/

/-- The failures since the last success. -/
def failuresSince (past : CallHistory) : Nat :=
  (past.reverse.takeWhile fun c => c.2 ≠ .recordSuccess).countP fun c => c.2 = .recordFailure

/-- The time of the most recent failure. -/
def lastFailure (past : CallHistory) : Option Int :=
  (past.reverse.find? fun c => c.2 = .recordFailure).map (·.1)

/-- Too many failures since the last success, the last of them too recent. -/
def BlockedBy (threshold cooldownMs : Number) (past : CallHistory) (now : Int) : Prop :=
  threshold.le (.finite (failuresSince past)) = true ∧
    ∃ failedAt, lastFailure past = some failedAt ∧ (Number.finite (now - failedAt)).lt cooldownMs = true

section
variable {threshold cooldownMs : Number} {past : CallHistory} {now : Int} {b : CircuitBreaker}

theorem failuresSince_snoc (past : CallHistory) (now : Int) (c : BreakerCall) :
    failuresSince (past ++ [(now, c)]) = match c with
      | .canExecute => failuresSince past
      | .recordSuccess => 0
      | .recordFailure => failuresSince past + 1 := by
  cases c <;> simp [failuresSince]

theorem lastFailure_snoc (past : CallHistory) (now : Int) (c : BreakerCall) :
    lastFailure (past ++ [(now, c)]) = if c = .recordFailure then some now else lastFailure past := by
  by_cases h : c = .recordFailure <;> simp [lastFailure, h]

/-- The breaker remembers of the history what its answers depend on. -/
structure Remembers (threshold cooldownMs : Number) (past : CallHistory) (b : CircuitBreaker) : Prop where
  threshold_eq : b.threshold = threshold
  cooldownMs_eq : b.cooldownMs = cooldownMs
  failures_eq : b.failures = failuresSince past
  lastFailure_eq : 0 < b.failures → lastFailure past = some b.lastFailureAt
  closed_iff : b.state = .closed ↔ threshold.le (.finite b.failures) = false
  /-- It got half open when the cooldown was over, and the clock has not gone back. -/
  cooled : b.state = .halfOpen → ∀ now, (∀ c ∈ past, c.1 ≤ now) →
    cooldownMs.le (.finite (now - b.lastFailureAt)) = true

theorem not_le_zero (hthreshold : (Number.finite 1).le threshold = true) :
    threshold.le (.finite (0 : Nat)) = false := Number.not_le_of_lt_le (by decide) hthreshold

theorem remembers_new (hthreshold : (Number.finite 1).le threshold = true) :
    Remembers threshold cooldownMs [] (.new threshold cooldownMs) where
  threshold_eq := rfl
  cooldownMs_eq := rfl
  failures_eq := rfl
  lastFailure_eq := fun h => absurd h (Nat.lt_irrefl 0)
  closed_iff := iff_of_true rfl (not_le_zero hthreshold)
  cooled := fun h => by cases h

/-- One failure more reaches the threshold again. -/
theorem reached_succ {n : Nat} (h : threshold.le (.finite n) = true) : threshold.le (.finite (n + 1)) = true :=
  Number.le_finite_trans h (by simp)

theorem Remembers.canExecute (h : Remembers threshold cooldownMs past b) (now : Int) :
    Remembers threshold cooldownMs (past ++ [(now, .canExecute)]) (b.canExecute now).1 := by
  obtain ⟨hthr, hcool, hfailures, hlast, hclosed, hcooled⟩ := h
  have hfailures' : b.failures = failuresSince (past ++ [(now, .canExecute)]) := by rwa [failuresSince_snoc]
  have hlast' : 0 < b.failures → lastFailure (past ++ [(now, .canExecute)]) = some b.lastFailureAt := by
    rwa [lastFailure_snoc]
  have hsame : Remembers threshold cooldownMs (past ++ [(now, .canExecute)]) b :=
    ⟨hthr, hcool, hfailures', hlast', hclosed, fun hhalf now' hnow =>
      hcooled hhalf now' fun c hc => hnow c (List.mem_append_left _ hc)⟩
  rcases b.canExecute_cases now with ⟨-, heq⟩ | ⟨hopened, hover, heq⟩ | ⟨-, -, heq⟩ <;> rw [heq]
  · exact hsame
  · refine ⟨hthr, hcool, hfailures', hlast', ?_, fun _ now' hnow => ?_⟩
    · rw [hopened] at hclosed
      exact iff_of_false (by simp) fun hle => absurd (hclosed.2 hle) (by simp)
    · have hle : now ≤ now' := hnow (now, .canExecute) (by simp)
      rw [hcool] at hover
      refine Number.le_finite_trans hover ?_
      exact_mod_cast Int.sub_le_sub_right hle b.lastFailureAt
  · exact hsame

theorem Remembers.recordSuccess (h : Remembers threshold cooldownMs past b)
    (hthreshold : (Number.finite 1).le threshold = true) (now : Int) :
    Remembers threshold cooldownMs (past ++ [(now, .recordSuccess)]) b.recordSuccess where
  threshold_eq := h.threshold_eq
  cooldownMs_eq := h.cooldownMs_eq
  failures_eq := (failuresSince_snoc past now .recordSuccess).symm
  lastFailure_eq := fun hpos => absurd hpos (Nat.lt_irrefl 0)
  closed_iff := iff_of_true rfl (not_le_zero hthreshold)
  cooled := fun hhalf => by cases hhalf

theorem Remembers.recordFailure (h : Remembers threshold cooldownMs past b) (now : Int) :
    Remembers threshold cooldownMs (past ++ [(now, .recordFailure)]) (b.recordFailure now) := by
  obtain ⟨hthr, hcool, hfailures, -, hclosed, -⟩ := h
  have hcount : (b.recordFailure now).failures = failuresSince (past ++ [(now, .recordFailure)]) := by
    rw [failuresSince_snoc, ← hfailures]
    rfl
  have hlast : lastFailure (past ++ [(now, .recordFailure)]) = some (b.recordFailure now).lastFailureAt := by
    simp [lastFailure_snoc, CircuitBreaker.recordFailure]
  refine ⟨hthr, hcool, hcount, fun _ => hlast, ?_, fun hhalf => ?_⟩
  · simp only [CircuitBreaker.recordFailure, hthr, Nat.cast_add, Nat.cast_one]
    split
    · rename_i hle
      exact iff_of_false (by simp) (by simp [hle])
    · rename_i hle
      -- what has not been reached now was not reached before
      refine iff_of_true (hclosed.2 ?_) (by simpa using hle)
      rw [← Bool.not_eq_true]
      exact fun hle' => hle (reached_succ hle')
  · simp only [CircuitBreaker.recordFailure, hthr] at hhalf
    split at hhalf
    · cases hhalf
    · rename_i hle
      -- a half open breaker has reached its threshold
      rw [hhalf] at hclosed
      exact absurd (reached_succ (by simpa using hclosed)) hle

/-- One call keeps what is remembered, if the clock does not go back. -/
theorem Remembers.call (h : Remembers threshold cooldownMs past b) (hthreshold : (Number.finite 1).le threshold = true)
    (c : BreakerCall) : Remembers threshold cooldownMs (past ++ [(now, c)]) (b.call (now, c)) := by
  cases c with
  | canExecute => exact h.canExecute now
  | recordSuccess => exact h.recordSuccess hthreshold now
  | recordFailure => exact h.recordFailure now

/-- A run keeps what is remembered. -/
theorem remembers_after (hthreshold : (Number.finite 1).le threshold = true) (past : CallHistory) :
    Remembers threshold cooldownMs past (.after threshold cooldownMs past) := by
  induction past using List.reverseRecOn with
  | nil => exact remembers_new hthreshold
  | append_singleton past c ih =>
    rw [CircuitBreaker.after, List.foldl_append]
    exact ih.call hthreshold c.2

/-- What a breaker answers that remembers the history. -/
theorem Remembers.canExecute_eq_false_iff (h : Remembers threshold cooldownMs past b)
    (hthreshold : (Number.finite 1).le threshold = true) (hcooldown : (Number.finite 0).le cooldownMs = true)
    (hnow : ∀ c ∈ past, c.1 ≤ now) : (b.canExecute now).2 = false ↔ BlockedBy threshold cooldownMs past now := by
  obtain ⟨-, hcool, hfailures, hlast, hclosed, hcooled⟩ := h
  have hover (t : Int) : cooldownMs.le (.finite (now - t)) = !(Number.finite (now - t)).lt cooldownMs :=
    Number.le_finite_eq_not_lt (Number.isNaN_of_le hcooldown) _
  have hpos (hle : threshold.le (.finite b.failures) = true) : 0 < b.failures := by
    refine Nat.pos_of_ne_zero fun hzero => ?_
    rw [hzero, not_le_zero hthreshold] at hle
    cases hle
  unfold BlockedBy CircuitBreaker.canExecute
  rw [← hfailures]
  split
  · rename_i hstate
    exact iff_of_false (by simp) (by simp [hclosed.1 hstate])
  · rename_i hstate
    have hle : threshold.le (.finite b.failures) = true := by
      rw [hstate] at hclosed
      simpa using hclosed
    rw [hlast (hpos hle), hcool, hover]
    cases hlt : (Number.finite (now - b.lastFailureAt)).lt cooldownMs <;> simp [hle, hlt]
  · rename_i hstate
    refine iff_of_false (by simp) ?_
    rintro ⟨hle, failedAt, hfailedAt, hlt⟩
    have hdone := hcooled hstate now hnow
    rw [hlast (hpos hle), Option.some.injEq] at hfailedAt
    rw [hover, hfailedAt, hlt] at hdone
    cases hdone

end

/-- **A breaker matches its history**: whatever calls are made, as long as the clock does not go back `canExecute`
refuses exactly when at least `threshold` failures have been recorded since the last success and less than `cooldownMs`
has gone by since the most recent one. -/
theorem refuses_iff_blocked {threshold cooldownMs : Number} (hthreshold : (Number.finite 1).le threshold = true)
    (hcooldown : (Number.finite 0).le cooldownMs = true) {calls past rest : CallHistory} {now : Int}
    (hclock : (calls.map Prod.fst).Pairwise (· ≤ ·)) (hcalls : calls = past ++ (now, .canExecute) :: rest) :
    ((CircuitBreaker.after threshold cooldownMs past).canExecute now).2 = false ↔
      BlockedBy threshold cooldownMs past now := by
  refine (remembers_after hthreshold past).canExecute_eq_false_iff hthreshold hcooldown fun c hc => ?_
  rw [hcalls, List.map_append, List.pairwise_append] at hclock
  exact hclock.2.2 c.1 (List.mem_map_of_mem hc) now (by simp)

/-- A breaker with a threshold of 1 and a cooldown of 30 s, a second after its first failure. -/
theorem refuses_iff_blocked_sample :
    ((CircuitBreaker.after (.finite 1) (.finite 30000) [(0, .canExecute), (5000, .recordFailure)]).canExecute 6000).2 =
        false ∧
      BlockedBy (.finite 1) (.finite 30000) [(0, .canExecute), (5000, .recordFailure)] 6000 := by
  have hrefused : ((CircuitBreaker.after (.finite 1) (.finite 30000)
      [(0, .canExecute), (5000, .recordFailure)]).canExecute 6000).2 = false := by
    decide +kernel
  have hclock : (([(0, .canExecute), (5000, .recordFailure), (6000, .canExecute)] : CallHistory).map
      Prod.fst).Pairwise (· ≤ ·) := by
    decide
  exact ⟨hrefused, (@refuses_iff_blocked _ _ (by decide +kernel) (by decide +kernel) _ _ [] _ hclock rfl).1 hrefused⟩

/-! ## What holds a call back, whatever the clock does -/

/-- A failure at `failedAt` has brought the failures since the last success to the threshold, and since then only calls
within its cooldown have come. It is one of `since`, which came after `before`. -/
def OpenedIn (threshold cooldownMs : Number) (before since : CallHistory) (failedAt : Int) : Prop :=
  ∃ earlier later, since = earlier ++ (failedAt, .recordFailure) :: later ∧
    threshold.le (.finite (failuresSince (before ++ earlier ++ [(failedAt, .recordFailure)]))) = true ∧
    ∀ c ∈ later, c.2 = .canExecute ∧ cooldownMs.le (.finite (c.1 - failedAt)) = false

section
variable {threshold cooldownMs : Number} {past before since : CallHistory} {now failedAt : Int} {b : CircuitBreaker}

/-- Of the whole history, if the failure is one of its end. -/
theorem OpenedIn.append (h : OpenedIn threshold cooldownMs before since failedAt) :
    OpenedIn threshold cooldownMs [] (before ++ since) failedAt := by
  obtain ⟨earlier, later, rfl, hreached, hlater⟩ := h
  exact ⟨before ++ earlier, later, by simp, by simpa using hreached, hlater⟩

theorem openedIn_snoc_call : OpenedIn threshold cooldownMs before (since ++ [(now, .canExecute)]) failedAt ↔
    OpenedIn threshold cooldownMs before since failedAt ∧ cooldownMs.le (.finite (now - failedAt)) = false := by
  constructor
  · rintro ⟨earlier, later, hsince, hreached, hlater⟩
    rcases List.eq_nil_or_concat' later with rfl | ⟨later, c, rfl⟩
    · obtain ⟨-, hlast⟩ := List.append_inj' hsince rfl
      cases hlast
    · rw [← List.cons_append, ← List.append_assoc] at hsince
      obtain ⟨rfl, hlast⟩ := List.append_inj' hsince rfl
      obtain rfl := List.singleton_inj.1 hlast
      exact ⟨⟨earlier, later, rfl, hreached, fun c hc => hlater c (List.mem_append_left _ hc)⟩,
        (hlater (now, .canExecute) (by simp)).2⟩
  · rintro ⟨⟨earlier, later, rfl, hreached, hlater⟩, hnow⟩
    refine ⟨earlier, later ++ [(now, .canExecute)], by simp, hreached, fun c hc => ?_⟩
    rcases List.mem_append.1 hc with hc | hc
    · exact hlater c hc
    · rw [List.mem_singleton.1 hc]
      exact ⟨rfl, hnow⟩

/-- A failure on record opens, if there are enough of them, and another outcome closes. -/
theorem openedIn_snoc_outcome {c : BreakerCall} (hc : c ≠ .canExecute) :
    OpenedIn threshold cooldownMs [] (past ++ [(now, c)]) failedAt ↔ c = .recordFailure ∧ failedAt = now ∧
      threshold.le (.finite (failuresSince (past ++ [(now, c)]))) = true := by
  constructor
  · rintro ⟨earlier, later, hpast, hreached, hlater⟩
    rcases List.eq_nil_or_concat' later with rfl | ⟨later, c', rfl⟩
    · obtain ⟨rfl, hlast⟩ := List.append_inj' hpast rfl
      cases hlast
      exact ⟨rfl, rfl, hreached⟩
    · rw [← List.cons_append, ← List.append_assoc] at hpast
      obtain ⟨-, hlast⟩ := List.append_inj' hpast rfl
      obtain rfl := List.singleton_inj.1 hlast
      exact absurd (hlater (now, c) (by simp)).1 hc
  · rintro ⟨rfl, rfl, hreached⟩
    exact ⟨past, [], rfl, hreached, by simp⟩

/-- Calls do not count as failures. -/
theorem OpenedIn.reached (h : OpenedIn threshold cooldownMs [] past failedAt) :
    threshold.le (.finite (failuresSince past)) = true := by
  obtain ⟨earlier, later, rfl, hreached, hlater⟩ := h
  induction later using List.reverseRecOn with
  | nil => exact hreached
  | append_singleton later c ih =>
    have hcall : c = (c.1, .canExecute) := by rw [← (hlater c (by simp)).1]
    rw [← List.cons_append, ← List.append_assoc, hcall, failuresSince_snoc]
    exact ih fun c' hc' => hlater c' (List.mem_append_left _ hc')

/-- The breaker is open exactly when the history says so, and knows since when. -/
structure Recalls (threshold cooldownMs : Number) (past : CallHistory) (b : CircuitBreaker) : Prop where
  threshold_eq : b.threshold = threshold
  cooldownMs_eq : b.cooldownMs = cooldownMs
  failures_eq : b.failures = failuresSince past
  opened_iff : ∀ failedAt, b.state = .opened ∧ b.lastFailureAt = failedAt ↔
    OpenedIn threshold cooldownMs [] past failedAt

theorem recalls_new : Recalls threshold cooldownMs [] (.new threshold cooldownMs) where
  threshold_eq := rfl
  cooldownMs_eq := rfl
  failures_eq := rfl
  opened_iff := fun failedAt => iff_of_false (by simp [CircuitBreaker.new]) (by simp [OpenedIn])

theorem Recalls.canExecute (h : Recalls threshold cooldownMs past b) (now : Int) :
    Recalls threshold cooldownMs (past ++ [(now, .canExecute)]) (b.canExecute now).1 := by
  obtain ⟨hthr, hcool, hfailures, hopened⟩ := h
  have hfailures' : b.failures = failuresSince (past ++ [(now, .canExecute)]) := by rwa [failuresSince_snoc]
  rcases b.canExecute_cases now with ⟨hstate, heq⟩ | ⟨hstate, hover, heq⟩ | ⟨hstate, hover, heq⟩ <;> rw [heq] <;>
    refine ⟨hthr, hcool, hfailures', fun failedAt => ?_⟩ <;> rw [openedIn_snoc_call, ← hopened]
  · exact iff_of_false (fun h => hstate h.1) fun h => hstate h.1.1
  · refine iff_of_false (by simp) ?_
    rintro ⟨⟨-, rfl⟩, hwithin⟩
    rw [← hcool, hover] at hwithin
    cases hwithin
  · constructor
    · rintro ⟨-, rfl⟩
      exact ⟨⟨hstate, rfl⟩, hcool ▸ hover⟩
    · exact fun h => h.1

theorem Recalls.recordSuccess (h : Recalls threshold cooldownMs past b) (now : Int) :
    Recalls threshold cooldownMs (past ++ [(now, .recordSuccess)]) b.recordSuccess := by
  refine ⟨h.threshold_eq, h.cooldownMs_eq, (failuresSince_snoc past now .recordSuccess).symm, fun failedAt => ?_⟩
  rw [openedIn_snoc_outcome (by simp)]
  exact iff_of_false (by simp [CircuitBreaker.recordSuccess]) (by simp)

theorem Recalls.recordFailure (h : Recalls threshold cooldownMs past b) (now : Int) :
    Recalls threshold cooldownMs (past ++ [(now, .recordFailure)]) (b.recordFailure now) := by
  obtain ⟨hthr, hcool, hfailures, hopened⟩ := h
  have hcount : failuresSince (past ++ [(now, .recordFailure)]) = b.failures + 1 := by
    rw [failuresSince_snoc, hfailures]
  refine ⟨hthr, hcool, hcount.symm, fun failedAt => ?_⟩
  rw [openedIn_snoc_outcome (by simp), hcount]
  simp only [CircuitBreaker.recordFailure, hthr, Nat.cast_add, Nat.cast_one, true_and]
  cases hreached : threshold.le (.finite (b.failures + 1)) with
  | true => simp [eq_comm]
  | false =>
    simp only [Bool.false_eq_true, if_false, and_false, iff_false, not_and]
    -- an open breaker has reached its threshold, and reaches it again
    intro hstate
    have hle := ((hopened _).1 ⟨hstate, rfl⟩).reached
    rw [← hfailures] at hle
    rw [reached_succ hle] at hreached
    cases hreached

theorem Recalls.call (h : Recalls threshold cooldownMs past b) (c : BreakerCall) :
    Recalls threshold cooldownMs (past ++ [(now, c)]) (b.call (now, c)) := by
  cases c with
  | canExecute => exact h.canExecute now
  | recordSuccess => exact h.recordSuccess now
  | recordFailure => exact h.recordFailure now

theorem recalls_after (past : CallHistory) :
    Recalls threshold cooldownMs past (.after threshold cooldownMs past) := by
  induction past using List.reverseRecOn with
  | nil => exact recalls_new
  | append_singleton past c ih =>
    rw [CircuitBreaker.after, List.foldl_append]
    exact ih.call c.2

/-- A call is held back exactly within the cooldown of a failure that has opened the breaker. -/
theorem canExecute_after_eq_false_iff : ((CircuitBreaker.after threshold cooldownMs past).canExecute now).2 = false ↔
    ∃ failedAt, OpenedIn threshold cooldownMs [] past failedAt ∧
      cooldownMs.le (.finite (now - failedAt)) = false := by
  obtain ⟨-, hcool, -, hopened⟩ := @recalls_after threshold cooldownMs past
  simp only [← hopened]
  rcases (CircuitBreaker.after threshold cooldownMs past).canExecute_cases now with
    ⟨hstate, heq⟩ | ⟨hstate, hover, heq⟩ | ⟨hstate, hover, heq⟩ <;> rw [heq]
  · simp [hstate]
  · rw [hcool] at hover
    simp [hstate, hover]
  · rw [hcool] at hover
    simp [hstate, hover]

end

end Jobflow
