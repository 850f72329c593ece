import Jobflow.Stores

/-!
# The registry of run locks, under any sequence of calls (src/engine/run-lock.ts)

Once `acquire` has written an owner, only that owner's `release` takes it away. But `acquire` asks whether there is an
owner by its truthiness, while `release` and `isLocked` do not, so a lock of the empty owner shuts nobody out
(`lock_held_iff`).
-/

namespace Jobflow

inductive LockCall where
  | acquire (runId : RunId) (owner : String)
  | release (runId : RunId) (owner : String)

namespace Stores

/-- `RunLockRegistry.isLocked` (run-lock.ts:21-23). -/
def isLocked (s : Stores) (runId : RunId) : Bool := s.runLocks.has runId

/-- A call to the registry; one that throws leaves it as it was. -/
def lockCall (s : Stores) : LockCall → Stores
  | .acquire runId owner =>
    match s.acquire runId owner with
    | .ok s' => s'
    | .error _ => s
  | .release runId owner => s.release runId owner

def lockCalls (s : Stores) (calls : List LockCall) : Stores := calls.foldl lockCall s

/-- The run is locked, and nobody but `o` can take or give back the lock. -/
structure HeldBy (s : Stores) (r : RunId) (o : String) : Prop where
  locked : s.isLocked r = true
  throws : ∀ p, p ≠ o → ∃ e, s.acquire r p = .error e
  kept : ∀ p, p ≠ o → s.lockCall (.acquire r p) = s ∧ s.lockCall (.release r p) = s

section
variable {s s' : Stores} {r : RunId} {o : String}

theorem runLocks_of_acquire (h : s.acquire r o = .ok s') : s'.runLocks = s.runLocks.set r o := by
  unfold acquire at h
  split at h
  · split at h <;> cases h
    rfl
  · cases h
    rfl

/-- An owner that is not empty keeps the others out. -/
theorem heldBy_of_get (h : s.runLocks.get r = some o) (ho : o ≠ "") : s.HeldBy r o := by
  have hthrows (p : String) (hp : p ≠ o) :
      s.acquire r p = .error (.concurrencyError ("run " ++ r ++ " locked by " ++ o)) := by
    simp only [acquire, h]
    rw [if_pos ⟨ho, Ne.symm hp⟩]
  refine ⟨?_, fun p hp => ⟨_, hthrows p hp⟩, fun p hp => ⟨?_, ?_⟩⟩
  · rw [isLocked, InsertionMap.has, h]
    rfl
  · rw [lockCall, hthrows p hp]
  · rw [lockCall, release, h, if_neg fun heq => hp (Option.some.inj heq).symm]

/-- What a call leaves of a lock that its owner does not give back. -/
theorem get_lockCall (h : s.runLocks.get r = some o) (ho : o ≠ "") {c : LockCall} (hc : c ≠ .release r o) :
    (s.lockCall c).runLocks.get r = some o := by
  cases c with
  | acquire r' p =>
    by_cases hother : r' = r ∧ p ≠ o
    · obtain ⟨rfl, hp⟩ := hother
      rw [((heldBy_of_get h ho).kept p hp).1]
      exact h
    · rw [lockCall]
      split
      · rename_i s' hs'
        rw [runLocks_of_acquire hs', InsertionMap.get_set]
        by_cases hr : r' = r
        · have hp : p = o := by simpa [hr] using hother
          rw [if_pos hr, hp]
        · rw [if_neg hr]
          exact h
      · exact h
  | release r' p =>
    rw [lockCall, release]
    by_cases howned : s.runLocks.get r' = some p
    · have hr : r' ≠ r := by
        rintro rfl
        rw [h] at howned
        exact hc (by rw [Option.some.inj howned])
      rw [if_pos howned, InsertionMap.get_delete, if_neg hr]
      exact h
    · rw [if_neg howned]
      exact h

/-- A lock outlives every sequence of calls in which its owner does not give it back. -/
theorem get_lockCalls (ho : o ≠ "") : ∀ {calls : List LockCall} {s : Stores}, s.runLocks.get r = some o →
    .release r o ∉ calls → (s.lockCalls calls).runLocks.get r = some o
  | [], _, h, _ => h
  | c :: calls, s, h, hno => by
    rw [List.mem_cons, not_or] at hno
    exact get_lockCalls (s := s.lockCall c) ho (get_lockCall h ho (Ne.symm hno.1)) hno.2

/-- A lock of the empty owner is there for anybody to take. -/
theorem not_heldBy_empty (h : s.runLocks.get r = some "") : ¬ s.HeldBy r "" := by
  intro hheld
  obtain ⟨e, he⟩ := hheld.throws "other" (by decide)
  simp only [acquire, h] at he
  rw [if_neg fun hnonempty => hnonempty.1 rfl] at he
  cases he

end

end Stores

/-- **When a lock holds**: from when `acquire(r, o)` has succeeded, in whatever sequence of calls, until
`release(r, o)`, the run is locked for `o` alone if and only if `o` is not the empty string. -/
theorem lock_held_iff {before mid : List LockCall} {r : RunId} {o : String} {s : Stores}
    (hacquired : (Stores.empty.lockCalls before).acquire r o = .ok s) (hheld : .release r o ∉ mid) :
    (∀ calls, calls <+: mid → (s.lockCalls calls).HeldBy r o) ↔ o ≠ "" := by
  have hget : s.runLocks.get r = some o := by
    rw [Stores.runLocks_of_acquire hacquired, InsertionMap.get_set_self]
  constructor
  · rintro h rfl
    exact Stores.not_heldBy_empty hget (h [] List.nil_prefix)
  · intro ho calls hcalls
    have hno : .release r o ∉ calls := fun hmem => hheld (hcalls.subset hmem)
    exact Stores.heldBy_of_get (Stores.get_lockCalls ho hget hno) ho

theorem lock_held_sample : ∃ s, Stores.empty.acquire "run_1" "a" = .ok s ∧
    ∀ calls, calls <+: [.acquire "run_1" "b", .release "run_1" "", .acquire "run_1" ""] →
      (s.lockCalls calls).HeldBy "run_1" "a" :=
  ⟨_, rfl, (@lock_held_iff [] _ _ _ _ rfl (by simp)).2 (by decide)⟩

/-- The lock of the empty owner is taken over. -/
theorem empty_owner_is_passed_over : ¬ ∀ (before mid : List LockCall) (r : RunId) (o : String) (s : Stores),
    (Stores.empty.lockCalls before).acquire r o = .ok s → .release r o ∉ mid →
      (s.lockCalls mid).HeldBy r o := by
  intro h
  obtain ⟨e, he⟩ := (h [] [] "run_1" "" _ rfl List.not_mem_nil).throws "b" (by decide)
  cases he

end Jobflow
