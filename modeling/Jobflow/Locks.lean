import Jobflow.NewRun

/-!
# The locks of a run (src/engine/run-lock.ts, execution-service.ts:35-44 and 132-135)

`executeRun` takes the run in the `localLocks` of its service and then in the registry that all services share.
`LockStep` lists what a step of the system can do to the two locks of a run and to the calls that execute it. From it
follow when both locks are given back, and when only one service at a time executes a run. A conflict in the registry
throws before the `try`, so it leaves the local lock behind; and since every service is called `execution-service`,
the registry takes a second service for the first one.
-/

namespace Jobflow

open ExecutionService (owner)

/-! ## Who executes a run -/

/-- The service on which the call executes run `r`, from when it has the locks until it has settled. -/
def Call.executor (r : RunId) : Call → Option Nat
  | .execute k r' pc => if r' = r ∧ pc.running.isSome then some k else none
  | _ => none

/-- The services that execute run `r`, once for each call. -/
def System.executors (s : System) (r : RunId) : List Nat := s.calls.filterMap (Call.executor r)

/-- The call of `executeRun` that the event makes, itself or as a step of `replay`. -/
def Event.opens (s : System) : Event → Option (Nat × RunId)
  | .executeRun k r => some (k, r)
  | .resume i _ =>
    match s.calls[i]? with
    | some (.replay k r (.read (some _))) => some (k, r)
    | _ => none
  | _ => none

/-- `acquire` would throw: the registry holds the run for somebody else. -/
def Stores.LockedByOther (s : Stores) (r : RunId) : Prop :=
  match s.runLocks.get r with
  | some current => current ≠ "" ∧ current ≠ owner
  | none => False

instance (s : Stores) (r : RunId) : Decidable (s.LockedByOther r) :=
  match h : s.runLocks.get r with
  | some current => decidable_of_iff (current ≠ "" ∧ current ≠ owner) (by simp [Stores.LockedByOther, h])
  | none => isFalse (by simp [Stores.LockedByOther, h])

/-- Nobody but the services uses the name of the services for a lock of run `r`. -/
def Event.ForeignLocks (r : RunId) : Event → Prop
  | .acquire r' o => r' = r → o ≠ owner
  | .release r' o => r' = r → o ≠ owner
  | _ => True

instance (r : RunId) : (e : Event) → Decidable (e.ForeignLocks r)
  | .acquire r' o => inferInstanceAs (Decidable (r' = r → o ≠ owner))
  | .release r' o => inferInstanceAs (Decidable (r' = r → o ≠ owner))
  | .register _ _ | .createRun _ _ _ | .executeRun _ _ | .use _ _ | .replay _ _ | .restoreToCheckpoint _ _ _
  | .resume _ _ => inferInstanceAs (Decidable True)

/-! ## What a step does to the locks of a run -/

inductive LockStep (r : RunId) (s : System) (e : Event) (s' : System) : Prop where
  /-- Nothing; in particular a call that finds the local lock taken returns. -/
  | same (ho : ∀ k, e.opens s = some (k, r) → (k, r) ∈ s.stores.localLocks)
      (hl : Stores.SameLocks r s.stores s'.stores) (he : s'.executors r = s.executors r)
  | began (k : Nat) (ho : e.opens s = some (k, r)) (hk : (k, r) ∉ s.stores.localLocks)
      (hfree : ¬ s.stores.LockedByOther r) (hr : s'.stores.runLocks.get r = some owner)
      (hl : ∀ k', (k', r) ∈ s'.stores.localLocks ↔ k' = k ∨ (k', r) ∈ s.stores.localLocks)
      (he : s'.executors r = s.executors r ++ [k])
  | conflict (k : Nat) (ho : e.opens s = some (k, r)) (hk : (k, r) ∉ s.stores.localLocks)
      (hother : s.stores.LockedByOther r) (hr : s'.stores.runLocks.get r = s.stores.runLocks.get r)
      (hl : ∀ k', (k', r) ∈ s'.stores.localLocks ↔ k' = k ∨ (k', r) ∈ s.stores.localLocks)
      (he : s'.executors r = s.executors r)
  | ended (k : Nat) (before after : List Nat) (ho : ∀ k', e.opens s ≠ some (k', r))
      (hr : s'.stores.runLocks.get r =
        if s.stores.runLocks.get r = some owner then none else s.stores.runLocks.get r)
      (hl : ∀ k', (k', r) ∈ s'.stores.localLocks ↔ k' ≠ k ∧ (k', r) ∈ s.stores.localLocks)
      (he : s.executors r = before ++ k :: after) (he' : s'.executors r = before ++ after)
  | acquired (o : String) (hev : e = .acquire r o)
      (hfree : ∀ current, s.stores.runLocks.get r = some current → current = "" ∨ current = o)
      (hr : s'.stores.runLocks.get r = some o) (hl : s'.stores.localLocks = s.stores.localLocks)
      (he : s'.executors r = s.executors r)
  | released (o : String) (hev : e = .release r o)
      (hr : s'.stores.runLocks.get r =
        if s.stores.runLocks.get r = some o then none else s.stores.runLocks.get r)
      (hl : s'.stores.localLocks = s.stores.localLocks) (he : s'.executors r = s.executors r)

section
variable {world : World} {r : RunId} {s s' : System}

/-- The last segment of a call gives both locks back. -/
theorem Effect.closing_eq {k : Nat} {r' : RunId} {held ws : List WorkflowInstance} {st st' : Stores}
    (he : Effect k r' held st .closing st' ws) : st' = (st.deleteLocalLock k r').release r' owner := by
  cases he
  rfl

/-- `executeRun` gets the registry unless somebody else holds the run. -/
theorem Stores.acquire_owner (st : Stores) (r : RunId) (k : Nat) :
    (∃ err, (st.addLocalLock k r).acquire r owner = .error err) ∧ st.LockedByOther r ∨
      (st.addLocalLock k r).acquire r owner =
          .ok { st.addLocalLock k r with runLocks := st.runLocks.set r owner } ∧ ¬ st.LockedByOther r := by
  unfold Stores.LockedByOther
  cases hg : st.runLocks.get r with
  | none =>
    refine .inr ⟨?_, id⟩
    have : (st.addLocalLock k r).runLocks.get r = none := hg
    simp only [Stores.acquire, this]
    rfl
  | some current =>
    have : (st.addLocalLock k r).runLocks.get r = some current := hg
    by_cases hc : current ≠ "" ∧ current ≠ owner
    · exact .inl ⟨⟨_, by simp only [Stores.acquire, this, if_pos hc]; rfl⟩, hc⟩
    · exact .inr ⟨by simp only [Stores.acquire, this, if_neg hc]; rfl, hc⟩

theorem executors_spawn {st : Stores} {call : Call} :
    (s.spawn st call).executors r = s.executors r ++ (call.executor r).toList := by
  unfold System.executors System.spawn
  cases hc : call.executor r <;> simp [hc]

theorem executors_suspend {i : Nat} {st : Stores} {old call : Call} (hi : s.calls[i]? = some old)
    (hc : call.executor r = old.executor r) : (s.suspend i st call).executors r = s.executors r := by
  obtain ⟨h₁, h₂⟩ := filterMap_set (Call.executor r) call hi
  exact h₂.trans (by rw [hc]; exact h₁.symm)

/-- The segment that calls `executeRun`. -/
theorem LockStep.of_execute {t : System} {e : Event} {k : Nat} {r' : RunId} (ho : e.opens s = some (k, r'))
    (hst : t.stores = s.stores) (he : t.executors r = s.executors r) : LockStep r s e (t.execute k r') := by
  by_cases hr : r' = r
  · subst hr
    have hopens : ∀ k', e.opens s = some (k', r') → k' = k := fun k' h => by
      rw [ho] at h
      exact (congrArg Prod.fst (Option.some.inj h)).symm
    rw [System.execute, hst]
    by_cases hk : (k, r') ∈ s.stores.localLocks
    · have hloc : s.stores.hasLocalLock k r' = true := by simpa [Stores.hasLocalLock] using hk
      have hx : ExecutionService.executeRun k r' s.stores = (s.stores, .settled (.ok ())) := by
        simp [ExecutionService.executeRun, hloc]
      rw [hx]
      refine .same (fun k' h => ?_) (.refl _ _) ?_
      · rw [hopens k' h]
        exact hk
      · rw [executors_spawn, he]
        simp [Call.executor, ExecPc.running]
    · have hloc : s.stores.hasLocalLock k r' = false := by simpa [Stores.hasLocalLock] using hk
      rcases Stores.acquire_owner s.stores r' k with ⟨⟨err, ha⟩, hother⟩ | ⟨ha, hfree⟩
      · have hx : ExecutionService.executeRun k r' s.stores =
            (s.stores.addLocalLock k r', .settled (.error err)) := by
          simp [ExecutionService.executeRun, hloc, ha]
        rw [hx]
        refine .conflict k ho hk hother rfl (fun k' => by simp [System.spawn, Stores.addLocalLock]) ?_
        rw [executors_spawn, he]
        simp [Call.executor, ExecPc.running]
      · have hx : ExecutionService.executeRun k r' s.stores =
            ({ s.stores.addLocalLock k r' with runLocks := s.stores.runLocks.set r' owner },
              .runRead (s.stores.runs.get r')) := by
          simp only [ExecutionService.executeRun, hloc, ha]
          rfl
        rw [hx]
        refine .began k ho hk hfree (InsertionMap.get_set_self _ _ _)
          (fun k' => by simp [System.spawn, Stores.addLocalLock]) ?_
        rw [executors_spawn, he]
        simp [Call.executor, ExecPc.running]
  · have hl := (ExecutionService.executeRun_effect k r' t.stores).sameLocks hr
    refine .same (fun k' h => ?_) (hst ▸ hl) ?_
    · rw [ho] at h
      exact absurd (congrArg Prod.snd (Option.some.inj h)) hr
    · rw [System.execute, executors_spawn, he]
      simp [Call.executor, hr]

/-- A segment of a call of `executeRun`. -/
theorem LockStep.of_resume {e : Event} {i k : Nat} {r' : RunId} {pc : ExecPc} {now : ISODateString}
    {x : Stores × ExecPc} (ho : e.opens s = none) (hi : s.calls[i]? = some (.execute k r' pc))
    (hx : ExecutionService.resume world k r' s.stores now pc = some x) :
    LockStep r s e (s.suspend i x.1 (.execute k r' x.2)) := by
  have hopens : ∀ k', e.opens s ≠ some (k', r) := fun k' h => by
    rw [ho] at h
    cases h
  have he := ExecutionService.resume_effect hx
  have hrun := ExecutionService.resume_running hx
  by_cases hr : r' = r
  · subst hr
    have hold : (Call.execute k r' pc).executor r' = some k := by simp [Call.executor, hrun]
    rcases ExecPc.running_segment x.2 with ⟨ha, hs⟩ | ⟨ha, hs⟩
    · rw [ExecEffect, hs] at he
      obtain ⟨hlocks, hlocal⟩ := he.locks
      refine .same (fun k' h => absurd h (hopens k'))
        ⟨congrArg (·.get r') hlocks, fun k' => by rw [System.suspend, hlocal]⟩ (executors_suspend hi ?_)
      simp [Call.executor, hrun, ha]
    · rw [ExecEffect, hs] at he
      obtain ⟨h₁, h₂⟩ := filterMap_set (Call.executor r') (.execute k r' x.2) hi
      have hnew : (Call.execute k r' x.2).executor r' = none := by simp [Call.executor, ha]
      have hx₁ := he.closing_eq
      obtain ⟨locks, hl, hget⟩ := release_eq (s.stores.deleteLocalLock k r') r' owner
      rw [hold] at h₁
      rw [hnew] at h₂
      refine .ended k ((s.calls.take i).filterMap (Call.executor r'))
        ((s.calls.drop (i + 1)).filterMap (Call.executor r')) hopens ?_ (fun k' => ?_) ?_ ?_
      · rw [System.suspend, hx₁, hl, hget]
        simp [Stores.deleteLocalLock]
      · rw [System.suspend, hx₁, hl]
        simp [Stores.deleteLocalLock, and_comm]
      · exact h₁.trans (by simp)
      · exact h₂.trans (by simp)
  · refine .same (fun k' h => absurd h (hopens k')) (he.sameLocks hr) (executors_suspend hi ?_)
    simp [Call.executor, hr]

/-- Steps that neither call nor resume `executeRun` leave the executors alone. -/
theorem LockStep.of_quiet {e : Event} (ho : e.opens s = none) (hl : Stores.SameLocks r s.stores s'.stores)
    (he : s'.executors r = s.executors r) : LockStep r s e s' :=
  .same (fun k h => by rw [ho] at h; cases h) hl he

/-- The other segments of `replay` make no call. -/
theorem Event.opens_replay {i k : Nat} {r' : RunId} {pc : ReplayPc} {reply : Reply}
    (hi : s.calls[i]? = some (.replay k r' pc)) (hread : ∀ before, pc ≠ .read (some before)) :
    (Event.resume i reply).opens s = none := by
  cases pc with
  | read found =>
    cases found with
    | none => simp [Event.opens, hi]
    | some before => exact absurd rfl (hread before)
  | _ => simp [Event.opens, hi]

/-- Every step is on the list. -/
theorem System.step_locks {e : Event} (h : s.step world e = some s') : LockStep r s e s' := by
  cases System.step_cases h with
  | registered | notRegistered | restored | notRestored | notAcquired => exact .of_quiet rfl (.refl _ _) rfl
  | createCalled | useCalled | replayCalled =>
    exact .of_quiet rfl (.refl _ _) (by rw [executors_spawn]; simp [Call.executor])
  | executeCalled => exact .of_execute rfl rfl rfl
  | @acquired r' o hfree =>
    by_cases hr : r' = r
    · subst hr
      exact .acquired o rfl hfree (InsertionMap.get_set_self _ _ _) rfl rfl
    · exact .of_quiet rfl ⟨InsertionMap.get_set_ne _ _ hr, fun _ => Iff.rfl⟩ rfl
  | @released r' o locks hget =>
    by_cases hr : r' = r
    · subst hr
      exact .released o rfl (by simpa using hget r') rfl rfl
    · exact .of_quiet rfl ⟨by simp [hget, hr], fun _ => Iff.rfl⟩ rfl
  | executed hi hx => exact .of_resume (by simp [Event.opens, hi]) hi hx
  | created hi hx =>
    refine .of_quiet (by simp [Event.opens, hi]) ?_ (executors_suspend hi rfl)
    cases hx <;> exact .refl _ _
  | used hi hx =>
    obtain ⟨hr, hl⟩ := (Use.resume_effect (k := 0) hx).locks
    exact .of_quiet (by simp [Event.opens, hi])
      ⟨congrArg (·.get r) hr, fun k => by rw [System.suspend, hl]⟩ (executors_suspend hi rfl)
  | replayed hi _ hread => exact .of_quiet (Event.opens_replay hi hread) (.refl _ _) (executors_suspend hi rfl)
  | replayExecutes hi => exact .of_execute (by simp [Event.opens, hi]) rfl (executors_suspend hi rfl)

end

/-! ## Both locks are given back -/

/-- The service and the run of a call of `executeRun` or `replay`. -/
def Call.service : Call → Option (Nat × RunId)
  | .execute k r _ => some (k, r)
  | .replay k r _ => some (k, r)
  | _ => none

/-- Run `r` is executed through service `k` only, and nobody else uses the name of the services. -/
def Event.OneService (k : Nat) (r : RunId) : Event → Prop
  | .executeRun k' r' => r' = r → k' = k
  | .replay k' r' => r' = r → k' = k
  | e => e.ForeignLocks r

instance (k : Nat) (r : RunId) : (e : Event) → Decidable (e.OneService k r)
  | .executeRun k' r' => inferInstanceAs (Decidable (r' = r → k' = k))
  | .replay k' r' => inferInstanceAs (Decidable (r' = r → k' = k))
  | .register _ _ | .createRun _ _ _ | .use _ _ | .restoreToCheckpoint _ _ _ | .resume _ _ =>
    inferInstanceAs (Decidable True)
  | .acquire r' o => inferInstanceAs (Decidable (r' = r → o ≠ owner))
  | .release r' o => inferInstanceAs (Decidable (r' = r → o ≠ owner))

/-- Nothing is left of an execution of run `r` by service `k`: neither lock is held, and unless somebody else holds
the run the service can execute it. -/
def Stores.Free (s : Stores) (k : Nat) (r : RunId) : Prop :=
  (k, r) ∉ s.localLocks ∧ s.runLocks.get r ≠ some owner ∧
    (¬ s.LockedByOther r → (ExecutionService.executeRun k r s).2.running = some (.runRead (s.runs.get r)))

section
variable {world : World} {k : Nat} {r : RunId} {s s' : System} {e : Event} {events : List Event}

/-- Calls keep their service and their run. -/
theorem service_suspend {i : Nat} {st : Stores} {old call c : Call} (hi : s.calls[i]? = some old)
    (hc : c ∈ (s.suspend i st call).calls) (hs : call.service = old.service) :
    ∃ c' ∈ s.calls, c'.service = c.service := by
  rcases mem_calls_suspend hc with hc | rfl
  · exact ⟨c, hc, rfl⟩
  · exact ⟨old, List.mem_of_getElem? hi, hs.symm⟩

/-- Every call of `executeRun` or `replay` for run `r` stays one of service `k`. -/
theorem System.step_service (he : e.OneService k r) (hs : s.step world e = some s')
    (hk : ∀ c ∈ s.calls, ∀ k', c.service = some (k', r) → k' = k) :
    ∀ c ∈ s'.calls, ∀ k', c.service = some (k', r) → k' = k := by
  intro c hc k' hservice
  cases System.step_cases hs with
  | registered | notRegistered | restored | notRestored | acquired | notAcquired | released =>
    exact hk c hc k' hservice
  | createCalled | useCalled =>
    rcases mem_calls_spawn hc with hc | rfl
    · exact hk c hc k' hservice
    · cases hservice
  | executeCalled | replayCalled =>
    rcases mem_calls_spawn hc with hc | rfl
    · exact hk c hc k' hservice
    · cases hservice
      exact he rfl
  | executed hi | created hi | used hi | replayed hi =>
    obtain ⟨c', hc', hsame⟩ := service_suspend hi hc rfl
    exact hk c' hc' k' (hsame.trans hservice)
  | replayExecutes hi =>
    rcases mem_calls_spawn hc with hc | rfl
    · obtain ⟨c', hc', hsame⟩ := service_suspend hi hc rfl
      exact hk c' hc' k' (hsame.trans hservice)
    · exact hk _ (List.mem_of_getElem? hi) k' hservice

theorem Event.OneService.opens (he : e.OneService k r)
    (hk : ∀ c ∈ s.calls, ∀ k', c.service = some (k', r) → k' = k) {k' : Nat} (ho : e.opens s = some (k', r)) :
    k' = k := by
  cases e with
  | executeRun k'' r' =>
    cases ho
    exact he rfl
  | resume i reply =>
    simp only [Event.opens] at ho
    split at ho
    · rename_i hi
      cases ho
      exact hk _ (List.mem_of_getElem? hi) k' rfl
    · cases ho
  | _ => cases ho

/-- Service `k` has both locks of run `r` exactly while it executes it. -/
structure LockInv (k : Nat) (r : RunId) (s : System) : Prop where
  service : ∀ c ∈ s.calls, ∀ k', c.service = some (k', r) → k' = k
  locks : s.executors r = [] ∧ (k, r) ∉ s.stores.localLocks ∧ s.stores.runLocks.get r ≠ some owner ∨
    s.executors r = [k] ∧ (k, r) ∈ s.stores.localLocks ∧ s.stores.runLocks.get r = some owner

theorem Stores.not_lockedByOther {st : Stores} (h : st.runLocks.get r = some owner) : ¬ st.LockedByOther r := by
  simp [Stores.LockedByOther, h]

theorem Stores.free_of_unlocked {st : Stores} (hl : (k, r) ∉ st.localLocks)
    (hr : st.runLocks.get r ≠ some owner) : st.Free k r := by
  refine ⟨hl, hr, fun hother => ?_⟩
  have hloc : st.hasLocalLock k r = false := by simpa [Stores.hasLocalLock] using hl
  rcases Stores.acquire_owner st r k with ⟨_, h⟩ | ⟨ha, _⟩
  · exact absurd h hother
  · simp only [ExecutionService.executeRun, hloc, ha]
    rfl

/-- A step that meets no conflict keeps the locks right, and a conflict leaves the local lock behind. -/
theorem LockInv.step (h : LockInv k r s) (he : e.OneService k r) (hs : s.step world e = some s') :
    ((s'.executors r = [] → s'.stores.Free k r) ↔ ¬ (e.opens s = some (k, r) ∧ s.stores.LockedByOther r)) ∧
      (¬ (e.opens s = some (k, r) ∧ s.stores.LockedByOther r) → LockInv k r s') := by
  have hservice := System.step_service he hs h.service
  have hdone : (s'.executors r = [] ∧ (k, r) ∉ s'.stores.localLocks ∧ s'.stores.runLocks.get r ≠ some owner ∨
      s'.executors r = [k] ∧ (k, r) ∈ s'.stores.localLocks ∧ s'.stores.runLocks.get r = some owner) →
      ¬ (e.opens s = some (k, r) ∧ s.stores.LockedByOther r) →
      ((s'.executors r = [] → s'.stores.Free k r) ↔ ¬ (e.opens s = some (k, r) ∧ s.stores.LockedByOther r)) ∧
        (¬ (e.opens s = some (k, r) ∧ s.stores.LockedByOther r) → LockInv k r s') := fun hl hc => by
    refine ⟨iff_of_true (fun hrest => ?_) hc, fun _ => ⟨hservice, hl⟩⟩
    rcases hl with ⟨_, hloc, hreg⟩ | ⟨hbusy, _, _⟩
    · exact Stores.free_of_unlocked hloc hreg
    · rw [hrest] at hbusy
      cases hbusy
  cases System.step_locks (r := r) hs with
  | same ho hl hx =>
    refine hdone ?_ fun ⟨hop, hother⟩ => ?_
    · rw [hx, hl.1, hl.2 k]
      exact h.locks
    · rcases h.locks with ⟨_, hloc, _⟩ | ⟨_, _, hreg⟩
      · exact hloc (ho k hop)
      · exact Stores.not_lockedByOther hreg hother
  | began k' ho hk hfree hr hl hx =>
    obtain rfl := he.opens h.service ho
    rcases h.locks with ⟨hrest, _, _⟩ | ⟨_, hloc, _⟩
    · exact hdone (.inr ⟨by rw [hx, hrest]; rfl, (hl k').2 (.inl rfl), hr⟩) fun hc => hfree hc.2
    · exact absurd hloc hk
  | conflict k' ho hk hother hr hl hx =>
    obtain rfl := he.opens h.service ho
    rcases h.locks with ⟨hrest, _, _⟩ | ⟨_, hloc, _⟩
    · refine ⟨iff_of_false (fun hfree => (hfree (hx.trans hrest)).1 ((hl k').2 (.inl rfl)))
        (not_not.2 ⟨ho, hother⟩), fun hc => absurd ⟨ho, hother⟩ hc⟩
    · exact absurd hloc hk
  | ended k' before after ho hr hl hx hx' =>
    refine hdone ?_ fun hc => ho k hc.1
    rcases h.locks with ⟨hrest, _, _⟩ | ⟨hbusy, _, hreg⟩
    · rw [hrest] at hx
      simp at hx
    · rw [hbusy] at hx
      obtain ⟨rfl, hcons⟩ := List.append_eq_singleton_iff.1 hx.symm |>.resolve_right (by simp)
      obtain ⟨rfl, rfl⟩ := List.cons.inj hcons
      refine .inl ⟨hx', by simp [hl], ?_⟩
      simp [hr, hreg]
  | acquired o hev hfree hr hl hx =>
    have ho : o ≠ owner := by
      subst hev
      exact he rfl
    refine hdone ?_ fun hc => by subst hev; cases hc.1
    rcases h.locks with ⟨hrest, hloc, _⟩ | ⟨_, _, hreg⟩
    · refine .inl ⟨hx.trans hrest, by rw [hl]; exact hloc, ?_⟩
      rw [hr]
      exact fun hc => ho (Option.some.inj hc)
    · rcases hfree _ hreg with hempty | hsame
      · exact absurd hempty (by decide)
      · exact absurd hsame.symm ho
  | released o hev hr hl hx =>
    have ho : o ≠ owner := by
      subst hev
      exact he rfl
    refine hdone ?_ fun hc => by subst hev; cases hc.1
    rcases h.locks with ⟨hrest, hloc, hreg⟩ | ⟨hbusy, hloc, hreg⟩
    · refine .inl ⟨hx.trans hrest, by rw [hl]; exact hloc, ?_⟩
      rw [hr]
      split
      · simp
      · exact hreg
    · refine .inr ⟨hx.trans hbusy, by rw [hl]; exact hloc, ?_⟩
      rw [hr, if_neg fun hc => ho (Option.some.inj (hc.symm.trans hreg))]
      exact hreg

theorem LockInv.empty : LockInv k r .empty :=
  ⟨fun c hc => absurd hc List.not_mem_nil, .inl ⟨rfl, List.not_mem_nil, by simp [System.empty, Stores.empty]⟩⟩

end

/-- Along a run, both locks are given back whenever no call executes the run, exactly as long as no call of
`executeRun` finds the run held by somebody else. -/
theorem locks_released_iff {world : World} {k : Nat} {r : RunId} {events : List Event}
    (hok : ∀ e ∈ events, e.OneService k r) :
    EventSystem.Along (System.step world) (fun _ _ s => s.executors r = [] → s.stores.Free k r) .empty events ↔
      EventSystem.Along (System.step world)
        (fun s e _ => ¬ (e.opens s = some (k, r) ∧ s.stores.LockedByOther r)) .empty events :=
  EventSystem.along_iff (fun _ _ _ h he hs => h.step he hs) LockInv.empty hok

/-- Register a job and create its first run, as call number 0. -/
def sampleCreated (d : JobDefinition) : List Event :=
  [.register d.input "t", .createRun d.id "manual" [], .resume 0 (sampleReply d), .resume 0 (sampleReply d),
    .resume 0 (sampleReply d)]

/-- The chain of two tasks, executed to the end. -/
theorem locks_released_iff_sample :
    EventSystem.Along (System.step (sampleWorld fun _ _ => false))
      (fun _ _ s => s.executors "run_1" = [] → s.stores.Free 0 "run_1") .empty
      (sampleCreated sampleChain ++ sampleEvents sampleChain 15) :=
  (locks_released_iff (by decide)).2 (by decide +kernel)

/-- Somebody else holds the run while it is to be executed, and gives it back. -/
def sampleConflict : List Event :=
  sampleCreated sampleChain ++ [.acquire "run_1" "operator", .executeRun 0 "run_1", .release "run_1" "operator",
    .executeRun 0 "run_1"]

/-- The local lock is still there, and the last call has returned without executing anything. -/
theorem local_lock_left_behind : ∃ s,
    EventSystem.exec (System.step (sampleWorld fun _ _ => false)) .empty sampleConflict = some s ∧
      s.executors "run_1" = [] ∧ s.stores.runLocks.get "run_1" = none ∧ (0, "run_1") ∈ s.stores.localLocks ∧
      (s.stores.getByRunId "run_1").map (·.state) = some .pending := by
  have h : (EventSystem.exec (System.step (sampleWorld fun _ _ => false)) .empty sampleConflict).any
      (fun s => s.executors "run_1" = [] ∧ s.stores.runLocks.get "run_1" = none ∧
        (0, "run_1") ∈ s.stores.localLocks ∧
        (s.stores.getByRunId "run_1").map (·.state) = some .pending) = true := by decide +kernel
  obtain ⟨s, hs, hp⟩ := (Option.any_eq_true _ _).1 h
  exact ⟨s, hs, of_decide_eq_true hp⟩

/-! ## One service at a time -/

/-- At most one call executes run `r`, and the registry knows. -/
def System.ExecutedAlone (r : RunId) (s : System) : Prop :=
  (s.executors r).length ≤ 1 ∧ (s.executors r ≠ [] → s.stores.runLocks.has r = true)

instance (r : RunId) (s : System) : Decidable (s.ExecutedAlone r) := inferInstanceAs (Decidable (_ ∧ _))

/-- The event calls `executeRun` for run `r` on a service that does not execute it while another one does. -/
def Event.Overlaps (r : RunId) (s : System) (e : Event) : Prop :=
  match e.opens s with
  | some (k, r') => r' = r ∧ (k, r) ∉ s.stores.localLocks ∧ s.executors r ≠ []
  | none => False

instance (r : RunId) (s : System) (e : Event) : Decidable (e.Overlaps r s) :=
  match h : e.opens s with
  | some (k, r') => decidable_of_iff (r' = r ∧ s.stores.hasLocalLock k r = false ∧ s.executors r ≠ [])
      (by simp [Event.Overlaps, Stores.hasLocalLock, h])
  | none => isFalse (by simp [Event.Overlaps, h])

section
variable {world : World} {r : RunId} {s s' : System} {e : Event}

/-- The one service that executes run `r` has both locks. -/
def System.Held (r : RunId) (s : System) : Prop :=
  s.executors r = [] ∨
    ∃ k, s.executors r = [k] ∧ (k, r) ∈ s.stores.localLocks ∧ s.stores.runLocks.get r = some owner

theorem System.Held.executedAlone (h : s.Held r) : s.ExecutedAlone r := by
  rcases h with hrest | ⟨k, hbusy, _, hreg⟩
  · exact ⟨by simp [hrest], fun hne => absurd hrest hne⟩
  · exact ⟨by simp [hbusy], fun _ => by simp [InsertionMap.has, hreg]⟩

theorem System.Held.step (h : s.Held r) (he : e.ForeignLocks r) (hs : s.step world e = some s') :
    (s'.ExecutedAlone r ↔ ¬ e.Overlaps r s) ∧ (¬ e.Overlaps r s → s'.Held r) := by
  have hdone : s'.Held r → ¬ e.Overlaps r s →
      (s'.ExecutedAlone r ↔ ¬ e.Overlaps r s) ∧ (¬ e.Overlaps r s → s'.Held r) := fun hl hc =>
    ⟨iff_of_true hl.executedAlone hc, fun _ => hl⟩
  cases System.step_locks (r := r) hs with
  | same ho hl hx =>
    refine hdone ?_ ?_
    · unfold System.Held at h ⊢
      simpa only [hx, hl.1, hl.2] using h
    · unfold Event.Overlaps
      split
      · rename_i k r' hop
        rintro ⟨rfl, hk, _⟩
        exact hk (ho k hop)
      · exact id
  | began k ho hk hfree hr hl hx =>
    have hover : e.Overlaps r s ↔ s.executors r ≠ [] := by simp [Event.Overlaps, ho, hk]
    by_cases hrest : s.executors r = []
    · refine hdone (.inr ⟨k, by rw [hx, hrest]; rfl, (hl k).2 (.inl rfl), hr⟩) (by simp [hover, hrest])
    · refine ⟨iff_of_false (fun halone => ?_) (not_not.2 (hover.2 hrest)), fun hc => absurd (hover.2 hrest) hc⟩
      have hlen := halone.1
      rw [hx, List.length_append, List.length_singleton] at hlen
      exact hrest (List.length_eq_zero_iff.1 (by omega))
  | conflict k ho hk hother hr hl hx =>
    rcases h with hrest | ⟨k', _, _, hreg⟩
    · refine hdone (.inl (hx.trans hrest)) (by simp [Event.Overlaps, ho, hrest])
    · exact absurd hother (Stores.not_lockedByOther hreg)
  | ended k before after ho hr hl hx hx' =>
    have hover : ¬ e.Overlaps r s := by
      unfold Event.Overlaps
      split
      · rename_i k' r' hop
        rintro ⟨rfl, _, _⟩
        exact ho k' hop
      · exact id
    rcases h with hrest | ⟨k', hbusy, _, _⟩
    · rw [hrest] at hx
      simp at hx
    · rw [hbusy] at hx
      obtain ⟨rfl, hcons⟩ := List.append_eq_singleton_iff.1 hx.symm |>.resolve_right (by simp)
      obtain ⟨_, rfl⟩ := List.cons.inj hcons
      exact hdone (.inl hx') hover
  | acquired o hev hfree hr hl hx =>
    subst hev
    rcases h with hrest | ⟨k, _, _, hreg⟩
    · exact hdone (.inl (hx.trans hrest)) id
    · rcases hfree _ hreg with hempty | hsame
      · exact absurd hempty (by decide)
      · exact absurd hsame.symm (he rfl)
  | released o hev hr hl hx =>
    subst hev
    refine hdone ?_ id
    rcases h with hrest | ⟨k, hbusy, hloc, hreg⟩
    · exact .inl (hx.trans hrest)
    · refine .inr ⟨k, hx.trans hbusy, by rw [hl]; exact hloc, ?_⟩
      rw [hr, if_neg fun hc => he rfl (Option.some.inj (hc.symm.trans hreg))]
      exact hreg

end

/-- Along a run, whatever the services, at most one call at a time executes a run and the registry shows it as locked,
exactly as long as no service is called for a run that another one is executing. -/
theorem executed_alone_iff {world : World} {r : RunId} {events : List Event} (hok : ∀ e ∈ events, e.ForeignLocks r) :
    EventSystem.Along (System.step world) (fun _ _ s => s.ExecutedAlone r) .empty events ↔
      EventSystem.Along (System.step world) (fun s e _ => ¬ e.Overlaps r s) .empty events :=
  EventSystem.along_iff (I := System.Held r) (C := fun s e _ => ¬ e.Overlaps r s)
    (fun _ _ _ h he hs => h.step he hs) (.inl rfl) hok

/-- Service 1 is called while service 0 executes the run, which service 0 then executes to the end. -/
def sampleOverlap : List Event :=
  sampleCreated sampleChain ++ .executeRun 0 "run_1" :: .executeRun 1 "run_1" ::
    List.replicate 15 (.resume 1 (sampleReply sampleChain))

/-- Both execute the run for a while, and in the end service 1 executes it though the registry has it as free. -/
theorem executed_twice : (∃ s,
      EventSystem.exec (System.step (sampleWorld fun _ _ => false)) .empty (sampleOverlap.take 7) = some s ∧
        s.executors "run_1" = [0, 1]) ∧
    ∃ s, EventSystem.exec (System.step (sampleWorld fun _ _ => false)) .empty sampleOverlap = some s ∧
      s.executors "run_1" = [1] ∧ s.stores.runLocks.has "run_1" = false := by
  have h₁ : (EventSystem.exec (System.step (sampleWorld fun _ _ => false)) .empty (sampleOverlap.take 7)).any
      (fun s => s.executors "run_1" = [0, 1]) = true := by decide +kernel
  have h₂ : (EventSystem.exec (System.step (sampleWorld fun _ _ => false)) .empty sampleOverlap).any
      (fun s => s.executors "run_1" = [1] ∧ s.stores.runLocks.has "run_1" = false) = true := by decide +kernel
  obtain ⟨s₁, hs₁, hp₁⟩ := (Option.any_eq_true _ _).1 h₁
  obtain ⟨s₂, hs₂, hp₂⟩ := (Option.any_eq_true _ _).1 h₂
  exact ⟨⟨s₁, hs₁, of_decide_eq_true hp₁⟩, s₂, hs₂, of_decide_eq_true hp₂⟩

/-- Two services, one after the other. -/
theorem executed_alone_iff_sample :
    EventSystem.Along (System.step (sampleWorld fun _ _ => false)) (fun _ _ s => s.ExecutedAlone "run_1") .empty
      (sampleCreated sampleChain ++ sampleEvents sampleChain 15 ++ [.executeRun 1 "run_1"]) :=
  (executed_alone_iff (by decide)).2 (by decide +kernel)

end Jobflow
