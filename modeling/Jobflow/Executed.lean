import Jobflow.NewRun

/-!
# Runs that have been executed

Once a call of `executeRun` has been made for a run, directly or by `replay`, the run is either being
executed or has been: at rest it is no longer pending.
-/

namespace Jobflow

/-- Since the first `n` calls, `executeRun` has been called for run `r` on service `k`. -/
def System.ExecutedSince (n k : Nat) (r : RunId) (s : System) : Prop :=
  ∃ i pc, n ≤ i ∧ s.calls[i]? = some (.execute k r pc)

/-! ## Where calls of `executeRun` come from -/

section
variable {world : World} {k n : Nat} {r : RunId} {s s' : System}

theorem System.ExecutedSince.suspend {i : Nat} {st : Stores} {old new : Call}
    (h : (s.suspend i st new).ExecutedSince n k r) (hi : s.calls[i]? = some old)
    (hkind : ∀ pc, new = .execute k r pc → ∃ pc', old = .execute k r pc') : s.ExecutedSince n k r := by
  obtain ⟨j, pc, hj, hc⟩ := h
  simp only [System.suspend, List.getElem?_set] at hc
  by_cases hij : i = j
  · subst hij
    rw [if_pos rfl] at hc
    split at hc
    · obtain ⟨pc', rfl⟩ := hkind pc (Option.some.inj hc)
      exact ⟨i, pc', hj, hi⟩
    · cases hc
  · rw [if_neg hij] at hc
    exact ⟨j, pc, hj, hc⟩

theorem System.ExecutedSince.spawn {st : Stores} {new : Call} (h : (s.spawn st new).ExecutedSince n k r)
    (hkind : ∀ pc, new ≠ .execute k r pc) : s.ExecutedSince n k r := by
  obtain ⟨j, pc, hj, hc⟩ := h
  simp only [System.spawn, List.getElem?_append] at hc
  split at hc
  · exact ⟨j, pc, hj, hc⟩
  · have := List.mem_of_getElem? hc
    exact absurd (List.mem_singleton.1 this).symm (hkind pc)

/-- A call that was not there before is being executed. -/
theorem System.ExecutedSince.execute {d : JobDefinition} {I : Option ExecPc → RunRecord → Prop}
    {k' : Nat} {r' : RunId}
    (hs : (s.execute k' r').ExecutedSince n k r) (h : OnRun k r d I s) (hk : r' = r → k' = k) :
    s.ExecutedSince n k r ∨ (s.execute k' r').executing r ≠ [] := by
  by_cases hr : r' = r
  · subst hr
    obtain rfl := hk rfl
    refine .inr ?_
    have hp := h.phase
    rw [System.execute, executing_spawn]
    generalize s.executing r' = pcs at hp
    cases hp with
    | rest hu _ =>
      obtain ⟨st', hx, _, _⟩ := ExecutionService.executeRun_unlocked hu
      simp [hx, Call.executing, ExecPc.running]
    | busy hl _ => simp
  · refine .inl (hs.spawn fun pc he => hr ?_)
    cases he
    rfl

theorem System.ExecutedSince.step {d : JobDefinition} {I : Option ExecPc → RunRecord → Prop} {e : Event}
    (hx : s'.ExecutedSince n k r) (h : OnRun k r d I s) (he : e.Undisturbed k r d.id)
    (hs : s.step world e = some s') : s.ExecutedSince n k r ∨ s'.executing r ≠ [] := by
  cases System.step_cases hs with
  | registered | notRegistered | restored | notRestored | acquired | notAcquired | released => exact .inl hx
  | createCalled | useCalled | replayCalled => exact .inl (hx.spawn (by simp))
  | executeCalled => exact hx.execute h he
  | @executed _ _ _ _ pc _ hi =>
    refine .inl (hx.suspend hi fun pc' hpc => ⟨pc, ?_⟩)
    cases hpc
    rfl
  | created hi | used hi | replayed hi => exact .inl (hx.suspend hi (by simp))
  | replayExecutes hi =>
    obtain ⟨hk, hsus⟩ := h.suspendReading s.calls.length hi
    exact (hx.execute hsus hk).imp_left fun hx => hx.suspend hi (by simp)

/-- Calls stay in the list, and those of `executeRun` stay what they are. -/
theorem System.ExecutedSince.of_suspend {i : Nat} {st : Stores} {old new : Call} (h : s.ExecutedSince n k r)
    (hi : s.calls[i]? = some old) (hkind : ∀ pc, old = .execute k r pc → ∃ pc', new = .execute k r pc') :
    (s.suspend i st new).ExecutedSince n k r := by
  obtain ⟨j, pc, hj, hc⟩ := h
  by_cases hij : i = j
  · subst hij
    obtain ⟨pc', rfl⟩ := hkind pc (Option.some.inj (hi.symm.trans hc))
    exact ⟨i, pc', hj, List.getElem?_set_self (List.getElem?_eq_some_iff.1 hi).1⟩
  · exact ⟨j, pc, hj, (List.getElem?_set_ne hij).trans hc⟩

theorem System.ExecutedSince.of_spawn {st : Stores} (new : Call) (h : s.ExecutedSince n k r) :
    (s.spawn st new).ExecutedSince n k r := by
  obtain ⟨j, pc, hj, hc⟩ := h
  exact ⟨j, pc, hj, (List.getElem?_append_left (List.getElem?_eq_some_iff.1 hc).1).trans hc⟩

theorem System.ExecutedSince.of_step {e : Event} (h : s.ExecutedSince n k r) (hs : s.step world e = some s') :
    s'.ExecutedSince n k r := by
  cases System.step_cases hs with
  | registered | notRegistered | restored | notRestored | acquired | notAcquired | released => exact h
  | createCalled | executeCalled | useCalled | replayCalled => exact h.of_spawn _
  | @executed _ _ _ _ _ x hi =>
    refine h.of_suspend hi fun pc' hpc => ⟨x.2, ?_⟩
    cases hpc
    rfl
  | created hi | used hi | replayed hi => exact h.of_suspend hi (by simp)
  | replayExecutes hi => exact (h.of_suspend hi (by simp)).of_spawn _

theorem System.length_calls_le {e : Event} (hs : s.step world e = some s') : s.calls.length ≤ s'.calls.length := by
  cases System.step_cases hs with
  | registered | notRegistered | restored | notRestored | acquired | notAcquired | released => exact Nat.le_refl _
  | createCalled | executeCalled | useCalled | replayCalled => simp [System.execute, System.spawn]
  | executed | created | used | replayed => simp [System.suspend]
  | replayExecutes => simp [System.execute, System.spawn, System.suspend]

/-- A list of events with a call of `executeRun` in it executes the run. -/
theorem System.executedSince_of_mem {events : List Event} (he : .executeRun k r ∈ events)
    (hs : EventSystem.exec (System.step world) s events = some s') : s'.ExecutedSince s.calls.length k r := by
  obtain ⟨before, after, rfl⟩ := List.append_of_mem he
  obtain ⟨m, hm, hafter⟩ := EventSystem.exec_append.1 hs
  obtain ⟨m', hm', hafter⟩ := EventSystem.exec_cons.1 hafter
  have hle : s.calls.length ≤ m.calls.length := EventSystem.exec_invariant
    (I := fun x => s.calls.length ≤ x.calls.length)
    (fun _ _ _ hx (_ : True) hstep => hx.trans (System.length_calls_le hstep)) (Nat.le_refl _)
    (fun _ _ => trivial) hm
  refine EventSystem.exec_invariant (I := System.ExecutedSince s.calls.length k r)
    (fun _ _ _ hx (_ : True) hstep => hx.of_step hstep) ?_ (fun _ _ => trivial) hafter
  cases hm'
  exact ⟨m.calls.length, _, hle, List.getElem?_concat_length⟩

/-- A rule for runs that have been executed: `J` is `I` with more said about the run at rest, and holds once a
call of `executeRun` has been made. -/
theorem Closed.exec_executed {d : JobDefinition} {I J : Option ExecPc → RunRecord → Prop}
    (hI : Closed world k r d I) (hJ : Closed world k r d J) (hIJ : ∀ pc rec, I (some pc) rec → J (some pc) rec)
    {events : List Event} (h : OnRun k r d I s) (hok : ∀ e ∈ events, e.Undisturbed k r d.id)
    (hs : EventSystem.exec (System.step world) s events = some s') (hx : s'.ExecutedSince s.calls.length k r) :
    OnRun k r d J s' := by
  refine (EventSystem.exec_invariant
    (I := fun m => OnRun k r d I m ∧ (m.ExecutedSince s.calls.length k r → OnRun k r d J m))
    (fun m e m' hm he hstep => ⟨hm.1.step hI he hstep, fun hx' => ?_⟩) ⟨h, fun hx' => ?_⟩ hok hs).2 hx
  · rcases hx'.step hm.1 he hstep with hx' | hbusy
    · exact (hm.2 hx').step hJ he hstep
    · have hm' := hm.1.step hI he hstep
      refine ⟨hm'.coherent, hm'.definition, hm'.known, hm'.calm, ?_⟩
      have hp := hm'.phase
      generalize m'.executing r = pcs at hp hbusy
      cases hp with
      | rest _ _ => exact absurd rfl hbusy
      | busy hl hp => exact .busy hl (hIJ _ _ hp)
  · obtain ⟨i, pc, hi, hc⟩ := hx'
    rw [List.getElem?_eq_none hi] at hc
    cases hc

end

/-! ## An executed run is not pending -/

/-- `RunInv`, and at rest the run has been started. -/
def ExecutedInv (world : World) (d : JobDefinition) (w₀ : WorkflowInstance) (pc : Option ExecPc)
    (rec : RunRecord) :
    Prop :=
  RunInv world d w₀ pc rec ∧ (pc = none → ∀ w, rec.workflow = some w → w.state ≠ .pending)

section
variable {world : World} {k : Nat} {d : JobDefinition} {w₀ : WorkflowInstance} {s s' : System}

/-- The awaits before the run is looked at. -/
def ExecPc.reading : ExecPc → Bool
  | .runRead _ | .definitionRead _ _ | .workflowRead _ _ => true
  | _ => false

theorem RunInv.not_pending {pc : ExecPc} {rec : RunRecord} (h : RunInv world d w₀ (some pc) rec)
    (hpc : pc.reading = false) : ∀ w, rec.workflow = some w → w.state ≠ .pending := by
  intro w hw
  cases h with
  | runRead _ | definitionRead _ | workflowRead _ => cases hpc
  | started h _ hne =>
    rw [h.workflow] at hw
    cases hw
    exact hne
  | transition h hm =>
    rw [h.workflow] at hw
    cases hw
    cases hm with
    | start hs | complete hs | fail hs | deadLetter hs => simp [hs]
  | handler h hs | succeeded h hs | exhausted h hs | requeued h hs | deadLetterPushed h hs =>
    rw [h.workflow] at hw
    cases hw
    simp [hs]
  | retrying _ h hs =>
    rw [h.workflow] at hw
    cases hw
    simp [hs]

/-- The last segment leaves the record of the run as it was. -/
theorem Effect.record_closing {r : RunId} {held ws : List WorkflowInstance} {st st' : Stores}
    (he : Effect k r held st .closing st' ws) : st'.record r = st.record r := by
  cases he
  exact record_settle k (.ok ())

theorem executedInv_closed (hq : world.Quiet) (ha : Accepted d) (hi : Instantiates d w₀) :
    Closed world k w₀.runId d (ExecutedInv world d w₀) where
  begin := fun rec h => ⟨(runInv_closed (k := k) hq ha hi).begin rec h.1, by simp⟩
  resume := fun st now pc x hc hjobs ho h hx => by
    refine ⟨(runInv_closed hq ha hi).resume st now pc x hc hjobs ho h.1 hx, fun hnone => ?_⟩
    have he := ExecutionService.resume_effect hx
    -- only a closing segment ends the call, and it leaves the record as it was
    have hsame : x.1.record w₀.runId = st.record w₀.runId := by
      rcases ExecPc.running_segment x.2 with ⟨hs, _⟩ | ⟨_, hs⟩
      · rw [hnone] at hs
        cases hs
      · rw [ExecEffect, hs] at he
        exact he.record_closing
    rw [hsame]
    refine h.1.not_pending ?_
    -- a call that is still reading goes on reading
    by_contra hreading
    obtain ⟨hinv, _⟩ := h
    cases hinv with
    | runRead h =>
      obtain ⟨w, hst, _⟩ := h
      obtain ⟨run, hrun, _, _⟩ := hst.run
      rw [hrun] at hx
      obtain rfl := Option.some.inj hx
      cases hnone
    | definitionRead h =>
      obtain rfl := Option.some.inj hx
      cases hnone
    | workflowRead h =>
      obtain ⟨w, hst, hset⟩ := h
      rw [hst.workflow] at hx
      simp only [ExecutionService.resume] at hx
      split at hx
      · rename_i hp
        obtain rfl := Option.some.inj hx
        rw [transition_accepted (TransitionGuard.evaluate_other (by decide) (by decide) (by decide))
          (by rw [hp]; decide)] at hnone
        cases hnone
      · obtain rfl := Option.some.inj hx
        cases hnone
    | retrying hpc =>
      rcases hpc with rfl | rfl <;> exact hreading rfl
    | _ => exact hreading rfl

/-- What holds of a new run once it has been executed. -/
theorem NewRun.executed (hq : world.Quiet) (h : NewRun world k d w₀ s) {events : List Event}
    (hok : ∀ e ∈ events, e.Undisturbed k w₀.runId d.id)
    (hs : EventSystem.exec (System.step world) s events = some s')
    (hx : s'.ExecutedSince s.calls.length k w₀.runId) : OnRun k w₀.runId d (ExecutedInv world d w₀) s' :=
  Closed.exec_executed (runInv_closed hq h.accepted h.instantiates)
    (executedInv_closed hq h.accepted h.instantiates)
    (fun _ _ hinv => ⟨hinv, by simp⟩) h.onRun hok hs hx

end

/-- The first run of a small job, executed until it has come to rest. -/
theorem sample_at_rest (fails : String → Nat → Bool) (d : JobDefinition) (n : Nat) {p : System → Bool}
    (h : (sampleAfter fails d n).any (fun s => (s.executing "run_1").isEmpty && p s) = true) :
    ∃ s', sampleAfter fails d n = some s' ∧ s'.executing "run_1" = [] ∧ s'.ExecutedSince 1 0 "run_1" ∧
    p s' = true := by
  obtain ⟨s', hs, hp⟩ := (Option.any_eq_true _ _).1 h
  rw [Bool.and_eq_true, List.isEmpty_iff] at hp
  exact ⟨s', hs, hp.1, System.executedSince_of_mem List.mem_cons_self hs, hp.2⟩

end Jobflow
