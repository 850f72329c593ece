import Jobflow.BatchedRuns
import Jobflow.OneRun

/-!
# A run among other runs

`System.only` is a system that holds one run and nothing of the others: what the stores hold about it, and the calls
that concern it. Whatever else goes on, it makes a run of its own (`run_isolated`): its events are the events about
that run and the registrations, with the calls counted anew.
-/

namespace Jobflow

open EventSystem

/-! ## What concerns a run -/

/-- The call is about run `r`; `createRun` is from when it has drawn the id. -/
def Call.concerns (r : RunId) : Call → Bool
  | .execute _ r' _ | .use r' _ _ | .replay _ r' _ => r' = r
  | .create _ _ _ (.workflowSaved run) | .create _ _ _ (.runSaved run) | .create _ _ _ (.settled (.ok run)) =>
    run.id = r
  | .create _ _ _ (.definitionRead _) | .create _ _ _ (.settled (.error _)) => false

theorem Call.concerns_execute (r : RunId) (k : Nat) (pc : ExecPc) : (Call.execute k r pc).concerns r = true :=
  decide_eq_true rfl

theorem Call.concerns_use (r : RunId) (use : Use) (pc : UsePc) : (Call.use r use pc).concerns r = true :=
  decide_eq_true rfl

theorem Call.concerns_replay (r : RunId) (k : Nat) (pc : ReplayPc) : (Call.replay k r pc).concerns r = true :=
  decide_eq_true rfl

/-- A replay awaits a call by its number. -/
def Call.renumber (f : Nat → Nat) : Call → Call
  | .replay k r (.executing before call) => .replay k r (.executing before (f call))
  | call => call

/-- The number that call `i` has among the calls about run `r`. -/
def System.rank (s : System) (r : RunId) (i : Nat) : Nat := (s.calls.take i).countP (Call.concerns r)

/-- The system without what concerns other runs. -/
def System.only (r : RunId) (s : System) : System where
  stores := s.stores.only r
  calls := (s.calls.filter (Call.concerns r)).map (Call.renumber (s.rank r))

/-- The event is about run `r`, or about the definitions, which all runs share. -/
def Event.concerns (s : System) (r : RunId) : Event → Bool
  | .register _ _ => true
  | .createRun _ _ _ => false
  | .executeRun _ r' | .use r' _ | .replay _ r' | .restoreToCheckpoint r' _ _ | .acquire r' _ | .release r' _ => r' = r
  | .resume i _ => s.calls[i]?.any (Call.concerns r)

def Event.renumber (f : Nat → Nat) : Event → Event
  | .resume i reply => .resume (f i) reply
  | e => e

/-- What run `r` sees of an event. -/
def System.observes (r : RunId) (s : System) (e : Event) : Option Event :=
  if e.concerns s r then some (e.renumber (s.rank r)) else none

/-! ## The calls of the run -/

/-- A replay awaits a call that has been made, or the next one to be made. -/
def System.Numbered (s : System) : Prop := ∀ c ∈ s.calls, ∀ k r before j, c = .replay k r (.executing before j) →
  j ≤ s.calls.length

/-- A replay that awaits a call awaits one of its own run. -/
def System.Linked (s : System) : Prop := ∀ c ∈ s.calls, ∀ k r before j, c = .replay k r (.executing before j) →
  ∃ k' pc, s.calls[j]? = some (.execute k' r pc)

section
variable {r : RunId} {s : System} {i : Nat} {st : Stores} {old call : Call}

theorem Call.renumber_congr {f g : Nat → Nat} {c : Call}
    (h : ∀ k r before j, c = .replay k r (.executing before j) → f j = g j) : c.renumber f = c.renumber g := by
  cases c with
  | replay k r pc =>
    cases pc with
    | executing before j =>
      simp only [Call.renumber]
      rw [h k r before j rfl]
    | _ => rfl
  | _ => rfl

theorem System.only_getElem? (hi : s.calls[i]? = some call) (hcall : call.concerns r = true) :
    (s.only r).calls[s.rank r i]? = some (call.renumber (s.rank r)) := by
  rw [System.only, List.getElem?_map, System.rank, List.getElem?_filter_countP hi hcall]
  rfl

theorem System.rank_suspend (hi : s.calls[i]? = some old) (h : call.concerns r = old.concerns r) :
    (s.suspend i st call).rank r = s.rank r := funext (List.countP_take_set hi h)

/-- A call of the run moves. -/
theorem System.only_suspend (hi : s.calls[i]? = some old) (hold : old.concerns r = true)
    (hcall : call.concerns r = true) :
    (s.suspend i st call).only r = (s.only r).suspend (s.rank r i) (st.only r) (call.renumber (s.rank r)) := by
  have hcalls : ((s.calls.set i call).filter (Call.concerns r)).map (Call.renumber (s.rank r)) =
      ((s.calls.filter (Call.concerns r)).map (Call.renumber (s.rank r))).set (s.rank r i)
        (call.renumber (s.rank r)) := by
    rw [List.filter_set_pos hi hold hcall, List.map_set]
    rfl
  unfold System.only
  rw [System.rank_suspend hi (hcall.trans hold.symm)]
  exact congrArg (System.mk _) hcalls

/-- A call of no concern to the run moves. -/
theorem System.only_suspend_ne (hi : s.calls[i]? = some old) (hold : old.concerns r = false)
    (hcall : call.concerns r = false) (hst : st.only r = s.stores.only r) :
    (s.suspend i st call).only r = s.only r := by
  unfold System.only
  rw [System.rank_suspend hi (hcall.trans hold.symm)]
  unfold System.suspend
  rw [List.filter_set_neg hi hold hcall, hst]

theorem System.Linked.numbered (hl : s.Linked) : s.Numbered := by
  intro c hc k r before j h
  obtain ⟨_, _, hj⟩ := hl c hc k r before j h
  exact (List.getElem?_eq_some_iff.1 hj).1.le

theorem System.Numbered.map_spawn (hn : s.Numbered) (r : RunId) (st : Stores) (call : Call) :
    (s.calls.filter (Call.concerns r)).map (Call.renumber ((s.spawn st call).rank r)) = (s.only r).calls := by
  refine List.map_congr_left fun c hc => Call.renumber_congr fun k r' before j h => ?_
  exact List.countP_take_append (hn c (List.mem_of_mem_filter hc) k r' before j h) [call]

/-- A new call of the run, which awaits no other. -/
theorem System.Numbered.only_spawn (hn : s.Numbered) (hcall : call.concerns r = true)
    (hpc : ∀ f, call.renumber f = call) : (s.spawn st call).only r = (s.only r).spawn (st.only r) call := by
  have hcalls := hn.map_spawn r st call
  unfold System.only
  refine congrArg (System.mk _) ?_
  show ((s.calls ++ [call]).filter _).map _ = _
  rw [List.filter_append, List.map_append, hcalls, List.filter_cons_of_pos hcall]
  simp [hpc]
  rfl

theorem System.Numbered.only_spawn_ne (hn : s.Numbered) (hcall : call.concerns r = false)
    (hst : st.only r = s.stores.only r) : (s.spawn st call).only r = s.only r := by
  have hcalls := hn.map_spawn r st call
  unfold System.only
  rw [show (s.spawn st call).stores = st from rfl, hst]
  refine congrArg (System.mk _) ?_
  show ((s.calls ++ [call]).filter _).map _ = _
  rw [List.filter_append, List.map_append, hcalls, List.filter_cons_of_neg (by simp [hcall])]
  simp [System.only]

/-- The calls about the run, as many as there are numbers for them. -/
theorem System.length_only : (s.only r).calls.length = s.rank r s.calls.length := by
  rw [System.only, List.length_map, System.rank, List.take_length, List.countP_eq_length_filter]

end

/-! ## Linked calls -/

section
variable {world : World} {s s' : System} {e : Event}

/-- The calls of `executeRun` stay what they are. -/
def System.KeepsExecutes (s s' : System) : Prop := ∀ (j : Nat) (r : RunId),
  (∃ k pc, s.calls[j]? = some (.execute k r pc)) → ∃ k pc, s'.calls[j]? = some (.execute k r pc)

theorem System.keepsExecutes_suspend {i : Nat} {st : Stores} {old call : Call} (hi : s.calls[i]? = some old)
    (hexec : ∀ k r pc, old = .execute k r pc → ∃ k' pc', call = .execute k' r pc') :
    s.KeepsExecutes (s.suspend i st call) := by
  rintro j r ⟨k, pc, hj⟩
  by_cases hij : i = j
  · subst hij
    obtain ⟨k', pc', hnew⟩ := hexec k r pc (Option.some.inj (hi.symm.trans hj))
    exact ⟨k', pc', (List.getElem?_set_self (List.getElem?_eq_some_iff.1 hi).1).trans (congrArg some hnew)⟩
  · exact ⟨k, pc, (List.getElem?_set_ne hij).trans hj⟩

theorem System.keepsExecutes_spawn (st : Stores) (call : Call) : s.KeepsExecutes (s.spawn st call) := by
  rintro j r ⟨k, pc, hj⟩
  exact ⟨k, pc, (List.getElem?_append_left (List.getElem?_eq_some_iff.1 hj).1).trans hj⟩

/-- A call moves that does not come to await another. -/
theorem System.Linked.suspend (hl : s.Linked) {i : Nat} {st : Stores} {old call : Call} (hi : s.calls[i]? = some old)
    (hexec : ∀ k r pc, old = .execute k r pc → ∃ k' pc', call = .execute k' r pc')
    (hcall : ∀ k r before j, call ≠ .replay k r (.executing before j)) : (s.suspend i st call).Linked := by
  intro c hc k r before j h
  rcases List.mem_or_eq_of_mem_set hc with hc | rfl
  · exact System.keepsExecutes_suspend hi hexec j r (hl c hc k r before j h)
  · exact absurd h (hcall k r before j)

theorem System.Linked.spawn (hl : s.Linked) {st : Stores} {call : Call}
    (hcall : ∀ k r before j, call ≠ .replay k r (.executing before j)) : (s.spawn st call).Linked := by
  intro c hc k r before j h
  rcases List.mem_append.1 hc with hc | hc
  · exact System.keepsExecutes_spawn st call j r (hl c hc k r before j h)
  · exact absurd ((List.mem_singleton.1 hc).symm.trans h) (hcall k r before j)

/-- A replay calls `executeRun`, and awaits the call. -/
theorem System.Linked.replayExecutes (hl : s.Linked) {i k : Nat} {r : RunId} {before : WorkflowInstance}
    (hi : s.calls[i]? = some (.replay k r (.read (some before)))) :
    ((s.suspend i s.stores (.replay k r (.executing before s.calls.length))).execute k r).Linked := by
  obtain ⟨t, ht⟩ : ∃ t, t = s.suspend i s.stores (.replay k r (.executing before s.calls.length)) := ⟨_, rfl⟩
  have hkeeps : s.KeepsExecutes t := ht ▸ System.keepsExecutes_suspend hi (by simp)
  have hlength : t.calls.length = s.calls.length := by
    rw [ht]
    exact List.length_set
  obtain ⟨st, pc, hexecute⟩ : ∃ st pc, t.execute k r = t.spawn st (.execute k r pc) := ⟨_, _, rfl⟩
  rw [← ht, hexecute]
  intro c hc k' r' before' j h
  rcases List.mem_append.1 hc with hc | hc
  · rw [ht] at hc
    rcases List.mem_or_eq_of_mem_set hc with hc | rfl
    · exact System.keepsExecutes_spawn st _ j r' (hkeeps j r' (hl c hc k' r' before' j h))
    · simp only [Call.replay.injEq, ReplayPc.executing.injEq] at h
      obtain ⟨_, rfl, _, rfl⟩ := h
      exact ⟨k, pc, (List.getElem?_append_right hlength.le).trans (by rw [hlength, Nat.sub_self]; rfl)⟩
  · rw [List.mem_singleton.1 hc] at h
    simp at h

/-- A replay that does not call `executeRun` does not come to await a call. -/
theorem System.resumeReplay_cases {i k : Nat} {r : RunId} {pc : ReplayPc} (h : s.resumeReplay i k r pc = some s') :
    (∃ before, pc = .read (some before) ∧
      s' = (s.suspend i s.stores (.replay k r (.executing before s.calls.length))).execute k r) ∨
    ∃ pc', s' = s.suspend i s.stores (.replay k r pc') ∧ ∀ before j, pc' ≠ .executing before j := by
  cases pc with
  | read found =>
    cases found with
    | none =>
      obtain rfl := Option.some.inj h
      exact .inr ⟨_, rfl, by simp⟩
    | some before =>
      obtain rfl := Option.some.inj h
      exact .inl ⟨before, rfl, rfl⟩
  | executing before call =>
    simp only [System.resumeReplay] at h
    split at h
    · obtain rfl := Option.some.inj h
      exact .inr ⟨_, rfl, by simp⟩
    · obtain rfl := Option.some.inj h
      exact .inr ⟨_, rfl, by simp⟩
    · cases h
  | readAgain before found =>
    cases found <;> obtain rfl := Option.some.inj h <;> exact .inr ⟨_, rfl, by simp⟩
  | settled result => cases h

theorem System.Linked.step (hl : s.Linked) (h : s.step world e = some s') : s'.Linked := by
  cases System.step_cases h with
  | registered | notRegistered | restored | notRestored | acquired | notAcquired | released => exact hl
  | createCalled | executeCalled | useCalled | replayCalled => exact hl.spawn (by simp)
  | executed hi hx => exact hl.suspend hi (by simp) (by simp)
  | created hi hx | used hi hx => exact hl.suspend hi (by simp) (by simp)
  | @replayed i reply k r pc _ hi =>
    simp only [System.step, System.resume, hi] at h
    rcases System.resumeReplay_cases h with ⟨before, rfl, hs'⟩ | ⟨pc', hs', hpc'⟩
    · rw [hs']
      exact hl.replayExecutes hi
    · rw [hs']
      exact hl.suspend hi (by simp) fun _ _ before j heq => hpc' before j (Call.replay.inj heq).2.2
  | replayExecutes hi => exact hl.replayExecutes hi

end

/-! ## Events about the run -/

/-- What holds of a system that knows run `r`. -/
structure System.Knows (s : System) (r : RunId) : Prop where
  coherent : s.Coherent
  linked : s.Linked
  workflow : (s.stores.workflowOfRun.get r).isSome = true

section
variable {world : World} {r : RunId} {s s' : System} {e : Event}

theorem System.only_execute (hn : s.Numbered) (k : Nat) : (s.execute k r).only r = (s.only r).execute k r := by
  have honly := ExecutionService.executeRun_only k r s.stores
  unfold System.execute
  dsimp only
  rw [hn.only_spawn (Call.concerns_execute r k _) fun _ => rfl, show (s.only r).stores = s.stores.only r from rfl,
    honly]
  rfl

theorem System.numbered_suspendReading (hl : s.Linked) {i k : Nat} {before : WorkflowInstance} :
    (s.suspend i s.stores (.replay k r (.executing before s.calls.length))).Numbered := by
  have hlength : (s.suspend i s.stores (.replay k r (.executing before s.calls.length))).calls.length =
      s.calls.length := List.length_set
  intro c hc k' r' before' j h
  rw [hlength]
  rcases List.mem_or_eq_of_mem_set hc with hc | rfl
  · exact hl.numbered c hc k' r' before' j h
  · simp only [Call.replay.injEq, ReplayPc.executing.injEq] at h
    exact h.2.2.2.symm.le

/-- A segment of a replay of the run. -/
theorem System.only_resumeReplay (hl : s.Linked) {i k : Nat} {pc : ReplayPc}
    (hi : s.calls[i]? = some (.replay k r pc)) {pc' : ReplayPc}
    (hpc : Call.renumber (s.rank r) (.replay k r pc) = .replay k r pc') :
    (s.only r).resumeReplay (s.rank r i) k r pc' = (s.resumeReplay i k r pc).map (System.only r) := by
  have hconcerns := Call.concerns_replay r k
  have hsuspend {pc' : ReplayPc} (hpc' : ∀ before j, pc' ≠ .executing before j) :
      (s.only r).suspend (s.rank r i) (s.only r).stores (.replay k r pc') =
        (s.suspend i s.stores (.replay k r pc')).only r := by
    rw [System.only_suspend hi (hconcerns pc) (hconcerns pc')]
    cases pc' with
    | executing before j => exact absurd rfl (hpc' before j)
    | _ => rfl
  cases pc with
  | read found =>
    obtain rfl := (Call.replay.inj hpc).2.2
    cases found with
    | none => exact congrArg some (hsuspend (by simp))
    | some before =>
      refine congrArg some ?_
      rw [System.only_execute (System.numbered_suspendReading hl), System.only_suspend hi (hconcerns _) (hconcerns _)]
      simp only [Call.renumber, System.length_only]
      rfl
  | executing before call =>
    obtain rfl := (Call.replay.inj hpc).2.2
    obtain ⟨k', pc, hcall⟩ := hl _ (List.mem_of_getElem? hi) k r before call rfl
    have hget := System.only_getElem? hcall (Call.concerns_execute r k' pc)
    simp only [System.resumeReplay, hcall, hget, Call.renumber]
    cases pc with
    | settled result =>
      cases result with
      | error e => exact congrArg some (hsuspend (by simp))
      | ok _ =>
        refine congrArg some ?_
        rw [show (s.only r).stores.getByRunId r = s.stores.getByRunId r from Stores.only_getByRunId r s.stores]
        exact hsuspend (by simp)
    | _ => rfl
  | readAgain before found =>
    obtain rfl := (Call.replay.inj hpc).2.2
    cases found with
    | none => exact congrArg some (hsuspend (by simp))
    | some after => exact congrArg some (hsuspend (by simp))
  | settled result =>
    obtain rfl := (Call.replay.inj hpc).2.2
    rfl

/-- A segment of a call of `createRun` that has drawn the id of the run. -/
theorem WorkflowService.resume_only {jobId : JobId} {trigger : String} {input : Js.Record} {st : Stores} {reply : Reply}
    {pc : CreatePc} (hpc : (Call.create jobId trigger input pc).concerns r = true) :
    WorkflowService.resume jobId trigger input (st.only r) reply pc =
      (WorkflowService.resume jobId trigger input st reply pc).map (onlyIn r) := by
  cases pc with
  | definitionRead found => cases hpc
  | workflowSaved run =>
    have hrun : run.id = r := of_decide_eq_true hpc
    exact congrArg some (Prod.ext (Stores.only_saveRun hrun).symm rfl)
  | runSaved run => rfl
  | settled result => rfl

/-- It still concerns the run afterwards. -/
theorem WorkflowService.resume_concerns {jobId : JobId} {trigger : String} {input : Js.Record} {st : Stores}
    {reply : Reply} {pc : CreatePc} {x : Stores × CreatePc}
    (h : WorkflowService.resume jobId trigger input st reply pc = some x)
    (hpc : (Call.create jobId trigger input pc).concerns r = true) :
    (Call.create jobId trigger input x.2).concerns r = true := by
  cases pc with
  | definitionRead found => cases hpc
  | workflowSaved run =>
    obtain rfl := Option.some.inj h
    exact hpc
  | runSaved run =>
    obtain rfl := Option.some.inj h
    exact hpc
  | settled result => cases h

/-- A call about the run moves in the same way without the others. -/
theorem System.only_resume (hs : s.Knows r) {i : Nat} {reply : Reply} {call : Call} (hi : s.calls[i]? = some call)
    (hcall : call.concerns r = true) (h : s.resume world i reply = some s') :
    (s.only r).resume world (s.rank r i) reply = some (s'.only r) := by
  have hget := System.only_getElem? hi hcall
  have hown := hs.coherent.calls _ (List.mem_of_getElem? hi)
  have hstores : (s.only r).stores = s.stores.only r := rfl
  unfold System.resume at h ⊢
  rw [hi] at h
  rw [hget]
  cases call with
  | execute k r' pc =>
    obtain rfl : r' = r := of_decide_eq_true hcall
    obtain ⟨x, hx, rfl⟩ := Option.map_eq_some_iff.1 h
    have hheld : ∀ w ∈ pc.instances, s.stores.Owns r' w := hown
    have honly : ExecutionService.resume world k r' (s.stores.only r') reply.now pc = some (onlyIn r' x) := by
      rw [ExecutionService.resume_only hs.coherent.stores hheld, hx]
      rfl
    simp only [Call.renumber, hstores, honly, Option.map_some]
    rw [System.only_suspend hi hcall (Call.concerns_execute r' k x.2)]
    rfl
  | create jobId trigger input pc =>
    obtain ⟨x, hx, rfl⟩ := Option.map_eq_some_iff.1 h
    simp only [Call.renumber, hstores, WorkflowService.resume_only hcall, hx, Option.map_some]
    rw [System.only_suspend hi hcall (WorkflowService.resume_concerns hx hcall)]
    rfl
  | use r' use pc =>
    obtain rfl : r' = r := of_decide_eq_true hcall
    obtain ⟨x, hx, rfl⟩ := Option.map_eq_some_iff.1 h
    have hheld : ∀ w ∈ pc.instances, s.stores.Owns r' w := hown
    have honly : use.resume world r' (s.stores.only r') reply.now pc = some (onlyIn r' x) := by
      rw [Use.resume_only hs.coherent.stores hheld, hx]
      rfl
    simp only [Call.renumber, hstores, honly, Option.map_some]
    rw [System.only_suspend hi hcall (Call.concerns_use r' use x.2)]
    rfl
  | replay k r' pc =>
    obtain rfl : r' = r := of_decide_eq_true hcall
    obtain ⟨pc', hpc'⟩ : ∃ pc', Call.renumber (s.rank r') (.replay k r' pc) = .replay k r' pc' := by
      cases pc <;> exact ⟨_, rfl⟩
    rw [hpc']
    exact (System.only_resumeReplay hs.linked hi hpc').trans (congrArg (Option.map _) h)

theorem System.step_only (hs : s.Knows r) (he : e.concerns s r = true) (h : s.step world e = some s') :
    (s.only r).step world (e.renumber (s.rank r)) = some (s'.only r) := by
  have hn := hs.linked.numbered
  have hstores : (s.only r).stores = s.stores.only r := rfl
  cases e with
  | register input now =>
    simp only [System.step] at h ⊢
    simp only [Event.renumber]
    cases hreg : JobService.register world.handlers input now with
    | error e =>
      simp only [hreg] at h ⊢
      rw [← Option.some.inj h]
    | ok definition =>
      simp only [hreg] at h ⊢
      rw [← Option.some.inj h]
      rfl
  | createRun jobId trigger input => cases he
  | executeRun k r' =>
    obtain rfl : r' = r := of_decide_eq_true he
    rw [← Option.some.inj h, System.only_execute hn]
    rfl
  | use r' use =>
    obtain rfl : r' = r := of_decide_eq_true he
    rw [← Option.some.inj h, hn.only_spawn (Call.concerns_use r' use _) fun _ => rfl,
      ← Stores.only_getByRunId]
    rfl
  | replay k r' =>
    obtain rfl : r' = r := of_decide_eq_true he
    rw [← Option.some.inj h, hn.only_spawn (Call.concerns_replay r' k _) fun _ => rfl,
      ← Stores.only_getByRunId]
    rfl
  | restoreToCheckpoint r' version now =>
    obtain rfl : r' = r := of_decide_eq_true he
    rw [← Option.some.inj h]
    have honly := @restoreToCheckpoint_only r' s.stores now hs.coherent.stores version
    simp only [Event.renumber, System.step, hstores, honly]
    rfl
  | acquire r' owner =>
    obtain rfl : r' = r := of_decide_eq_true he
    simp only [System.step] at h
    simp only [Event.renumber, System.step, hstores, Stores.only_acquire]
    cases hac : s.stores.acquire r' owner with
    | error e =>
      simp only [hac] at h
      rw [← Option.some.inj h]
      rfl
    | ok st =>
      simp only [hac] at h
      rw [← Option.some.inj h]
      rfl
  | release r' owner =>
    obtain rfl : r' = r := of_decide_eq_true he
    rw [← Option.some.inj h]
    simp only [Event.renumber, System.step, hstores, ← Stores.only_release]
    rfl
  | resume i reply =>
    obtain ⟨call, hi, hcall⟩ := (Option.any_eq_true _ _).1 he
    exact System.only_resume hs hi hcall h

/-! ## Events about other runs -/

theorem System.only_of_stores {st : Stores} (h : st.only r = s.stores.only r) :
    System.only r { s with stores := st } = s.only r := by
  unfold System.only
  exact congrArg (System.mk · _) h

theorem executeRun_only_ne (hs : s.Coherent) {k : Nat} {r' : RunId} (hne : r' ≠ r) :
    (ExecutionService.executeRun k r' s.stores).1.only r = s.stores.only r :=
  (ExecutionService.executeRun_effect k r' s.stores).only hs.stores (by simp) hne
    (heardOf_congr (ExecutionService.executeRun_heard k r' s.stores))

/-- A new run has an id and a workflow of its own. -/
theorem only_createStep (hs : s.Knows r) {jobId : JobId} {trigger : String} {input : Js.Record} {reply : Reply}
    {st : Stores} {pc pc' : CreatePc} (hpc : (Call.create jobId trigger input pc).concerns r = false)
    (h : CreateStep jobId trigger input s.stores reply pc st pc') :
    (Call.create jobId trigger input pc').concerns r = false ∧ st.only r = s.stores.only r := by
  obtain ⟨id, hid⟩ := Option.isSome_iff_exists.1 hs.workflow
  cases h with
  | missing => exact ⟨rfl, rfl⟩
  | @workflowSaved definition hfresh =>
    have hrun : newRunId reply.uuids.run ≠ r := by
      rintro rfl
      rw [hfresh.1] at hid
      cases hid
    refine ⟨decide_eq_false hrun, Stores.only_saveWorkflow_ne hrun fun hsame => ?_⟩
    obtain ⟨_, w, hw, _⟩ := hs.coherent.stores.stored r _ hsame
    rw [show (WorkflowService.newWorkflow definition jobId input reply.uuids reply.now).id =
      newWorkflowId reply.uuids.workflow from rfl, hfresh.2.1] at hw
    cases hw
  | @runSaved run => exact ⟨hpc, Stores.only_saveRun_ne (of_decide_eq_false hpc)⟩
  | returned => exact ⟨hpc, rfl⟩

theorem System.step_only_ne (hs : s.Knows r) (he : e.concerns s r = false) (h : s.step world e = some s') :
    s'.only r = s.only r := by
  have hn := hs.linked.numbered
  have hresumed {i : Nat} {reply : Reply} {call : Call} (hi : s.calls[i]? = some call)
      (he : (Event.resume i reply).concerns s r = false) : call.concerns r = false := by
    rw [Event.concerns, hi] at he
    exact he
  cases System.step_cases h with
  | registered | notRegistered => cases he
  | notRestored | notAcquired => rfl
  | createCalled => exact hn.only_spawn_ne rfl rfl
  | @executeCalled k r' =>
    have hne : r' ≠ r := of_decide_eq_false he
    exact hn.only_spawn_ne (decide_eq_false hne) (executeRun_only_ne hs.coherent hne)
  | useCalled | replayCalled => exact hn.only_spawn_ne (decide_eq_false (of_decide_eq_false he)) rfl
  | @restored r' version now snap hsnap =>
    have hne : r' ≠ r := of_decide_eq_false he
    exact System.only_of_stores ((hs.coherent.stores.restored_owns hsnap now).only_save hs.coherent.stores hne)
  | @acquired r' owner => exact System.only_of_stores (only_acquire_ne (of_decide_eq_false he))
  | @released r' owner =>
    rw [← Option.some.inj h]
    exact System.only_of_stores (only_release_ne (of_decide_eq_false he))
  | @executed i reply k r' pc x hi hx =>
    have hne : r' ≠ r := of_decide_eq_false (hresumed hi he)
    have hheld : ∀ w ∈ pc.instances, s.stores.Owns r' w := hs.coherent.calls _ (List.mem_of_getElem? hi)
    refine System.only_suspend_ne hi (decide_eq_false hne) (decide_eq_false hne) ?_
    exact (ExecutionService.resume_effect hx).only hs.coherent.stores hheld hne
      (ExecutionService.resume_heardOf (fun w hw => (hheld w hw).1 ▸ hne) hx)
  | created hi hx =>
    obtain ⟨hconcerns, honly⟩ := only_createStep hs (hresumed hi he) hx
    exact System.only_suspend_ne hi (hresumed hi he) hconcerns honly
  | @used i reply r' use pc x hi hx =>
    have hne : r' ≠ r := of_decide_eq_false (hresumed hi he)
    have hheld : ∀ w ∈ pc.instances, s.stores.Owns r' w := hs.coherent.calls _ (List.mem_of_getElem? hi)
    refine System.only_suspend_ne hi (decide_eq_false hne) (decide_eq_false hne) ?_
    exact (Use.resume_effect (k := 0) hx).only hs.coherent.stores hheld hne
      (Use.resume_heardOf (fun w hw => (hheld w hw).1 ▸ hne) hx)
  | @replayed i reply k r' _ _ hi =>
    have hne : r' ≠ r := of_decide_eq_false (hresumed hi he)
    exact System.only_suspend_ne hi (hresumed hi he) (decide_eq_false hne) rfl
  | @replayExecutes i reply k r' before hi =>
    have hne : r' ≠ r := of_decide_eq_false (hresumed hi he)
    have hconcerns (pc : ExecPc) : (Call.execute k r' pc).concerns r = false := decide_eq_false hne
    have hreplay (pc : ReplayPc) : (Call.replay k r' pc).concerns r = false := decide_eq_false hne
    have hsuspended := System.only_suspend_ne hi (hreplay _) (hreplay (.executing before s.calls.length))
      (rfl : s.stores.only r = s.stores.only r)
    refine ((System.numbered_suspendReading hs.linked).only_spawn_ne (hconcerns _) ?_).trans hsuspended
    exact executeRun_only_ne hs.coherent hne

theorem System.Knows.step (hs : s.Knows r) (h : s.step world e = some s') : s'.Knows r := by
  refine ⟨hs.coherent.step h, hs.linked.step h, ?_⟩
  obtain ⟨id, hid⟩ := Option.isSome_iff_exists.1 hs.workflow
  rw [System.step_extends hs.coherent h r id hid]
  rfl

/-- Each step is a step of the run, or does nothing to it. -/
theorem System.step_follows (hs : s.Knows r) (h : s.step world e = some s') :
    Follows (System.step world) (s.only r) (s.observes r e) (s'.only r) := by
  unfold System.observes
  split_ifs with he
  · exact System.step_only hs he h
  · exact System.step_only_ne hs (Bool.eq_false_iff.2 he) h

end

theorem System.linked_empty : System.empty.Linked := fun _ h => absurd h List.not_mem_nil

theorem System.Reachable.linked {world : World} {s : System} (h : System.Reachable world s) : s.Linked :=
  EventSystem.Reachable.invariant System.linked_empty (fun _ _ _ hl => hl.step) h

/-- What is seen of a run is all that the stores hold about it. -/
theorem Stores.record_only (r : RunId) (st : Stores) : (st.only r).record r = st.record r := by
  simp only [Stores.record, Stores.only_getByRunId, Stores.only_runs]
  simp [Stores.only]

/-- **A run is isolated**: from any reachable state in which its workflow is known, and through any events of all runs,
what concerns the run goes as it does in a system that holds nothing else, where only the events about it take place. -/
theorem run_isolated {world : World} {s s' : System} {r : RunId} {es : List Event} (hs : System.Reachable world s)
    (hr : (s.stores.workflowOfRun.get r).isSome = true) (h : exec (System.step world) s es = some s') :
    exec (System.step world) (s.only r) (trace (System.step world) (System.observes r) s es) = some (s'.only r) ∧
      (s.only r).stores.record r = s.stores.record r ∧ (s'.only r).stores.record r = s'.stores.record r :=
  ⟨exec_project (fun _ _ _ hk hstep => ⟨System.Knows.step hk hstep, System.step_follows hk hstep⟩)
      (⟨hs.coherent, hs.linked, hr⟩ : s.Knows r) h,
    Stores.record_only r s.stores, Stores.record_only r s'.stores⟩

/-- **Runs do not interfere**: two systems that hold the same about a run, and in which the same happens to it, hold
the same about it in the end. -/
theorem runs_noninterfering {world : World} {s s' t t' : System} {r : RunId} {es fs : List Event}
    (hs : System.Reachable world s) (ht : System.Reachable world t)
    (hr : (s.stores.workflowOfRun.get r).isSome = true) (hsame : s.only r = t.only r)
    (hevents : trace (System.step world) (System.observes r) s es = trace (System.step world) (System.observes r) t fs)
    (hes : exec (System.step world) s es = some s') (hfs : exec (System.step world) t fs = some t') :
    s'.only r = t'.only r := by
  have hr' : (t.stores.workflowOfRun.get r).isSome = true := by
    rw [← Stores.only_workflowOfRun, show t.stores.only r = s.stores.only r from congrArg System.stores hsame.symm,
      Stores.only_workflowOfRun]
    exact hr
  have hleft := (run_isolated hs hr hes).1
  have hright := (run_isolated ht hr' hfs).1
  rw [hsame, hevents, hright] at hleft
  exact (Option.some.inj hleft).symm

/-- A second run is made and executed while the first one is. -/
def interleavedEvents : List Event :=
  let second : Reply := ⟨"t", ⟨"2", "2", ["b"]⟩⟩
  [.createRun "job" "t" [], .resume 1 second, .executeRun 0 "run_1", .resume 1 second, .resume 2 second,
    .resume 1 second, .executeRun 0 "run_2"] ++ (List.replicate 12 [.resume 2 second, .resume 3 second]).flatten

/-- Of these 31 events 14 are about the first run, which is completed by them. -/
theorem run_isolated_sample : ∃ s' : System,
    (trace (System.step (sampleWorld fun _ _ => false)) (System.observes "run_1")
      (firstRun sampleOne [] (sampleReply sampleOne)) interleavedEvents).length = 14 ∧
    (s'.stores.record "run_1").run.map (·.status) = some .completed ∧
    exec (System.step (sampleWorld fun _ _ => false)) ((firstRun sampleOne [] (sampleReply sampleOne)).only "run_1")
      (trace (System.step (sampleWorld fun _ _ => false)) (System.observes "run_1")
        (firstRun sampleOne [] (sampleReply sampleOne)) interleavedEvents) = some (s'.only "run_1") := by
  have hnew := sample_newRun (fun _ _ => false) (d := sampleOne) (by decide +kernel)
  have hsome : (exec (System.step (sampleWorld fun _ _ => false)) (firstRun sampleOne [] (sampleReply sampleOne))
      interleavedEvents).isSome = true := by decide +kernel
  obtain ⟨s', hs'⟩ := Option.isSome_iff_exists.1 hsome
  refine ⟨s', by decide +kernel, ?_, (run_isolated hnew.reachable (by decide +kernel) hs').1⟩
  have hstatus : (exec (System.step (sampleWorld fun _ _ => false)) (firstRun sampleOne [] (sampleReply sampleOne))
      interleavedEvents).map (fun s => (s.stores.record "run_1").run.map (·.status)) = some (some .completed) := by
    decide +kernel
  rw [hs'] at hstatus
  exact Option.some.inj hstatus

end Jobflow
