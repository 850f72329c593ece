import Jobflow.BatchCalls
import Jobflow.Reregistration

/-!
# The runs that batches create (src/batch/coordinator.ts, src/services)

A run that only one batch has to do with is unheard of until `createRun` saves its workflow, then has no `JobRun` yet,
then is at rest until the batch executes it, and from then on belongs to that one call of `executeRun`
(`System.Stage`). The call rejects exactly when it leaves the run in `running` (`RunInv.resume_settled`).
-/

namespace Jobflow

open Js (Record)

/-! ## What a call of `executeRun` comes to -/

section
variable {world : World} {k : Nat} {r : RunId} {d : JobDefinition} {w₀ w : WorkflowInstance} {s : Stores}
  {now : ISODateString} {result : Except JobflowError Unit}

namespace ExecutionService

theorem transition_not_settled {purpose : Purpose} {event : String} {target : WorkflowState} {actor : String} :
    (transition s purpose d w event target actor now).2 ≠ .settled result := by
  unfold transition
  split <;> simp

theorem afterLoop_settled (h : (afterLoop k r s d w now).2 = .settled result) : result = .ok () := by
  unfold afterLoop at h
  split at h
  · exact absurd h transition_not_settled
  · cases h
    rfl

/-- The loop itself only ends the call by throwing. -/
theorem loop_settled (hs : w.state = .running) (h : (loop k r s d w now).2 = .settled result) :
    result.isOk = false := by
  unfold loop at h
  rw [if_neg (not_not.2 hs)] at h
  split at h
  · split at h
    · split at h
      · cases h
        rfl
      · exact absurd h transition_not_settled
    · exact absurd h transition_not_settled
  · split at h
    · cases h
    · cases h

theorem afterTask_settled {answer : ExecuteResult} (hs : w.state = .running)
    (h : (afterTask k r s d w answer now).2 = .settled result) : result.isOk = false := by
  unfold afterTask at h
  split at h
  · exact absurd h transition_not_settled
  · exact loop_settled hs h

end ExecutionService

/-- A settled call has thrown exactly when the run has been left in `running`. -/
def ExecPc.Tells (pc : ExecPc) (rec : RunRecord) : Prop :=
  ∀ result, pc = .settled result →
    (result.isOk = true ↔ ∀ w, rec.workflow = some w → w.state ≠ .running)

theorem Stored.tells {rec : RunRecord} {status : WorkflowState} {flight : Option String}
    (h : Stored d rec w status flight) (hresult : result.isOk = true ↔ w.state ≠ .running) :
    result.isOk = true ↔ ∀ w, rec.workflow = some w → w.state ≠ .running := by
  rw [hresult, h.workflow]
  simp

/-- The last segment of a call throws exactly when the run stays in `running`. -/
theorem RunInv.resume_settled {pc : ExecPc} (h : RunInv world d w₀ (some pc) (s.record w₀.runId))
    {x : Stores × ExecPc} (hx : ExecutionService.resume world k w₀.runId s now pc = some x) :
    x.2.Tells (s.record w₀.runId) := by
  intro result hsettled
  -- the call ends in the loop, with the run in `running`, or behind it
  have hrunning : ∀ {w status flight}, Stored d (s.record w₀.runId) w status flight → w.state = .running →
      result.isOk = false →
      (result.isOk = true ↔ ∀ w, (s.record w₀.runId).workflow = some w → w.state ≠ .running) := fun hst hs hr =>
    hst.tells (by simp [hs, hr])
  have hended : ∀ {w status flight}, Stored d (s.record w₀.runId) w status flight → w.state ≠ .running →
      result = .ok () →
      (result.isOk = true ↔ ∀ w, (s.record w₀.runId).workflow = some w → w.state ≠ .running) := fun hst hs hr =>
    hst.tells (by simp [hs, hr, Except.isOk, Except.toBool])
  cases h with
  | runRead h =>
    obtain ⟨w, hst, -⟩ := h
    obtain ⟨run, hrun, -⟩ := hst.run
    rw [hrun] at hx
    obtain rfl := Option.some.inj hx
    cases hsettled
  | definitionRead h =>
    obtain rfl := Option.some.inj hx
    cases hsettled
  | workflowRead h =>
    obtain ⟨w, hst, -⟩ := h
    rw [hst.workflow] at hx
    simp only [ExecutionService.resume] at hx
    split at hx
    · obtain rfl := Option.some.inj hx
      exact absurd hsettled ExecutionService.transition_not_settled
    · obtain rfl := Option.some.inj hx
      cases hsettled
  | @started _ w hst =>
    obtain rfl := Option.some.inj hx
    by_cases hs : w.state = .running
    · exact hrunning hst hs (ExecutionService.loop_settled hs hsettled)
    · rw [ExecutionService.loop, if_pos hs] at hsettled
      exact hended hst hs (ExecutionService.afterLoop_settled hsettled)
  | @transition _ t purpose before hst hm =>
    simp only [ExecutionService.resume] at hx
    split at hx
    · obtain rfl := Option.some.inj hx
      cases hsettled
    · obtain rfl := Option.some.inj hx
      cases hsettled
    · rename_i hreturned
      obtain ⟨rfl, rfl⟩ := TransitionCall.resume_returned hreturned
      obtain rfl := Option.some.inj hx
      cases hm with
      | start hs => exact hrunning hst hs (ExecutionService.loop_settled hs hsettled)
      | complete hs | fail hs => exact hended hst (by simp [hs]) (ExecutionService.afterLoop_settled hsettled)
      | deadLetter => cases hsettled
  | handler =>
    obtain rfl := Option.some.inj hx
    cases hsettled
  | @succeeded _ w answer hst hs _ hr hret | @exhausted _ w answer _ _ hst hs _ hr hret =>
    simp only [ExecutionService.resume, hret, Option.isSome_none, Bool.false_eq_true, if_false] at hx
    obtain rfl := Option.some.inj hx
    exact hrunning hst hs (ExecutionService.afterTask_settled hs hsettled)
  | retrying hpc hst hs _ _ _ _ hret =>
    rcases hpc with rfl | rfl
    · simp only [ExecutionService.resume, hret, if_true] at hx
      obtain rfl := Option.some.inj hx
      cases hsettled
    · obtain rfl := Option.some.inj hx
      cases hsettled
  | requeued hst hs =>
    obtain rfl := Option.some.inj hx
    exact hrunning hst hs (ExecutionService.afterTask_settled hs hsettled)
  | deadLetterPushed hst hs =>
    obtain rfl := Option.some.inj hx
    cases hsettled
    exact hended hst (by simp [hs]) rfl

end

/-! ## Every call of `createRun` makes a run of its own -/

/-- The run that the call has made so far. -/
def CreatePc.made : CreatePc → Option JobRun
  | .workflowSaved run | .runSaved run | .settled (.ok run) => some run
  | .definitionRead _ | .settled (.error _) => none

def System.Makes (s : System) (n : Nat) (run : JobRun) : Prop :=
  ∃ jobId trigger input pc, s.calls[n]? = some (.create jobId trigger input pc) ∧ pc.made = some run

/-- No two calls of `createRun` make the same run, and every run that has been made has a workflow. -/
structure System.MadeOnce (s : System) : Prop where
  known : ∀ {n run}, s.Makes n run → ∃ id, s.stores.workflowOfRun.get run.id = some id
  once : ∀ {n n' run run'}, s.Makes n run → s.Makes n' run' → run.id = run'.id → n = n'

section
variable {world : World} {k n : Nat} {r : RunId} {s s' : System} {e : Event} {run : JobRun}

/-- Runs that are known stay known. -/
theorem System.step_extends (hc : s.Coherent) (h : s.step world e = some s') : s'.stores.Extends s.stores := by
  cases System.step_cases h with
  | restored hsnap => exact .of_eq (hc.stores.restored_owns hsnap _).workflowOfRun_save
  | executeCalled | replayExecutes =>
    obtain ⟨-, hw, -⟩ := (ExecutionService.executeRun_effect _ _ s.stores).coherent hc.stores (by simp)
    exact .of_eq hw
  | executed hi hx =>
    have hpc := hc.calls _ (List.mem_of_getElem? hi)
    obtain ⟨-, hw, -⟩ := (ExecutionService.resume_effect hx).coherent hc.stores hpc
    exact .of_eq hw
  | created _ hx => exact (hx.coherent hc.stores).2
  | used hi hx =>
    have hpc := hc.calls _ (List.mem_of_getElem? hi)
    obtain ⟨-, hw, -⟩ := (Use.resume_effect (k := 0) hx).coherent hc.stores hpc
    exact .of_eq hw
  | _ => exact .refl _

/-- A call that has been replaced. -/
theorem System.calls_suspend {i : Nat} {st : Stores} {old new c : Call} (hi : s.calls[i]? = some old)
    (hc : (s.suspend i st new).calls[n]? = some c) : n = i ∧ c = new ∨ n ≠ i ∧ s.calls[n]? = some c := by
  by_cases hni : i = n
  · subst hni
    rw [System.suspend, List.getElem?_set_self (List.getElem?_eq_some_iff.1 hi).1] at hc
    exact .inl ⟨rfl, (Option.some.inj hc).symm⟩
  · exact .inr ⟨Ne.symm hni, (List.getElem?_set_ne hni).symm.trans hc⟩

/-- A call that has been added. -/
theorem System.calls_of_spawn {st : Stores} {new c : Call} (hc : (s.spawn st new).calls[n]? = some c) :
    s.calls[n]? = some c ∨ n = s.calls.length ∧ c = new := by
  simp only [System.spawn, List.getElem?_append] at hc
  split at hc
  · exact .inl hc
  · rename_i hge
    have hlt := (List.getElem?_eq_some_iff.1 hc).1
    rw [List.length_singleton] at hlt
    exact .inr ⟨by omega, List.mem_singleton.1 (List.mem_of_getElem? hc)⟩

/-- Where a call of `createRun` comes from. -/
theorem System.create_of_step {jobId : JobId} {trigger : String} {input : Record} {pc : CreatePc}
    (hcall : s'.calls[n]? = some (.create jobId trigger input pc)) (hs : s.step world e = some s') :
    s.calls[n]? = some (.create jobId trigger input pc) ∨
      (∃ reply pc₀, e = .resume n reply ∧ s.calls[n]? = some (.create jobId trigger input pc₀) ∧
        CreateStep jobId trigger input s.stores reply pc₀ s'.stores pc) ∨
      pc = .definitionRead (s.stores.jobs.get jobId) ∧ s'.stores = s.stores := by
  have hspawn : ∀ {st : Stores} {new : Call}, (∀ pc', new ≠ .create jobId trigger input pc') →
      (s.spawn st new).calls[n]? = some (.create jobId trigger input pc) →
      s.calls[n]? = some (.create jobId trigger input pc) := by
    intro st new hnew hcall
    rcases System.calls_of_spawn hcall with hold | ⟨-, heq⟩
    · exact hold
    · exact absurd heq.symm (hnew pc)
  have hsuspend : ∀ {i : Nat} {st : Stores} {old new : Call}, s.calls[i]? = some old →
      (∀ pc', new ≠ .create jobId trigger input pc') →
      (s.suspend i st new).calls[n]? = some (.create jobId trigger input pc) →
      s.calls[n]? = some (.create jobId trigger input pc) := by
    intro i st old new hi hnew hcall
    rcases System.calls_suspend hi hcall with ⟨-, heq⟩ | ⟨-, hold⟩
    · exact absurd heq.symm (hnew pc)
    · exact hold
  cases System.step_cases hs with
  | registered | notRegistered | restored | notRestored | acquired | notAcquired | released => exact .inl hcall
  | createCalled =>
    rcases System.calls_of_spawn hcall with hold | ⟨-, heq⟩
    · exact .inl hold
    · cases heq
      exact .inr (.inr ⟨rfl, rfl⟩)
  | executeCalled | useCalled | replayCalled => exact .inl (hspawn (by simp) hcall)
  | executed hi | used hi | replayed hi => exact .inl (hsuspend hi (by simp) hcall)
  | replayExecutes hi =>
    rcases System.calls_of_spawn hcall with hcall | ⟨-, heq⟩
    · exact .inl (hsuspend hi (by simp) hcall)
    · cases heq
  | @created i reply _ _ _ pc₀ _ st hi hx =>
    rcases System.calls_suspend hi hcall with ⟨rfl, heq⟩ | ⟨-, hold⟩
    · cases heq
      exact .inr (.inl ⟨reply, pc₀, rfl, hi, hx⟩)
    · exact .inl hold

/-- A run that a step makes is new. -/
theorem System.Makes.of_step (h : s'.Makes n run) (hs : s.step world e = some s') : s.Makes n run ∨
    s.stores.workflowOfRun.get run.id = none ∧ (∃ id, s'.stores.workflowOfRun.get run.id = some id) ∧
      ∃ reply, e = .resume n reply := by
  obtain ⟨jobId, trigger, input, pc, hcall, hmade⟩ := h
  rcases System.create_of_step hcall hs with hold | ⟨reply, pc₀, rfl, hi, hx⟩ | ⟨rfl, -⟩
  · exact .inl ⟨jobId, trigger, input, pc, hold, hmade⟩
  · generalize hst : s'.stores = st at hx
    cases hx with
    | missing => cases hmade
    | workflowSaved hfresh =>
      cases hmade
      exact .inr ⟨hfresh.1, ⟨_, InsertionMap.get_set_self _ _ _⟩, reply, rfl⟩
    | runSaved | returned => exact .inl ⟨jobId, trigger, input, _, hi, hmade⟩
  · cases hmade

/-- A call that has made a run does not make another. -/
theorem CreateStep.made {jobId : JobId} {trigger : String} {input : Record} {st st' : Stores} {reply : Reply}
    {pc pc' : CreatePc} (h : CreateStep jobId trigger input st reply pc st' pc') (hmade : pc.made = some run) :
    pc'.made = some run := by
  cases h with
  | missing | workflowSaved => cases hmade
  | runSaved | returned => exact hmade

theorem System.Makes.step (h : s.Makes n run) (hs : s.step world e = some s') : s'.Makes n run := by
  obtain ⟨jobId, trigger, input, pc, hcall, hmade⟩ := h
  obtain ⟨pc', hcall', rfl | ⟨reply, st, -, hx⟩⟩ := System.step_create hcall hs
  · exact ⟨jobId, trigger, input, pc', hcall', hmade⟩
  · exact ⟨jobId, trigger, input, pc', hcall', hx.made hmade⟩

theorem System.Makes.exec {es : List Event} (h : s.Makes n run)
    (hs : EventSystem.exec (System.step world) s es = some s') : s'.Makes n run :=
  EventSystem.exec_invariant (I := fun (m : System) => m.Makes n run)
    (fun _ _ _ hm (_ : True) hstep => System.Makes.step hm hstep) h (fun _ _ => trivial) hs

theorem System.MadeOnce.step (h : s.MadeOnce) (hc : s.Coherent) (hs : s.step world e = some s') : s'.MadeOnce := by
  refine ⟨fun hm => ?_, fun {n n' run run'} hm hm' hid => ?_⟩
  · rcases hm.of_step hs with hold | ⟨-, hnew, -⟩
    · obtain ⟨id, hid⟩ := h.known hold
      exact ⟨id, System.step_extends hc hs _ _ hid⟩
    · exact hnew
  · rcases hm.of_step hs with hold | ⟨hnone, -, reply, rfl⟩ <;>
      rcases hm'.of_step hs with hold' | ⟨hnone', -, reply', he'⟩
    · exact h.once hold hold' hid
    · obtain ⟨id, hknown⟩ := h.known hold
      rw [hid, hnone'] at hknown
      cases hknown
    · obtain ⟨id, hknown⟩ := h.known hold'
      rw [← hid, hnone] at hknown
      cases hknown
    · cases he'
      rfl

theorem System.Reachable.madeOnce (h : System.Reachable world s) : s.MadeOnce := by
  have hempty : ∀ {n run}, ¬ System.empty.Makes n run := by
    rintro n run ⟨_, _, _, _, hcall, -⟩
    cases hcall
  exact (EventSystem.Reachable.invariant (I := fun (x : System) => x.Coherent ∧ x.MadeOnce)
    ⟨System.empty_coherent, fun hm => absurd hm hempty, fun hm => absurd hm hempty⟩
    (fun x e x' hx hstep => ⟨hx.1.step hstep, hx.2.step hx.1 hstep⟩) h).2

end

/-! ## The calls of `executeRun` for one run -/

/-- Of the calls from number `N` on, at most number `c` executes run `r` on service `k`. -/
def System.ExecutedBy (N k : Nat) (r : RunId) (c : Option Nat) (s : System) : Prop :=
  ∀ n pc, N ≤ n → s.calls[n]? = some (.execute k r pc) → c = some n

section
variable {world : World} {N k n : Nat} {r : RunId} {c : Option Nat} {s s' : System} {e : Event} {pc : ExecPc}

theorem System.execute_of_step (h : s'.calls[n]? = some (.execute k r pc)) (hs : s.step world e = some s') :
    (∃ pc', s.calls[n]? = some (.execute k r pc')) ∨ e.opens s = some (k, r) := by
  have hspawn : ∀ {st : Stores} {new : Call}, (∀ pc', new ≠ .execute k r pc') →
      (s.spawn st new).calls[n]? = some (.execute k r pc) → ∃ pc', s.calls[n]? = some (.execute k r pc') := by
    intro st new hnew hcall
    rcases System.calls_of_spawn hcall with hold | ⟨-, heq⟩
    · exact ⟨pc, hold⟩
    · exact absurd heq.symm (hnew pc)
  have hsuspend : ∀ {i : Nat} {st : Stores} {old new : Call}, s.calls[i]? = some old →
      (∀ pc', new = .execute k r pc' → ∃ pc'', old = .execute k r pc'') →
      (s.suspend i st new).calls[n]? = some (.execute k r pc) → ∃ pc', s.calls[n]? = some (.execute k r pc') := by
    intro i st old new hi hkind hcall
    rcases System.calls_suspend hi hcall with ⟨rfl, heq⟩ | ⟨-, hold⟩
    · obtain ⟨pc', rfl⟩ := hkind pc heq.symm
      exact ⟨pc', hi⟩
    · exact ⟨pc, hold⟩
  cases System.step_cases hs with
  | registered | notRegistered | restored | notRestored | acquired | notAcquired | released => exact .inl ⟨pc, h⟩
  | createCalled | useCalled | replayCalled => exact .inl (hspawn (by simp) h)
  | @executeCalled k' r' =>
    by_cases hsame : k' = k ∧ r' = r
    · obtain ⟨rfl, rfl⟩ := hsame
      exact .inr rfl
    · refine .inl (hspawn (fun pc' heq => hsame ?_) h)
      cases heq
      exact ⟨rfl, rfl⟩
  | @executed i reply k' r' pc₀ x hi hx =>
    refine .inl (hsuspend hi (fun pc' heq => ⟨pc₀, ?_⟩) h)
    cases heq
    rfl
  | created hi | used hi | replayed hi => exact .inl (hsuspend hi (by simp) h)
  | @replayExecutes i reply k' r' before hi =>
    by_cases hsame : k' = k ∧ r' = r
    · obtain ⟨rfl, rfl⟩ := hsame
      exact .inr (by simp only [Event.opens, hi])
    · rcases System.calls_of_spawn h with hold | ⟨-, heq⟩
      · exact .inl (hsuspend hi (by simp) hold)
      · refine absurd ?_ hsame
        cases heq
        exact ⟨rfl, rfl⟩

theorem System.ExecutedBy.step (h : s.ExecutedBy N k r c) (ho : e.opens s ≠ some (k, r))
    (hs : s.step world e = some s') : s'.ExecutedBy N k r c := by
  intro n pc hn hcall
  rcases System.execute_of_step hcall hs with ⟨pc', hold⟩ | hopens
  · exact h n pc' hn hold
  · exact absurd hopens ho

theorem System.ExecutedBy.execute (h : s.ExecutedBy N k r none) :
    (s.execute k r).ExecutedBy N k r (some s.calls.length) := by
  intro n pc hn hcall
  rcases System.calls_of_spawn hcall with hold | ⟨rfl, -⟩
  · cases h n pc hn hold
  · rfl

end

/-! ## A run that nobody executes -/

/-- No call executes run `r` or uses it; `rec` is what is stored of it, and `creating` are the `JobRun`s that are about
to be saved. -/
structure System.Dormant (r : RunId) (rec : RunRecord) (creating : List JobRun) (s : System) : Prop where
  view : s.view r = ⟨rec, [], [], creating, []⟩
  runLocks : s.stores.runLocks.get r = none
  localLocks : ∀ k, (k, r) ∉ s.stores.localLocks

section
variable {world : World} {r : RunId} {rec : RunRecord} {creating : List JobRun} {s s' : System} {e : Event}

theorem System.Dormant.not_opens (h : s.Dormant r rec creating) (he : e.Aside r) (k : Nat) :
    e.opens s ≠ some (k, r) := by
  intro ho
  rw [Event.opens_eq (congrArg RunView.replaying h.view) ho] at he
  exact he rfl

theorem System.Dormant.known (h : s.Dormant r rec creating) (hc : s.Coherent) {w : WorkflowInstance}
    (hw : rec.workflow = some w) : ∃ id, s.stores.workflowOfRun.get r = some id := by
  have hstored : s.stores.getByRunId r = some w := (congrArg (fun v => v.record.workflow) h.view).trans hw
  exact ⟨_, (hc.stores.getByRunId_owns hstored).2⟩

theorem singleton_eq_append_cons {α : Type} {x y : α} {before after : List α} (h : [x] = before ++ y :: after) :
    before = [] ∧ x = y ∧ after = [] := by
  cases before with
  | nil =>
    obtain ⟨rfl, rfl⟩ := List.cons.inj h
    exact ⟨rfl, rfl, rfl⟩
  | cons z zs =>
    have hlength := congrArg List.length h
    simp at hlength

/-- Only `createRun` goes on with a run that is left alone. -/
theorem System.Dormant.step (h : s.Dormant r rec creating) (hc : s.Coherent) (he : e.Aside r)
    (hs : s.step world e = some s') :
    s'.Dormant r rec creating ∨
      (∃ reply d jobId trigger input before after, newRunId reply.uuids.run = r ∧
        (∃ i, e = .resume i reply ∧ s.calls[i]? = some (.create jobId trigger input (.definitionRead (some d)))) ∧
        reply.uuids.Fresh s.stores d ∧ creating = before ++ after ∧
        s'.Dormant r
          { rec with workflow := some (WorkflowService.newWorkflow d jobId input reply.uuids reply.now) }
          (before ++ WorkflowService.newRun jobId trigger input reply.uuids reply.now :: after)) ∨
      ∃ run before after, creating = before ++ run :: after ∧
        s'.Dormant r { rec with run := some run } (before ++ after) := by
  have hexecuting : s.executing r = [] := congrArg RunView.executing h.view
  have huses : (s.view r).uses = [] := congrArg RunView.uses h.view
  have hcreating : (s.view r).creating = creating := congrArg RunView.creating h.view
  have hreplaying : (s.view r).replaying = [] := congrArg RunView.replaying h.view
  have hrecord : s.stores.record r = rec := congrArg RunView.record h.view
  have hopens := h.not_opens he
  have hlocks : Stores.SameLocks r s.stores s'.stores := by
    have hexecutors : s.executors r = [] := executors_eq_nil hexecuting
    cases System.step_locks (r := r) hs with
    | same _ hl _ => exact hl
    | began k ho | conflict k ho => exact absurd ho (hopens k)
    | ended k before after _ _ _ hx =>
      rw [hexecutors] at hx
      simp at hx
    | acquired o hev | released o hev => exact absurd rfl (hev ▸ he)
  have hmake : ∀ {rec' : RunRecord} {creating' : List JobRun}, s'.view r = ⟨rec', [], [], creating', []⟩ →
      s'.Dormant r rec' creating' := fun hv =>
    ⟨hv, hlocks.1.trans h.runLocks, fun k hk => h.localLocks k ((hlocks.2 k).1 hk)⟩
  cases System.step_run (r := r) hc hs with
  | same _ _ hv => exact .inl (hmake (hv.trans h.view))
  | opened k _ _ ho => exact absurd ho (hopens k)
  | executed k i pc now x before after _ _ _ hpcs =>
    rw [hexecuting] at hpcs
    simp at hpcs
  | called use he' => exact absurd rfl (he' ▸ he)
  | used i reply use pc x before after _ _ _ _ huses' =>
    rw [huses] at huses'
    simp at huses'
  | created i reply d jobId trigger input before after he' hi hid hfresh hcreating' hv =>
    rw [h.view, hrecord] at hv
    exact .inr (.inl ⟨reply, d, jobId, trigger, input, before, after, hid, ⟨i, he', hi⟩, hfresh,
      hcreating.symm.trans hcreating', hmake hv⟩)
  | runSaved i reply jobId trigger input run before after _ _ hcreating' hv =>
    rw [h.view, hrecord] at hv
    exact .inr (.inr ⟨run, before, after, hcreating.symm.trans hcreating', hmake hv⟩)
  | restored version now snap he' => exact absurd rfl (he' ▸ he)
  | replayed replays he' =>
    rcases he' with ⟨k, rfl⟩ | hne
    · exact absurd rfl he
    · exact absurd hreplaying hne

/-- A call that does not disturb the run, whatever service executes it. -/
theorem Call.silent_of_calm {c : Call} (hd : ∀ k, ¬ c.Disturbs k r) :
    c.uses r = none ∧ c.creating r = none ∧ c.replaying r = none := by
  cases c with
  | execute k' r' pc => exact ⟨rfl, rfl, rfl⟩
  | create jobId trigger input pc =>
    cases pc with
    | workflowSaved run => exact ⟨rfl, if_neg (hd 0), rfl⟩
    | _ => exact ⟨rfl, rfl, rfl⟩
  | use r' wanted pc =>
    cases pc with
    | settled result => exact ⟨by simp [Call.uses, UsePc.running], rfl, rfl⟩
    | _ => exact ⟨if_neg (hd 0), rfl, rfl⟩
  | replay k' r' pc =>
    have hother : ∀ {pc' : ReplayPc}, (∀ result, pc' ≠ .settled result) → pc = pc' → r' ≠ r := by
      rintro pc' hpc rfl rfl
      refine hd (k' + 1) ?_
      cases pc with
      | settled result => exact absurd rfl (hpc result)
      | _ => exact ⟨rfl, (Nat.succ_ne_self k').symm⟩
    cases pc with
    | settled result => exact ⟨rfl, rfl, by simp [Call.replaying, ReplayPc.running]⟩
    | _ => exact ⟨rfl, rfl, if_neg (hother (by simp) rfl)⟩

theorem Unheard.dormant (h : Unheard s r) : s.Dormant r ⟨none, s.stores.runs.get r, [], []⟩ [] := by
  have hrecord : s.stores.record r = ⟨none, s.stores.runs.get r, [], []⟩ := by
    have hdead : s.stores.deadLetters.filter (fun e => e.runId = r) = [] :=
      List.filter_eq_nil_iff.2 fun e he hx => h.deadLetters e he (of_decide_eq_true hx)
    have hlog : s.stores.invocations.filter (fun i => i.runId = r) = [] :=
      List.filter_eq_nil_iff.2 fun i hi hx => h.invocations i hi (of_decide_eq_true hx)
    rw [Stores.record, hdead, hlog, Stores.getByRunId, h.workflow]
    rfl
  have hsilent := fun c hc => Call.silent_of_calm (h.calls c hc).2
  refine ⟨?_, h.runLocks, fun k hk => h.localLocks _ hk rfl⟩
  ext1
  · exact hrecord
  · exact List.filterMap_eq_nil_iff.2 fun c hc => (h.calls c hc).1
  · exact List.filterMap_eq_nil_iff.2 fun c hc => (hsilent c hc).1
  · exact List.filterMap_eq_nil_iff.2 fun c hc => (hsilent c hc).2.1
  · exact List.filterMap_eq_nil_iff.2 fun c hc => (hsilent c hc).2.2

end

/-! ## A run that one call executes -/

/-- Run `w₀` belongs to call `c`, which executes it or has executed it. -/
structure System.Executing (world : World) (k : Nat) (d : JobDefinition) (w₀ : WorkflowInstance) (c : Nat)
    (s : System) : Prop where
  onRun : OnRun k w₀.runId d (ExecutedInv world d w₀) s
  call : ∃ pc, s.calls[c]? = some (.execute k w₀.runId pc) ∧
    s.view w₀.runId = ⟨s.stores.record w₀.runId, pc.running.toList, [], [], []⟩ ∧ pc.Tells (s.stores.record w₀.runId)

section
variable {world : World} {k : Nat} {d : JobDefinition} {w₀ : WorkflowInstance} {c : Nat} {s s' : System} {e : Event}

/-- Job `j` is not registered again. -/
def Event.Keeps (j : JobId) (e : Event) : Prop := ∀ input now, e = .register input now → input.id ≠ j

theorem System.step_definition {j : JobId} (he : e.Keeps j) (hs : s.step world e = some s') :
    s'.stores.jobs.get j = s.stores.jobs.get j := by
  by_cases hregister : ∃ input now, e = .register input now
  · obtain ⟨input, now, rfl⟩ := hregister
    cases System.step_cases hs with
    | registered hr =>
      have hne := he input now rfl
      rw [← (JobService.register_accepted hr).2] at hne
      exact InsertionMap.get_set_ne _ _ hne
    | notRegistered => rfl
  · rw [System.step_jobs hs fun input now h => hregister ⟨input, now, h⟩]

theorem Event.Aside.undisturbed {r : RunId} (he : e.Aside r) {j : JobId} (hr : e.Keeps j) (k : Nat) :
    e.Undisturbed k r j := by
  cases e with
  | register input now => exact hr input now rfl
  | executeRun k' r' | replay k' r' => exact fun hsame => absurd hsame he
  | use r' wanted | restoreToCheckpoint r' version now | acquire r' o | release r' o => exact he
  | createRun | resume => trivial

/-- A call stays where it is until it is resumed. -/
theorem System.step_keeps {call : Call} (hi : s.calls[c]? = some call) (hne : ∀ reply, e ≠ .resume c reply)
    (hs : s.step world e = some s') : s'.calls[c]? = some call := by
  have hsuspend : ∀ {i : Nat} {reply : Reply} {st : Stores} {new : Call}, e = .resume i reply →
      (s.suspend i st new).calls[c]? = some call := by
    rintro i reply st new rfl
    refine (List.getElem?_set_ne fun hic => ?_).trans hi
    exact hne reply (by rw [hic])
  cases System.step_cases hs with
  | registered | notRegistered | restored | notRestored | acquired | notAcquired | released => exact hi
  | createCalled | executeCalled | useCalled | replayCalled => exact System.calls_spawn hi _ _
  | executed | created | used | replayed => exact hsuspend rfl
  | replayExecutes => exact System.calls_spawn (hsuspend rfl) _ _

/-- A call of `executeRun` that has settled stays settled. -/
theorem System.step_execute {r : RunId} {pc : ExecPc} (hi : s.calls[c]? = some (.execute k r pc))
    (hs : s.step world e = some s') : ∃ pc', s'.calls[c]? = some (.execute k r pc') ∧
      ∀ result, pc = .settled result → pc' = .settled result := by
  by_cases he : ∃ reply, e = .resume c reply
  · obtain ⟨reply, rfl⟩ := he
    simp only [System.step, System.resume, hi] at hs
    obtain ⟨x, hx, rfl⟩ := Option.map_eq_some_iff.1 hs
    refine ⟨x.2, List.getElem?_set_self (List.getElem?_eq_some_iff.1 hi).1, fun result hsettled => ?_⟩
    subst hsettled
    cases hx
  · exact ⟨pc, System.step_keeps hi (fun reply h => he ⟨reply, h⟩) hs, fun _ hsettled => hsettled⟩

theorem System.exec_execute {r : RunId} {pc : ExecPc} {es : List Event}
    (hi : s.calls[c]? = some (.execute k r pc)) (hs : EventSystem.exec (System.step world) s es = some s') :
    ∃ pc', s'.calls[c]? = some (.execute k r pc') ∧ ∀ result, pc = .settled result → pc' = .settled result := by
  refine EventSystem.exec_invariant
    (I := fun (m : System) => ∃ pc', m.calls[c]? = some (.execute k r pc') ∧
      ∀ result, pc = .settled result → pc' = .settled result)
    (fun m e m' hm (_ : True) hstep => ?_) ⟨pc, hi, fun _ h => h⟩ (fun _ _ => trivial) hs
  obtain ⟨pc', hi', hsame⟩ := hm
  obtain ⟨pc'', hi'', hsame'⟩ := System.step_execute hi' hstep
  exact ⟨pc'', hi'', fun result hsettled => hsame' result (hsame result hsettled)⟩

/-- The only call that executes a run is the one that is suspended where the run is executed. -/
theorem System.executing_single {r : RunId} {k' i : Nat} {pc pc' : ExecPc} (hsingle : s.executing r = [pc])
    (hc : s.calls[c]? = some (.execute k r pc)) (hi : s.calls[i]? = some (.execute k' r pc'))
    (hpc : pc.running = some pc) (hpc' : pc'.running = some pc') : i = c := by
  by_contra hne
  have hrun : Call.executing r (.execute k r pc) = some pc := by simp [Call.executing, hpc]
  have hrun' : Call.executing r (.execute k' r pc') = some pc' := by simp [Call.executing, hpc']
  -- without the one call nothing is left
  obtain ⟨-, hnone⟩ :=
    filterMap_set_of_single (Call.executing r) (b := .execute k r (.settled (.ok ()))) hc hrun hsingle
  have hmem : pc' ∈ (s.calls.set c (.execute k r (.settled (.ok ())))).filterMap (Call.executing r) :=
    List.mem_filterMap.2 ⟨_, List.mem_of_getElem? ((List.getElem?_set_ne (Ne.symm hne)).trans hi), hrun'⟩
  rw [hnone] at hmem
  simp [Call.executing, ExecPc.running] at hmem

theorem System.Executing.step (hq : world.Quiet) (ha : Accepted d) (hi₀ : Instantiates d w₀)
    (h : s.Executing world k d w₀ c) (he : e.Aside w₀.runId) (hr : e.Keeps d.id)
    (hs : s.step world e = some s') : s'.Executing world k d w₀ c := by
  have honRun := h.onRun.step (executedInv_closed hq ha hi₀) (he.undisturbed hr k) hs
  obtain ⟨pc, hcall, hview, htells⟩ := h.call
  have hexecuting : s.executing w₀.runId = pc.running.toList := congrArg RunView.executing hview
  have huses : (s.view w₀.runId).uses = [] := congrArg RunView.uses hview
  have hcreating : (s.view w₀.runId).creating = [] := congrArg RunView.creating hview
  have hreplaying : (s.view w₀.runId).replaying = [] := congrArg RunView.replaying hview
  refine ⟨honRun, ?_⟩
  cases System.step_run (r := w₀.runId) h.onRun.coherent hs with
  | same _ hn hv =>
    have hrecord : s'.stores.record w₀.runId = s.stores.record w₀.runId := congrArg RunView.record hv
    refine ⟨pc, System.step_keeps hcall (fun reply heq => hn k c pc reply.now ⟨reply, heq, rfl, hcall⟩) hs, ?_, ?_⟩
    · rw [hv, hrecord]
      exact hview
    · rw [hrecord]
      exact htells
  | opened k' _ _ ho =>
    rw [Event.opens_eq hreplaying ho] at he
    exact absurd rfl he
  | executed k' i pc' now x before after hres hx _ hpcs hv =>
    obtain ⟨reply, rfl, rfl, hi⟩ := hres
    have hrun' := ExecutionService.resume_running hx
    rcases ExecPc.running_segment pc with ⟨hrun, -⟩ | ⟨hrun, -⟩
    · rw [hrun, Option.toList_some] at hexecuting
      have hlist := hexecuting.symm.trans hpcs
      obtain ⟨rfl, rfl, rfl⟩ := singleton_eq_append_cons hlist
      obtain rfl := System.executing_single hexecuting hcall hi hrun hrun'
      cases hi.symm.trans hcall
      -- the event resumes the call, and nothing else happens
      have hstep : s.step world (.resume i reply) = some (s.suspend i x.1 (.execute k w₀.runId x.2)) := by
        simp only [System.step, System.resume, hi, hx, Option.map_some]
      cases hs.symm.trans hstep
      have hrecord : (s.suspend i x.1 (.execute k w₀.runId x.2)).stores.record w₀.runId = x.1.record w₀.runId := rfl
      refine ⟨x.2, List.getElem?_set_self (List.getElem?_eq_some_iff.1 hi).1, ?_, ?_⟩
      · rw [hv, hview]
        simp [hrecord]
      · intro result hsettled
        have hsame : x.1.record w₀.runId = s.stores.record w₀.runId := by
          have heffect := ExecutionService.resume_effect hx
          rw [ExecEffect, hsettled] at heffect
          exact heffect.record_closing
        rw [hrecord, hsame]
        exact (h.onRun.busy (by rw [hexecuting]; exact List.mem_singleton_self _)).1.resume_settled hx result hsettled
    · rw [hrun] at hexecuting
      rw [hexecuting] at hpcs
      simp at hpcs
  | called use he' => exact absurd rfl (he' ▸ he)
  | used i reply use pc x before after _ _ _ _ huses' =>
    rw [huses] at huses'
    simp at huses'
  | created i reply d' jobId trigger input before after _ _ hid hfresh =>
    obtain ⟨id, hknown⟩ := h.onRun.known
    rw [← hid, hfresh.1] at hknown
    cases hknown
  | runSaved i reply jobId trigger input run before after _ _ hcreating' =>
    rw [hcreating] at hcreating'
    simp at hcreating'
  | restored version now snap he' => exact absurd rfl (he' ▸ he)
  | replayed replays he' =>
    rcases he' with ⟨k, rfl⟩ | hne
    · exact absurd rfl he
    · exact absurd hreplaying hne

end

/-! ## The stages of a run -/

/-- What `createRun` makes a run from. -/
structure Birth where
  definition : JobDefinition
  jobId : JobId
  trigger : String
  input : Record
  uuids : Uuids
  now : ISODateString

def Birth.workflow (b : Birth) : WorkflowInstance :=
  WorkflowService.newWorkflow b.definition b.jobId b.input b.uuids b.now

def Birth.run (b : Birth) : JobRun := WorkflowService.newRun b.jobId b.trigger b.input b.uuids b.now

/-- Call `n` has made run `r` in this way; if it is not among the first `N` and the job is one of `J`, from the
definition that is registered. -/
structure Birth.Of (J : JobId → Prop) (N : Nat) (r : RunId) (n : Nat) (b : Birth) (s : System) : Prop where
  made : ∃ pc, s.calls[n]? = some (.create b.jobId b.trigger b.input pc) ∧ pc.made = some b.run
  runId : newRunId b.uuids.run = r
  tasks : b.uuids.tasks.length = b.definition.tasks.length
  nodup : b.uuids.tasks.Nodup
  registered : N ≤ n → J b.jobId → s.stores.jobs.get b.jobId = some b.definition

/-- What calls of `createRun` from number `N` on have read for a job of `J` is still registered. -/
def System.UpToDate (J : JobId → Prop) (N : Nat) (s : System) : Prop :=
  ∀ n jobId trigger input d, N ≤ n → J jobId →
    s.calls[n]? = some (.create jobId trigger input (.definitionRead (some d))) → s.stores.jobs.get jobId = some d

/-- The life of run `r` in the hands of service `k`, in a system that has made `N` calls before: what has been executed
was made by that call of `createRun` in that way. -/
inductive System.Stage (world : World) (J : JobId → Prop) (N k : Nat) (r : RunId) (s : System) :
    Option (Nat × Birth) → Prop where
  | unheard {run : Option JobRun} (h : s.Dormant r ⟨none, run, [], []⟩ []) (hu : s.UpToDate J N)
      (hx : s.ExecutedBy N k r none) : Stage world J N k r s none
  | born {b : Birth} {n : Nat} {run : Option JobRun} (hb : b.Of J N r n s)
      (h : s.Dormant r ⟨some b.workflow, run, [], []⟩ [b.run]) (hx : s.ExecutedBy N k r none) :
      Stage world J N k r s none
  | saved {b : Birth} {n : Nat} (hb : b.Of J N r n s) (h : s.Dormant r ⟨some b.workflow, some b.run, [], []⟩ [])
      (hx : s.ExecutedBy N k r none) : Stage world J N k r s none
  | executed {b : Birth} {n c : Nat} (hb : b.Of J N r n s) (hn : N ≤ n) (hJ : J b.jobId)
      (h : s.Executing world k b.definition b.workflow c) (hx : s.ExecutedBy N k r (some c)) :
      Stage world J N k r s (some (n, b))

section
variable {world : World} {J : JobId → Prop} {N k n : Nat} {r : RunId} {o : Option (Nat × Birth)} {b : Birth}
  {s s' : System} {e : Event}

theorem Birth.Of.makes (h : b.Of J N r n s) : s.Makes n b.run := by
  obtain ⟨pc, hcall, hmade⟩ := h.made
  exact ⟨b.jobId, b.trigger, b.input, pc, hcall, hmade⟩

theorem Birth.Of.step (h : b.Of J N r n s) (hr : ∀ j, J j → e.Keeps j) (hs : s.step world e = some s') :
    b.Of J N r n s' := by
  obtain ⟨pc, hcall, hmade⟩ := h.made
  obtain ⟨pc', hcall', hcase⟩ := System.step_create hcall hs
  refine ⟨⟨pc', hcall', ?_⟩, h.runId, h.tasks, h.nodup, fun hn hJ => ?_⟩
  · rcases hcase with rfl | ⟨reply, st, -, hx⟩
    · exact hmade
    · exact hx.made hmade
  · rw [System.step_definition (hr _ hJ) hs]
    exact h.registered hn hJ

theorem System.UpToDate.step (h : s.UpToDate J N) (hr : ∀ j, J j → e.Keeps j) (hs : s.step world e = some s') :
    s'.UpToDate J N := by
  intro n jobId trigger input d hn hJ hcall
  rw [System.step_definition (hr _ hJ) hs]
  rcases System.create_of_step hcall hs with hold | ⟨reply, pc₀, -, -, hx⟩ | ⟨hread, -⟩
  · exact h n jobId trigger input d hn hJ hold
  · generalize s'.stores = st at hx
    cases hx
  · exact (CreatePc.definitionRead.inj hread).symm

/-- The definition of a birth that counts is an accepted one, and has the id of the job. -/
theorem Birth.Of.accepted (h : b.Of J N r n s) (hn : N ≤ n) (hJ : J b.jobId) (hc : s.Coherent) :
    b.definition.id = b.jobId ∧ Accepted b.definition :=
  hc.stores.jobs b.jobId b.definition (h.registered hn hJ)

theorem Birth.Of.instantiates (h : b.Of J N r n s) : Instantiates b.definition b.workflow :=
  newWorkflow_instantiates h.tasks h.nodup

theorem System.Stage.step (hq : world.Quiet) (hc : s.Coherent) (h : s.Stage world J N k r o) (he : e.Aside r)
    (hr : ∀ j, J j → e.Keeps j) (hs : s.step world e = some s') : s'.Stage world J N k r o := by
  cases h with
  | unheard h hu hx =>
    have hx' := hx.step (h.not_opens he k) hs
    rcases h.step hc he hs with hsame | ⟨reply, d, jobId, trigger, input, before, after, hid, hcall, hfresh, hlist,
      hnew⟩ | ⟨run, before, after, hlist, -⟩
    · exact .unheard hsame (hu.step hr hs) hx'
    · obtain ⟨rfl, rfl⟩ := List.append_eq_nil_iff.1 hlist.symm
      obtain ⟨i, rfl, hi⟩ := hcall
      have hstep : s.step world (.resume i reply) = some (s.suspend i
          (s.stores.saveWorkflow (WorkflowService.newWorkflow d jobId input reply.uuids reply.now))
          (.create jobId trigger input
            (.workflowSaved (WorkflowService.newRun jobId trigger input reply.uuids reply.now)))) := by
        simp only [System.step, System.resume, hi, WorkflowService.resume, if_pos hfresh, Option.map_some]
      have hcall' := (List.getElem?_eq_some_iff.1 hi).1
      cases hs.symm.trans hstep
      exact .born (b := ⟨d, jobId, trigger, input, reply.uuids, reply.now⟩) (n := i)
        ⟨⟨_, List.getElem?_set_self hcall', rfl⟩, hid, hfresh.2.2.1, hfresh.2.2.2,
          fun hN hJ => hu i jobId trigger input d hN hJ hi⟩ hnew hx'
    · simp at hlist
  | @born b n run hb h hx =>
    have hx' := hx.step (h.not_opens he k) hs
    rcases h.step hc he hs with hsame | ⟨reply, d, jobId, trigger, input, before, after, hid, -, hfresh, -⟩ |
      ⟨run, before, after, hlist, hnew⟩
    · exact .born (hb.step hr hs) hsame hx'
    · exact absurd hid (hfresh.other (h.known hc rfl))
    · obtain ⟨rfl, rfl, rfl⟩ := singleton_eq_append_cons hlist
      exact .saved (hb.step hr hs) hnew hx'
  | saved hb h hx =>
    have hx' := hx.step (h.not_opens he k) hs
    rcases h.step hc he hs with hsame | ⟨reply, d, jobId, trigger, input, before, after, hid, -, hfresh, -⟩ |
      ⟨run, before, after, hlist, -⟩
    · exact .saved (hb.step hr hs) hsame hx'
    · exact absurd hid (hfresh.other (h.known hc rfl))
    · simp at hlist
  | @executed b n c hb hn hJ h hx =>
    have hrun : b.workflow.runId = r := hb.runId
    obtain ⟨hid, ha⟩ := hb.accepted hn hJ hc
    have hnot : e.opens s ≠ some (k, r) := by
      intro ho
      obtain ⟨pc, -, hview, -⟩ := h.call
      rw [hrun] at hview
      rw [Event.opens_eq (congrArg RunView.replaying hview) ho] at he
      exact he rfl
    have hkeeps : e.Keeps b.definition.id := by
      rw [hid]
      exact hr b.jobId hJ
    exact .executed (hb.step hr hs) hn hJ (h.step hq ha hb.instantiates (hrun.symm ▸ he) hkeeps hs) (hx.step hnot hs)

theorem System.Stage.exec (hq : world.Quiet) {es : List Event} (hc : s.Coherent) (h : s.Stage world J N k r o)
    (he : ∀ e ∈ es, e.Aside r ∧ ∀ j, J j → e.Keeps j) (hs : EventSystem.exec (System.step world) s es = some s') :
    s'.Stage world J N k r o :=
  (EventSystem.exec_invariant (I := fun (m : System) => m.Coherent ∧ m.Stage world J N k r o)
    (fun _ _ _ hm he hstep => ⟨hm.1.step hstep, hm.2.step hq hm.1 he.1 he.2 hstep⟩) ⟨hc, h⟩ he hs).2

/-- A run whose `createRun` has returned is stored, and executed if it is at all. -/
theorem System.Stage.returned (hreach : System.Reachable world s) (h : s.Stage world J N k r o) {run : JobRun}
    {jobId : JobId} {trigger : String} {input : Record}
    (hcall : s.calls[n]? = some (.create jobId trigger input (.settled (.ok run)))) (hrun : run.id = r) :
    ∃ b : Birth, b.Of J N r n s ∧ b.jobId = jobId ∧
      (o = some (n, b) ∨
        o = none ∧ s.Dormant r ⟨some b.workflow, some b.run, [], []⟩ [] ∧ s.ExecutedBy N k r none) := by
  have hmakes : s.Makes n run := ⟨jobId, trigger, input, _, hcall, rfl⟩
  have honce : ∀ {b : Birth} {n' : Nat}, b.Of J N r n' s → n' = n ∧ b.jobId = jobId := fun {b n'} hb => by
    obtain rfl := hreach.madeOnce.once hb.makes hmakes (hb.runId.trans hrun.symm)
    obtain ⟨pc, hcall', -⟩ := hb.made
    cases hcall.symm.trans hcall'
    exact ⟨rfl, rfl⟩
  cases h with
  | unheard h =>
    obtain ⟨id, hid⟩ := hreach.madeOnce.known hmakes
    obtain ⟨w, hw, -⟩ := hreach.coherent.stores.getByRunId_isSome hid
    have hnone : s.stores.getByRunId r = none := congrArg (fun v => v.record.workflow) h.view
    rw [hrun, hnone] at hw
    cases hw
  | @born b n' run' hb h =>
    -- the call that made the run has not returned
    have hmem : b.run ∈ (s.view r).creating := by
      rw [h.view]
      exact List.mem_singleton_self _
    obtain ⟨c, hmem, hcreating⟩ := List.mem_filterMap.1 hmem
    obtain ⟨i, hi⟩ := List.mem_iff_getElem?.1 hmem
    unfold Call.creating at hcreating
    split at hcreating
    · rename_i run₀
      split at hcreating
      · cases hcreating
        have hin := hreach.madeOnce.once ⟨_, _, _, _, hi, rfl⟩ hmakes (hb.runId.trans hrun.symm)
        rw [hin, hcall] at hi
        cases hi
      · cases hcreating
    · cases hcreating
  | @saved b n' hb h hx =>
    obtain ⟨rfl, hjob⟩ := honce hb
    exact ⟨b, hb, hjob, .inr ⟨rfl, h, hx⟩⟩
  | @executed b n' c hb =>
    obtain ⟨rfl, hjob⟩ := honce hb
    exact ⟨b, hb, hjob, .inl rfl⟩

/-- A run that is at rest and has been executed by nobody belongs to the call that executes it. -/
theorem Birth.Of.execute (hq : world.Quiet) (hreach : System.Reachable world s) (hb : b.Of J N r n s)
    (h : s.Dormant r ⟨some b.workflow, some b.run, [], []⟩ []) (hx : s.ExecutedBy N k r none) (hn : N ≤ n)
    (hJ : J b.jobId) : (s.execute k r).Stage world J N k r (some (n, b)) := by
  obtain ⟨hid, ha⟩ := hb.accepted hn hJ hreach.coherent
  have hrun : b.workflow.runId = r := hb.runId
  have hrest : (s.view r).AtRest := by
    rw [h.view]
    exact ⟨rfl, rfl, rfl, rfl⟩
  have hnew : NewRun world k b.definition b.workflow s := by
    refine ⟨hreach, ?_, ⟨b.trigger, b.input, b.uuids, b.now, hb.tasks, hb.nodup, ?_, ?_⟩, ?_, ?_, ?_⟩
    · rw [hid]
      exact hb.registered hn hJ
    · rw [hid]
      rfl
    · rw [hrun, hid]
      exact congrArg RunView.record h.view
    · rw [hrun]
      exact ⟨h.localLocks k, h.runLocks⟩
    · rw [hrun]
      exact hrest.executing
    · rw [hrun]
      exact hrest.calm k
  have honRun := hnew.onRun.execute (runInv_closed hq ha hb.instantiates) (fun _ : r = b.workflow.runId => rfl)
  obtain ⟨st, hbegun, -, -⟩ := ExecutionService.executeRun_unlocked (k := k) (r := r) ⟨h.localLocks k, h.runLocks⟩
  have hcalled : (s.execute k r).calls = s.calls ++ [.execute k r (.runRead (s.stores.runs.get r))] := by
    rw [System.execute, System.spawn, hbegun]
  have hwork : ∀ {α : Type} (f : Call → Option α), s.calls.filterMap f = [] →
      (s.execute k r).calls.filterMap f = (f (.execute k r (.runRead (s.stores.runs.get r)))).toList := by
    intro α f hf
    rw [hcalled, filterMap_snoc, hf]
    rfl
  have hexecuting : (s.execute k r).executing r = [.runRead (s.stores.runs.get r)] := by
    rw [System.executing, hwork _ hrest.executing]
    simp [Call.executing, ExecPc.running]
  have hexec : System.step world s (.executeRun k r) = some (s.execute k r) := rfl
  refine .executed (hb.step (by simp [Event.Keeps]) hexec) hn hJ ⟨?_, .runRead (s.stores.runs.get r), ?_, ?_, ?_⟩
    hx.execute
  · refine ⟨honRun.coherent, honRun.definition, honRun.known, honRun.calm, ?_⟩
    have hphase := honRun.phase
    rw [hrun, hexecuting] at hphase ⊢
    cases hphase with
    | busy hl hI => exact .busy hl ⟨hI, by simp⟩
  · rw [hcalled, hrun]
    exact List.getElem?_concat_length
  · rw [hrun]
    ext1
    · rfl
    · exact hexecuting
    · exact hwork _ hrest.uses
    · exact hwork _ hrest.creating
    · exact hwork _ hrest.replaying
  · exact fun result hsettled => by cases hsettled

/-- What the call of `executeRun` has come to, and what has become of the run. -/
theorem System.Stage.outcome (hc : s.Coherent) (h : s.Stage world J N k r o) {c : Nat}
    {result : Except JobflowError Unit} (hN : N ≤ c) (hcall : s.calls[c]? = some (.execute k r (.settled result))) :
    ∃ n b w, o = some (n, b) ∧ s.stores.getByRunId r = some w ∧ (result.isOk = true ↔ w.state ≠ .running) ∧
      ((∀ t ∈ b.definition.tasks, world.SucceedsWithin b.workflow t (allowedAttempts b.definition.retryPolicy)) ↔
        w.state = .running ∨ w.state = .completed) := by
  cases h with
  | unheard _ _ hx | born _ _ hx | saved _ _ hx => cases hx c _ hN hcall
  | @executed b n c' hb hn hJ h hx =>
    cases hx c _ hN hcall
    have hrun : b.workflow.runId = r := hb.runId
    obtain ⟨pc, hcall', hview, htells⟩ := h.call
    rw [hrun] at hcall' hview htells
    cases hcall.symm.trans hcall'
    have hidle : s.executing b.workflow.runId = [] := by
      rw [hrun]
      exact congrArg RunView.executing hview
    obtain ⟨hinv, hne⟩ := h.onRun.rest hidle
    cases hinv with
    | rest hr =>
      obtain ⟨w, hst, hset⟩ := hr
      have hstored : s.stores.getByRunId r = some w := by
        rw [← hrun]
        exact hst.workflow
      have hfate := hset.fate (hb.accepted hn hJ hc).2 hb.instantiates (hne rfl w hst.workflow)
      refine ⟨n, b, w, rfl, hstored, ?_, hfate.allDone_iff (hb.accepted hn hJ hc).2 hb.instantiates⟩
      rw [htells result rfl]
      constructor
      · exact fun hall => hall w hstored
      · intro hstate w' hw'
        cases hstored.symm.trans hw'
        exact hstate

end

end Jobflow
