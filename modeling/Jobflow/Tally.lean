import Jobflow.Agreement
import Jobflow.Completion
import Jobflow.Metrics
import Jobflow.Spent

/-!
# Counters and histories

While nobody but `executeRun` moves workflows, the state of a workflow tells how often its history leads to
`completed` and to `failed`. The counters are zero, so they match the histories exactly when every run that is executed
is kept from completing by a constraint (`metrics_match_iff`).
-/

namespace Jobflow

/-! ## What a history says -/

/-- The event that `executeRun` moves a workflow with. -/
def Purpose.event : Purpose → String
  | .start => "start"
  | .complete => "complete"
  | .await => "await"
  | .fail => "fail"
  | .deadLetter => "dead_letter"

/-- The state tells how often the workflow has been completed and how often it has failed: nobody has retried it. -/
def Told (w : WorkflowInstance) : Prop :=
  w.history.countP (·.toState = .completed) = (if w.state = .completed then 1 else 0) ∧
    w.history.countP (·.toState = .failed) = if w.state = .failed ∨ w.state = .deadLettered then 1 else 0

theorem newWorkflow_told (d : JobDefinition) (jobId : JobId) (input : Js.Record) (uuids : Uuids)
    (now : ISODateString) : Told (WorkflowService.newWorkflow d jobId input uuids now) := ⟨rfl, rfl⟩

/-- Each of the five transitions leaves states of its own. -/
theorem Purpose.rule_iff {purpose : Purpose} {state : WorkflowState} :
    (⟨state, purpose.target, purpose.event⟩ : TransitionRule) ∈ DEFAULT_TRANSITION_RULES ↔
      match purpose with
      | .start => state = .pending
      | .complete | .await => state = .running
      | .fail => state = .running ∨ state = .waiting
      | .deadLetter => state = .failed := by
  cases purpose <;> simp [DEFAULT_TRANSITION_RULES, target, event]

theorem Told.moved {w : WorkflowInstance} (h : Told w) {purpose : Purpose} {actor : String} {now : ISODateString}
    (rule : (⟨w.state, purpose.target, purpose.event⟩ : TransitionRule) ∈ DEFAULT_TRANSITION_RULES) :
    Told (w.moved purpose.event purpose.target actor none now) := by
  obtain ⟨hcompleted, hfailed⟩ := h
  have hfrom := Purpose.rule_iff.1 rule
  unfold Told WorkflowInstance.moved
  simp only [List.countP_append, hcompleted, hfailed]
  cases purpose with
  | start | complete | await | deadLetter => simp only at hfrom; simp [hfrom, Purpose.target]
  | fail => rcases hfrom with hfrom | hfrom <;> simp [hfrom, Purpose.target]

theorem Told.retasked {w : WorkflowInstance} (h : Told w) (tasks : List TaskRun) (now : ISODateString) :
    Told { w with tasks := tasks, updatedAt := now } := h

section
variable {world : World} {k : Nat} {r : RunId} {s : Stores} {d : JobDefinition} {w : WorkflowInstance}
  {now : ISODateString}

/-- Every stored workflow is told. -/
def Stores.AllTold (s : Stores) : Prop := ∀ id w, s.workflows.get id = some w → Told w

theorem Stores.AllTold.save (h : s.AllTold) (hw : Told w) : (s.saveWorkflow w).AllTold := by
  intro id x hx
  simp only [saveWorkflow, InsertionMap.get_set] at hx
  split at hx
  · cases hx
    exact hw
  · exact h id x hx

theorem Stores.AllTold.found (h : s.AllTold) (hw : s.getByRunId r = some w) : Told w := by
  obtain ⟨id, -, hid⟩ := Option.bind_eq_some_iff.1 hw
  split at hid
  · cases hid
  · exact h id w hid

/-- So is every instance that a call holds on to. -/
abbrev ToldBy (x : Stores × ExecPc) : Prop := x.1.AllTold ∧ ∀ w ∈ x.2.instances, Told w

namespace ExecutionService

theorem settle_told {result : Except JobflowError Unit} (hs : s.AllTold) : ToldBy (settle k r s result) := by
  obtain ⟨locks, hlocks, -⟩ := release_eq (s.deleteLocalLock k r) r owner
  rw [settle, hlocks]
  exact ⟨hs, by simp [ExecPc.instances]⟩

theorem transition_told {actor : String} (purpose : Purpose) (hs : s.AllTold) (hw : Told w) :
    ToldBy (transition s purpose d w purpose.event purpose.target actor now) := by
  unfold transition
  cases h : WorkflowOrchestrator.applyTransition s w purpose.event purpose.target actor now with
  | error e => exact ⟨hs, by simp [ExecPc.instances]⟩
  | ok st =>
    obtain ⟨-, hrule, hst, ht⟩ := WorkflowOrchestrator.applyTransition_ok.1 h
    have hmoved : Told (w.moved purpose.event purpose.target actor none now) := hw.moved hrule
    simp only [hst, ht]
    exact ⟨hs.save hmoved, by simpa [ExecPc.instances] using hmoved⟩

theorem afterLoop_told (hs : s.AllTold) (hw : Told w) : ToldBy (afterLoop k r s d w now) := by
  unfold afterLoop
  split
  · exact transition_told .deadLetter hs hw
  · exact settle_told hs

theorem loop_told (hs : s.AllTold) (hw : Told w) : ToldBy (loop k r s d w now) := by
  unfold loop
  split
  · exact afterLoop_told hs hw
  split
  · split
    · split
      · exact settle_told hs
      · exact transition_told .complete hs hw
    · exact transition_told .await hs hw
  · split
    · exact ⟨hs, by simp [ExecPc.instances]⟩
    · exact ⟨hs, by simpa [ExecPc.instances, invoke] using hw⟩

theorem afterTask_told {result : ExecuteResult} (hs : s.AllTold) (hw : Told w) :
    ToldBy (afterTask k r s d w result now) := by
  unfold afterTask
  split
  · exact transition_told .fail hs hw
  · exact loop_told hs hw

theorem afterTransition_told {purpose : Purpose} (hs : s.AllTold) (hw : Told w) :
    ToldBy (afterTransition k r s purpose d w now) := by
  cases purpose with
  | start => exact loop_told hs hw
  | complete | await | fail => exact afterLoop_told hs hw
  | deadLetter => exact ⟨hs, by simp [ExecPc.instances, afterTransition]⟩

/-- A segment of `applyTransition` after the write of the instance. -/
theorem resumeTransition_told (world : World) (now : ISODateString) {t : TransitionCall} (hs : s.AllTold)
    (ht : Told t.next) :
    (t.resume world s now).1.AllTold ∧ ∀ w ∈ (t.resume world s now).2.instances, Told w := by
  have hone : ∀ w ∈ [t.next], Told w := fun w hw => by rwa [List.mem_singleton.1 hw]
  have hannounce : (WorkflowOrchestrator.announce world s t now).1.AllTold ∧
      ∀ w ∈ (WorkflowOrchestrator.announce world s t now).2.instances, Told w := by
    unfold WorkflowOrchestrator.announce
    dsimp only
    split
    · exact ⟨hs, by simp [TransitionOutcome.instances]⟩
    · exact ⟨hs, hone⟩
  unfold TransitionCall.resume
  split
  · exact ⟨hs, hone⟩
  · obtain ⟨runs, hruns⟩ := updateRun_runs s t.next.runId t.target now
    rw [hruns]
    exact ⟨hs, hone⟩
  · exact hannounce
  · exact hannounce
  · exact ⟨hs, hone⟩

theorem resume_told {pc : ExecPc} {x : Stores × ExecPc} (hs : s.AllTold) (hpc : ∀ w ∈ pc.instances, Told w)
    (h : resume world k r s now pc = some x) : ToldBy x := by
  cases pc with
  | runRead found =>
    cases found <;> cases h
    · exact settle_told hs
    · exact ⟨hs, by simp [ExecPc.instances]⟩
  | definitionRead jobId found =>
    cases found <;> cases h
    · exact settle_told hs
    · exact ⟨hs, fun w hw => hs.found (Option.mem_toList.1 hw)⟩
  | workflowRead d found =>
    cases found with
    | none =>
      cases h
      exact settle_told hs
    | some w =>
      have hw : Told w := hpc w (by simp [ExecPc.instances])
      simp only [resume] at h
      split at h
      · obtain rfl := Option.some.inj h
        exact transition_told .start hs hw
      · obtain rfl := Option.some.inj h
        exact ⟨hs, by simpa [ExecPc.instances] using hw⟩
  | started d w =>
    obtain rfl := Option.some.inj h
    exact loop_told hs (hpc w (by simp [ExecPc.instances]))
  | transition purpose d t =>
    have hnext : Told t.next := hpc t.next (by simp [ExecPc.instances])
    obtain ⟨hs₁, hout⟩ := resumeTransition_told world now hs hnext
    cases hres : t.resume world s now with
    | mk s₁ out =>
      rw [hres] at hs₁ hout
      simp only [resume, hres] at h
      cases out with
      | suspended t' =>
        cases h
        exact ⟨hs₁, hout⟩
      | threw e =>
        cases h
        exact ⟨hs₁, hout⟩
      | returned next =>
        obtain rfl := Option.some.inj h
        exact afterTransition_told hs₁ (hout next (by simp [TransitionOutcome.instances]))
  | handler d w nextDef running earlier | sleeping d w result =>
    obtain rfl := Option.some.inj h
    have hw : Told w := hpc w (by simp [ExecPc.instances])
    have hupdated : ∀ task, Told (updateTask w task now) := fun task => hw.retasked _ now
    exact ⟨hs.save (hupdated _), fun x hx => by rw [List.mem_singleton.1 hx]; exact hupdated _⟩
  | taskSaved d w result =>
    have hw : Told w := hpc w (by simp [ExecPc.instances])
    simp only [resume] at h
    split at h
    · obtain rfl := Option.some.inj h
      exact ⟨hs, by simpa [ExecPc.instances] using hw⟩
    · obtain rfl := Option.some.inj h
      exact afterTask_told hs hw
  | requeued d w result =>
    obtain rfl := Option.some.inj h
    exact afterTask_told hs (hpc w (by simp [ExecPc.instances]))
  | deadLetterPushed | rejected e =>
    obtain rfl := Option.some.inj h
    exact settle_told hs
  | settled result => cases h

end ExecutionService

end

/-! ## While only `executeRun` is called -/

/-- Nothing happens but calls of `executeRun` on service `k`, and calls that are under way go on. -/
def Event.OnlyExecutes (k : Nat) : Event → Prop
  | .executeRun k' _ => k' = k
  | .resume _ _ => True
  | _ => False

theorem Event.OnlyExecutes.undisturbed {k : Nat} {e : Event} (h : e.OnlyExecutes k) (r : RunId) (j : JobId) :
    e.Undisturbed k r j := by
  cases e with
  | executeRun k' r' => exact fun _ => h
  | resume i reply => trivial
  | _ => cases h

/-- What `s'` still has of `s`, when service `k` has executed runs since. -/
structure OnlyExecuted (k : Nat) (s s' : System) : Prop where
  coherent : s'.Coherent
  length : s.calls.length ≤ s'.calls.length
  calls : ∀ (i : Nat) (c : Call), s'.calls[i]? = some c → c.unsettled = true →
    s.calls.length ≤ i ∧ ∃ r pc, c = .execute k r pc
  workflowOfRun : ∀ r, s'.stores.workflowOfRun.get r = s.stores.workflowOfRun.get r
  stored : s'.stores.AllTold
  held : ∀ (i : Nat) (c : Call), s'.calls[i]? = some c → s.calls.length ≤ i → ∀ w ∈ c.instances, Told w
  untouched : ∀ r, ¬ s'.ExecutedSince s.calls.length k r → s'.stores.record r = s.stores.record r

section
variable {world : World} {k : Nat} {s m m' : System}

theorem executeRun_told {st : Stores} (k : Nat) (r : RunId) (hs : st.AllTold) :
    ToldBy (ExecutionService.executeRun k r st) := by
  unfold ExecutionService.executeRun
  split
  · exact ⟨hs, by simp [ExecPc.instances]⟩
  · cases h : (st.addLocalLock k r).acquire r ExecutionService.owner with
    | error e =>
      simp only [h]
      exact ⟨hs, by simp [ExecPc.instances]⟩
    | ok st' =>
      simp only [h]
      rw [acquire_ok h]
      exact ⟨hs, by simp [ExecPc.instances]⟩

/-- A new call of `executeRun`. -/
theorem OnlyExecuted.execute (h : OnlyExecuted k s m) (r : RunId) : OnlyExecuted k s (m.execute k r) := by
  have he := ExecutionService.executeRun_effect k r m.stores
  obtain ⟨-, hw, -⟩ := he.coherent h.coherent.stores (by simp)
  obtain ⟨hstored, hheld⟩ := executeRun_told k r h.stored
  have hcall : ∀ i c, (m.execute k r).calls[i]? = some c → m.calls[i]? = some c ∨
      s.calls.length ≤ i ∧ c = .execute k r (ExecutionService.executeRun k r m.stores).2 := by
    intro i c hi
    simp only [System.execute, System.spawn, List.getElem?_append] at hi
    split at hi
    · exact .inl hi
    · rename_i hge
      exact .inr ⟨h.length.trans (Nat.not_lt.1 hge), List.mem_singleton.1 (List.mem_of_getElem? hi)⟩
  refine ⟨h.coherent.execute k r, ?_, ?_, fun r' => (hw r').trans (h.workflowOfRun r'), hstored, ?_, ?_⟩
  · exact h.length.trans (by simp [System.execute, System.spawn])
  · intro i c hi hu
    rcases hcall i c hi with hi | ⟨hge, rfl⟩
    · exact h.calls i c hi hu
    · exact ⟨hge, r, _, rfl⟩
  · intro i c hi hge
    rcases hcall i c hi with hi | ⟨-, rfl⟩
    · exact h.held i c hi hge
    · exact hheld
  · intro r' hr'
    have hne : r ≠ r' := by
      rintro rfl
      exact hr' ⟨m.calls.length, _, h.length, List.getElem?_concat_length⟩
    obtain ⟨hrec, -, -⟩ := he.frame h.coherent.stores (by simp) hne
    exact hrec.trans (h.untouched r' fun hx => hr' (hx.of_spawn _))

/-- A segment of a call of `executeRun`. -/
theorem OnlyExecuted.resume (h : OnlyExecuted k s m) {i k' : Nat} {r : RunId} {pc : ExecPc} {now : ISODateString}
    {x : Stores × ExecPc} (hi : m.calls[i]? = some (.execute k' r pc))
    (hx : ExecutionService.resume world k' r m.stores now pc = some x)
    (hcoh : (m.suspend i x.1 (.execute k' r x.2)).Coherent) :
    OnlyExecuted k s (m.suspend i x.1 (.execute k' r x.2)) := by
  have hrun := ExecutionService.resume_running hx
  obtain ⟨hge, r'', pc'', hcall⟩ := h.calls i _ hi (by simp [Call.unsettled, hrun])
  cases hcall
  have hown := h.coherent.calls _ (List.mem_of_getElem? hi)
  have he := ExecutionService.resume_effect hx
  obtain ⟨-, hw, -⟩ := he.coherent h.coherent.stores hown
  obtain ⟨hstored, hheld⟩ := ExecutionService.resume_told h.stored (h.held i _ hi hge) hx
  have hcall : ∀ j c, (m.suspend i x.1 (.execute k r x.2)).calls[j]? = some c → m.calls[j]? = some c ∨
      s.calls.length ≤ j ∧ c = .execute k r x.2 := by
    intro j c hj
    simp only [System.suspend, List.getElem?_set] at hj
    split at hj
    · split at hj
      · cases hj
        exact .inr ⟨by omega, rfl⟩
      · cases hj
    · exact .inl hj
  refine ⟨hcoh, ?_, ?_, fun r' => (hw r').trans (h.workflowOfRun r'), hstored, ?_, ?_⟩
  · simpa [System.suspend] using h.length
  · intro j c hj hu
    rcases hcall j c hj with hj | ⟨hge, rfl⟩
    · exact h.calls j c hj hu
    · exact ⟨hge, r, _, rfl⟩
  · intro j c hj hge
    rcases hcall j c hj with hj | ⟨-, rfl⟩
    · exact h.held j c hj hge
    · exact hheld
  · intro r' hr'
    have hkept : ¬ m.ExecutedSince s.calls.length k r' := fun hx' =>
      hr' (hx'.of_suspend hi fun pc' hpc => by cases hpc; exact ⟨_, rfl⟩)
    have hne : r ≠ r' := by
      rintro rfl
      exact hkept ⟨i, pc, hge, hi⟩
    obtain ⟨hrec, -, -⟩ := he.frame h.coherent.stores hown hne
    exact hrec.trans (h.untouched r' hkept)

/-- A call that moves on is not settled, so it executes a run. -/
theorem OnlyExecuted.step_cases (h : OnlyExecuted k s m) {e : Event} (he : e.OnlyExecutes k)
    (hs : m.step world e = some m') : (∃ r, e = .executeRun k r ∧ m' = m.execute k r) ∨
      ∃ i k' r pc now x, m.calls[i]? = some (.execute k' r pc) ∧
        ExecutionService.resume world k' r m.stores now pc = some x ∧ m' = m.suspend i x.1 (.execute k' r x.2) := by
  have hother : ∀ {i : Nat} {c : Call}, m.calls[i]? = some c → c.unsettled = true →
      (∀ r pc, c ≠ .execute k r pc) → False := fun hi hu hne => by
    obtain ⟨-, r, pc, rfl⟩ := h.calls _ _ hi hu
    exact hne r pc rfl
  cases System.step_cases hs with
  | registered | notRegistered | notRestored | acquired | notAcquired | released | restored => cases he
  | createCalled | useCalled | replayCalled => cases he
  | executeCalled =>
    cases he
    exact .inl ⟨_, rfl, rfl⟩
  | executed hi hx => exact .inr ⟨_, _, _, _, _, _, hi, hx, rfl⟩
  | created hi hx =>
    refine (hother hi ?_ (by simp)).elim
    cases hx <;> rfl
  | @used _ _ _ _ pc _ hi hx =>
    refine (hother hi ?_ (by simp)).elim
    cases pc with
    | settled result => cases hx
    | _ => rfl
  | @replayed _ _ _ _ pc _ hi hpc =>
    refine (hother hi ?_ (by simp)).elim
    cases pc with
    | settled result => exact absurd rfl (hpc result)
    | _ => rfl
  | replayExecutes hi => exact (hother hi rfl (by simp)).elim

theorem OnlyExecuted.step (h : OnlyExecuted k s m) {e : Event} (he : e.OnlyExecutes k)
    (hs : m.step world e = some m') : OnlyExecuted k s m' := by
  have hcoh := h.coherent.step hs
  rcases h.step_cases he hs with ⟨r, -, rfl⟩ | ⟨i, k', r, pc, now, x, hi, hx, rfl⟩
  · exact h.execute r
  · exact h.resume hi hx hcoh

end

/-- Runs have been created, and no call is under way. -/
structure Prepared (world : World) (k : Nat) (s : System) : Prop where
  reachable : System.Reachable world s
  settled : s.AllSettled
  created : ∀ id w, s.stores.workflows.get id = some w → ∃ d, NewRun world k d w s

section
variable {world : World} {k : Nat} {d : JobDefinition} {w w' : WorkflowInstance} {s s' : System} {events : List Event}

theorem NewRun.told (h : NewRun world k d w s) : Told w := by
  obtain ⟨-, input, uuids, now, -, -, rfl, -⟩ := h.created
  exact newWorkflow_told d d.id input uuids now

theorem Prepared.onlyExecuted (h : Prepared world k s) (hok : ∀ e ∈ events, e.OnlyExecutes k)
    (hs : EventSystem.exec (System.step world) s events = some s') : OnlyExecuted k s s' := by
  refine EventSystem.exec_invariant (fun _ _ _ hm he => hm.step he) ?_ hok hs
  refine ⟨h.reachable.coherent, le_refl _, fun i c hi hu => ?_, fun _ => rfl, fun id w hw => ?_,
    fun i c hi hge => ?_, fun _ _ => rfl⟩
  · rw [h.settled c (List.mem_of_getElem? hi)] at hu
    cases hu
  · obtain ⟨d, hnew⟩ := h.created id w hw
    exact hnew.told
  · rw [List.getElem?_eq_none hge] at hi
    cases hi

/-- A run that nobody has called `executeRun` for has not been executed. -/
theorem Prepared.not_executed (h : Prepared world k s) (hok : ∀ e ∈ events, e.OnlyExecutes k)
    (hs : EventSystem.exec (System.step world) s events = some s') {r : RunId} (hno : .executeRun k r ∉ events) :
    ¬ s'.ExecutedSince s.calls.length k r := by
  have hstart : OnlyExecuted k s s := h.onlyExecuted (by simp) (EventSystem.exec_nil _ _)
  have hkept : ∀ m e m', OnlyExecuted k s m ∧ ¬ m.ExecutedSince s.calls.length k r →
      e.OnlyExecutes k ∧ e ≠ .executeRun k r → m.step world e = some m' →
      OnlyExecuted k s m' ∧ ¬ m'.ExecutedSince s.calls.length k r := by
    rintro m e m' ⟨hm, hnot⟩ ⟨he, hne⟩ hstep
    refine ⟨hm.step he hstep, fun hx => hnot ?_⟩
    rcases hm.step_cases he hstep with ⟨r', rfl, rfl⟩ | ⟨i, k', r', pc, now, x, hi, -, rfl⟩
    · exact hx.spawn fun pc hpc => hne (by cases hpc; rfl)
    · exact hx.suspend hi fun pc' hpc => ⟨pc, by cases hpc; rfl⟩
  refine (EventSystem.exec_invariant hkept ⟨hstart, ?_⟩ (fun e he => ⟨hok e he, fun heq => hno (heq ▸ he)⟩) hs).2
  rintro ⟨i, pc, hi, hc⟩
  rw [List.getElem?_eq_none hi] at hc
  cases hc

/-! ## The law -/

/-- The counters say what the histories say. -/
def Stores.MetricsMatch (localeCompare : Collation) (s : Stores) : Prop :=
  (s.metrics localeCompare).total "jobflow_runs_completed_total" = s.entriesTo .completed ∧
    (s.metrics localeCompare).total "jobflow_runs_failed_total" = s.entriesTo .failed

theorem entriesTo_eq_zero {st : Stores} {target : WorkflowState} :
    st.entriesTo target = 0 ↔ ∀ id w, st.workflows.get id = some w → w.history.countP (·.toState = target) = 0 := by
  rw [Stores.entriesTo, List.sum_eq_zero_iff, List.forall_mem_map]
  constructor
  · intro h id w hw
    exact h (id, w) (InsertionMap.get_eq_some.1 hw)
  · rintro h ⟨id, w⟩ hmem
    exact h id w (InsertionMap.get_eq_some.2 hmem)

/-- The counters stay at zero, so they match as long as nothing has been completed or has failed. -/
theorem metricsMatch_iff {st : Stores} (hheard : st.HeardTransitions) (htold : st.AllTold) (localeCompare : Collation) :
    st.MetricsMatch localeCompare ↔ ∀ id w, st.workflows.get id = some w →
      w.state ≠ .completed ∧ w.state ≠ .failed ∧ w.state ≠ .deadLettered := by
  have hstate : ∀ id w, st.workflows.get id = some w →
      (w.history.countP (·.toState = .completed) = 0 ∧ w.history.countP (·.toState = .failed) = 0 ↔
        w.state ≠ .completed ∧ w.state ≠ .failed ∧ w.state ≠ .deadLettered) := by
    intro id w hw
    obtain ⟨hcompleted, hfailed⟩ := htold id w hw
    rw [hcompleted, hfailed]
    simp [not_or]
  rw [Stores.MetricsMatch, metrics_zero hheard, metrics_zero hheard, eq_comm, Nat.cast_eq_zero, entriesTo_eq_zero,
    eq_comm, Nat.cast_eq_zero, entriesTo_eq_zero]
  constructor
  · rintro ⟨hc, hf⟩ id w hw
    exact (hstate id w hw).1 ⟨hc id w hw, hf id w hw⟩
  · intro h
    exact ⟨fun id w hw => ((hstate id w hw).2 (h id w hw)).1, fun id w hw => ((hstate id w hw).2 (h id w hw)).2⟩

theorem Stores.Coherent.getByRunId_stored {st : Stores} (hc : st.Coherent) {id : WorkflowId}
    (hw : st.workflows.get id = some w) : st.getByRunId w.runId = some w := by
  obtain ⟨hid, -, hof⟩ := hc.owned id w hw
  rw [hid] at hof
  obtain ⟨hne, -⟩ := hc.stored w.runId id hof
  simp [Stores.getByRunId, hof, hne, hw]

/-- Every stored workflow is that of a run which was there from the start. -/
theorem OnlyExecuted.workflow_of (h : OnlyExecuted k s s') (hc : s.stores.Coherent) {id : WorkflowId}
    (hw' : s'.stores.workflows.get id = some w') :
    ∃ w, s.stores.workflows.get id = some w ∧ w.runId = w'.runId := by
  obtain ⟨hid, -, hof⟩ := h.coherent.stores.owned id w' hw'
  rw [hid, h.workflowOfRun] at hof
  exact (hc.stored w'.runId id hof).2

end

/-- A container in which runs have been created, and then any of them executed, any number of times, by calls of
`executeRun` that interleave in any way and have all settled. Its run counters match the histories if and only if in
each run that has been executed every task succeeds within its attempts and a constraint then keeps the run from
completing. -/
theorem metrics_match_iff {world : World} {k : Nat} {s s' : System} {events : List Event} (hwired : world.Wired)
    (h : Prepared world k s) (hok : ∀ e ∈ events, e.OnlyExecutes k)
    (hs : EventSystem.exec (System.step world) s events = some s') (hsettled : s'.AllSettled)
    (localeCompare : Collation) : s'.stores.MetricsMatch localeCompare ↔
      ∀ id w d, s.stores.workflows.get id = some w → NewRun world k d w s → .executeRun k w.runId ∈ events →
        (∀ c ∈ d.tasks, world.SucceedsWithin w c (allowedAttempts d.retryPolicy)) ∧ world.BlocksFinally d w := by
  have honly := h.onlyExecuted hok hs
  have hc := h.reachable.coherent.stores
  have hrest : ∀ r, s'.executing r = [] := fun r =>
    List.filterMap_eq_nil_iff.2 fun c hc => (Call.silent_of_settled (hsettled c hc) r).1
  have hfate : ∀ {w d}, NewRun world k d w s → .executeRun k w.runId ∈ events →
      ∃ w', s'.stores.getByRunId w.runId = some w' ∧ Fate world d w w' (s'.stores.record w.runId).deadLetters := by
    intro w d hnew hcalled
    obtain ⟨w', hst, hfate⟩ := hnew.fate hwired.quiet (fun e he => (hok e he).undisturbed w.runId d.id) hs
      (System.executedSince_of_mem hcalled hs) (hrest w.runId)
    exact ⟨w', hst.workflow, hfate⟩
  rw [metricsMatch_iff (System.Reachable.heardTransitions (h.reachable.exec hs)) honly.stored]
  constructor
  · intro hall id w d hw hnew hcalled
    obtain ⟨w', hw', hfate⟩ := hfate hnew hcalled
    obtain ⟨id', -, hid'⟩ := Option.bind_eq_some_iff.1 hw'
    split at hid'
    · cases hid'
    · obtain ⟨hne₁, hne₂, hne₃⟩ := hall id' w' hid'
      cases hfate with
      | blocked hst hw' hb => exact ⟨fun c hc => hw'.succeedsWithin hnew.accepted hnew.instantiates hc, hb⟩
      | completed hst => exact absurd hst hne₁
      | failed hst => exact absurd hst hne₂
      | deadLettered hst => exact absurd hst hne₃
  · intro hall id w' hw'
    obtain ⟨w, hw, hrun⟩ := honly.workflow_of hc hw'
    obtain ⟨d, hnew⟩ := h.created id w hw
    have hget := honly.coherent.stores.getByRunId_stored hw'
    by_cases hcalled : .executeRun k w.runId ∈ events
    · obtain ⟨hsucc, hb⟩ := hall id w d hw hnew hcalled
      obtain ⟨w'', hw'', hfate⟩ := hfate hnew hcalled
      rw [hrun, hget] at hw''
      cases hw''
      have hstate := (hfate.allDone_iff hnew.accepted hnew.instantiates).1 hsucc
      cases hfate with
      | blocked hst => simp [hst]
      | completed _ _ hnb => exact absurd hb hnb
      | failed hst => simp [hst] at hstate
      | deadLettered hst => simp [hst] at hstate
    · have hsame := honly.untouched w.runId (h.not_executed hok hs hcalled)
      have hworkflow := congrArg RunRecord.workflow hsame
      have hwget := hc.getByRunId_stored hw
      simp only [Stores.record, hwget] at hworkflow
      rw [hrun, hget] at hworkflow
      cases hworkflow
      obtain ⟨-, input, uuids, now, -, -, rfl, -⟩ := hnew.created
      simp [WorkflowService.newWorkflow]

theorem sample_prepared (fails : String → Nat → Bool) {d : JobDefinition}
    (hd : JobService.register BUILTIN_HANDLERS d.input "t" = .ok d) :
    Prepared (sampleWorld fails) 0 (firstRun d [] (sampleReply d)) := by
  have hnew := sample_newRun fails hd
  refine ⟨hnew.reachable, fun c hc => ?_, fun id w hw => ⟨d, ?_⟩⟩
  · rw [List.mem_singleton.1 hc]
    rfl
  · have hmem : (id, w) ∈ (firstRun d [] (sampleReply d)).stores.workflows.entries := InsertionMap.get_eq_some.1 hw
    obtain ⟨-, rfl⟩ := Prod.mk.inj (List.mem_singleton.1 hmem)
    exact hnew

theorem sampleEvents_onlyExecute (d : JobDefinition) (n : Nat) : ∀ e ∈ sampleEvents d n, e.OnlyExecutes 0 := by
  intro e he
  rcases List.mem_cons.1 he with rfl | he
  · exact rfl
  · rw [List.eq_of_mem_replicate he]
    trivial

/-- The run with a constraint that always holds is left in `running`, and nothing should have been counted. -/
theorem metrics_match_iff_sample : ∃ s', sampleAfter (fun _ _ => false) sampleBlocked 9 = some s' ∧
    s'.stores.MetricsMatch byCharacters := by
  have hend : (sampleAfter (fun _ _ => false) sampleBlocked 9).any (fun s => decide s.AllSettled) = true := by
    decide +kernel
  obtain ⟨s', hs, hsettled⟩ := (Option.any_eq_true _ _).1 hend
  have hprepared := sample_prepared (fun _ _ => false) (d := sampleBlocked) (by decide +kernel)
  refine ⟨s', hs, (metrics_match_iff (sampleWorld_wired _) hprepared (sampleEvents_onlyExecute sampleBlocked 9) hs
    (of_decide_eq_true hsettled) byCharacters).2 ?_⟩
  intro id w d hw hnew _
  have hmem : (id, w) ∈ (firstRun sampleBlocked [] (sampleReply sampleBlocked)).stores.workflows.entries :=
    InsertionMap.get_eq_some.1 hw
  obtain ⟨-, rfl⟩ := Prod.mk.inj (List.mem_singleton.1 hmem)
  have hjob : (d.id, d) ∈ (firstRun sampleBlocked [] (sampleReply sampleBlocked)).stores.jobs.entries :=
    InsertionMap.get_eq_some.1 hnew.registered
  obtain ⟨-, rfl⟩ := Prod.mk.inj (List.mem_singleton.1 hjob)
  exact ⟨by decide +kernel, by decide +kernel⟩

/-- The run completes, and the counter of completed runs says zero. -/
theorem completed_run_uncounted : ∃ s', sampleAfter (fun _ _ => false) sampleChain 15 = some s' ∧ s'.AllSettled ∧
    s'.stores.entriesTo .completed = 1 ∧ (s'.stores.metrics byCharacters).total "jobflow_runs_completed_total" = 0 ∧
    ¬ s'.stores.MetricsMatch byCharacters := by
  have hend : (sampleAfter (fun _ _ => false) sampleChain 15).any (fun s =>
      decide (s.AllSettled ∧ s.stores.entriesTo .completed = 1 ∧
        (s.stores.metrics byCharacters).total "jobflow_runs_completed_total" = 0)) = true := by
    decide +kernel
  obtain ⟨s', hs, hp⟩ := (Option.any_eq_true _ _).1 hend
  obtain ⟨hsettled, hentries, htotal⟩ := of_decide_eq_true hp
  refine ⟨s', hs, hsettled, hentries, htotal, fun hmatch => ?_⟩
  have hcounted := hmatch.1
  rw [hentries, htotal] at hcounted
  exact absurd hcounted (by decide)

end Jobflow
