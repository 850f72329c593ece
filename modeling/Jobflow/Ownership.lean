import Jobflow.Effects

/-!
# Every instance belongs to one run

In a reachable state the two maps of the workflow store agree, and every workflow instance, stored,
checkpointed or held by a suspended call, carries the run id and the workflow id of the run it is
used for. So what a call does to the run it executes cannot be seen from any other run.
-/

namespace Jobflow

/-- `w` is an instance of run `r`, under the id the store knows for `r`. -/
def Stores.Owns (s : Stores) (r : RunId) (w : WorkflowInstance) : Prop :=
  w.runId = r ∧ s.workflowOfRun.get r = some w.id

structure Stores.Coherent (s : Stores) : Prop where
  injective : ∀ r r' id, s.workflowOfRun.get r = some id → s.workflowOfRun.get r' = some id → r = r'
  stored : ∀ r id, s.workflowOfRun.get r = some id → id ≠ "" ∧ ∃ w, s.workflows.get id = some w ∧ w.runId = r
  owned : ∀ id w, s.workflows.get id = some w → w.id = id ∧ s.Owns w.runId w
  snapshots : ∀ r, ∀ snap ∈ s.listSnapshots r, s.Owns r snap.workflow
  runs : ∀ r run, s.runs.get r = some run → run.id = r
  jobs : ∀ id d, s.jobs.get id = some d → d.id = id ∧ Accepted d

/-- The run a call works on; `createRun` makes its own. -/
def Call.runId : Call → RunId
  | .execute _ r _ => r
  | .create _ _ _ _ => ""
  | .use r _ _ => r
  | .replay _ r _ => r

structure System.Coherent (s : System) : Prop where
  stores : s.stores.Coherent
  calls : ∀ c ∈ s.calls, ∀ w ∈ c.instances, s.stores.Owns c.runId w

/-! ## Saving an instance that belongs to its run -/

section
variable {s s' : Stores} {k : Nat} {r : RunId} {seg : Segment} {w : WorkflowInstance}
  {held ws : List WorkflowInstance}

theorem Derived.owns {w₀ : WorkflowInstance} (h : Derived w₀ w) (ho : s.Owns r w₀) : s.Owns r w :=
  ⟨h.runId_eq.trans ho.1, by rw [h.id_eq]; exact ho.2⟩

theorem Stores.Owns.workflowOfRun_save (h : s.Owns r w) (r' : RunId) :
    (s.saveWorkflow w).workflowOfRun.get r' = s.workflowOfRun.get r' := by
  simp only [saveWorkflow, InsertionMap.get_set]
  split
  · rename_i he
    rw [← he, h.1, h.2]
  · rfl

theorem Stores.Coherent.getByRunId_owns (hc : s.Coherent) (h : s.getByRunId r = some w) : s.Owns r w := by
  obtain ⟨id, hid, hw⟩ := Option.bind_eq_some_iff.1 h
  split at hw
  · cases hw
  · obtain ⟨_, x, hx, hr⟩ := hc.stored r id hid
    obtain ⟨he, _⟩ := hc.owned id w hw
    rw [hx] at hw
    cases hw
    exact ⟨hr, by rw [hid, he]⟩

theorem Stores.Coherent.getByRunId_isSome (hc : s.Coherent) {id : WorkflowId}
    (h : s.workflowOfRun.get r = some id) :
    ∃ w, s.getByRunId r = some w ∧ w.id = id := by
  obtain ⟨hne, w, hw, _⟩ := hc.stored r id h
  exact ⟨w, by simp [getByRunId, h, hne, hw], (hc.owned id w hw).1⟩

theorem Stores.Coherent.save (hc : s.Coherent) (h : s.Owns r w) : (s.saveWorkflow w).Coherent := by
  have hget := h.workflowOfRun_save
  refine ⟨fun a b id ha hb => ?_, fun a id ha => ?_, fun id x hx => ?_, fun a snap hs => ?_, hc.runs, hc.jobs⟩
  · rw [hget] at ha hb
    exact hc.injective a b id ha hb
  · rw [hget] at ha
    obtain ⟨hne, x, hx, hr⟩ := hc.stored a id ha
    refine ⟨hne, ?_⟩
    simp only [saveWorkflow, InsertionMap.get_set]
    by_cases he : w.id = id
    · refine ⟨w, by simp [he], ?_⟩
      rw [h.1]
      exact hc.injective r a id (he ▸ h.2) ha
    · exact ⟨x, by simp [he, hx], hr⟩
  · simp only [saveWorkflow, InsertionMap.get_set] at hx
    split at hx
    · rename_i he
      cases hx
      refine ⟨he, rfl, ?_⟩
      rw [hget, h.1]
      exact h.2
    · obtain ⟨he, ho⟩ := hc.owned id x hx
      exact ⟨he, rfl, by rw [hget]; exact ho.2⟩
  · have := hc.snapshots a snap hs
    exact ⟨this.1, by rw [hget]; exact this.2⟩

/-- Changes that leave workflows, checkpoints and jobs alone. -/
theorem Stores.Coherent.congr (hc : s.Coherent) (hw : s'.workflows = s.workflows)
    (hr : s'.workflowOfRun = s.workflowOfRun) (hs : s'.checkpoints = s.checkpoints) (hj : s'.jobs = s.jobs)
    (hruns : ∀ r run, s'.runs.get r = some run → run.id = r) : s'.Coherent := by
  refine ⟨fun a b id => ?_, fun a id => ?_, fun id x => ?_, fun a snap => ?_, hruns, fun id d => ?_⟩
  · rw [hr]
    exact hc.injective a b id
  · rw [hr, hw]
    exact hc.stored a id
  · unfold Owns
    rw [hr, hw]
    exact hc.owned id x
  · unfold Owns listSnapshots
    rw [hr, hs]
    exact hc.snapshots a snap
  · rw [hj]
    exact hc.jobs id d

theorem Stores.Coherent.saveRun (hc : s.Coherent) (run : JobRun) : (s.saveRun run).Coherent := by
  refine hc.congr rfl rfl rfl rfl fun r x hx => ?_
  simp only [Stores.saveRun, InsertionMap.get_set] at hx
  split at hx
  · rename_i he
    cases hx
    exact he
  · exact hc.runs r x hx

/-- The checkpoints of run `a` after one of run `r` has been captured. -/
theorem listSnapshots_capture {a : RunId} {label : Option String} {now : ISODateString} {snap : RunSnapshot}
    (hs : snap ∈ (s.captureCheckpoint r w label now).listSnapshots a) :
    snap ∈ s.listSnapshots a ∨ r = a ∧ snap.workflow = w := by
  unfold Stores.captureCheckpoint Stores.saveSnapshot at hs
  simp only [Stores.listSnapshots, InsertionMap.get_set] at hs
  split at hs
  · rename_i he
    rw [Option.getD_some, List.mem_append, List.mem_singleton] at hs
    rcases hs with hs | rfl
    · exact .inl (he ▸ hs)
    · exact .inr ⟨he, rfl⟩
  · exact .inl hs

theorem Stores.Coherent.capture (hc : s.Coherent) (h : s.Owns r w) (label : Option String) (now : ISODateString) :
    (s.captureCheckpoint r w label now).Coherent := by
  refine ⟨hc.injective, hc.stored, hc.owned, fun a snap hs => ?_, hc.runs, hc.jobs⟩
  rcases listSnapshots_capture hs with hs' | ⟨rfl, rfl⟩
  · exact hc.snapshots a snap hs'
  · exact h

/-! ## A segment keeps coherence -/

theorem updateRun_eq {s : Stores} (r : RunId) (target : WorkflowState) (now : ISODateString) :
    (s.runs.get r = none ∧ WorkflowOrchestrator.updateRun s r target now = s) ∨
      ∃ run, s.runs.get r = some run ∧ WorkflowOrchestrator.updateRun s r target now =
        s.saveRun { run with
          status := target
          finishedAt := if WorkflowStateMachine.isTerminal target then some now else run.finishedAt } := by
  unfold WorkflowOrchestrator.updateRun
  cases h : s.runs.get r with
  | none => exact .inl ⟨rfl, rfl⟩
  | some run => exact .inr ⟨run, rfl, rfl⟩

/-- `updateRun` writes to nothing but the runs. -/
theorem updateRun_runs (s : Stores) (r : RunId) (target : WorkflowState) (now : ISODateString) :
    ∃ runs, WorkflowOrchestrator.updateRun s r target now = { s with runs := runs } := by
  rcases updateRun_eq r target now with ⟨_, he⟩ | ⟨run, _, he⟩
  · exact ⟨s.runs, he⟩
  · exact ⟨_, he⟩

/-- What a segment keeps: coherence, and which workflow belongs to which run. -/
theorem Effect.coherent (he : Effect k r held s seg s' ws) (hc : s.Coherent) (hheld : ∀ w ∈ held, s.Owns r w) :
    s'.Coherent ∧ (∀ r', s'.workflowOfRun.get r' = s.workflowOfRun.get r') ∧ ∀ w ∈ ws, s'.Owns r w := by
  cases he with
  | keep h => exact ⟨hc, fun _ => rfl, fun w hw => hheld w (h w hw)⟩
  | read h =>
    refine ⟨hc, fun _ => rfl, fun w hw => ?_⟩
    rcases h w hw with hw | hw
    · exact hheld w hw
    · exact hc.getByRunId_owns hw
  | save h hd hws =>
    have ho := hd.owns (hheld _ h)
    refine ⟨hc.save ho, ho.workflowOfRun_save, fun x hx => ?_⟩
    rw [hws x hx]
    exact ⟨ho.1, by rw [ho.workflowOfRun_save]; exact ho.2⟩
  | resave h => exact ⟨hc.save (hheld _ h), (hheld _ h).workflowOfRun_save, by simp⟩
  | @updateRun w target now _ h hws =>
    rcases updateRun_eq (s := s) w.runId target now with ⟨_, he⟩ | ⟨run, _, he⟩
    · rw [he]
      exact ⟨hc, fun _ => rfl, fun x hx => hheld x (hws x hx)⟩
    · rw [he]
      exact ⟨hc.saveRun _, fun _ => rfl, fun x hx => hheld x (hws x hx)⟩
  | hear hws => exact ⟨hc.congr rfl rfl rfl rfl hc.runs, fun _ => rfl, fun x hx => hheld x (hws x hx)⟩
  | invoke _ hws => exact ⟨hc.congr rfl rfl rfl rfl hc.runs, fun _ => rfl, fun x hx => hheld x (hws x hx)⟩
  | pushDeadLetter _ => exact ⟨hc.congr rfl rfl rfl rfl hc.runs, fun _ => rfl, by simp⟩
  | capture h => exact ⟨hc.capture (hheld _ h) _ _, fun _ => rfl, by simp⟩
  | begin h =>
    rw [acquire_ok h]
    exact ⟨hc.congr rfl rfl rfl rfl hc.runs, fun _ => rfl, by simp⟩
  | leak => exact ⟨hc.congr rfl rfl rfl rfl hc.runs, fun _ => rfl, by simp⟩
  | refuse => exact ⟨hc, fun _ => rfl, by simp⟩
  | settle =>
    obtain ⟨locks, hl, _⟩ := release_eq (s.deleteLocalLock k r) r ExecutionService.owner
    rw [hl]
    exact ⟨hc.congr rfl rfl rfl rfl hc.runs, fun _ => rfl, by simp⟩

end

/-! ## What the stores hold about one run -/

structure RunRecord where
  workflow : Option WorkflowInstance
  run : Option JobRun
  deadLetters : List DeadLetterEntry
  invocations : List Invocation

def Stores.record (s : Stores) (r : RunId) : RunRecord where
  workflow := s.getByRunId r
  run := s.runs.get r
  deadLetters := s.deadLetters.filter fun e => e.runId = r
  invocations := s.invocations.filter fun i => i.runId = r

/-- The locks of run `r` are as they were. -/
def Stores.SameLocks (r : RunId) (s s' : Stores) : Prop :=
  s'.runLocks.get r = s.runLocks.get r ∧ ∀ k, (k, r) ∈ s'.localLocks ↔ (k, r) ∈ s.localLocks

theorem Stores.SameLocks.refl (r : RunId) (s : Stores) : SameLocks r s s := ⟨rfl, fun _ => Iff.rfl⟩

section
variable {s s' : Stores} {k : Nat} {r r' : RunId} {seg : Segment} {w : WorkflowInstance}
  {held ws : List WorkflowInstance}

/-- Saving an instance of another run. -/
theorem Stores.Coherent.getByRunId_save_ne (hc : s.Coherent) (h : s.Owns r' w) (hne : r' ≠ r) :
    (s.saveWorkflow w).getByRunId r = s.getByRunId r := by
  refine s.getByRunId_saveWorkflow_ne w (by rw [h.1]; exact hne) fun hr => hne ?_
  exact hc.injective r' r _ h.2 hr

theorem Stores.Coherent.record_save_ne (hc : s.Coherent) (h : s.Owns r' w) (hne : r' ≠ r) :
    (s.saveWorkflow w).record r = s.record r := by
  simp only [record, hc.getByRunId_save_ne h hne]
  rfl

theorem record_saveRun_ne {run : JobRun} (hne : run.id ≠ r) : (s.saveRun run).record r = s.record r := by
  simp only [Stores.record, Stores.saveRun, InsertionMap.get_set_ne _ _ hne]
  rfl

theorem record_saveRun_self {run : JobRun} (h : run.id = r) :
    (s.saveRun run).record r = { s.record r with run := some run } := by
  subst h
  simp only [Stores.record, Stores.saveRun, InsertionMap.get_set_self]
  rfl

/-- No segment changes a definition. -/
theorem Effect.jobs (he : Effect k r held s seg s' ws) : s'.jobs = s.jobs := by
  cases he with
  | @updateRun w target now _ _ _ =>
    obtain ⟨runs, he⟩ := updateRun_runs s w.runId target now
    rw [he]
  | begin h =>
    rw [acquire_ok h]
    rfl
  | settle =>
    obtain ⟨locks, hl, _⟩ := release_eq (s.deleteLocalLock k r) r ExecutionService.owner
    rw [hl]
    rfl
  | _ => rfl

/-- An inner segment leaves every lock alone. -/
theorem Effect.locks (he : Effect k r held s .inner s' ws) :
    s'.runLocks = s.runLocks ∧ s'.localLocks = s.localLocks := by
  cases he with
  | keep _ | read _ | save _ _ _ | resave _ | hear _ | invoke _ _ | pushDeadLetter _ | capture _ =>
    exact ⟨rfl, rfl⟩
  | @updateRun w target now _ _ _ =>
    obtain ⟨runs, he⟩ := updateRun_runs s w.runId target now
    rw [he]
    exact ⟨rfl, rfl⟩

/-- A segment of a call of another run leaves the locks of this one alone. -/
theorem Effect.sameLocks (he : Effect k r' held s seg s' ws) (hne : r' ≠ r) : Stores.SameLocks r s s' := by
  cases seg with
  | inner =>
    obtain ⟨hr, hl⟩ := he.locks
    exact ⟨congrArg (·.get r) hr, fun k' => by rw [hl]⟩
  | opening =>
    cases he with
    | begin h =>
      rw [acquire_ok h]
      refine ⟨InsertionMap.get_set_ne _ _ hne, fun k' => ?_⟩
      simp [Stores.addLocalLock, hne.symm]
    | leak => exact ⟨rfl, fun k' => by simp [Stores.addLocalLock, hne.symm]⟩
    | refuse => exact .refl r s
  | closing =>
    cases he with
    | settle =>
      obtain ⟨locks, hl, hget⟩ := release_eq (s.deleteLocalLock k r') r' ExecutionService.owner
      rw [hl]
      refine ⟨by simp [hget, hne, Stores.deleteLocalLock], fun k' => ?_⟩
      simp [Stores.deleteLocalLock, hne.symm]

/-- A segment of a call of another run changes nothing that concerns this run, and no definition. -/
theorem Effect.frame (he : Effect k r' held s seg s' ws) (hc : s.Coherent) (hheld : ∀ w ∈ held, s.Owns r' w)
    (hne : r' ≠ r) : s'.record r = s.record r ∧ s'.jobs = s.jobs ∧ Stores.SameLocks r s s' := by
  refine ⟨?_, he.jobs, he.sameLocks hne⟩
  cases he with
  | save h hd _ => exact hc.record_save_ne (hd.owns (hheld _ h)) hne
  | resave h => exact hc.record_save_ne (hheld _ h) hne
  | @updateRun w target now _ h _ =>
    rcases updateRun_eq (s := s) w.runId target now with ⟨_, he⟩ | ⟨run, hrun, he⟩
    · rw [he]
    · rw [he]
      have hid : run.id = r' := (hc.runs _ run hrun).trans (hheld w h).1
      exact record_saveRun_ne fun hr => hne (hid.symm.trans hr)
  | invoke hi _ =>
    simp only [Stores.record, List.filter_append, List.filter_cons, hi, hne]
    simp [Stores.getByRunId]
  | pushDeadLetter h =>
    simp only [Stores.record, Stores.pushDeadLetter, List.filter_append, List.filter_cons, h, hne]
    simp [Stores.getByRunId]
  | begin h =>
    rw [acquire_ok h]
    rfl
  | settle =>
    obtain ⟨locks, hl, _⟩ := release_eq (s.deleteLocalLock k r') r' ExecutionService.owner
    rw [hl]
    rfl
  | _ => rfl

end

/-! ## The system keeps coherence -/

/-- Every run known to `s` is known to `s'`, under the same workflow id. -/
def Stores.Extends (s' s : Stores) : Prop :=
  ∀ r id, s.workflowOfRun.get r = some id → s'.workflowOfRun.get r = some id

theorem Stores.Extends.refl (s : Stores) : s.Extends s := fun _ _ h => h

theorem Stores.Extends.of_eq {s s' : Stores} (h : ∀ r, s'.workflowOfRun.get r = s.workflowOfRun.get r) :
    s'.Extends s := fun r id hr => by rw [h]; exact hr

theorem Stores.Owns.extends {s s' : Stores} {r : RunId} {w : WorkflowInstance} (h : s.Owns r w)
    (he : s'.Extends s) : s'.Owns r w := ⟨h.1, he r _ h.2⟩

theorem newWorkflowId_ne_empty (uuid : String) : newWorkflowId uuid ≠ "" := by
  simp [newWorkflowId]

/-- Saving the instance of a new run. -/
theorem Stores.Coherent.saveNew {s : Stores} (hc : s.Coherent) {w : WorkflowInstance}
    (hr : s.workflowOfRun.get w.runId = none) (hid : s.workflows.get w.id = none) (hne : w.id ≠ "") :
    (s.saveWorkflow w).Coherent ∧ (s.saveWorkflow w).Extends s := by
  have hother : ∀ r id, s.workflowOfRun.get r = some id → w.runId ≠ r ∧ w.id ≠ id := by
    intro r id h
    obtain ⟨_, x, hx, _⟩ := hc.stored r id h
    refine ⟨fun he => ?_, fun he => ?_⟩
    · rw [← he, hr] at h
      cases h
    · rw [← he, hid] at hx
      cases hx
  have hext : (s.saveWorkflow w).Extends s := fun r id h => by
    rw [← h]
    exact InsertionMap.get_set_ne _ _ (hother r id h).1
  have hback : ∀ r id, (s.saveWorkflow w).workflowOfRun.get r = some id →
      (r = w.runId ∧ id = w.id) ∨ s.workflowOfRun.get r = some id := by
    intro r id h
    simp only [saveWorkflow, InsertionMap.get_set] at h
    split at h
    · rename_i he
      exact .inl ⟨he.symm, (Option.some.inj h).symm⟩
    · exact .inr h
  refine ⟨⟨fun a b id ha hb => ?_, fun a id ha => ?_, fun id x hx => ?_, fun a snap hs => ?_, hc.runs, hc.jobs⟩,
    hext⟩
  · rcases hback a id ha with ⟨rfl, rfl⟩ | ha
    · rcases hback b w.id hb with ⟨rfl, _⟩ | hb
      · rfl
      · exact absurd rfl (hother b _ hb).2
    · rcases hback b id hb with ⟨rfl, rfl⟩ | hb
      · exact absurd rfl (hother a _ ha).2
      · exact hc.injective a b id ha hb
  · rcases hback a id ha with ⟨rfl, rfl⟩ | ha
    · exact ⟨hne, w, by simp [saveWorkflow], rfl⟩
    · obtain ⟨hne', x, hx, hxr⟩ := hc.stored a id ha
      exact ⟨hne', x, by simp [saveWorkflow, InsertionMap.get_set_ne _ _ (hother a id ha).2, hx], hxr⟩
  · simp only [saveWorkflow, InsertionMap.get_set] at hx
    split at hx
    · rename_i he
      cases hx
      exact ⟨he, rfl, by simp [saveWorkflow]⟩
    · obtain ⟨he, ho⟩ := hc.owned id x hx
      exact ⟨he, ho.extends hext⟩
  · exact (hc.snapshots a snap hs).extends hext

/-- Saving the instance of another new run. -/
theorem Stores.Coherent.record_saveNew_ne {st : Stores} (hc : st.Coherent) {r : RunId} {w : WorkflowInstance}
    (hid : st.workflows.get w.id = none) (hne : w.runId ≠ r) : (st.saveWorkflow w).record r = st.record r := by
  have hget := st.getByRunId_saveWorkflow_ne (r := r) w hne fun hw => by
    obtain ⟨_, x, hx, _⟩ := hc.stored r _ hw
    rw [hid] at hx
    cases hx
  simp only [Stores.record, hget]
  rfl

section
variable {world : World} {s s' : System}

/-- A coherent system whose call `i` has moved. -/
theorem System.Coherent.suspend (hc : s.Coherent) {i : Nat} {stores : Stores} {call : Call}
    (hs : stores.Coherent) (he : stores.Extends s.stores) (hcall : ∀ w ∈ call.instances,
    stores.Owns call.runId w) :
    (s.suspend i stores call).Coherent := by
  refine ⟨hs, fun c hmem w hw => ?_⟩
  rcases List.mem_or_eq_of_mem_set hmem with hmem | rfl
  · exact (hc.calls c hmem w hw).extends he
  · exact hcall w hw

theorem System.Coherent.spawn (hc : s.Coherent) {stores : Stores} {call : Call} (hs : stores.Coherent)
    (he : stores.Extends s.stores) (hcall : ∀ w ∈ call.instances, stores.Owns call.runId w) :
    (s.spawn stores call).Coherent := by
  refine ⟨hs, fun c hmem w hw => ?_⟩
  rcases List.mem_append.1 hmem with hmem | hmem
  · exact (hc.calls c hmem w hw).extends he
  · rw [List.mem_singleton.1 hmem] at hw ⊢
    exact hcall w hw

/-- Only the stores change, and not the workflows. -/
theorem System.Coherent.stores_congr (hc : s.Coherent) {stores : Stores} (hs : stores.Coherent)
    (he : stores.Extends s.stores) : System.Coherent { s with stores := stores } :=
  ⟨hs, fun c hmem w hw => (hc.calls c hmem w hw).extends he⟩

theorem System.Coherent.execute (hc : s.Coherent) (k : Nat) (r : RunId) : (s.execute k r).Coherent := by
  obtain ⟨hs, hw, hi⟩ := (ExecutionService.executeRun_effect k r s.stores).coherent
    hc.stores (by simp)
  exact hc.spawn hs (.of_eq hw) hi

theorem Stores.Coherent.found_owns {st : Stores} (hc : st.Coherent) (r : RunId) :
    ∀ w ∈ (st.getByRunId r).toList, st.Owns r w := fun _ hw => hc.getByRunId_owns (Option.mem_toList.1 hw)

theorem CreateStep.coherent {st st' : Stores} {jobId : JobId} {trigger : String} {input : Js.Record}
    {reply : Reply} {pc pc' : CreatePc} (h : CreateStep jobId trigger input st reply pc st' pc') (hc : st.Coherent) :
    st'.Coherent ∧ st'.Extends st := by
  cases h with
  | missing | returned => exact ⟨hc, .refl _⟩
  | workflowSaved hfresh => exact hc.saveNew hfresh.1 hfresh.2.1 (newWorkflowId_ne_empty _)
  | runSaved => exact ⟨hc.saveRun _, .refl _⟩

theorem Stores.Coherent.saveJob {st : Stores} (hc : st.Coherent) {d : JobDefinition} (h : Accepted d) :
    (st.saveJob d).Coherent := by
  refine ⟨hc.injective, hc.stored, hc.owned, hc.snapshots, hc.runs, fun id d' hd => ?_⟩
  simp only [Stores.saveJob, InsertionMap.get_set] at hd
  split at hd
  · rename_i he
    cases hd
    exact ⟨he, h⟩
  · exact hc.jobs id d' hd

/-- What `restoreToCheckpoint` saves belongs to the run. -/
theorem Stores.Coherent.restored_owns {st : Stores} (hc : st.Coherent) {r : RunId} {snap : RunSnapshot}
    {version : Option Nat} (h : st.findSnapshot r version = some snap) (now : ISODateString) :
    st.Owns r { snap.workflow with updatedAt := now } :=
  (Derived.retasked now fun _ => .inl).owns (hc.snapshots r snap (Stores.findSnapshot_mem h))

/-- A replay that is about to call `executeRun` keeps the instance it has read. -/
theorem System.Coherent.suspendReading (hc : s.Coherent) {i k call : Nat} {r : RunId} {before : WorkflowInstance}
    (hi : s.calls[i]? = some (.replay k r (.read (some before)))) :
    (s.suspend i s.stores (.replay k r (.executing before call))).Coherent := by
  have hread : ∀ w ∈ (Call.replay k r (.read (some before))).instances, s.stores.Owns r w :=
    hc.calls _ (List.mem_of_getElem? hi)
  exact hc.suspend hc.stores (.refl _) hread

/-- Every event keeps coherence. -/
theorem System.Coherent.step (hc : s.Coherent) {e : Event} (h : s.step world e = some s') : s'.Coherent := by
  cases System.step_cases h with
  | registered hr =>
    exact hc.stores_congr (hc.stores.saveJob (JobService.register_accepted hr).1) (.refl _)
  | notRegistered | notRestored | notAcquired => exact hc
  | createCalled => exact hc.spawn hc.stores (.refl _) (by simp [Call.instances])
  | executeCalled => exact hc.execute _ _
  | @useCalled r _ | @replayCalled _ r => exact hc.spawn hc.stores (.refl _) (hc.stores.found_owns r)
  | @restored _ _ now _ hsnap =>
    have ho := hc.stores.restored_owns hsnap now
    exact hc.stores_congr (hc.stores.save ho) (.of_eq ho.workflowOfRun_save)
  | acquired | released => exact hc.stores_congr (hc.stores.congr rfl rfl rfl rfl hc.stores.runs) (.refl _)
  | executed hi hx =>
    have hpc := hc.calls _ (List.mem_of_getElem? hi)
    obtain ⟨hs, hw, hinst⟩ := (ExecutionService.resume_effect hx).coherent hc.stores hpc
    exact hc.suspend hs (.of_eq hw) hinst
  | created hi hx =>
    obtain ⟨hs, he⟩ := hx.coherent hc.stores
    exact hc.suspend hs he (by simp [Call.instances])
  | used hi hx =>
    have hpc := hc.calls _ (List.mem_of_getElem? hi)
    obtain ⟨hs, hw, hinst⟩ := (Use.resume_effect (k := 0) hx).coherent hc.stores hpc
    exact hc.suspend hs (.of_eq hw) hinst
  | @replayed _ _ _ r _ _ hi _ _ hinst =>
    refine hc.suspend hc.stores (.refl _) fun w hw => ?_
    rcases hinst w hw with hheld | hfound
    · exact hc.calls _ (List.mem_of_getElem? hi) w hheld
    · exact hc.stores.getByRunId_owns hfound
  | replayExecutes hi => exact (hc.suspendReading hi).execute _ _

theorem System.empty_coherent : System.empty.Coherent := by
  refine ⟨⟨?_, ?_, ?_, ?_, ?_, ?_⟩, by simp [System.empty]⟩ <;> intro a <;>
    simp [System.empty, Stores.empty, Stores.listSnapshots]

theorem System.Reachable.coherent (h : System.Reachable world s) : s.Coherent :=
  EventSystem.Reachable.invariant System.empty_coherent (fun _ _ _ hc => hc.step) h

end

/-- Only a registration changes the definitions. -/
theorem System.step_jobs {world : World} {s s' : System} {e : Event} (h : s.step world e = some s')
    (he : ∀ input now, e ≠ .register input now) : s'.stores.jobs = s.stores.jobs := by
  cases System.step_cases h with
  | registered => exact absurd rfl (he _ _)
  | executeCalled | replayExecutes => exact (ExecutionService.executeRun_effect _ _ s.stores).jobs
  | executed _ hx => exact (ExecutionService.resume_effect hx).jobs
  | created _ hx => cases hx <;> rfl
  | used _ hx => exact (Use.resume_effect (k := 0) hx).jobs
  | _ => rfl

/-- A registered job stays registered. -/
theorem System.step_registered {world : World} {s s' : System} {e : Event} {jobId : JobId}
    (h : s.step world e = some s') (hreg : (s.stores.jobs.get jobId).isSome = true) :
    (s'.stores.jobs.get jobId).isSome = true := by
  by_cases he : ∃ input now, e = .register input now
  · obtain ⟨input, now, rfl⟩ := he
    cases System.step_cases h with
    | registered =>
      simp only [Stores.saveJob, InsertionMap.get_set]
      split
      · rfl
      · exact hreg
    | notRegistered => exact hreg
  · rw [System.step_jobs h fun input now h => he ⟨input, now, h⟩]
    exact hreg

end Jobflow
