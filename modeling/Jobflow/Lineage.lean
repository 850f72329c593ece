import Jobflow.Spent
import Jobflow.Termination

/-!
# Every instance of a run goes back to the one it was created as

Whatever is done with a run, by any number of services and callers and in any interleaving: every workflow instance of
it, stored, checkpointed or held by a suspended call, has the task runs it was created with, and none of these is ever
written back as `running` or `skipped`.
-/

namespace Jobflow

/-- `w` has the tasks of `w₀`, in states in which the executor leaves tasks. -/
structure Descends (w₀ w : WorkflowInstance) : Prop where
  later : Later w₀ w
  status : ∀ t ∈ w.tasks, t.status ≠ .running ∧ t.status ≠ .skipped

/-- The call works on such instances, and the task that it is going to save is one of theirs. -/
def ExecPc.Descends (w₀ : WorkflowInstance) : ExecPc → Prop
  | .handler _ w _ running _ => Jobflow.Descends w₀ w ∧ ∃ t ∈ w.tasks, running.identity = t.identity
  | .taskSaved _ w result | .sleeping _ w result =>
    Jobflow.Descends w₀ w ∧ ∃ t ∈ w.tasks, result.task.identity = t.identity
  | pc => ∀ w ∈ pc.instances, Jobflow.Descends w₀ w

/-- So does the stored workflow of run `r`. -/
def Stores.Descends (r : RunId) (w₀ : WorkflowInstance) (s : Stores) : Prop :=
  ∃ w, s.getByRunId r = some w ∧ Jobflow.Descends w₀ w

/-- Every instance of run `r` descends from `w₀`. -/
structure Lineage (r : RunId) (w₀ : WorkflowInstance) (s : System) : Prop where
  stored : s.stores.Descends r w₀
  snapshots : ∀ snap ∈ s.stores.listSnapshots r, Descends w₀ snap.workflow
  executing : ∀ pc ∈ s.executing r, pc.Descends w₀
  uses : ∀ u ∈ (s.view r).uses, ∀ w ∈ u.2.instances, Descends w₀ w

section
variable {world : World} {k : Nat} {r : RunId} {d₀ d : JobDefinition} {w₀ w w' : WorkflowInstance}
  {s s' : Stores} {now : ISODateString} {task t : TaskRun}

theorem Descends.moved (h : Descends w₀ w) {event : String} {target : WorkflowState} {actor : String}
    {note : Option String} : Descends w₀ (w.moved event target actor note now) := ⟨h.later.moved, h.status⟩

theorem Descends.updateTask (hi₀ : Instantiates d₀ w₀) (h : Descends w₀ w) (ht : t ∈ w.tasks)
    (hid : task.identity = t.identity) (hs : task.status ≠ .running ∧ task.status ≠ .skipped) (now : ISODateString) :
    Descends w₀ (ExecutionService.updateTask w task now) := by
  refine ⟨h.later.updateTask hi₀ ht hid now, fun x hx => ?_⟩
  obtain ⟨y, hy, rfl⟩ := List.mem_map.1 hx
  split
  · exact hs
  · exact h.status y hy

/-- A task that `updateTask` has saved is in the instance. -/
theorem mem_updateTask (ht : t ∈ w.tasks) (hid : task.identity = t.identity) (now : ISODateString) :
    task ∈ (ExecutionService.updateTask w task now).tasks :=
  List.mem_map.2 ⟨t, ht, if_pos (congrArg Prod.fst hid).symm⟩

theorem ExecPc.Descends.instances {pc : ExecPc} (h : pc.Descends w₀) : ∀ w ∈ pc.instances, Jobflow.Descends w₀ w := by
  cases pc with
  | handler d v c running earlier | taskSaved d v result | sleeping d v result =>
    intro w hw
    rw [List.mem_singleton.1 hw]
    exact h.1
  | _ => exact h

/-! ## Writes to the stores -/

theorem Stores.Descends.save (hc : s.Coherent) (ho : s.Owns r w) (hw : Jobflow.Descends w₀ w) :
    (s.saveWorkflow w).Descends r w₀ := ⟨w, congrArg RunRecord.workflow (record_saveWorkflow hc ho), hw⟩

/-- Only the workflow matters. -/
theorem Stores.Descends.congr (h : s.Descends r w₀) (hget : s'.getByRunId r = s.getByRunId r) : s'.Descends r w₀ := by
  obtain ⟨w, hw, hd⟩ := h
  exact ⟨w, hget.trans hw, hd⟩

/-- A segment of `applyTransition` writes to the `JobRun` at most. -/
theorem Stores.Descends.resume_transition (h : s.Descends r w₀) (tc : TransitionCall) :
    (tc.resume world s now).1.Descends r w₀ := by
  have hannounce : (WorkflowOrchestrator.announce world s tc now).1.Descends r w₀ := by
    unfold WorkflowOrchestrator.announce
    dsimp only
    split <;> exact h
  unfold TransitionCall.resume
  split
  · exact h
  · obtain ⟨runs, he⟩ := updateRun_runs s tc.next.runId tc.target now
    rw [he]
    exact h
  · exact hannounce
  · exact hannounce
  · exact h

/-! ## Every segment of `executeRun` -/

/-- The stores and the await after a segment. -/
structure Lineal (r : RunId) (w₀ : WorkflowInstance) (x : Stores × ExecPc) : Prop where
  stored : x.1.Descends r w₀
  pc : x.2.Descends w₀

theorem Lineal.settle (h : s.Descends r w₀) (result : Except JobflowError Unit) :
    Lineal r w₀ (ExecutionService.settle k r s result) :=
  ⟨h.congr (congrArg RunRecord.workflow (record_settle k result)), fun _ hw => by cases hw⟩

theorem Lineal.transition (h : s.Descends r w₀) (hc : s.Coherent) (ho : s.Owns r w) (hw : Descends w₀ w)
    {purpose : Purpose} {event : String} {target : WorkflowState} {actor : String} :
    Lineal r w₀ (ExecutionService.transition s purpose d w event target actor now) := by
  unfold ExecutionService.transition
  cases ha : WorkflowOrchestrator.applyTransition s w event target actor now with
  | error e => exact ⟨h, fun _ hw => by cases hw⟩
  | ok st =>
    obtain ⟨_, hrule, hst, ht⟩ := WorkflowOrchestrator.applyTransition_ok.1 ha
    dsimp only
    rw [hst, ht]
    refine ⟨Stores.Descends.save hc ((Derived.moved hrule).owns ho) hw.moved, fun v hv => ?_⟩
    rw [List.mem_singleton.1 hv]
    exact hw.moved

theorem Lineal.afterLoop (h : s.Descends r w₀) (hc : s.Coherent) (ho : s.Owns r w) (hw : Descends w₀ w) :
    Lineal r w₀ (ExecutionService.afterLoop k r s d w now) := by
  unfold ExecutionService.afterLoop
  split
  · exact .transition h hc ho hw
  · exact .settle h _

theorem Lineal.loop (h : s.Descends r w₀) (hc : s.Coherent) (ho : s.Owns r w) (hw : Descends w₀ w) :
    Lineal r w₀ (ExecutionService.loop k r s d w now) := by
  unfold ExecutionService.loop
  split
  · exact .afterLoop h hc ho hw
  split
  · split
    · split
      · exact .settle h _
      · exact .transition h hc ho hw
    · exact .transition h hc ho hw
  · split
    · exact ⟨h, fun _ hw => by cases hw⟩
    · rename_i taskRun hfind
      exact ⟨h, hw, taskRun, List.mem_of_find?_eq_some hfind, rfl⟩

theorem Lineal.afterTask (h : s.Descends r w₀) (hc : s.Coherent) (ho : s.Owns r w) (hw : Descends w₀ w)
    {result : ExecuteResult} : Lineal r w₀ (ExecutionService.afterTask k r s d w result now) := by
  unfold ExecutionService.afterTask
  split
  · exact .transition h hc ho hw
  · exact .loop h hc ho hw

theorem Lineal.resume_transition (h : s.Descends r w₀) (hc : s.Coherent) {purpose : Purpose} {tc : TransitionCall}
    (ho : s.Owns r tc.next) (hw : Descends w₀ tc.next) {x : Stores × ExecPc}
    (hx : ExecutionService.resume world k r s now (.transition purpose d tc) = some x) : Lineal r w₀ x := by
  have hst : (tc.resume world s now).1.Descends r w₀ := h.resume_transition tc
  cases hres : tc.resume world s now with
  | mk s₁ out =>
    simp only [ExecutionService.resume, hres] at hx
    rw [hres] at hst
    cases out with
    | suspended tc' =>
      cases hx
      refine ⟨hst, fun v hv => ?_⟩
      rw [List.mem_singleton.1 hv, TransitionCall.resume_next hres]
      exact hw
    | threw e =>
      cases hx
      exact ⟨hst, fun _ hw => by cases hw⟩
    | returned next =>
      obtain ⟨rfl, rfl⟩ := TransitionCall.resume_returned hres
      obtain rfl := Option.some.inj hx
      cases purpose with
      | start => exact .loop h hc ho hw
      | complete | await | fail => exact .afterLoop h hc ho hw
      | deadLetter => exact ⟨h, fun _ hw => by cases hw⟩

theorem Lineal.resume (hi₀ : Instantiates d₀ w₀) (h : s.Descends r w₀) (hc : s.Coherent) {pc : ExecPc}
    (ho : ∀ w ∈ pc.instances, s.Owns r w) (hpc : pc.Descends w₀) {x : Stores × ExecPc}
    (hx : ExecutionService.resume world k r s now pc = some x) : Lineal r w₀ x := by
  cases pc with
  | runRead found =>
    cases found <;> cases hx
    · exact .settle h _
    · exact ⟨h, fun _ hw => by cases hw⟩
  | definitionRead jobId found =>
    cases found <;> cases hx
    · exact .settle h _
    · obtain ⟨w, hget, hw⟩ := h
      refine ⟨⟨w, hget, hw⟩, fun v hv => ?_⟩
      rw [ExecPc.instances, hget] at hv
      rw [List.mem_singleton.1 hv]
      exact hw
  | workflowRead d found =>
    cases found with
    | none =>
      cases hx
      exact .settle h _
    | some w =>
      have hw : Descends w₀ w := hpc w (by simp [ExecPc.instances])
      simp only [ExecutionService.resume] at hx
      split at hx <;> obtain rfl := Option.some.inj hx
      · exact .transition h hc (ho w (by simp [ExecPc.instances])) hw
      · refine ⟨h, fun v hv => ?_⟩
        rw [List.mem_singleton.1 hv]
        exact hw
  | started d w =>
    obtain rfl := Option.some.inj hx
    exact .loop h hc (ho w (by simp [ExecPc.instances])) (hpc w (by simp [ExecPc.instances]))
  | transition purpose d tc =>
    exact .resume_transition h hc (ho _ (by simp [ExecPc.instances])) (hpc _ (by simp [ExecPc.instances])) hx
  | handler d w c running earlier =>
    obtain rfl := Option.some.inj hx
    obtain ⟨hw, t, ht, hid⟩ := hpc
    have hown : s.Owns r w := ho w (by simp [ExecPc.instances])
    obtain ⟨hsame, _, hs⟩ := TaskExecutor.finish_task running d.retryPolicy (TaskSimulator.execute world.simulator
      c.handler w.context (world.answer r running.definitionTaskId running.attempt earlier)) now
    have hsaved := hw.updateTask hi₀ ht (hsame.trans hid) hs now
    exact ⟨Stores.Descends.save hc ⟨hown.1, hown.2⟩ hsaved, hsaved, _, mem_updateTask ht (hsame.trans hid) now, rfl⟩
  | taskSaved d w result =>
    simp only [ExecutionService.resume] at hx
    split at hx <;> obtain rfl := Option.some.inj hx
    · exact ⟨h, hpc⟩
    · exact .afterTask h hc (ho w (by simp [ExecPc.instances])) hpc.1
  | sleeping d w result =>
    obtain rfl := Option.some.inj hx
    obtain ⟨hw, t, ht, hid⟩ := hpc
    have hown : s.Owns r w := ho w (by simp [ExecPc.instances])
    have hsame : ({ result.task with status := .queued } : TaskRun).identity = t.identity := hid
    have hsaved := hw.updateTask hi₀ ht hsame ⟨by simp, by simp⟩ now
    refine ⟨Stores.Descends.save hc ⟨hown.1, hown.2⟩ hsaved, fun v hv => ?_⟩
    rw [List.mem_singleton.1 hv]
    exact hsaved
  | requeued d w result =>
    obtain rfl := Option.some.inj hx
    exact .afterTask h hc (ho w (by simp [ExecPc.instances])) (hpc w (by simp [ExecPc.instances]))
  | deadLetterPushed | rejected e =>
    obtain rfl := Option.some.inj hx
    exact .settle h _
  | settled result => cases hx

/-- Every segment of a caller that uses a workflow. -/
theorem Use.resume_descends {wanted : Use} {pc : UsePc} (h : s.Descends r w₀) (hc : s.Coherent)
    (ho : ∀ w ∈ pc.instances, s.Owns r w) (hpc : ∀ w ∈ pc.instances, Descends w₀ w) {x : Stores × UsePc}
    (hx : wanted.resume world r s now pc = some x) :
    x.1.Descends r w₀ ∧ ∀ w ∈ x.2.instances, Descends w₀ w := by
  cases pc with
  | read found =>
    cases found with
    | none =>
      cases hx
      exact ⟨h, fun _ hw => by cases hw⟩
    | some w =>
      have hw : Descends w₀ w := hpc w (by simp [UsePc.instances])
      have hown : s.Owns r w := ho w (by simp [UsePc.instances])
      cases wanted with
      | applyTransition event target actor =>
        simp only [Use.resume] at hx
        cases ha : WorkflowOrchestrator.applyTransition s w event target actor now with
        | error e =>
          rw [ha] at hx
          cases hx
          exact ⟨h, fun _ hw => by cases hw⟩
        | ok st =>
          obtain ⟨_, hrule, hst, ht⟩ := WorkflowOrchestrator.applyTransition_ok.1 ha
          rw [ha] at hx
          cases hx
          dsimp only
          rw [hst, ht]
          refine ⟨.save hc ((Derived.moved hrule).owns hown) hw.moved, fun v hv => ?_⟩
          rw [List.mem_singleton.1 hv]
          exact hw.moved
      | captureCheckpoint label =>
        cases hx
        exact ⟨h, fun _ hw => by cases hw⟩
      | snapshot =>
        cases hx
        exact ⟨.save hc hown hw, fun _ hw => by cases hw⟩
  | transition tc =>
    have hst : (tc.resume world s now).1.Descends r w₀ := h.resume_transition tc
    cases hres : tc.resume world s now with
    | mk s₁ out =>
      simp only [Use.resume, hres] at hx
      rw [hres] at hst
      cases out with
      | suspended tc' =>
        cases hx
        refine ⟨hst, fun v hv => ?_⟩
        rw [List.mem_singleton.1 hv, TransitionCall.resume_next hres]
        exact hpc _ (by simp [UsePc.instances])
      | threw e | returned next =>
        cases hx
        exact ⟨hst, fun _ hw => by cases hw⟩
  | saved =>
    cases hx
    exact ⟨h, fun _ hw => by cases hw⟩
  | settled result => cases hx

end

/-! ## Checkpoints -/

section
variable {world : World} {r : RunId} {s s' : System} {snap : RunSnapshot}

/-- The checkpoints that a segment adds are of instances that its call holds. -/
theorem Effect.snapshots {k : Nat} {r' : RunId} {held ws : List WorkflowInstance} {seg : Segment} {st st' : Stores}
    (he : Effect k r' held st seg st' ws) (h : snap ∈ st'.listSnapshots r) :
    snap ∈ st.listSnapshots r ∨ r' = r ∧ snap.workflow ∈ held := by
  cases he with
  | @updateRun w target now _ _ _ =>
    obtain ⟨runs, he⟩ := updateRun_runs st w.runId target now
    rw [he] at h
    exact .inl h
  | begin ha =>
    rw [acquire_ok ha] at h
    exact .inl h
  | settle =>
    obtain ⟨locks, hl, _⟩ := release_eq (st.deleteLocalLock k r') r' ExecutionService.owner
    rw [hl] at h
    exact .inl h
  | capture hw =>
    rcases listSnapshots_capture h with h | ⟨hr, rfl⟩
    · exact .inl h
    · exact .inr ⟨hr, hw⟩
  | _ => exact .inl h

theorem System.execute_snapshots {k : Nat} {r' : RunId} (h : snap ∈ (s.execute k r').stores.listSnapshots r) :
    snap ∈ s.stores.listSnapshots r := by
  rcases (ExecutionService.executeRun_effect k r' s.stores).snapshots h with h | ⟨_, hnil⟩
  · exact h
  · cases hnil

/-- A new checkpoint of the run is of an instance that one of its callers holds. -/
theorem System.step_snapshots {e : Event} (hs : s.step world e = some s')
    (h : snap ∈ s'.stores.listSnapshots r) : snap ∈ s.stores.listSnapshots r ∨
      (∃ pc ∈ s.executing r, snap.workflow ∈ pc.instances) ∨
      ∃ u ∈ (s.view r).uses, snap.workflow ∈ u.2.instances := by
  cases System.step_cases hs with
  | executeCalled | replayExecutes => exact .inl (System.execute_snapshots h)
  | @executed i _ k r' pc x hi hx =>
    rcases (ExecutionService.resume_effect hx).snapshots h with h | ⟨rfl, hw⟩
    · exact .inl h
    · refine .inr (.inl ⟨pc, List.mem_filterMap.2 ⟨_, List.mem_of_getElem? hi, ?_⟩, hw⟩)
      rw [Call.executing, if_pos rfl, ExecutionService.resume_running hx]
  | created hi hx => cases hx <;> exact .inl h
  | @used i _ r' wanted pc x hi hx =>
    rcases (Use.resume_effect (k := 0) hx).snapshots h with h | ⟨rfl, hw⟩
    · exact .inl h
    · refine .inr (.inr ⟨(wanted, pc), List.mem_filterMap.2 ⟨_, List.mem_of_getElem? hi, ?_⟩, hw⟩)
      cases pc with
      | settled result => cases hx
      | _ => simp [Call.uses, UsePc.running]
  | _ => exact .inl h

end

/-! ## From the creation of the run on -/

section
variable {world : World} {r : RunId} {w₀ : WorkflowInstance} {d : JobDefinition} {s s' : System} {e : Event}

/-- Every instance held in an await descends from `w₀` as soon as none is held. -/
theorem ExecPc.descends_of_nil {pc : ExecPc} (h : pc.instances = []) : pc.Descends w₀ := by
  cases pc with
  | handler d w c running earlier | taskSaved d w result | sleeping d w result => cases h
  | _ =>
    intro w hw
    rw [h] at hw
    cases hw

/-- The checkpoints need no care of their own. -/
theorem Lineage.of_step (h : Lineage r w₀ s) (hs : s.step world e = some s') {v : RunView} (hv : s'.view r = v)
    (hstored : ∃ w, v.record.workflow = some w ∧ Descends w₀ w) (hexecuting : ∀ pc ∈ v.executing, pc.Descends w₀)
    (huses : ∀ u ∈ v.uses, ∀ w ∈ u.2.instances, Descends w₀ w) : Lineage r w₀ s' := by
  subst hv
  refine ⟨hstored, fun snap hsnap => ?_, hexecuting, huses⟩
  rcases System.step_snapshots hs hsnap with hold | ⟨pc, hpc, hw⟩ | ⟨u, hu, hw⟩
  · exact h.snapshots snap hold
  · exact (h.executing pc hpc).instances _ hw
  · exact h.uses u hu _ hw

/-- Whatever happens, every instance of the run keeps going back to the one it was created as. -/
theorem Lineage.step (hi₀ : Instantiates d w₀) (hc : s.Coherent) (h : Lineage r w₀ s)
    (hs : s.step world e = some s') : Lineage r w₀ s' := by
  obtain ⟨stored, hget, hstored⟩ := h.stored
  cases System.step_run (r := r) hc hs with
  | same _ _ hv | runSaved _ _ _ _ _ _ _ _ _ _ _ hv | replayed _ _ _ _ hv =>
    exact h.of_step hs hv h.stored h.executing h.uses
  | opened k pcs replays _ hnew _ hv =>
    refine h.of_step hs hv h.stored (fun pc hpc => ?_) h.uses
    rcases List.mem_append.1 hpc with hold | hpc
    · exact h.executing pc hold
    · rcases hnew with rfl | rfl
      · cases hpc
      · rw [List.mem_singleton.1 hpc]
        exact ExecPc.descends_of_nil rfl
  | executed k i pc now x before after _ hx hown hbusy hv =>
    have hpc : pc ∈ s.executing r := by simp [hbusy]
    have hseg := Lineal.resume hi₀ h.stored hc.stores hown (h.executing pc hpc) hx
    refine h.of_step hs hv hseg.stored (fun pc' hpc' => ?_) h.uses
    rcases List.mem_append.1 hpc' with hpc' | hafter
    · rcases List.mem_append.1 hpc' with hbefore | hpc'
      · exact h.executing pc' (by simp [hbusy, hbefore])
      · rcases ExecPc.running_segment x.2 with ⟨hrun, _⟩ | ⟨hrun, _⟩ <;> rw [hrun] at hpc'
        · rw [List.mem_singleton.1 hpc']
          exact hseg.pc
        · cases hpc'
    · exact h.executing pc' (by simp [hbusy, hafter])
  | called wanted _ hv =>
    refine h.of_step hs hv h.stored h.executing (fun u hu w hw => ?_)
    rcases List.mem_append.1 hu with hold | hu
    · exact h.uses u hold w hw
    · rw [List.mem_singleton.1 hu, show (s.stores.record r).workflow = some stored from hget] at hw
      rw [List.mem_singleton.1 hw]
      exact hstored
  | used i reply wanted pc x before after _ _ hx hown hbusy hv =>
    have hu : (wanted, pc) ∈ (s.view r).uses := by simp [hbusy]
    obtain ⟨hstored', hinst⟩ := Use.resume_descends h.stored hc.stores hown (h.uses _ hu) hx
    refine h.of_step hs hv hstored' h.executing (fun u' hu' => ?_)
    rcases List.mem_append.1 hu' with hu' | hafter
    · rcases List.mem_append.1 hu' with hbefore | hu'
      · exact h.uses u' (by simp [hbusy, hbefore])
      · obtain ⟨pc', hpc', rfl⟩ := Option.map_eq_some_iff.1 (Option.mem_toList.1 hu')
        cases hx₂ : x.2 with
        | settled result => simp [hx₂, UsePc.running] at hpc'
        | _ =>
          rw [hx₂] at hpc' hinst
          cases hpc'
          exact hinst
    · exact h.uses u' (by simp [hbusy, hafter])
  | created i reply definition jobId trigger input before after _ _ hid hfresh =>
    have hknown := (hc.stores.getByRunId_owns hget).2
    rw [← hid, hfresh.1] at hknown
    cases hknown
  | restored version now snap _ hsnap hv =>
    obtain ⟨hlater, hstatus⟩ := h.snapshots snap (Stores.findSnapshot_mem hsnap)
    exact h.of_step hs hv ⟨_, rfl, ⟨hlater.identity, hlater.context⟩, hstatus⟩ h.executing h.uses

/-- What `createRun` has read was registered. -/
def System.ReadsAccepted (s : System) : Prop :=
  ∀ jobId trigger input d, Call.create jobId trigger input (.definitionRead (some d)) ∈ s.calls → Accepted d

theorem System.execute_reads {k : Nat} {r' : RunId} (h : s.ReadsAccepted) : (s.execute k r').ReadsAccepted := by
  intro jobId trigger input d hmem
  rcases mem_calls_spawn hmem with hmem | he
  · exact h jobId trigger input d hmem
  · cases he

theorem System.step_reads (hc : s.Coherent) (h : s.ReadsAccepted) (hs : s.step world e = some s') :
    s'.ReadsAccepted := by
  have hspawn : ∀ call, (∀ jobId trigger input d, call ≠ .create jobId trigger input (.definitionRead (some d))) →
      (s.spawn s.stores call).ReadsAccepted := fun call hcall jobId trigger input d hmem => by
    rcases mem_calls_spawn hmem with hmem | he
    · exact h jobId trigger input d hmem
    · exact absurd he.symm (hcall jobId trigger input d)
  have hsuspend : ∀ {i : Nat} {st : Stores} {call : Call},
      (∀ jobId trigger input d, call ≠ .create jobId trigger input (.definitionRead (some d))) →
      (s.suspend i st call).ReadsAccepted := fun hcall jobId trigger input d hmem => by
    rcases mem_calls_suspend hmem with hmem | he
    · exact h jobId trigger input d hmem
    · exact absurd he.symm (hcall jobId trigger input d)
  cases System.step_cases hs with
  | registered | notRegistered | restored | notRestored | acquired | notAcquired | released => exact h
  | @createCalled jobId =>
    intro jobId' trigger' input' d hmem
    rcases mem_calls_spawn hmem with hmem | he
    · exact h _ _ _ d hmem
    · cases hd : s.stores.jobs.get jobId with
      | none =>
        rw [hd] at he
        cases he
      | some found =>
        rw [hd] at he
        cases he
        exact (hc.stores.jobs _ _ hd).2
  | executeCalled => exact System.execute_reads h
  | useCalled | replayCalled => exact hspawn _ (by simp)
  | executed | used | replayed => exact hsuspend (by simp)
  | created hi hx =>
    refine hsuspend fun _ _ _ d he => ?_
    obtain ⟨_, _, _, hpc⟩ := Call.create.inj he
    -- no segment goes back to the first await
    cases hx <;> cases hpc
  | replayExecutes => exact System.execute_reads (hsuspend (by simp))

/-- The run is unknown, or its instances go back to one that was made from an accepted definition. -/
structure Traced (r : RunId) (s : System) : Prop where
  coherent : s.Coherent
  reads : s.ReadsAccepted
  lineage : s.stores.getByRunId r = none ∨ ∃ d w₀, Accepted d ∧ Instantiates d w₀ ∧ Lineage r w₀ s

theorem Stores.Coherent.getByRunId_eq_none {st : Stores} (hc : st.Coherent) :
    st.getByRunId r = none ↔ st.workflowOfRun.get r = none := by
  constructor
  · intro hnone
    cases hid : st.workflowOfRun.get r with
    | none => rfl
    | some id =>
      obtain ⟨w, hw, _⟩ := hc.getByRunId_isSome hid
      rw [hnone] at hw
      cases hw
  · intro hnone
    simp [Stores.getByRunId, hnone]

/-- A segment of a call for an unknown run. -/
theorem Effect.unknown {k : Nat} {held ws : List WorkflowInstance} {seg : Segment} {st st' : Stores}
    (he : Effect k r held st seg st' ws) (hc : st.Coherent) (ho : ∀ w ∈ held, st.Owns r w)
    (h : st.getByRunId r = none) : st'.getByRunId r = none := by
  obtain ⟨hc', hw, _⟩ := he.coherent hc ho
  rw [hc'.getByRunId_eq_none, hw]
  exact hc.getByRunId_eq_none.1 h

theorem System.Coherent.executing_owns (hc : s.Coherent) {pc : ExecPc} (hpc : pc ∈ s.executing r)
    {w : WorkflowInstance} (hw : w ∈ pc.instances) : s.stores.Owns r w := by
  obtain ⟨c, hmem, hcall⟩ := List.mem_filterMap.1 hpc
  cases c with
  | execute k r' pc' =>
    simp only [Call.executing] at hcall
    split at hcall
    · rename_i hr
      subst hr
      rcases ExecPc.running_segment pc' with ⟨hrun, _⟩ | ⟨hrun, _⟩ <;> rw [hrun] at hcall <;> cases hcall
      exact hc.calls _ hmem w hw
    · cases hcall
  | _ => cases hcall

theorem System.Coherent.uses_owns (hc : s.Coherent) {u : Use × UsePc} (hu : u ∈ (s.view r).uses)
    {w : WorkflowInstance} (hw : w ∈ u.2.instances) : s.stores.Owns r w := by
  obtain ⟨c, hmem, hcall⟩ := List.mem_filterMap.1 hu
  cases c with
  | use r' wanted pc =>
    simp only [Call.uses] at hcall
    split at hcall
    · rename_i hr
      subst hr
      cases pc with
      | settled result => cases hcall
      | _ =>
        cases hcall
        exact hc.calls _ hmem w hw
    · cases hcall
  | _ => cases hcall

theorem Traced.step (h : Traced r s) (hs : s.step world e = some s') : Traced r s' := by
  have hc := h.coherent
  refine ⟨hc.step hs, System.step_reads hc h.reads hs, ?_⟩
  rcases h.lineage with hnone | ⟨d, w₀, ha, hi, hl⟩
  · have hid : s.stores.workflowOfRun.get r = none := hc.stores.getByRunId_eq_none.1 hnone
    have hunowned : ∀ w, ¬ s.stores.Owns r w := fun w hw => by
      have hown := hw.2
      rw [hid] at hown
      cases hown
    have hsame : ∀ {v : RunView}, s'.view r = v → v.record.workflow = none → s'.stores.getByRunId r = none :=
      fun hv hrec => (congrArg (fun v => v.record.workflow) hv).trans hrec
    cases System.step_run (r := r) hc hs with
    | same _ _ hv | called _ _ hv | replayed _ _ _ _ hv => exact .inl (hsame hv hnone)
    | opened k pcs replays _ _ _ hv => exact .inl (hsame hv hnone)
    | executed k i pc now x before after _ hx hown _ hv =>
      exact .inl (hsame hv ((ExecutionService.resume_effect hx).unknown hc.stores hown hnone))
    | used i reply wanted pc x before after _ _ hx hown _ hv =>
      exact .inl (hsame hv ((Use.resume_effect (k := 0) hx).unknown hc.stores hown hnone))
    | runSaved i reply jobId trigger input run before after _ _ _ hv => exact .inl (hsame hv hnone)
    | restored version now snap _ hsnap hv =>
      exact absurd (hc.stores.snapshots r snap (Stores.findSnapshot_mem hsnap)) (hunowned _)
    | created i reply definition jobId trigger input before after _ hi hid' hfresh _ hv =>
      have ha := h.reads _ _ _ definition (List.mem_of_getElem? hi)
      let w₀ := WorkflowService.newWorkflow definition jobId input reply.uuids reply.now
      have hqueued : ∀ t ∈ w₀.tasks, t.status = .queued := fun t ht => (newWorkflow_untouched t ht).status
      have hdescends : Descends w₀ w₀ := ⟨⟨rfl, rfl⟩, fun t ht => by simp [hqueued t ht]⟩
      -- nobody had an instance of the run before
      have hexecuting : ∀ pc ∈ s.executing r, ∀ w, w ∉ pc.instances := fun pc hpc w hw =>
        hunowned w (hc.executing_owns hpc hw)
      have huses : ∀ u ∈ (s.view r).uses, ∀ w, w ∉ u.2.instances := fun u hu w hw => hunowned w (hc.uses_owns hu hw)
      refine .inr ⟨definition, w₀, ha, newWorkflow_instantiates hfresh.2.2.1 hfresh.2.2.2,
        ⟨w₀, congrArg (fun v => v.record.workflow) hv, hdescends⟩, fun snap hsnap => ?_, fun pc hpc => ?_,
        fun u hu w hw => ?_⟩
      · rcases System.step_snapshots hs hsnap with hold | ⟨pc, hpc, hw⟩ | ⟨u, hu, hw⟩
        · exact absurd (hc.stores.snapshots r snap hold) (hunowned _)
        · exact absurd hw (hexecuting pc hpc _)
        · exact absurd hw (huses u hu _)
      · have hpc' : pc ∈ s.executing r := by
          rw [show s'.executing r = s.executing r from congrArg RunView.executing hv] at hpc
          exact hpc
        exact ExecPc.descends_of_nil (List.eq_nil_iff_forall_not_mem.2 (hexecuting pc hpc'))
      · rw [hv] at hu
        exact absurd hw (huses u hu w)
  · exact .inr ⟨d, w₀, ha, hi, hl.step hi hc hs⟩

theorem System.Reachable.traced (h : System.Reachable world s) (r : RunId) : Traced r s :=
  EventSystem.Reachable.invariant ⟨System.empty_coherent, fun _ _ _ _ hmem => absurd hmem List.not_mem_nil, .inl rfl⟩
    (fun _ _ _ h hs => h.step hs) h

/-- In every reachable state the instances of a run go back to the one that `createRun` has made. -/
theorem System.Reachable.lineage (h : System.Reachable world s) {w : WorkflowInstance}
    (hw : s.stores.getByRunId r = some w) : ∃ d w₀, Accepted d ∧ Instantiates d w₀ ∧ Lineage r w₀ s := by
  rcases (h.traced r).lineage with hnone | hl
  · rw [hnone] at hw
    cases hw
  · exact hl

end

end Jobflow
