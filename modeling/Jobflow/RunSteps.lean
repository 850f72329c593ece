import Jobflow.Locks

/-!
# What a step does to one run

`RunView` is all that a state has about one run: what the stores hold, and where the unsettled calls that concern it
are suspended. `RunStep` lists what a step can do to the view of a run. Facts about a run that several callers work on
at the same time are proved from this list.
-/

namespace Jobflow

/-! ## The unsettled calls of a run -/

/-- The await, if the caller has not settled. -/
def UsePc.running : UsePc → Option UsePc
  | .settled _ => none
  | pc => some pc

def ReplayPc.running : ReplayPc → Option ReplayPc
  | .settled _ => none
  | pc => some pc

/-- What the call wants with the workflow of run `r`, and where it is suspended. -/
def Call.uses (r : RunId) : Call → Option (Use × UsePc)
  | .use r' wish pc => if r' = r then pc.running.map (wish, ·) else none
  | _ => none

/-- The `JobRun` the call is about to save, if it is the one of run `r`. -/
def Call.creating (r : RunId) : Call → Option JobRun
  | .create _ _ _ (.workflowSaved run) => if run.id = r then some run else none
  | _ => none

def Call.replaying (r : RunId) : Call → Option (Nat × ReplayPc)
  | .replay k r' pc => if r' = r then pc.running.map (k, ·) else none
  | _ => none

@[ext] structure RunView where
  record : RunRecord
  executing : List ExecPc
  uses : List (Use × UsePc)
  creating : List JobRun
  replaying : List (Nat × ReplayPc)

def System.view (s : System) (r : RunId) : RunView where
  record := s.stores.record r
  executing := s.executing r
  uses := s.calls.filterMap (Call.uses r)
  creating := s.calls.filterMap (Call.creating r)
  replaying := s.calls.filterMap (Call.replaying r)

/-- No unsettled call concerns the run. -/
structure RunView.AtRest (v : RunView) : Prop where
  executing : v.executing = []
  uses : v.uses = []
  creating : v.creating = []
  replaying : v.replaying = []

/-- The event resumes call number `i`, which executes run `r` and is suspended at `pc`. -/
def Event.Resumes (s : System) (r : RunId) (e : Event) (k i : Nat) (pc : ExecPc) (now : ISODateString) : Prop :=
  ∃ reply : Reply, e = .resume i reply ∧ reply.now = now ∧ s.calls[i]? = some (.execute k r pc)

/-! ## What a step does to the view of a run -/

inductive RunStep (world : World) (r : RunId) (s : System) (e : Event) (s' : System) : Prop where
  | same (ho : ∀ k, e.opens s ≠ some (k, r)) (hn : ∀ k i pc now, ¬ e.Resumes s r k i pc now)
      (hv : s'.view r = s.view r)
  /-- `executeRun` is called. -/
  | opened (k : Nat) (pcs : List ExecPc) (replays : List (Nat × ReplayPc)) (ho : e.opens s = some (k, r))
      (hpcs : pcs = [] ∨ pcs = [.runRead (s.stores.record r).run])
      (hreplays : replays = [] ∨ (s.view r).replaying ≠ [])
      (hv : s'.view r = { s.view r with executing := s.executing r ++ pcs, replaying := replays })
  /-- A segment of `executeRun`. -/
  | executed (k i : Nat) (pc : ExecPc) (now : ISODateString) (x : Stores × ExecPc) (before after : List ExecPc)
      (he : e.Resumes s r k i pc now)
      (hx : ExecutionService.resume world k r s.stores now pc = some x)
      (hown : ∀ w ∈ pc.instances, s.stores.Owns r w)
      (hpcs : s.executing r = before ++ pc :: after)
      (hv : s'.view r =
        { s.view r with record := x.1.record r, executing := before ++ x.2.running.toList ++ after })
  | called (use : Use) (he : e = .use r use)
      (hv : s'.view r =
        { s.view r with uses := (s.view r).uses ++ [(use, .read (s.stores.record r).workflow)] })
  /-- A segment of a caller that uses the workflow. -/
  | used (i : Nat) (reply : Reply) (use : Use) (pc : UsePc) (x : Stores × UsePc) (before after : List (Use × UsePc))
      (he : e = .resume i reply) (hi : s.calls[i]? = some (.use r use pc))
      (hx : use.resume world r s.stores reply.now pc = some x)
      (hown : ∀ w ∈ pc.instances, s.stores.Owns r w)
      (huses : (s.view r).uses = before ++ (use, pc) :: after)
      (hv : s'.view r =
        { s.view r with
          record := x.1.record r
          uses := before ++ (x.2.running.map (use, ·)).toList ++ after })
  /-- `createRun` saves the workflow of the new run. -/
  | created (i : Nat) (reply : Reply) (definition : JobDefinition) (jobId : JobId) (trigger : String)
      (input : Js.Record) (before after : List JobRun) (he : e = .resume i reply)
      (hi : s.calls[i]? = some (.create jobId trigger input (.definitionRead (some definition))))
      (hid : newRunId reply.uuids.run = r) (hfresh : reply.uuids.Fresh s.stores definition)
      (hcreating : (s.view r).creating = before ++ after)
      (hv : s'.view r =
        { s.view r with
          record := { s.stores.record r with
            workflow := some (WorkflowService.newWorkflow definition jobId input reply.uuids reply.now) }
          creating := before ++ WorkflowService.newRun jobId trigger input reply.uuids reply.now :: after })
  /-- `createRun` saves the `JobRun`. -/
  | runSaved (i : Nat) (reply : Reply) (jobId : JobId) (trigger : String) (input : Js.Record) (run : JobRun)
      (before after : List JobRun) (he : e = .resume i reply)
      (hi : s.calls[i]? = some (.create jobId trigger input (.workflowSaved run)))
      (hcreating : (s.view r).creating = before ++ run :: after)
      (hv : s'.view r =
        { s.view r with record := { s.stores.record r with run := some run }, creating := before ++ after })
  | restored (version : Option Nat) (now : ISODateString) (snap : RunSnapshot)
      (he : e = .restoreToCheckpoint r version now) (hsnap : s.stores.findSnapshot r version = some snap)
      (hv : s'.view r =
        { s.view r with
          record := { s.stores.record r with workflow := some { snap.workflow with updatedAt := now } } })
  /-- A segment of `replay` that does not call `executeRun`. -/
  | replayed (replays : List (Nat × ReplayPc)) (he : (∃ k, e = .replay k r) ∨ (s.view r).replaying ≠ [])
      (ho : ∀ k, e.opens s ≠ some (k, r)) (hn : ∀ k i pc now, ¬ e.Resumes s r k i pc now)
      (hv : s'.view r = { s.view r with replaying := replays })

/-! ## Every step is on the list -/

section
variable {world : World} {r : RunId} {s s' : System} {e : Event}

/-- Replacing a call by one that the filter sees in the same way. -/
theorem filterMap_set_same {β : Type} {f : Call → Option β} {l : List Call} {i : Nat} {old call : Call}
    (hi : l[i]? = some old) (h : f call = f old) : (l.set i call).filterMap f = l.filterMap f := by
  obtain ⟨h₁, h₂⟩ := filterMap_set f call hi
  rw [h₁, h₂, h]

theorem filterMap_snoc {β : Type} (f : Call → Option β) (l : List Call) (call : Call) :
    (l ++ [call]).filterMap f = l.filterMap f ++ (f call).toList := by
  cases h : f call <;> simp [h]

/-- What concerns run `r` in one call. -/
structure Call.Agrees (r : RunId) (c c' : Call) : Prop where
  executing : c.executing r = c'.executing r
  uses : c.uses r = c'.uses r
  creating : c.creating r = c'.creating r
  replaying : c.replaying r = c'.replaying r

theorem view_suspend {i : Nat} {st : Stores} {old call : Call} (hi : s.calls[i]? = some old)
    (h : call.Agrees r old) (hrec : st.record r = s.stores.record r) : (s.suspend i st call).view r = s.view r :=
  RunView.ext hrec (filterMap_set_same hi h.executing) (filterMap_set_same hi h.uses)
    (filterMap_set_same hi h.creating) (filterMap_set_same hi h.replaying)

/-- A new call that does not concern run `r`. -/
theorem view_spawn {st : Stores} {call : Call} (he : call.executing r = none) (hu : call.uses r = none)
    (hc : call.creating r = none) (hp : call.replaying r = none) (hrec : st.record r = s.stores.record r) :
    (s.spawn st call).view r = s.view r := by
  refine RunView.ext hrec ?_ ?_ ?_ ?_
  · exact executing_spawn.trans (by rw [he]; simp [System.view])
  · exact (filterMap_snoc _ _ _).trans (by rw [hu]; simp [System.view])
  · exact (filterMap_snoc _ _ _).trans (by rw [hc]; simp [System.view])
  · exact (filterMap_snoc _ _ _).trans (by rw [hp]; simp [System.view])

/-- An event that resumes no call. -/
theorem Event.not_resumes {k i : Nat} {pc : ExecPc} {now : ISODateString} (h : ∀ j reply, e ≠ .resume j reply) :
    ¬ e.Resumes s r k i pc now := fun ⟨reply, he, _⟩ => h i reply he

/-- An event that resumes another kind of call, or one for another run. -/
theorem Event.not_resumes_call {j k i : Nat} {reply : Reply} {pc : ExecPc} {now : ISODateString} {c : Call}
    (hi : s.calls[j]? = some c) (hc : ∀ k pc, c ≠ .execute k r pc) :
    ¬ (Event.resume j reply).Resumes s r k i pc now := by
  rintro ⟨_, he, _, hcall⟩
  cases he
  rw [hi] at hcall
  exact hc k pc (Option.some.inj hcall)

/-- The event does nothing that concerns run `r`. -/
theorem RunStep.of_stores (ho : e.opens s = none) (hn : ∀ j reply, e ≠ .resume j reply) (st : Stores)
    (hrec : st.record r = s.stores.record r) : RunStep world r s e { s with stores := st } :=
  .same (fun k h => by rw [ho] at h; cases h) (fun _ _ _ _ => Event.not_resumes hn)
    (RunView.ext hrec rfl rfl rfl rfl)

/-- An event that calls `executeRun` does not resume it. -/
theorem Event.opens_not_resumes {k k' i : Nat} {r' : RunId} {pc : ExecPc} {now : ISODateString}
    (ho : e.opens s = some (k', r')) : ¬ e.Resumes s r k i pc now := by
  rintro ⟨reply, rfl, _, hi⟩
  rw [Event.opens, hi] at ho
  cases ho

/-- What `executeRun` does up to its first await. -/
theorem executeRun_view (k : Nat) (r : RunId) (st : Stores) :
    (ExecutionService.executeRun k r st).1.record r = st.record r ∧
      ((ExecutionService.executeRun k r st).2.running = none ∨
        (ExecutionService.executeRun k r st).2.running = some (.runRead (st.record r).run)) := by
  unfold ExecutionService.executeRun
  split
  · exact ⟨rfl, .inl rfl⟩
  · rcases Stores.acquire_owner st r k with ⟨⟨err, ha⟩, _⟩ | ⟨ha, _⟩
    · simp only [ha]
      exact ⟨rfl, .inl rfl⟩
    · simp only [ha]
      exact ⟨rfl, .inr rfl⟩

/-- The segment that calls `executeRun`; `t` is the state once a replay that makes the call has been suspended. -/
theorem RunStep.of_execute {t : System} {k : Nat} {r' : RunId} (hc : s.Coherent)
    (ho : e.opens s = some (k, r')) (hst : t.stores = s.stores) (he : t.executing r = s.executing r)
    (hu : (t.view r).uses = (s.view r).uses) (hcr : (t.view r).creating = (s.view r).creating)
    (hrep : (t.view r).replaying = (s.view r).replaying ∨ r' = r ∧ (s.view r).replaying ≠ []) :
    RunStep world r s e (t.execute k r') := by
  have hviews : ((t.execute k r').view r).uses = (s.view r).uses ∧
      ((t.execute k r').view r).creating = (s.view r).creating ∧
      ((t.execute k r').view r).replaying = (t.view r).replaying := by
    refine ⟨(filterMap_snoc _ _ _).trans ?_, (filterMap_snoc _ _ _).trans ?_, (filterMap_snoc _ _ _).trans ?_⟩
    · simpa [Call.uses, System.view] using hu
    · simpa [Call.creating, System.view] using hcr
    · simp [Call.replaying, System.view]
  obtain ⟨huses, hcreating, hreplaying⟩ := hviews
  have hexec : (t.execute k r').executing r = s.executing r ++
      ((Call.execute k r' (ExecutionService.executeRun k r' t.stores).2).executing r).toList :=
    executing_spawn.trans (by rw [he])
  by_cases hr : r' = r
  · subst hr
    obtain ⟨hrec, hpcs⟩ := executeRun_view k r' t.stores
    simp only [Call.executing, if_true] at hexec
    refine .opened k (ExecutionService.executeRun k r' t.stores).2.running.toList (t.view r').replaying ho ?_ ?_
      (RunView.ext ?_ hexec huses hcreating hreplaying)
    · rw [← hst]
      rcases hpcs with hnone | hread
      · exact .inl (by rw [hnone]; rfl)
      · exact .inr (by rw [hread]; rfl)
    · rcases hrep with hsame | ⟨_, hne⟩
      · rw [hsame]
        exact Classical.em _
      · exact .inr hne
    · exact hrec.trans (by rw [hst]; rfl)
  · have hne : ∀ k', e.opens s ≠ some (k', r) := fun k' h => by
      rw [ho] at h
      exact hr (congrArg Prod.snd (Option.some.inj h))
    obtain ⟨hrec, _⟩ := (ExecutionService.executeRun_effect k r' s.stores).frame hc.stores (by simp) hr
    refine .same hne (fun _ _ _ _ => Event.opens_not_resumes ho) (RunView.ext ?_ ?_ huses hcreating ?_)
    · rw [← hst] at hrec
      exact hrec.trans (by rw [hst]; rfl)
    · refine hexec.trans ?_
      simp [Call.executing, hr, System.view]
    · rcases hrep with hsame | ⟨h, _⟩
      · exact hreplaying.trans hsame
      · exact absurd h hr

/-- A segment of a call of `executeRun`. -/
theorem RunStep.of_resume {i k : Nat} {r' : RunId} {pc : ExecPc} {reply : Reply} {x : Stores × ExecPc}
    (hc : s.Coherent) (hi : s.calls[i]? = some (.execute k r' pc))
    (hx : ExecutionService.resume world k r' s.stores reply.now pc = some x) :
    RunStep world r s (.resume i reply) (s.suspend i x.1 (.execute k r' x.2)) := by
  have hown := hc.calls _ (List.mem_of_getElem? hi)
  have hrun := ExecutionService.resume_running hx
  by_cases hr : r' = r
  · subst hr
    obtain ⟨h₁, h₂⟩ := filterMap_set (Call.executing r') (.execute k r' x.2) hi
    have hold : (Call.execute k r' pc).executing r' = some pc := by simp [Call.executing, hrun]
    have hnew : (Call.execute k r' x.2).executing r' = x.2.running := by simp [Call.executing]
    rw [hold] at h₁
    rw [hnew] at h₂
    refine .executed k i pc reply.now x _ _ ⟨reply, rfl, rfl, hi⟩ hx hown (h₁.trans ?_)
      (RunView.ext rfl h₂ (filterMap_set_same hi rfl) (filterMap_set_same hi rfl) (filterMap_set_same hi rfl))
    simp
  · obtain ⟨hrec, _⟩ := (ExecutionService.resume_effect hx).frame hc.stores hown hr
    refine .same (fun k' h => ?_) (fun _ _ _ _ => Event.not_resumes_call hi fun k' pc' h => ?_)
      (view_suspend hi ⟨?_, rfl, rfl, rfl⟩ hrec)
    · simp [Event.opens, hi] at h
    · cases h
      exact hr rfl
    · simp [Call.executing, hr]

/-- A segment of a caller that uses a workflow. -/
theorem RunStep.of_use {i : Nat} {r' : RunId} {use : Use} {pc : UsePc} {reply : Reply} {x : Stores × UsePc}
    (hc : s.Coherent) (hi : s.calls[i]? = some (.use r' use pc))
    (hx : use.resume world r' s.stores reply.now pc = some x) :
    RunStep world r s (.resume i reply) (s.suspend i x.1 (.use r' use x.2)) := by
  have hown := hc.calls _ (List.mem_of_getElem? hi)
  by_cases hr : r' = r
  · subst hr
    have hrun : pc.running = some pc := by
      cases pc with
      | settled result => cases hx
      | _ => rfl
    obtain ⟨h₁, h₂⟩ := filterMap_set (Call.uses r') (.use r' use x.2) hi
    have hold : (Call.use r' use pc).uses r' = some (use, pc) := by simp [Call.uses, hrun]
    have hnew : (Call.use r' use x.2).uses r' = x.2.running.map (use, ·) := by simp [Call.uses]
    rw [hold] at h₁
    rw [hnew] at h₂
    refine .used i reply use pc x _ _ rfl hi hx hown (h₁.trans ?_)
      (RunView.ext rfl (filterMap_set_same hi rfl) h₂ (filterMap_set_same hi rfl) (filterMap_set_same hi rfl))
    simp
  · obtain ⟨hrec, _⟩ := (Use.resume_effect (k := 0) hx).frame hc.stores hown hr
    refine .same (fun k' h => ?_) (fun _ _ _ _ => Event.not_resumes_call hi fun k' pc' h => by cases h)
      (view_suspend hi ⟨rfl, ?_, rfl, rfl⟩ hrec)
    · simp [Event.opens, hi] at h
    · simp [Call.uses, hr]


/-- A segment of a call of `createRun`. -/
theorem RunStep.of_create {i : Nat} {jobId : JobId} {trigger : String} {input : Js.Record} {pc pc' : CreatePc}
    {reply : Reply} {st : Stores} (hc : s.Coherent) (hi : s.calls[i]? = some (.create jobId trigger input pc))
    (hx : CreateStep jobId trigger input s.stores reply pc st pc') :
    RunStep world r s (.resume i reply) (s.suspend i st (.create jobId trigger input pc')) := by
  have hsame : st.record r = s.stores.record r →
      (Call.create jobId trigger input pc').creating r = (Call.create jobId trigger input pc).creating r →
      RunStep world r s (.resume i reply) (s.suspend i st (.create jobId trigger input pc')) := fun hrec hcr => by
    refine .same (fun k h => ?_) (fun _ _ _ _ => Event.not_resumes_call hi fun k pc h => by cases h)
      (view_suspend hi ⟨rfl, rfl, hcr, rfl⟩ hrec)
    simp [Event.opens, hi] at h
  obtain ⟨before, after, h₁, h₂⟩ : ∃ before after, s.calls.filterMap (Call.creating r) =
        before ++ ((Call.create jobId trigger input pc).creating r).toList ++ after ∧
      (s.calls.set i (.create jobId trigger input pc')).filterMap (Call.creating r) =
        before ++ ((Call.create jobId trigger input pc').creating r).toList ++ after :=
    ⟨_, _, filterMap_set _ _ hi⟩
  cases hx with
  | missing | returned => exact hsame rfl rfl
  | @workflowSaved definition hfresh =>
    by_cases hr : newRunId reply.uuids.run = r
    · have hnew : (Call.create jobId trigger input (.workflowSaved
          (WorkflowService.newRun jobId trigger input reply.uuids reply.now))).creating r =
          some (WorkflowService.newRun jobId trigger input reply.uuids reply.now) := if_pos hr
      rw [hnew] at h₂
      refine .created i reply definition jobId trigger input before after rfl hi hr hfresh (h₁.trans ?_)
        (RunView.ext ?_ (filterMap_set_same hi rfl) (filterMap_set_same hi rfl) (h₂.trans ?_)
          (filterMap_set_same hi rfl))
      · simp [Call.creating]
      · have hget := s.stores.getByRunId_saveWorkflow_self (WorkflowService.newWorkflow definition jobId input
          reply.uuids reply.now) (newWorkflowId_ne_empty _)
        rw [show (WorkflowService.newWorkflow definition jobId input reply.uuids reply.now).runId = r from hr]
          at hget
        simp only [System.view, System.suspend, Stores.record, hget]
        rfl
      · simp
    · exact hsame (hc.stores.record_saveNew_ne hfresh.2.1 hr) (if_neg hr)
  | @runSaved run =>
    by_cases hr : run.id = r
    · have hold : (Call.create jobId trigger input (.workflowSaved run)).creating r = some run := if_pos hr
      rw [hold] at h₁
      refine .runSaved i reply jobId trigger input run before after rfl hi (h₁.trans ?_)
        (RunView.ext ?_ (filterMap_set_same hi rfl) (filterMap_set_same hi rfl) (h₂.trans ?_)
          (filterMap_set_same hi rfl))
      · simp
      · exact record_saveRun_self hr
      · simp [Call.creating]
    · exact hsame (record_saveRun_ne hr) (if_neg hr).symm

/-- Whoever replays the run shows in its view. -/
theorem view_replaying_ne_nil {i k : Nat} {pc : ReplayPc} (hi : s.calls[i]? = some (.replay k r pc))
    (hpc : ∀ result, pc ≠ .settled result) : (s.view r).replaying ≠ [] := by
  intro hnil
  have hmem : (k, pc) ∈ (s.view r).replaying := by
    refine List.mem_filterMap.2 ⟨_, List.mem_of_getElem? hi, ?_⟩
    cases pc with
    | settled result => exact absurd rfl (hpc result)
    | _ => simp [Call.replaying, ReplayPc.running]
  rw [hnil] at hmem
  cases hmem

/-- A segment of `replay` that leaves the stores alone. -/
theorem RunStep.of_replay {i k : Nat} {r' : RunId} {pc pc' : ReplayPc} {reply : Reply}
    (hi : s.calls[i]? = some (.replay k r' pc)) (hpc : ∀ result, pc ≠ .settled result)
    (hread : ∀ before, pc ≠ .read (some before)) :
    RunStep world r s (.resume i reply) (s.suspend i s.stores (.replay k r' pc')) := by
  have hn : ∀ k' j pc now, ¬ (Event.resume i reply).Resumes s r k' j pc now := fun _ _ _ _ =>
    Event.not_resumes_call hi fun k pc h => by cases h
  have hopens : ∀ k', (Event.resume i reply).opens s ≠ some (k', r) := fun k' h => by
    rw [Event.opens_replay hi hread] at h
    cases h
  by_cases hr : r' = r
  · subst hr
    exact .replayed _ (.inr (view_replaying_ne_nil hi hpc)) hopens hn
      (RunView.ext rfl (filterMap_set_same hi rfl) (filterMap_set_same hi rfl) (filterMap_set_same hi rfl) rfl)
  · exact .same hopens hn (view_suspend hi ⟨rfl, rfl, rfl, by simp [Call.replaying, hr]⟩ rfl)

/-- Every step is on the list. -/
theorem System.step_run (hc : s.Coherent) (h : s.step world e = some s') : RunStep world r s e s' := by
  cases System.step_cases h with
  | registered | acquired | released => exact .of_stores rfl (by simp) _ rfl
  | notRegistered | notRestored | notAcquired => exact .of_stores rfl (by simp) s.stores rfl
  | createCalled =>
    exact .same (fun _ h => by cases h) (fun _ _ _ _ => Event.not_resumes (by simp)) (view_spawn rfl rfl rfl rfl rfl)
  | executeCalled => exact .of_execute hc rfl rfl rfl rfl rfl (.inl rfl)
  | @useCalled r' use =>
    have hn : ∀ k i pc now, ¬ (Event.use r' use).Resumes s r k i pc now := fun _ _ _ _ =>
      Event.not_resumes (by simp)
    by_cases hr : r' = r
    · subst hr
      refine .called use rfl (RunView.ext rfl ?_ ?_ ?_ ?_)
      · exact executing_spawn.trans (by simp [Call.executing, System.view])
      · refine (filterMap_snoc _ _ _).trans ?_
        simp [Call.uses, UsePc.running, System.view, Stores.record]
      · exact (filterMap_snoc _ _ _).trans (by simp [Call.creating, System.view])
      · exact (filterMap_snoc _ _ _).trans (by simp [Call.replaying, System.view])
    · exact .same (fun _ h => by cases h) hn (view_spawn rfl (by simp [Call.uses, hr]) rfl rfl rfl)
  | @replayCalled k r' =>
    have hn : ∀ k' i pc now, ¬ (Event.replay k r').Resumes s r k' i pc now := fun _ _ _ _ =>
      Event.not_resumes (by simp)
    by_cases hr : r' = r
    · subst hr
      refine .replayed _ (.inl ⟨k, rfl⟩) (fun _ h => by cases h) hn (RunView.ext rfl ?_ ?_ ?_ rfl)
      · exact executing_spawn.trans (by simp [Call.executing, System.view])
      · exact (filterMap_snoc _ _ _).trans (by simp [Call.uses, System.view])
      · exact (filterMap_snoc _ _ _).trans (by simp [Call.creating, System.view])
    · exact .same (fun _ h => by cases h) hn (view_spawn rfl rfl rfl (by simp [Call.replaying, hr]) rfl)
  | @restored r' version now snap hsnap =>
    have hown := hc.stores.restored_owns hsnap now
    by_cases hr : r' = r
    · subst hr
      have hget := s.stores.getByRunId_saveWorkflow_self { snap.workflow with updatedAt := now }
        (hc.stores.stored r' _ hown.2).1
      rw [hown.1] at hget
      refine .restored version now snap rfl hsnap (RunView.ext ?_ rfl rfl rfl rfl)
      simp only [System.view, Stores.record, hget]
      rfl
    · exact .of_stores rfl (by simp) _ (hc.stores.record_save_ne hown hr)
  | executed hi hx => exact .of_resume hc hi hx
  | created hi hx => exact .of_create hc hi hx
  | used hi hx => exact .of_use hc hi hx
  | replayed hi hpc hread => exact .of_replay hi hpc hread
  | @replayExecutes _ _ k r' before hi =>
    refine .of_execute hc (by simp [Event.opens, hi]) rfl (filterMap_set_same hi rfl) (filterMap_set_same hi rfl)
      (filterMap_set_same hi rfl) ?_
    by_cases hr : r' = r
    · subst hr
      exact .inr ⟨rfl, view_replaying_ne_nil hi (by simp)⟩
    · exact .inl (filterMap_set_same hi (by simp [Call.replaying, hr]))

end

end Jobflow
