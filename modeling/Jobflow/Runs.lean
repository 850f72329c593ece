import Jobflow.Ownership

/-!
# One run among all others

`OnRun k r d I` says that in a system state run `r` is executed, if at all, by one call of service `k`,
that nothing else is about to write to it, and that `I` holds of what the stores have about `r` together
with the await at which that call is suspended. `Closed.exec` is the induction rule: if the segments of
`executeRun` keep `I`, then so does every list of events that leaves `r` to the service, whatever happens
to other runs in between.
-/

namespace Jobflow

/-! ## The calls that execute a run -/

/-- The await, if the call has not settled. -/
def ExecPc.running : ExecPc → Option ExecPc
  | .settled _ => none
  | pc => some pc

/-- Where the call is suspended, if it is executing run `r`. -/
def Call.executing (r : RunId) : Call → Option ExecPc
  | .execute _ r' pc => if r' = r then pc.running else none
  | _ => none

/-- Where the unsettled `executeRun` calls of run `r` are suspended. -/
def System.executing (s : System) (r : RunId) : List ExecPc := s.calls.filterMap (Call.executing r)

/-- The call may still write to run `r`, or execute it on a service other than `k`. -/
def Call.Disturbs (k : Nat) (r : RunId) : Call → Prop
  | .execute k' r' pc => r' = r ∧ k' ≠ k ∧ pc.running.isSome
  | .create _ _ _ (.workflowSaved run) => run.id = r
  | .create _ _ _ _ => False
  | .use _ _ (.settled _) => False
  | .use r' _ _ => r' = r
  | .replay _ _ (.settled _) => False
  | .replay k' r' _ => r' = r ∧ k' ≠ k

/-- The event leaves run `r` to service `k`: nobody registers job `j` again, and of run `r` there are only
`executeRun` and `replay` calls through service `k`. -/
def Event.Undisturbed (k : Nat) (r : RunId) (j : JobId) : Event → Prop
  | .register input _ => input.id ≠ j
  | .createRun _ _ _ => True
  | .executeRun k' r' => r' = r → k' = k
  | .use r' _ => r' ≠ r
  | .replay k' r' => r' = r → k' = k
  | .restoreToCheckpoint r' _ _ => r' ≠ r
  | .acquire r' _ => r' ≠ r
  | .release r' _ => r' ≠ r
  | .resume _ _ => True

instance (k : Nat) (r : RunId) (j : JobId) : (e : Event) → Decidable (e.Undisturbed k r j)
  | .register input _ => inferInstanceAs (Decidable (input.id ≠ j))
  | .createRun _ _ _ => inferInstanceAs (Decidable True)
  | .executeRun k' r' => inferInstanceAs (Decidable (r' = r → k' = k))
  | .use r' _ => inferInstanceAs (Decidable (r' ≠ r))
  | .replay k' r' => inferInstanceAs (Decidable (r' = r → k' = k))
  | .restoreToCheckpoint r' _ _ => inferInstanceAs (Decidable (r' ≠ r))
  | .acquire r' _ => inferInstanceAs (Decidable (r' ≠ r))
  | .release r' _ => inferInstanceAs (Decidable (r' ≠ r))
  | .resume _ _ => inferInstanceAs (Decidable True)

/-! ## The invariant and its rule -/

/-- Nobody executes run `r`, and service `k` could. -/
def Stores.Unlocked (s : Stores) (k : Nat) (r : RunId) : Prop :=
  (k, r) ∉ s.localLocks ∧ s.runLocks.get r = none

/-- A call of service `k` is executing run `r`. -/
def Stores.Locked (s : Stores) (k : Nat) (r : RunId) : Prop :=
  (k, r) ∈ s.localLocks ∧ s.runLocks.get r = some ExecutionService.owner

/-- `I` at rest, or at the await of the one call that executes the run. -/
inductive Phase (k : Nat) (r : RunId) (I : Option ExecPc → RunRecord → Prop) (s : Stores) : List ExecPc →
    Prop where
  | rest (hu : s.Unlocked k r) (hI : I none (s.record r)) : Phase k r I s []
  | busy {pc : ExecPc} (hl : s.Locked k r) (hI : I (some pc) (s.record r)) : Phase k r I s [pc]

structure OnRun (k : Nat) (r : RunId) (d : JobDefinition) (I : Option ExecPc → RunRecord → Prop) (s : System) :
    Prop where
  coherent : s.Coherent
  definition : s.stores.jobs.get d.id = some d
  known : ∃ id, s.stores.workflowOfRun.get r = some id
  calm : ∀ c ∈ s.calls, ¬ c.Disturbs k r
  phase : Phase k r I s.stores (s.executing r)

/-- The segments of `executeRun` keep `I`. -/
structure Closed (world : World) (k : Nat) (r : RunId) (d : JobDefinition) (I : Option ExecPc → RunRecord → Prop) :
    Prop where
  begin : ∀ rec, I none rec → I (some (.runRead rec.run)) rec
  resume : ∀ (s : Stores) (now : ISODateString) (pc : ExecPc) (x : Stores × ExecPc), s.Coherent →
    s.jobs.get d.id = some d → (∀ w ∈ pc.instances, s.Owns r w) → I (some pc) (s.record r) →
    ExecutionService.resume world k r s now pc = some x → I x.2.running (x.1.record r)

/-! ## Lists of calls -/

/-- Replacing an element, seen through a filter. -/
theorem filterMap_set {α β : Type} (f : α → Option β) {l : List α} {i : Nat} {a : α} (b : α) (h : l[i]? = some a) :
    l.filterMap f = (l.take i).filterMap f ++ (f a).toList ++ (l.drop (i + 1)).filterMap f ∧
      (l.set i b).filterMap f = (l.take i).filterMap f ++ (f b).toList ++ (l.drop (i + 1)).filterMap f := by
  obtain ⟨hi, rfl⟩ := List.getElem?_eq_some_iff.1 h
  have hcons : ∀ (x : α) (t : List α), (x :: t).filterMap f = (f x).toList ++ t.filterMap f := by
    intro x t
    cases hx : f x <;> simp [hx]
  constructor
  · have hl : l = l.take i ++ l[i] :: l.drop (i + 1) := by
      rw [← List.drop_eq_getElem_cons hi, List.take_append_drop]
    conv_lhs => rw [hl]
    rw [List.filterMap_append, hcons, List.append_assoc]
  · rw [List.set_eq_take_append_cons_drop, if_pos hi, List.filterMap_append, hcons, List.append_assoc]

/-- Replacing an element the filter drops by another one it drops. -/
theorem filterMap_set_of_none {α β : Type} (f : α → Option β) {l : List α} {i : Nat} {a b : α}
    (h : l[i]? = some a) (ha : f a = none) (hb : f b = none) : (l.set i b).filterMap f = l.filterMap f := by
  obtain ⟨h₁, h₂⟩ := filterMap_set f b h
  rw [h₁, h₂, ha, hb]

/-- Replacing the only element the filter keeps. -/
theorem filterMap_set_of_single {α β : Type} (f : α → Option β) {l : List α} {i : Nat} {a b : α} {x y : β}
    (h : l[i]? = some a) (ha : f a = some x) (hl : l.filterMap f = [y]) :
    x = y ∧ (l.set i b).filterMap f = (f b).toList := by
  obtain ⟨h₁, h₂⟩ := filterMap_set f b h
  rw [ha, hl, Option.toList_some, List.append_assoc, List.singleton_append] at h₁
  cases ht : (l.take i).filterMap f with
  | nil =>
    rw [ht, List.nil_append] at h₁
    obtain ⟨hxy, hd⟩ := List.cons.inj h₁
    exact ⟨hxy.symm, by rw [h₂, ht, ← hd]; simp⟩
  | cons z zs =>
    rw [ht] at h₁
    have := congrArg List.length h₁
    simp at this

/-! ## Every event keeps the invariant -/

section
variable {world : World} {k : Nat} {r : RunId} {d : JobDefinition} {I : Option ExecPc → RunRecord → Prop}
  {s s' : System}

/-- What the phase looks at. -/
theorem Phase.congr {st st' : Stores} {pcs : List ExecPc} (h : Phase k r I st pcs)
    (hrec : st'.record r = st.record r) (hl : Stores.SameLocks r st st') : Phase k r I st' pcs := by
  cases h with
  | rest hu hI => exact .rest ⟨fun h => hu.1 ((hl.2 k).1 h), hl.1.trans hu.2⟩ (by rwa [hrec])
  | busy hk hI => exact .busy ⟨(hl.2 k).2 hk.1, hl.1.trans hk.2⟩ (by rwa [hrec])

theorem ExecPc.running_segment (pc : ExecPc) : pc.running = some pc ∧ pc.segment = .inner ∨
    pc.running = none ∧ pc.segment = .closing := by
  cases pc <;> simp [running, segment]

theorem ExecutionService.resume_running {st : Stores} {now : ISODateString} {pc : ExecPc} {x : Stores × ExecPc}
    (h : resume world k r st now pc = some x) : pc.running = some pc := by
  cases pc with
  | settled _ => cases h
  | _ => rfl

/-- Nothing that concerns run `r` has changed, and the new calls leave it alone. -/
theorem OnRun.frame (h : OnRun k r d I s) (hc : s'.Coherent) (hjobs : s'.stores.jobs.get d.id = some d)
    (hext : s'.stores.Extends s.stores) (hrec : s'.stores.record r = s.stores.record r)
    (hl : Stores.SameLocks r s.stores s'.stores) (hcalm : ∀ c ∈ s'.calls, c ∈ s.calls ∨ ¬ c.Disturbs k r)
    (hexec : s'.executing r = s.executing r) : OnRun k r d I s' where
  coherent := hc
  definition := hjobs
  known := h.known.imp fun id hid => hext r id hid
  calm := fun c hmem => (hcalm c hmem).elim (h.calm c) id
  phase := by
    rw [hexec]
    exact h.phase.congr hrec hl

theorem mem_calls_suspend {i : Nat} {st : Stores} {call c : Call} (hc : c ∈ (s.suspend i st call).calls) :
    c ∈ s.calls ∨ c = call := List.mem_or_eq_of_mem_set hc

theorem mem_calls_spawn {st : Stores} {call c : Call} (hc : c ∈ (s.spawn st call).calls) :
    c ∈ s.calls ∨ c = call := by
  simpa [System.spawn] using hc

theorem executing_suspend_of_none {i : Nat} {st : Stores} {old call : Call} (hi : s.calls[i]? = some old)
    (ho : old.executing r = none) (hn : call.executing r = none) :
    (s.suspend i st call).executing r = s.executing r := filterMap_set_of_none _ hi ho hn

theorem executing_spawn {st : Stores} {call : Call} :
    (s.spawn st call).executing r = s.executing r ++ (call.executing r).toList := by
  unfold System.executing System.spawn
  cases hc : call.executing r <;> simp [hc]

/-- `executeRun` on an unlocked run gets both locks. -/
theorem ExecutionService.executeRun_unlocked {st : Stores} (hu : st.Unlocked k r) :
    ∃ st', executeRun k r st = (st', .runRead (st.runs.get r)) ∧ st'.record r = st.record r ∧ st'.Locked k r := by
  have hl : st.hasLocalLock k r = false := by simpa [Stores.hasLocalLock] using hu.1
  let st' : Stores := { st.addLocalLock k r with runLocks := st.runLocks.set r owner }
  have ha : (st.addLocalLock k r).acquire r owner = .ok st' := by
    have : (st.addLocalLock k r).runLocks.get r = none := hu.2
    simp only [Stores.acquire, this]
    rfl
  refine ⟨st', ?_, rfl, ?_, InsertionMap.get_set_self _ _ _⟩
  · rw [executeRun, hl]
    simp only [ha]
    rfl
  · simp [st', Stores.addLocalLock]

theorem ExecutionService.executeRun_locked {st : Stores} (hl : st.Locked k r) :
    executeRun k r st = (st, .settled (.ok ())) := by
  have : st.hasLocalLock k r = true := by simpa [Stores.hasLocalLock] using hl.1
  simp [executeRun, this]

/-- The last segment gives both locks back. -/
theorem settle_unlocked {st : Stores} (hl : st.Locked k r) :
    ((st.deleteLocalLock k r).release r ExecutionService.owner).Unlocked k r := by
  obtain ⟨locks, he, hget⟩ := release_eq (st.deleteLocalLock k r) r ExecutionService.owner
  rw [he]
  refine ⟨by simp [Stores.deleteLocalLock], ?_⟩
  have : (st.deleteLocalLock k r).runLocks.get r = some ExecutionService.owner := hl.2
  simp [hget, this]

theorem Effect.unlocks {held ws : List WorkflowInstance} {st st' : Stores}
    (he : Effect k r held st .closing st' ws) (hl : st.Locked k r) : st'.Unlocked k r := by
  cases he
  exact settle_unlocked hl

/-- A new call of `executeRun`. -/
theorem OnRun.execute (hI : Closed world k r d I) (h : OnRun k r d I s) {k' : Nat} {r' : RunId}
    (hk : r' = r → k' = k) : OnRun k r d I (s.execute k' r') := by
  have hcoh := h.coherent.execute k' r'
  have he := ExecutionService.executeRun_effect k' r' s.stores
  obtain ⟨_, hw, _⟩ := he.coherent h.coherent.stores (by simp)
  have hcalm : ∀ c ∈ (s.execute k' r').calls, c ∈ s.calls ∨ ¬ c.Disturbs k r := fun c hc => by
    rcases mem_calls_spawn hc with hc | rfl
    · exact .inl hc
    · exact .inr fun hd => hd.2.1 (hk hd.1)
  by_cases hr : r' = r
  · subst hr
    obtain rfl := hk rfl
    have hjobs : (s.execute k' r').stores.jobs = s.stores.jobs := he.jobs
    refine ⟨hcoh, by rw [hjobs]; exact h.definition, h.known.imp fun id hid => ?_,
      fun c hc => (hcalm c hc).elim (h.calm c) id, ?_⟩
    · exact (hw r').trans hid
    · have hp := h.phase
      rw [System.execute, executing_spawn]
      generalize s.executing r' = pcs at hp
      cases hp with
      | rest hu hIn =>
        obtain ⟨st', hx, hrec, hl⟩ := ExecutionService.executeRun_unlocked hu
        simp only [System.spawn, hx, Call.executing, ExecPc.running, if_true, Option.toList_some, List.nil_append]
        exact .busy hl (by rw [hrec]; exact hI.begin _ hIn)
      | busy hl hIn =>
        simp only [System.spawn, ExecutionService.executeRun_locked hl, Call.executing, ExecPc.running, if_true,
          Option.toList_none, List.append_nil]
        exact .busy hl hIn
  · obtain ⟨hrec, hjobs, hl⟩ := he.frame h.coherent.stores (by simp) hr
    refine h.frame hcoh ((congrArg (·.get d.id) hjobs).trans h.definition) (.of_eq hw) hrec hl hcalm ?_
    rw [System.execute, executing_spawn]
    simp [Call.executing, hr]

/-- A segment of a call of `executeRun`. -/
theorem OnRun.resumeExecute (hI : Closed world k r d I) (h : OnRun k r d I s) {i k' : Nat} {r' : RunId}
    {pc : ExecPc}
    {now : ISODateString} {x : Stores × ExecPc} (hi : s.calls[i]? = some (.execute k' r' pc))
    (hx : ExecutionService.resume world k' r' s.stores now pc = some x)
    (hcoh : (s.suspend i x.1 (.execute k' r' x.2)).Coherent) :
    OnRun k r d I (s.suspend i x.1 (.execute k' r' x.2)) := by
  have hmem := List.mem_of_getElem? hi
  have hown := h.coherent.calls _ hmem
  have he := ExecutionService.resume_effect hx
  obtain ⟨_, hw, _⟩ := he.coherent h.coherent.stores hown
  have hrun := ExecutionService.resume_running hx
  by_cases hr : r' = r
  · subst hr
    have hk : k' = k := not_not.1 fun hne => h.calm _ hmem ⟨rfl, hne, by rw [hrun]; rfl⟩
    subst hk
    refine ⟨hcoh, (congrArg (·.get d.id) he.jobs).trans h.definition, h.known.imp fun id hid => (hw r').trans hid,
      fun c hc => ?_, ?_⟩
    · rcases mem_calls_suspend hc with hc | rfl
      · exact h.calm c hc
      · exact fun hd => hd.2.1 rfl
    · have hp := h.phase
      have hold : (Call.execute k' r' pc).executing r' = some pc := by simp [Call.executing, hrun]
      have hnew : (Call.execute k' r' x.2).executing r' = x.2.running := by simp [Call.executing]
      generalize hpcs : s.executing r' = pcs at hp
      cases hp with
      | rest hu hIn =>
        have : pc ∈ s.executing r' := List.mem_filterMap.2 ⟨_, hmem, hold⟩
        rw [hpcs] at this
        cases this
      | @busy pc' hl hIn =>
        obtain ⟨rfl, hset⟩ := filterMap_set_of_single _ (b := Call.execute k' r' x.2) hi hold hpcs
        have hI' := hI.resume _ _ _ _ h.coherent.stores h.definition hown hIn hx
        have hset' : (s.suspend i x.1 (.execute k' r' x.2)).executing r' = x.2.running.toList :=
          hset.trans (by rw [hnew])
        rw [hset']
        rcases ExecPc.running_segment x.2 with ⟨ha, hs⟩ | ⟨ha, hs⟩
        · rw [ha] at hI' ⊢
          rw [ExecEffect, hs] at he
          have hkept := he.locks
          exact .busy ⟨hkept.2 ▸ hl.1, (congrArg (·.get r') hkept.1).trans hl.2⟩ hI'
        · rw [ha] at hI' ⊢
          rw [ExecEffect, hs] at he
          exact .rest (he.unlocks hl) hI'
  · obtain ⟨hrec, hjobs, hl⟩ := he.frame h.coherent.stores hown hr
    refine h.frame hcoh ((congrArg (·.get d.id) hjobs).trans h.definition) (.of_eq hw) hrec hl (fun c hc => ?_) ?_
    · rcases mem_calls_suspend hc with hc | rfl
      · exact .inl hc
      · exact .inr fun hd => hr hd.1
    · exact executing_suspend_of_none hi (by simp [Call.executing, hr]) (by simp [Call.executing, hr])

/-- The id of a run that is known is never given to a new one. -/
theorem Uuids.Fresh.other {uuids : Uuids} {st : Stores} {def' : JobDefinition} (hf : uuids.Fresh st def')
    (hk : ∃ id, st.workflowOfRun.get r = some id) : newRunId uuids.run ≠ r := by
  rintro rfl
  obtain ⟨id, hid⟩ := hk
  rw [hf.1] at hid
  cases hid

/-- A segment of a call of `createRun`. -/
theorem OnRun.resumeCreate (h : OnRun k r d I s) {i : Nat} {jobId : JobId} {trigger : String} {input : Js.Record}
    {pc pc' : CreatePc} {reply : Reply} {st : Stores} (hi : s.calls[i]? = some (.create jobId trigger input pc))
    (hx : CreateStep jobId trigger input s.stores reply pc st pc')
    (hcoh : (s.suspend i st (.create jobId trigger input pc')).Coherent) :
    OnRun k r d I (s.suspend i st (.create jobId trigger input pc')) := by
  have hexec : (s.suspend i st (.create jobId trigger input pc')).executing r = s.executing r :=
    executing_suspend_of_none hi rfl rfl
  have hext : st.Extends s.stores := (hx.coherent h.coherent.stores).2
  have hframe : ∀ (hjobs : st.jobs = s.stores.jobs) (hrec : st.record r = s.stores.record r)
      (hl : Stores.SameLocks r s.stores st) (hd : ¬ (Call.create jobId trigger input pc').Disturbs k r),
      OnRun k r d I (s.suspend i st (.create jobId trigger input pc')) := fun hjobs hrec hl hd =>
    h.frame hcoh ((congrArg (·.get d.id) hjobs).trans h.definition) hext hrec hl (fun c hc => by
      rcases mem_calls_suspend hc with hc | rfl
      · exact .inl hc
      · exact .inr hd) hexec
  cases hx with
  | missing | returned => exact hframe rfl rfl (.refl _ _) id
  | workflowSaved hfresh =>
    have hne := hfresh.other h.known
    exact hframe rfl (h.coherent.stores.record_saveNew_ne hfresh.2.1 hne) (.refl _ _) hne
  | @runSaved run =>
    have hne : run.id ≠ r := h.calm _ (List.mem_of_getElem? hi)
    exact hframe rfl (record_saveRun_ne hne) (.refl _ _) id

/-- A segment of a caller that uses the workflow of another run. -/
theorem OnRun.resumeUse (h : OnRun k r d I s) {i : Nat} {r' : RunId} {use : Use} {pc : UsePc} {now : ISODateString}
    {x : Stores × UsePc} (hi : s.calls[i]? = some (.use r' use pc))
    (hx : use.resume world r' s.stores now pc = some x) (hcoh : (s.suspend i x.1 (.use r' use x.2)).Coherent) :
    OnRun k r d I (s.suspend i x.1 (.use r' use x.2)) := by
  have hmem := List.mem_of_getElem? hi
  have hne : r' ≠ r := by
    have := h.calm _ hmem
    cases pc with
    | settled result => cases hx
    | _ => exact this
  have hown := h.coherent.calls _ hmem
  have he := Use.resume_effect (k := 0) hx
  obtain ⟨hrec, hjobs, hl⟩ := he.frame h.coherent.stores hown hne
  obtain ⟨_, hw, _⟩ := he.coherent h.coherent.stores hown
  refine h.frame hcoh ((congrArg (·.get d.id) hjobs).trans h.definition) (.of_eq hw) hrec hl (fun c hc => ?_)
    (executing_suspend_of_none hi rfl rfl)
  rcases mem_calls_suspend hc with hc | rfl
  · exact .inl hc
  · refine .inr fun hd => hne ?_
    cases hpc : x.2 with
    | settled result =>
      rw [hpc] at hd
      cases hd
    | _ =>
      rw [hpc] at hd
      exact hd

/-- A replay moves on without touching the stores. -/
theorem OnRun.suspendReplay (h : OnRun k r d I s) {i k' : Nat} {r' : RunId} {pc : ReplayPc} (pc' : ReplayPc)
    (hi : s.calls[i]? = some (.replay k' r' pc)) (hpc : ∀ result, pc ≠ .settled result)
    (hcoh : (s.suspend i s.stores (.replay k' r' pc')).Coherent) :
    OnRun k r d I (s.suspend i s.stores (.replay k' r' pc')) := by
  have hold : ¬ (r' = r ∧ k' ≠ k) := by
    have := h.calm _ (List.mem_of_getElem? hi)
    cases pc with
    | settled result => exact absurd rfl (hpc result)
    | _ => exact this
  refine h.frame hcoh h.definition (.refl _) rfl (.refl _ _) (fun c hc => ?_)
    (executing_suspend_of_none hi rfl rfl)
  rcases mem_calls_suspend hc with hc | rfl
  · exact .inl hc
  · refine .inr fun hd => hold ?_
    cases pc' with
    | settled result => cases hd
    | _ => exact hd

/-- A replay that calls `executeRun`, before it makes the call. -/
theorem OnRun.suspendReading (h : OnRun k r d I s) {i k' : Nat} {r' : RunId} {before : WorkflowInstance} (call : Nat)
    (hi : s.calls[i]? = some (.replay k' r' (.read (some before)))) :
    (r' = r → k' = k) ∧ OnRun k r d I (s.suspend i s.stores (.replay k' r' (.executing before call))) :=
  ⟨fun hr => not_not.1 fun hne => h.calm _ (List.mem_of_getElem? hi) ⟨hr, hne⟩,
    h.suspendReplay _ hi (by simp) (h.coherent.suspendReading hi)⟩

theorem OnRun.inv (h : OnRun k r d I s) : ∃ o, I o (s.stores.record r) := by
  have hp := h.phase
  generalize s.executing r = pcs at hp
  cases hp with
  | rest _ hI | busy _ hI => exact ⟨_, hI⟩

theorem OnRun.unlocked (h : OnRun k r d I s) (hr : s.executing r = []) : s.stores.Unlocked k r := by
  have hp := h.phase
  rw [hr] at hp
  cases hp with
  | rest hu _ => exact hu

/-- At an await of the call that executes the run. -/
theorem OnRun.busy (h : OnRun k r d I s) {pc : ExecPc} (hpc : pc ∈ s.executing r) :
    I (some pc) (s.stores.record r) := by
  have hp := h.phase
  generalize s.executing r = pcs at hp hpc
  cases hp with
  | rest _ _ => cases hpc
  | busy _ hI => exact List.mem_singleton.1 hpc ▸ hI

/-- At rest. -/
theorem OnRun.rest (h : OnRun k r d I s) (hr : s.executing r = []) : I none (s.stores.record r) := by
  have hp := h.phase
  rw [hr] at hp
  cases hp with
  | rest _ hI => exact hI

/-- A new call that has not done anything yet. -/
theorem OnRun.spawn (h : OnRun k r d I s) {call : Call} (hcoh : (s.spawn s.stores call).Coherent)
    (hd : ¬ call.Disturbs k r) (he : call.executing r = none) : OnRun k r d I (s.spawn s.stores call) := by
  refine h.frame hcoh h.definition (.refl _) rfl (.refl _ _) (fun c hc => ?_) (by rw [executing_spawn, he]; simp)
  rcases mem_calls_spawn hc with hc | rfl
  · exact .inl hc
  · exact .inr hd

/-- The event touches the stores only, and of them nothing that concerns run `r`. -/
theorem OnRun.stores (h : OnRun k r d I s) {st : Stores} (hcoh : System.Coherent { s with stores := st })
    (hjobs : st.jobs.get d.id = some d) (hext : st.Extends s.stores) (hrec : st.record r = s.stores.record r)
    (hl : Stores.SameLocks r s.stores st) : OnRun k r d I { s with stores := st } :=
  h.frame hcoh hjobs hext hrec hl (fun _ hc => .inl hc) rfl

/-- Every event that leaves run `r` to service `k` keeps the invariant. -/
theorem OnRun.step (hI : Closed world k r d I) (h : OnRun k r d I s) {e : Event} (he : e.Undisturbed k r d.id)
    (hs : s.step world e = some s') : OnRun k r d I s' := by
  have hcoh := h.coherent.step hs
  cases System.step_cases hs with
  | @registered input now def' hr =>
    have hne : def'.id ≠ d.id := by
      rw [(JobService.register_accepted hr).2]
      exact he
    exact h.stores hcoh ((InsertionMap.get_set_ne _ _ hne).trans h.definition) (.refl _) rfl (.refl _ _)
  | notRegistered | notRestored | notAcquired => exact h
  | createCalled => exact h.spawn hcoh id rfl
  | executeCalled => exact h.execute hI he
  | useCalled => exact h.spawn hcoh he rfl
  | replayCalled => exact h.spawn hcoh (fun hd => hd.2 (he hd.1)) rfl
  | @restored _ _ now _ hsnap =>
    have hown := h.coherent.stores.restored_owns hsnap now
    exact h.stores hcoh h.definition (.of_eq hown.workflowOfRun_save) (h.coherent.stores.record_save_ne hown he)
      (.refl _ _)
  | acquired =>
    exact h.stores hcoh h.definition (.refl _) rfl ⟨InsertionMap.get_set_ne _ _ he, fun _ => Iff.rfl⟩
  | @released r' _ _ hget =>
    refine h.stores hcoh h.definition (.refl _) rfl ⟨?_, fun _ => Iff.rfl⟩
    have hne : r' ≠ r := he
    simp [hget, hne]
  | executed hi hx => exact h.resumeExecute hI hi hx hcoh
  | created hi hx => exact h.resumeCreate hi hx hcoh
  | used hi hx => exact h.resumeUse hi hx hcoh
  | replayed hi hpc => exact h.suspendReplay _ hi hpc hcoh
  | replayExecutes hi =>
    obtain ⟨hk, hsus⟩ := h.suspendReading s.calls.length hi
    exact hsus.execute hI hk

/-- The induction rule. -/
theorem Closed.exec (hI : Closed world k r d I) {events : List Event} (h : OnRun k r d I s)
    (hok : ∀ e ∈ events, e.Undisturbed k r d.id) (hs : EventSystem.exec (System.step world) s events = some s') :
    OnRun k r d I s' :=
  EventSystem.exec_invariant (fun _ _ _ hs he => hs.step hI he) h hok hs

end

end Jobflow
