import Jobflow.BatchTally
import Jobflow.BatchedRuns

/-!
# How batches take up runs (src/batch/coordinator.ts)

A worker that is told of a new run takes it up: the run becomes one of the batch's and `executeRun` is called for it
(`BatchSystem.TakesUp.taken`). Nobody takes up a run twice, so if nothing else has to do with the run, the worker's call
is the only one that ever executes it (`BatchSystem.TakesUp.made`).
-/

namespace Jobflow

open Js (Record)

/-- What a worker is told by the call it awaits. -/
inductive BatchRun.Told (system : System) (x : BatchRun) : BatchEvent → Prop where
  | created {i n : Nat} {item : BatchJobItem} {jobId : JobId} {trigger : String} {input : Record}
      {result : Except JobflowError JobRun} (h : x.Slot i (.creating item) n)
      (hcall : system.calls[n]? = some (.create jobId trigger input (.settled result))) :
      Told system x (.created i (result.map (·.id)))
  | executed {i n k : Nat} {item : BatchJobItem} {r runId : RunId} {result : Except JobflowError Unit}
      (h : x.Slot i (.executing item runId) n)
      (hcall : system.calls[n]? = some (.execute k r (.settled result))) : Told system x (.executed i result)

/-- Worker `i` of batch `b` goes on with the run that call `n` of `createRun` has made for the item. -/
structure BatchSystem.TakesUp (s : BatchSystem) (b i n : Nat) (item : BatchJobItem) (run : JobRun)
    (e : BatchSystemEvent) : Prop where
  event : ∃ now, e = .resumeWorker b i now
  slot : s.Slot b i (.creating item) n
  call : ∃ jobId trigger input, s.system.calls[n]? = some (.create jobId trigger input (.settled (.ok run)))

/-- Batch `b` has created run `r`. -/
def BatchSystem.Holds (b : Nat) (r : RunId) (s : BatchSystem) : Prop :=
  ∃ x, s.batches[b]? = some x ∧ r ∈ x.batch.progress.runIds

/-! ## A batch and its calls -/

section
variable {world : World} {service : Nat} {s s' : BatchSystem} {e : BatchSystemEvent} {events : List BatchSystemEvent}
  {b i n : Nat} {x : BatchRun}

/-- A batch takes a step of its own when one of its workers has been told something. -/
theorem BatchSystem.step_told (hx : s.batches[b]? = some x) (h : s.step world service e = some s') :
    ∃ x', s'.batches[b]? = some x' ∧
      (x' = x ∨ ∃ event, x.Told s.system event ∧ x.batch.step event = some x'.batch) := by
  have hset : ∀ {b' : Nat} {y y' : BatchRun}, s.batches[b']? = some y →
      (∃ event, y.Told s.system event ∧ y.batch.step event = some y'.batch) →
      ∃ x', (s.batches.set b' y')[b]? = some x' ∧
        (x' = x ∨ ∃ event, x.Told s.system event ∧ x.batch.step event = some x'.batch) := by
    intro b' y y' hy hstep
    by_cases hb : b' = b
    · subst hb
      cases hx.symm.trans hy
      exact ⟨y', List.getElem?_set_self (List.getElem?_eq_some_iff.1 hx).1, .inr hstep⟩
    · exact ⟨x, (List.getElem?_set_ne hb).trans hx, .inl rfl⟩
  cases BatchSystem.step_cases h with
  | inner => exact ⟨x, hx, .inl rfl⟩
  | executed => exact ⟨x, (List.getElem?_append_left (List.getElem?_eq_some_iff.1 hx).1).trans hx, .inl rfl⟩
  | @created b' i now y item _ _ _ run hy hi hcall =>
    obtain ⟨m, hm, hcall⟩ := BatchRun.awaited_eq_some hcall
    refine hset hy ⟨_, .created ⟨hi, hm⟩ hcall, ?_⟩
    simp only [Batch.step, hi, Except.map]
  | @notCreated b' i now y item _ _ _ e hy hi hcall =>
    obtain ⟨m, hm, hcall⟩ := BatchRun.awaited_eq_some hcall
    refine hset hy ⟨_, .created ⟨hi, hm⟩ hcall, ?_⟩
    simp only [Batch.step, hi, Except.map]
    exact congrArg some (BatchRun.release_batch s.system _ y.calls i).symm
  | @completed b' i k now y item r runId hy hi hcall =>
    obtain ⟨m, hm, hcall⟩ := BatchRun.awaited_eq_some hcall
    refine hset hy ⟨_, .executed ⟨hi, hm⟩ hcall, ?_⟩
    simp only [Batch.step, hi]
    exact congrArg some (BatchRun.release_batch s.system _ y.calls i).symm
  | @failed b' i k now y item r runId e hy hi hcall =>
    obtain ⟨m, hm, hcall⟩ := BatchRun.awaited_eq_some hcall
    refine hset hy ⟨_, .executed ⟨hi, hm⟩ hcall, ?_⟩
    simp only [Batch.step, hi]
    exact congrArg some (BatchRun.release_batch s.system _ y.calls i).symm

theorem BatchSystem.grows (hx : s.batches[b]? = some x)
    (h : EventSystem.exec (BatchSystem.step world service) s events = some s') :
    ∃ x', s'.batches[b]? = some x' ∧ x.batch.Grows x'.batch := by
  refine EventSystem.exec_invariant
    (I := fun (m : BatchSystem) => ∃ x', m.batches[b]? = some x' ∧ x.batch.Grows x'.batch)
    (fun m e m' hm (_ : True) hstep => ?_) ⟨x, hx, .refl _⟩ (fun _ _ => trivial) h
  obtain ⟨y, hy, hgrows⟩ := hm
  obtain ⟨y', hy', rfl | ⟨event, -, hevent⟩⟩ := BatchSystem.step_told hy hstep
  · exact ⟨y', hy', hgrows⟩
  · exact ⟨y', hy', hgrows.trans (.step hevent)⟩

/-- A batch is new, or has been there and takes at most a step of its own. -/
theorem BatchSystem.step_batches {x' : BatchRun} (h : s.step world service e = some s')
    (hx' : s'.batches[b]? = some x') :
    (∃ x, s.batches[b]? = some x ∧
      (x' = x ∨ ∃ event, x.Told s.system event ∧ x.batch.step event = some x'.batch)) ∨
      ∃ manifest, x'.batch = BatchCoordinator.execute manifest := by
  by_cases hb : b < s.batches.length
  · obtain ⟨y, hy, hcase⟩ := BatchSystem.step_told (List.getElem?_eq_getElem hb) h
    cases hx'.symm.trans hy
    exact .inl ⟨_, List.getElem?_eq_getElem hb, hcase⟩
  · have hnew : ∀ {l : List BatchRun}, l.length = s.batches.length → l[b]? ≠ some x' := fun hl hx' =>
      hb (hl ▸ (List.getElem?_eq_some_iff.1 hx').1)
    cases BatchSystem.step_cases h with
    | inner => exact absurd hx' (hnew rfl)
    | @executed manifest =>
      obtain ⟨-, rfl⟩ := BatchSystem.getElem?_snoc hx' hb
      exact .inr ⟨manifest, BatchRun.execute_batch _ _⟩
    | created | notCreated | completed | failed => exact absurd hx' (hnew (by simp [BatchSystem.goOn]))

/-- What is shown of every interleaving of a batch's workers holds of every batch of the system. -/
theorem BatchSystem.batch_reached (hnone : s.batches = [])
    (h : EventSystem.exec (BatchSystem.step world service) s events = some s') (hx : s'.batches[b]? = some x) :
    ∃ manifest steps, EventSystem.exec Batch.step (BatchCoordinator.execute manifest) steps = some x.batch := by
  refine EventSystem.exec_invariant
    (I := fun (s : BatchSystem) => ∀ (b : Nat) (x : BatchRun), s.batches[b]? = some x → ∃ manifest steps,
      EventSystem.exec Batch.step (BatchCoordinator.execute manifest) steps = some x.batch)
    (fun m e m' hm (_ : True) hstep b x' hx' => ?_) (by simp [hnone]) (fun _ _ => trivial) h b x hx
  rcases BatchSystem.step_batches hstep hx' with ⟨y, hy, rfl | ⟨event, -, hevent⟩⟩ | ⟨manifest, hmanifest⟩
  · exact hm b _ hy
  · obtain ⟨manifest, steps, hreach⟩ := hm b y hy
    exact ⟨manifest, steps ++ [event], EventSystem.exec_snoc.2 ⟨_, hreach, hevent⟩⟩
  · exact ⟨manifest, [], by rw [hmanifest]; rfl⟩

/-- A run that is new in a batch has been taken up by one of its workers. -/
theorem BatchSystem.takesUp_of_new {r : RunId} (h : s.step world service e = some s') (hr : s'.Holds b r)
    (hnot : ¬ s.Holds b r) : ∃ i n item run, s.TakesUp b i n item run e ∧ run.id = r := by
  obtain ⟨x', hx', hr⟩ := hr
  have hnew : ∀ x, s.batches[b]? = some x → r ∉ x.batch.progress.runIds := fun x hx hr => hnot ⟨x, hx, hr⟩
  have hset : ∀ {b' : Nat} {y y' : BatchRun}, s.batches[b']? = some y → (s.batches.set b' y')[b]? = some x' →
      b' = b ∧ y' = x' := by
    intro b' y y' hy hx'
    by_cases hb : b' = b
    · subst hb
      rw [List.getElem?_set_self (List.getElem?_eq_some_iff.1 hy).1] at hx'
      exact ⟨rfl, Option.some.inj hx'⟩
    · rw [List.getElem?_set_ne hb] at hx'
      exact absurd hr (hnew x' hx')
  have hrelease : ∀ {b' i' : Nat} {y : BatchRun} {batch : Batch}, s.batches[b']? = some y →
      (s.goOn b' (BatchRun.release s.system ⟨batch, y.calls⟩ i')).batches[b]? = some x' →
      batch.progress.runIds = y.batch.progress.runIds → False := by
    intro b' i' y batch hy hx' hruns
    obtain ⟨rfl, rfl⟩ := hset hy hx'
    rw [BatchRun.release_batch, Batch.release, (Batch.loop_grows _ _).2.2.2] at hr
    exact hnew y hy (hruns ▸ hr)
  cases BatchSystem.step_cases h with
  | inner => exact absurd hr (hnew x' hx')
  | executed =>
    by_cases hb : b < s.batches.length
    · rw [List.getElem?_append_left hb] at hx'
      exact absurd hr (hnew x' hx')
    · obtain ⟨-, rfl⟩ := BatchSystem.getElem?_snoc hx' hb
      rw [BatchRun.execute_batch, (BatchCoordinator.execute_barren _).runIds] at hr
      cases hr
  | @created b' i now y item jobId trigger input run hy hi hcall =>
    obtain ⟨n, hn, hcall⟩ := BatchRun.awaited_eq_some hcall
    obtain ⟨rfl, rfl⟩ := hset hy hx'
    rcases List.mem_append.1 hr with hr | hr
    · exact absurd hr (hnew y hy)
    · refine ⟨i, n, item, run, ⟨⟨now, rfl⟩, ⟨y, hy, hi, hn⟩, jobId, trigger, input, hcall⟩, ?_⟩
      exact (List.mem_singleton.1 hr).symm
  | notCreated hy | completed hy | failed hy => exact (hrelease hy hx' rfl).elim

/-- Seen from the running system a run of batches is a run of its own. -/
theorem BatchSystem.exec_system (h : EventSystem.exec (BatchSystem.step world service) s events = some s') :
    EventSystem.Reachable (System.step world) s.system s'.system := by
  refine EventSystem.exec_invariant
    (I := fun (m : BatchSystem) => EventSystem.Reachable (System.step world) s.system m.system)
    (fun m e m' hm (_ : True) hstep => ?_) ⟨[], rfl⟩ (fun _ _ => trivial) h
  obtain ⟨es, hes, -⟩ := BatchSystem.step_system hstep
  exact hm.exec hes

/-! ## The calls of the slots -/

/-- The calls that workers await ask for the item or execute the run, and have been made since the first `N`. -/
structure BatchSystem.Served (N service : Nat) (s : BatchSystem) : Prop where
  base : N ≤ s.system.calls.length
  creating : ∀ {b i item n}, s.Slot b i (.creating item) n → N ≤ n ∧ ∃ trigger input pc,
    s.system.calls[n]? = some (.create item.jobId trigger input pc)
  executing : ∀ {b i item r n}, s.Slot b i (.executing item r) n → N ≤ n ∧ ∃ pc,
    s.system.calls[n]? = some (.execute service r pc)

theorem System.exec_create {m m' : System} {jobId : JobId} {trigger : String} {input : Record} {pc : CreatePc}
    {es : List Event} (hi : m.calls[n]? = some (.create jobId trigger input pc))
    (hs : EventSystem.exec (System.step world) m es = some m') :
    ∃ pc', m'.calls[n]? = some (.create jobId trigger input pc') := by
  refine EventSystem.exec_invariant
    (I := fun (m : System) => ∃ pc', m.calls[n]? = some (.create jobId trigger input pc'))
    (fun m e m' hm (_ : True) hstep => ?_) ⟨pc, hi⟩ (fun _ _ => trivial) hs
  obtain ⟨pc', hi'⟩ := hm
  obtain ⟨pc'', hi'', -⟩ := System.step_create hi' hstep
  exact ⟨pc'', hi''⟩

theorem BatchSystem.Served.step {N : Nat} (hv : s.Served N service) (h : s.step world service e = some s') :
    s'.Served N service := by
  obtain ⟨es, hes, -⟩ := BatchSystem.step_system h
  refine ⟨hv.base.trans (System.length_calls_exec hes), fun hslot => ?_, fun hslot => ?_⟩
  · cases BatchSystem.step_slot h hslot with
    | old hold =>
      obtain ⟨hn, trigger, input, pc, hcall⟩ := hv.creating hold
      obtain ⟨pc', hcall'⟩ := System.exec_create hcall hes
      exact ⟨hn, trigger, input, pc', hcall'⟩
    | asked hasks =>
      obtain ⟨hn, trigger, hcall⟩ := hasks
      exact ⟨hv.base.trans hn, trigger, _, _, hcall⟩
  · cases BatchSystem.step_slot h hslot with
    | old hold =>
      obtain ⟨hn, pc, hcall⟩ := hv.executing hold
      obtain ⟨pc', hcall', -⟩ := System.exec_execute hcall hes
      exact ⟨hn, pc', hcall'⟩
    | executing _ _ _ hs =>
      rw [hs]
      exact ⟨hv.base, _, List.getElem?_concat_length⟩

/-- What is kept from the beginning on. -/
structure BatchSystem.Kept (world : World) (N service : Nat) (s : BatchSystem) : Prop where
  reachable : System.Reachable world s.system
  numbered : s.Numbered
  served : s.Served N service
  manned : ∀ {b : Nat} {x : BatchRun}, s.batches[b]? = some x → x.batch.Manned
  executed : ∀ {b r}, s.Holds b r → (∃ i item c, s.Slot b i (.executing item r) c) ∨
    ∃ c result, N ≤ c ∧ s.system.calls[c]? = some (.execute service r (.settled result))

/-- The run that is taken up belongs to the batch from then on, and is executed. -/
theorem BatchSystem.TakesUp.taken {item : BatchJobItem} {run : JobRun} (ht : s.TakesUp b i n item run e)
    (h : s.step world service e = some s') : s'.system = s.system.execute service run.id ∧
      s'.Holds b run.id ∧ s'.Slot b i (.executing item run.id) s.system.calls.length := by
  obtain ⟨now, rfl⟩ := ht.event
  obtain ⟨x, hx, hworker, hnumber⟩ := ht.slot
  obtain ⟨jobId, trigger, input, hcall⟩ := ht.call
  have hawaited : x.awaited s.system i = some (.create jobId trigger input (.settled (.ok run))) :=
    Option.bind_eq_some_iff.2 ⟨n, hnumber, hcall⟩
  cases BatchSystem.step_cases h with
  | created hy hi hcall' =>
    cases hx.symm.trans hy
    cases hworker.symm.trans hi
    cases hawaited.symm.trans hcall'
    have hbatch : ∀ y, (s.batches.set b y)[b]? = some y := fun y =>
      List.getElem?_set_self (List.getElem?_eq_some_iff.1 hx).1
    refine ⟨rfl, ⟨_, hbatch _, ?_⟩, _, hbatch _, ?_, ?_⟩
    · exact List.mem_append_right _ (List.mem_singleton_self _)
    · exact List.getElem?_set_self (List.getElem?_eq_some_iff.1 hworker).1
    · exact List.getElem?_set_self (List.getElem?_eq_some_iff.1 hnumber).1
  | notCreated hy hi hcall' =>
    cases hx.symm.trans hy
    cases hawaited.symm.trans hcall'
  | completed hy hi | failed hy hi =>
    cases hx.symm.trans hy
    cases hworker.symm.trans hi

/-- A worker leaves a run when the call that executes it has settled. -/
theorem BatchSystem.step_executing {N c : Nat} {item : BatchJobItem} {r : RunId} (hv : s.Served N service)
    (hslot : s.Slot b i (.executing item r) c) (h : s.step world service e = some s') :
    s'.Slot b i (.executing item r) c ∨
      ∃ result, N ≤ c ∧ s.system.calls[c]? = some (.execute service r (.settled result)) := by
  by_cases he : ∃ now, e = .resumeWorker b i now
  · obtain ⟨now, rfl⟩ := he
    obtain ⟨hN, pc, hcall⟩ := hv.executing hslot
    obtain ⟨x, hx, hworker, hnumber⟩ := hslot
    have hawaited : x.awaited s.system i = some (.execute service r pc) :=
      Option.bind_eq_some_iff.2 ⟨c, hnumber, hcall⟩
    cases BatchSystem.step_cases h with
    | created hy hi | notCreated hy hi =>
      cases hx.symm.trans hy
      cases hworker.symm.trans hi
    | completed hy hi hsettled | failed hy hi hsettled =>
      cases hx.symm.trans hy
      cases hawaited.symm.trans hsettled
      exact .inr ⟨_, hN, hcall⟩
  · exact .inl (BatchSystem.step_keeps h hslot fun now hnow => he ⟨now, hnow⟩)

theorem BatchSystem.Kept.step {N : Nat} (hk : s.Kept world N service) (h : s.step world service e = some s') :
    s'.Kept world N service := by
  obtain ⟨es, hes, -⟩ := BatchSystem.step_system h
  refine ⟨hk.reachable.exec hes, hk.numbered.step h, hk.served.step h, fun hx' => ?_, fun {b r} hr' => ?_⟩
  · rcases BatchSystem.step_batches h hx' with ⟨x, hx, rfl | ⟨event, -, hevent⟩⟩ | ⟨manifest, hnew⟩
    · exact hk.manned hx
    · exact (hk.manned hx).step hevent
    · rw [hnew]
      exact (BatchCoordinator.execute_tallied (fun _ => true) manifest).1
  · have hsettled : ∀ {c result}, N ≤ c ∧ s.system.calls[c]? = some (.execute service r (.settled result)) →
        ∃ c result, N ≤ c ∧ s'.system.calls[c]? = some (.execute service r (.settled result)) := by
      rintro c result ⟨hN, hcall⟩
      obtain ⟨pc, hcall', hsame⟩ := System.exec_execute hcall hes
      rw [hsame result rfl] at hcall'
      exact ⟨c, result, hN, hcall'⟩
    by_cases hr : s.Holds b r
    · rcases hk.executed hr with ⟨i, item, c, hslot⟩ | ⟨c, result, hcall⟩
      · rcases BatchSystem.step_executing hk.served hslot h with hslot' | ⟨result, hcall⟩
        · exact .inl ⟨i, item, c, hslot'⟩
        · exact .inr (hsettled hcall)
      · exact .inr (hsettled hcall)
    · obtain ⟨i, n, item, run, ht, rfl⟩ := BatchSystem.takesUp_of_new h hr' hr
      exact .inl ⟨i, item, _, (ht.taken h).2.2⟩

theorem BatchSystem.Kept.exec {N : Nat} (hk : s.Kept world N service)
    (h : EventSystem.exec (BatchSystem.step world service) s events = some s') : s'.Kept world N service :=
  EventSystem.exec_invariant (fun _ _ _ hm (_ : True) hstep => BatchSystem.Kept.step hm hstep) hk (fun _ _ => trivial) h

theorem BatchSystem.kept (hreach : System.Reachable world s.system) (hnone : s.batches = []) :
    s.Kept world s.system.calls.length service := by
  refine ⟨hreach, .of_none hnone,
    ⟨Nat.le_refl _, fun h => absurd h (not_slot hnone), fun h => absurd h (not_slot hnone)⟩, fun hx => ?_, fun hr => ?_⟩
  · rw [hnone] at hx
    cases hx
  · obtain ⟨x, hx, -⟩ := hr
    rw [hnone] at hx
    cases hx

/-! ## A call that no worker awaits any more -/

/-- Call `n` has been made, and no worker awaits a run from it. -/
def BatchSystem.Unawaited (s : BatchSystem) (n : Nat) : Prop :=
  n < s.system.calls.length ∧ ∀ b i item, ¬ s.Slot b i (.creating item) n

theorem BatchSystem.Unawaited.step (hu : s.Unawaited n) (h : s.step world service e = some s') : s'.Unawaited n := by
  obtain ⟨es, hes, -⟩ := BatchSystem.step_system h
  refine ⟨Nat.lt_of_lt_of_le hu.1 (System.length_calls_exec hes), fun b i item hslot => ?_⟩
  cases BatchSystem.step_slot h hslot with
  | old hold => exact hu.2 b i item hold
  | asked hasks => exact Nat.not_le.2 hu.1 hasks.1

theorem BatchSystem.Unawaited.exec (hu : s.Unawaited n)
    (h : EventSystem.exec (BatchSystem.step world service) s events = some s') : s'.Unawaited n :=
  EventSystem.exec_invariant (I := fun (m : BatchSystem) => m.Unawaited n)
    (fun _ _ _ hm (_ : True) hstep => BatchSystem.Unawaited.step hm hstep) hu (fun _ _ => trivial) h

theorem BatchSystem.TakesUp.unawaited {item : BatchJobItem} {run : JobRun} (ht : s.TakesUp b i n item run e)
    (hn : s.Numbered) (h : s.step world service e = some s') : s'.Unawaited n := by
  obtain ⟨now, rfl⟩ := ht.event
  obtain ⟨es, hes, -⟩ := BatchSystem.step_system h
  have hlt := hn.bounded ht.slot rfl
  refine ⟨Nat.lt_of_lt_of_le hlt (System.length_calls_exec hes), fun b' i' item' hslot => ?_⟩
  cases BatchSystem.step_slot h hslot with
  | old hold he =>
    obtain ⟨rfl, rfl⟩ := hn.distinct ht.slot hold rfl rfl
    exact he now rfl
  | asked hasks => exact Nat.not_le.2 hlt hasks.1

end

/-! ## A run in the hands of a batch -/

/-- Nothing else has to do with run `r`, and the jobs in `J` are not registered again. -/
def BatchSystemEvent.Aside (J : JobId → Prop) (r : RunId) : BatchSystemEvent → Prop
  | .inner e => e.Aside r ∧ ∀ j, J j → e.Keeps j
  | .execute _ | .resumeWorker _ _ _ => True

def BatchSystem.Created (r : RunId) (s : BatchSystem) : Prop := ∃ b, s.Holds b r

section
variable {world : World} {J : JobId → Prop} {N service : Nat} {r : RunId} {o : Option (Nat × Birth)} {B : Birth}
  {s s' : BatchSystem} {e : BatchSystemEvent} {events : List BatchSystemEvent} {b i n : Nat}

/-- The run stays at its stage until a worker takes it up. -/
theorem BatchSystem.step_stage (hq : world.Quiet) (hk : s.Kept world N service)
    (hst : s.system.Stage world J N service r o) (he : e.Aside J r) (h : s.step world service e = some s') :
    s'.system.Stage world J N service r o ∨ ∃ b i n item run, s.TakesUp b i n item run e ∧ run.id = r := by
  obtain ⟨es, hes, horigin⟩ := BatchSystem.step_system h
  by_cases htakes : ∃ b i n item run, s.TakesUp b i n item run e ∧ run.id = r
  · exact .inr htakes
  · refine .inl (hst.exec hq hk.reachable.coherent (fun e' he' => ?_) hes)
    rcases horigin e' he' with rfl | ⟨jobId, trigger, input, rfl⟩ |
      ⟨b, i, now, item, n, jobId, trigger, input, run, rfl, hslot, hcall, rfl⟩
    · exact he
    · exact ⟨trivial, by simp [Event.Keeps]⟩
    · refine ⟨fun hr => htakes ?_, by simp [Event.Keeps]⟩
      exact ⟨b, i, n, item, run, ⟨⟨now, rfl⟩, hslot, jobId, trigger, input, hcall⟩, hr⟩

/-- A run that is executed is not taken up a second time. -/
theorem BatchSystem.exec_stage (hq : world.Quiet) (hk : s.Kept world N service)
    (hst : s.system.Stage world J N service r (some (n, B))) (hu : s.Unawaited n)
    (he : ∀ e ∈ events, e.Aside J r) (h : EventSystem.exec (BatchSystem.step world service) s events = some s') :
    s'.system.Stage world J N service r (some (n, B)) := by
  refine (EventSystem.exec_invariant (I := fun (m : BatchSystem) => m.Kept world N service ∧
      m.system.Stage world J N service r (some (n, B)) ∧ m.Unawaited n)
    (fun m e m' hm he hstep => ?_) ⟨hk, hst, hu⟩ he h).2.1
  obtain ⟨hk, hst, hu⟩ := hm
  refine ⟨hk.step hstep, ?_, hu.step hstep⟩
  rcases BatchSystem.step_stage hq hk hst he hstep with hst' | ⟨b', i', n', item, run, ht, hid⟩
  · exact hst'
  · obtain ⟨jobId, trigger, input, hcall⟩ := ht.call
    obtain ⟨B', -, -, ho | ⟨ho, -⟩⟩ := hst.returned hk.reachable hcall hid
    · cases ho
      exact absurd ht.slot (hu.2 b' i' item)
    · cases ho

theorem BatchSystem.Holds.exec (hr : s.Holds b r)
    (h : EventSystem.exec (BatchSystem.step world service) s events = some s') : s'.Holds b r := by
  obtain ⟨x, hx, hr⟩ := hr
  obtain ⟨x', hx', hgrows⟩ := BatchSystem.grows hx h
  exact ⟨x', hx', hgrows.runIds.subset hr⟩

theorem BatchSystem.Holds.step (hr : s.Holds b r) (h : s.step world service e = some s') : s'.Holds b r := by
  have hrun : EventSystem.exec (BatchSystem.step world service) s [e] = some s' :=
    EventSystem.exec_cons.2 ⟨s', h, rfl⟩
  exact hr.exec hrun

/-- Until a batch has created the run nobody has executed it. -/
theorem BatchSystem.stage_of_not_created (hq : world.Quiet) (hk : s.Kept world N service)
    (hst : s.system.Stage world J N service r none) (he : ∀ e ∈ events, e.Aside J r)
    (h : EventSystem.exec (BatchSystem.step world service) s events = some s') (hnot : ¬ s'.Created r) :
    s'.system.Stage world J N service r none := by
  refine ((EventSystem.exec_invariant (I := fun (m : BatchSystem) => m.Kept world N service ∧
      (m.Created r ∨ m.system.Stage world J N service r none))
    (fun m e m' hm he hstep => ?_) ⟨hk, .inr hst⟩ he h).2).resolve_left hnot
  obtain ⟨hk, ⟨b, hr⟩ | hst⟩ := hm
  · exact ⟨hk.step hstep, .inl ⟨b, hr.step hstep⟩⟩
  · refine ⟨hk.step hstep, ?_⟩
    rcases BatchSystem.step_stage hq hk hst he hstep with hst' | ⟨b, i, n, item, run, ht, rfl⟩
    · exact .inr hst'
    · exact .inl ⟨b, (ht.taken hstep).2.1⟩

/-- No run is taken up twice. -/
theorem BatchSystem.TakesUp.once {m : BatchSystem} {b' i' n' : Nat} {e' : BatchSystemEvent}
    {item item' : BatchJobItem} {run run' : JobRun} (hk : s.Kept world N service) (ht : s.TakesUp b i n item run e)
    (h : s.step world service e = some s')
    (hs : EventSystem.exec (BatchSystem.step world service) s' events = some m)
    (ht' : m.TakesUp b' i' n' item' run' e') : run.id ≠ run'.id := by
  intro hid
  have hall : EventSystem.exec (BatchSystem.step world service) s (e :: events) = some m :=
    EventSystem.exec_cons.2 ⟨s', h, hs⟩
  obtain ⟨jobId, trigger, input, hcall⟩ := ht.call
  obtain ⟨jobId', trigger', input', hcall'⟩ := ht'.call
  obtain ⟨es, hes⟩ := BatchSystem.exec_system hall
  have hmakes : m.system.Makes n run := System.Makes.exec ⟨jobId, trigger, input, _, hcall, rfl⟩ hes
  obtain rfl := (hk.exec hall).reachable.madeOnce.once hmakes ⟨jobId', trigger', input', _, hcall', rfl⟩ hid
  -- no worker awaits the call any more
  have hunawaited := (ht.unawaited hk.numbered h).exec hs
  exact hunawaited.2 b' i' item' ht'.slot

/-- Every run of a batch has been taken up. -/
theorem BatchSystem.exists_takesUp (hnone : ¬ s.Created r)
    (h : EventSystem.exec (BatchSystem.step world service) s events = some s') (hr : s'.Holds b r) :
    ∃ before e after m m', events = before ++ e :: after ∧
      EventSystem.exec (BatchSystem.step world service) s before = some m ∧ m.step world service e = some m' ∧
      EventSystem.exec (BatchSystem.step world service) m' after = some s' ∧
      ∃ i n item run, m.TakesUp b i n item run e ∧ run.id = r := by
  obtain ⟨before, e, after, m, m', hsplit, hm, hnot, hstep, hnew, hafter⟩ :=
    EventSystem.exec_first (P := BatchSystem.Holds b r) h (fun hr => hnone ⟨b, hr⟩) hr
  exact ⟨before, e, after, m, m', hsplit, hm, hstep, hafter, BatchSystem.takesUp_of_new hstep hnew hnot⟩

/-- What a worker takes up is a new run, and nobody else ever executes it. -/
theorem BatchSystem.TakesUp.made {m m' : BatchSystem} {before after : List BatchSystemEvent} {item : BatchJobItem}
    {run : JobRun} (hq : world.Quiet) (hk : s.Kept world N service) (hnone : ¬ s.Created run.id)
    (hst : s.system.Stage world J N service run.id none) (he : ∀ e' ∈ before ++ e :: after, e'.Aside J run.id)
    (hm : EventSystem.exec (BatchSystem.step world service) s before = some m) (ht : m.TakesUp b i n item run e)
    (hstep : m.step world service e = some m')
    (hafter : EventSystem.exec (BatchSystem.step world service) m' after = some s') {x : BatchRun}
    (hx : s'.batches[b]? = some x) (hJ : ∀ item ∈ x.batch.started, J item.jobId) :
    ∃ B, m.system.stores.getByRunId run.id = some B.workflow ∧
      m.system.stores.jobs.get item.jobId = some B.definition ∧
      s'.system.Stage world J N service run.id (some (n, B)) := by
  have hkm := hk.exec hm
  -- no batch had created it before
  have hnotm : ¬ m.Created run.id := by
    rintro ⟨b', hr⟩
    obtain ⟨before', e', after', m₀, m₀', -, hm₀, hstep₀, hafter₀, i', n', item', run', ht', hid⟩ :=
      BatchSystem.exists_takesUp hnone hm hr
    exact ht'.once (hk.exec hm₀) hstep₀ hafter₀ ht hid
  have hstm := BatchSystem.stage_of_not_created hq hk hst (fun e' he' => he e' (List.mem_append_left _ he')) hm hnotm
  obtain ⟨jobId, trigger, input, hcall⟩ := ht.call
  obtain ⟨hN, trigger', input', pc, hcall'⟩ := hkm.served.creating ht.slot
  obtain ⟨B, hB, hjob, ho | ⟨-, hdormant, hexecuted⟩⟩ := hstm.returned hkm.reachable hcall rfl
  · cases ho
  · cases hcall.symm.trans hcall'
    have hjobs : J B.jobId := by
      obtain ⟨y, hy, hworker, -⟩ := ht.slot
      obtain ⟨x', hx', hgrows⟩ := BatchSystem.grows hy (EventSystem.exec_cons.2 ⟨m', hstep, hafter⟩)
      cases hx.symm.trans hx'
      rw [hjob]
      exact hJ item (hgrows.started.subset ((hkm.manned hy).items item (List.mem_of_getElem? hworker)))
    have hstm' : m'.system.Stage world J N service run.id (some (n, B)) := by
      rw [(ht.taken hstep).1]
      exact hB.execute hq hkm.reachable hdormant hexecuted hN hjobs
    refine ⟨B, congrArg (fun v => v.record.workflow) hdormant.view, hjob ▸ hB.registered hN hjobs, ?_⟩
    refine BatchSystem.exec_stage hq (hkm.step hstep) hstm' (ht.unawaited hkm.numbered hstep) ?_ hafter
    exact fun e' he' => he e' (List.mem_append_right _ (List.mem_cons_of_mem _ he'))

end

end Jobflow
