import Jobflow.BatchCalls

/-!
# Batches and the worker pool (src/batch/coordinator.ts, src/workers/pool.ts)

`BatchCoordinator` enqueues every run that it creates, and nothing ever takes a run from the queue: neither `canAccept`
nor `start` nor `complete` is called. So batches respect the pool as long as they create no run
(`batches_respect_pool`), and only then.
-/

namespace Jobflow

open Js (Record)

def WorkerPc.executes : WorkerPc → Bool
  | .executing _ _ => true
  | _ => false

/-- How many runs the batches are executing. -/
def BatchSystem.executing (s : BatchSystem) : Nat :=
  (s.batches.map fun x => x.batch.workers.countP WorkerPc.executes).sum

def BatchSystem.Resolved (s : BatchSystem) : Prop := ∀ x ∈ s.batches, x.batch.Resolved

/-- Every run that the batches of `s'` have enqueued has been taken and finished, and the pool is as full as it was in
`s`. -/
structure BatchSystem.DrainedSince (s s' : BatchSystem) : Prop where
  taken : ∀ x ∈ s'.batches, ∀ r ∈ x.batch.progress.runIds, ∃ run ∈ s'.pool.taken, run.runId = r
  finished : s'.pool.running = s.pool.running
  depth : s'.pool.depth = s.pool.depth

/-- What batches owe to the pool in a state that they have come to from `s`. -/
def BatchSystem.WithinPool (s m : BatchSystem) : Prop :=
  m.executing ≤ m.pool.concurrency ∧ (m.Resolved → s.DrainedSince m)

/-- No worker takes an item whose job is registered. -/
def BatchSystem.TakesUnregistered (s : BatchSystem) (_ : BatchSystemEvent) (s' : BatchSystem) : Prop :=
  ∀ b i item n, s'.Slot b i (.creating item) n → s.system.calls.length ≤ n →
    s.system.stores.jobs.get item.jobId = none

/-! ## Calls of `createRun` that find no definition -/

/-- The call has found no definition, so it will not make a run. -/
def CreatePc.doomed : CreatePc → Bool
  | .definitionRead found => found.isNone
  | .settled result => !result.isOk
  | _ => false

/-- Call `n` is a call of `createRun`, and `v` says whether it is doomed. -/
def System.Creates (s : System) (n : Nat) (v : Bool) : Prop :=
  ∃ jobId trigger input pc, s.calls[n]? = some (.create jobId trigger input pc) ∧ pc.doomed = v

section
variable {world : World} {service : Nat} {s s' : BatchSystem} {e : BatchSystemEvent}

theorem CreateStep.doomed {jobId : JobId} {trigger : String} {input : Record} {st st' : Stores} {reply : Reply}
    {pc pc' : CreatePc} (h : CreateStep jobId trigger input st reply pc st' pc') : pc'.doomed = pc.doomed := by
  cases h <;> rfl

theorem System.Creates.exec {m m' : System} {n : Nat} {v : Bool} {es : List Event} (h : m.Creates n v)
    (hs : EventSystem.exec (System.step world) m es = some m') : m'.Creates n v := by
  refine EventSystem.exec_invariant (I := fun (x : System) => x.Creates n v) (fun x e x' hx (_ : True) hstep => ?_) h
    (fun _ _ => trivial) hs
  obtain ⟨jobId, trigger, input, pc, hcall, hpc⟩ := hx
  obtain ⟨pc', hcall', rfl | ⟨reply, st, -, hcreate⟩⟩ := System.step_create hcall hstep
  · exact ⟨jobId, trigger, input, pc', hcall', hpc⟩
  · exact ⟨jobId, trigger, input, pc', hcall', hcreate.doomed.trans hpc⟩

/-! ## Batches that create no run -/

/-- The batch has created no run. -/
structure Batch.Barren (b : Batch) : Prop where
  runIds : b.progress.runIds = []
  workers : ∀ pc ∈ b.workers, pc.executes = false

theorem Batch.Barren.loop {b : Batch} (h : b.Barren) (i : Nat) : (b.loop i).Barren := by
  have hset : ∀ {pc : WorkerPc}, pc.executes = false → ∀ pc' ∈ b.workers.set i pc, pc'.executes = false := by
    intro pc hpc pc' hmem
    rcases List.mem_or_eq_of_mem_set hmem with hmem | rfl
    · exact h.workers pc' hmem
    · exact hpc
  unfold Batch.loop
  split
  · exact ⟨h.runIds, hset rfl⟩
  · exact ⟨h.runIds, hset rfl⟩

theorem BatchCoordinator.execute_barren (m : BatchManifest) : (execute m).Barren := by
  have hall : ∀ (l : List Nat) (b : Batch), b.Barren → (l.foldl (fun b _ => b.spawn) b).Barren := by
    intro l
    induction l with
    | nil => exact fun b hb => hb
    | cons n l ih =>
      intro b hb
      refine ih b.spawn (Batch.Barren.loop ?_ _)
      refine ⟨hb.runIds, fun pc hpc => ?_⟩
      rcases List.mem_append.1 hpc with hpc | hpc
      · exact hb.workers pc hpc
      · rw [List.mem_singleton.1 hpc]
        rfl
  exact hall _ _ ⟨rfl, fun pc hpc => absurd hpc List.not_mem_nil⟩

/-- What holds as long as no worker takes an item whose job is registered. -/
structure BatchSystem.Barren (pool : WorkerPool) (s : BatchSystem) : Prop where
  pool : s.pool = pool
  batches : ∀ x ∈ s.batches, x.batch.Barren
  doomed : ∀ {b i item n}, s.Slot b i (.creating item) n → s.system.Creates n true

theorem BatchSystem.Barren.step {pool : WorkerPool} (hs : s.Barren pool) (h : s.step world service e = some s')
    (htakes : s.TakesUnregistered e s') : s'.Barren pool := by
  obtain ⟨es, hes, -⟩ := BatchSystem.step_system h
  -- a worker that is through with its item
  have hset : ∀ {b : Nat} {x : BatchRun}, x.batch.Barren → ∀ y ∈ s.batches.set b x, y.batch.Barren := by
    intro b x hx y hy
    rcases List.mem_or_eq_of_mem_set hy with hy | rfl
    · exact hs.batches y hy
    · exact hx
  have hrelease : ∀ {batch : Batch} (calls : List Nat) (i : Nat), batch.Barren →
      (BatchRun.release s.system ⟨batch, calls⟩ i).2.batch.Barren := by
    intro batch calls i hb
    rw [BatchRun.release_batch]
    refine Batch.Barren.loop ?_ i
    exact ⟨hb.runIds, hb.workers⟩
  have hnever : ∀ {b i : Nat} {x : BatchRun} {item : BatchJobItem} {jobId : JobId} {trigger : String} {input : Record}
      {run : JobRun}, s.batches[b]? = some x → x.batch.workers[i]? = some (.creating item) →
      x.awaited s.system i ≠ some (.create jobId trigger input (.settled (.ok run))) := by
    intro b i x item jobId trigger input run hx hi hcall
    obtain ⟨n, hn, hcall⟩ := BatchRun.awaited_eq_some hcall
    obtain ⟨_, _, _, _, hcall', hdoomed⟩ := hs.doomed ⟨x, hx, hi, hn⟩
    cases hcall.symm.trans hcall'
    cases hdoomed
  refine ⟨?_, ?_, fun {b i item n} hslot => ?_⟩
  · cases BatchSystem.step_cases h with
    | created hx hi hcall => exact absurd hcall (hnever hx hi)
    | _ => exact hs.pool
  · cases BatchSystem.step_cases h with
    | inner => exact hs.batches
    | executed =>
      intro y hy
      rcases List.mem_append.1 hy with hy | hy
      · exact hs.batches y hy
      · rw [List.mem_singleton.1 hy, BatchRun.execute_batch]
        exact BatchCoordinator.execute_barren _
    | created hx hi hcall => exact absurd hcall (hnever hx hi)
    | notCreated hx | completed hx | failed hx =>
      obtain ⟨hruns, hworkers⟩ := hs.batches _ (List.mem_of_getElem? hx)
      refine hset (hrelease _ _ ⟨hruns, hworkers⟩)
  · cases BatchSystem.step_slot h hslot with
    | old hold => exact (hs.doomed hold).exec hes
    | asked hasks =>
      have hfound := htakes _ _ _ _ hslot hasks.1
      obtain ⟨-, trigger, hcall⟩ := hasks
      exact ⟨_, _, _, _, hcall, by rw [hfound]; rfl⟩

/-! ## A run that has been promised -/

/-- A run has been enqueued since `s`, or a worker awaits a call that is going to make one. -/
def BatchSystem.Clogged (s m : BatchSystem) : Prop :=
  s.pool.depth < m.pool.depth ∨ ∃ b i item n, m.Slot b i (.creating item) n ∧ m.system.Creates n false

theorem BatchSystem.depth_step (h : s.step world service e = some s') : s.pool.depth ≤ s'.pool.depth := by
  cases BatchSystem.step_cases h with
  | created =>
    rw [WorkerPool.depth_enqueue]
    exact Nat.le_succ _
  | _ => exact Nat.le_refl _

theorem BatchSystem.Clogged.step {m m' : BatchSystem} (hle : s.pool.depth ≤ m.pool.depth) (hc : s.Clogged m)
    (h : m.step world service e = some m') : s.Clogged m' := by
  obtain ⟨es, hes, -⟩ := BatchSystem.step_system h
  rcases hc with hlt | ⟨b, i, item, n, hslot, hcreates⟩
  · exact .inl (Nat.lt_of_lt_of_le hlt (BatchSystem.depth_step h))
  · by_cases he : ∀ now, e ≠ .resumeWorker b i now
    · exact .inr ⟨b, i, item, n, BatchSystem.step_keeps h hslot he, hcreates.exec hes⟩
    · -- the worker goes on, and the only thing it can do is to enqueue the run
      have hgoes : ∃ now, e = .resumeWorker b i now := by simpa using he
      obtain ⟨now, rfl⟩ := hgoes
      obtain ⟨x, hx, hworker, hcall⟩ := hslot
      obtain ⟨jobId, trigger, input, pc, hn, hpc⟩ := hcreates
      cases BatchSystem.step_cases h with
      | created =>
        left
        rw [WorkerPool.depth_enqueue]
        exact Nat.lt_succ_of_le hle
      | notCreated hx' hi hawaits =>
        cases hx.symm.trans hx'
        obtain ⟨n', hn', hawaits⟩ := BatchRun.awaited_eq_some hawaits
        cases hcall.symm.trans hn'
        cases hn.symm.trans hawaits
        cases hpc
      | completed hx' hi | failed hx' hi =>
        cases hx.symm.trans hx'
        cases hworker.symm.trans hi

/-- A worker that takes an item whose job is registered awaits a call that is going to make a run. -/
theorem BatchSystem.clogged_of_taken {m m' : BatchSystem} (hn : m.Numbered) (h : m.step world service e = some m')
    (htakes : ¬ m.TakesUnregistered e m') : s.Clogged m' := by
  simp only [BatchSystem.TakesUnregistered, not_forall] at htakes
  obtain ⟨b, i, item, n, hslot, hge, hfound⟩ := htakes
  refine .inr ⟨b, i, item, n, hslot, ?_⟩
  cases BatchSystem.step_slot h hslot with
  | old hold => exact absurd (hn.bounded hold rfl) (Nat.not_lt.2 hge)
  | asked hasks =>
    obtain ⟨-, trigger, hcall⟩ := hasks
    refine ⟨_, _, _, _, hcall, ?_⟩
    rw [CreatePc.doomed, Option.isNone_eq_false_iff, Option.isSome_iff_ne_none]
    exact hfound

end

/-- In every run of any number of batches, whatever happens between their steps: as long as no worker takes an item
whose job is registered, the runs being executed never exceed the pool's concurrency, and whenever all `execute` calls
have resolved every run has left the pool. A run at the end of which all have resolved is drained only then. -/
theorem batches_respect_pool {world : World} {service : Nat} {s s' : BatchSystem} {events : List BatchSystemEvent}
    (hnone : s.batches = [])
    (hs : EventSystem.exec (BatchSystem.step world service) s events = some s') :
    (EventSystem.Along (BatchSystem.step world service) BatchSystem.TakesUnregistered s events →
        EventSystem.Along (BatchSystem.step world service) (fun _ _ m => s.WithinPool m) s events) ∧
      (s'.Resolved → s.DrainedSince s' →
        EventSystem.Along (BatchSystem.step world service) BatchSystem.TakesUnregistered s events) := by
  refine ⟨fun hC => ?_, fun hresolved hdrained => ?_⟩
  · refine EventSystem.Along.of_invariant (I := BatchSystem.Barren s.pool)
      (fun m e m' hm (_ : True) hstep hCm => ?_) ⟨rfl, ?_, fun h => absurd h (BatchSystem.not_slot hnone)⟩
      (fun _ _ => trivial) hC
    · have hm' := hm.step hstep hCm
      refine ⟨⟨?_, fun _ => ⟨fun x hx r hr => ?_, ?_, ?_⟩⟩, hm'⟩
      · have hzero : m'.executing = 0 := by
          rw [BatchSystem.executing, List.sum_eq_zero_iff_forall_eq_nat]
          intro n hn
          obtain ⟨x, hx, rfl⟩ := List.mem_map.1 hn
          rw [List.countP_eq_zero]
          intro pc hpc
          simp [(hm'.batches x hx).workers pc hpc]
        rw [hzero]
        exact Nat.zero_le _
      · rw [(hm'.batches x hx).runIds] at hr
        cases hr
      · rw [hm'.pool]
      · rw [hm'.pool]
    · rw [hnone]
      exact fun x hx => absurd hx List.not_mem_nil
  · by_contra hC
    have hclogged : s.Clogged s' := EventSystem.exec_of_not_along
      (J := fun (m : BatchSystem) => m.Numbered ∧ s.pool.depth ≤ m.pool.depth)
      (fun m e m' hm hstep => ⟨hm.1.step hstep, hm.2.trans (BatchSystem.depth_step hstep)⟩)
      (fun m e m' hm hstep htakes => BatchSystem.clogged_of_taken hm.1 hstep htakes)
      (fun m e m' hm hc hstep => BatchSystem.Clogged.step hm.2 hc hstep)
      ⟨.of_none hnone, Nat.le_refl _⟩ hs hC
    rcases hclogged with hlt | ⟨b, i, item, n, ⟨x, hx, hworker, -⟩, -⟩
    · exact Nat.lt_irrefl _ (hdrained.depth ▸ hlt)
    · cases hresolved x (List.mem_of_getElem? hx) _ (List.mem_of_getElem? hworker)

/-! ## Two items for two workers -/

instance (s : BatchSystem) : Decidable s.Resolved := inferInstanceAs (Decidable (∀ x ∈ s.batches, x.batch.Resolved))

def samplePair : BatchManifest where
  id := "batch"
  items := [sampleItem "a" none, sampleItem "b" none]
  maxParallel := some 2

/-- A system in which the jobs have been registered. -/
def sampleBatches (jobs : List JobDefinition) (concurrency : Nat) : BatchSystem :=
  ⟨⟨jobs.foldl Stores.saveJob .empty, []⟩, .new concurrency, []⟩

def sampleBatchRun (fails : String → Nat → Bool) (s : BatchSystem) (events : List BatchSystemEvent) :
    Option BatchSystem :=
  EventSystem.exec (BatchSystem.step (sampleWorld fails) 0) s events

/-- The next `n` segments of a call. -/
def sampleSegments (call : Nat) (uuid : String) (n : Nat) : List BatchSystemEvent :=
  List.replicate n (.inner (.resume call ⟨"t", ⟨uuid, uuid, ["a"]⟩⟩))

/-- Both workers call `createRun`, and go on when the calls have settled. -/
def samplePairCreated (n : Nat) : List BatchSystemEvent :=
  .execute samplePair :: sampleSegments 0 "1" n ++ sampleSegments 1 "2" n ++
    [.resumeWorker 0 0 "t", .resumeWorker 0 1 "t"]

/-- Both runs are executed, and both workers return. -/
def samplePairExecuted : List BatchSystemEvent :=
  sampleSegments 2 "" 13 ++ sampleSegments 3 "" 13 ++ [.resumeWorker 0 0 "t", .resumeWorker 0 1 "t"]

/-- The job is not registered, so both items fail and the pool is left alone. -/
theorem batches_respect_pool_sample : ∃ s',
    sampleBatchRun (fun _ _ => false) (sampleBatches [] 1) (samplePairCreated 1) = some s' ∧ s'.Resolved ∧
      EventSystem.Along (BatchSystem.step (sampleWorld fun _ _ => false) 0)
        (fun _ _ m => (sampleBatches [] 1).WithinPool m) (sampleBatches [] 1) (samplePairCreated 1) := by
  have hrun : (sampleBatchRun (fun _ _ => false) (sampleBatches [] 1) (samplePairCreated 1)).any (fun s =>
      decide (s.Resolved ∧ s.pool.running = 0 ∧ s.pool.depth = 0 ∧
        ∀ x ∈ s.batches, x.batch.progress.runIds.isEmpty = true)) = true := by decide +kernel
  obtain ⟨s', hs, h⟩ := (Option.any_eq_true _ _).1 hrun
  obtain ⟨hresolved, hrunning, hdepth, hruns⟩ := of_decide_eq_true h
  have htaken : ∀ x ∈ s'.batches, ∀ r ∈ x.batch.progress.runIds, ∃ run ∈ s'.pool.taken, run.runId = r := by
    intro x hx r hr
    rw [List.isEmpty_iff.1 (hruns x hx)] at hr
    cases hr
  obtain ⟨hif, honly⟩ := batches_respect_pool rfl hs
  exact ⟨s', hs, hresolved, hif (honly hresolved ⟨htaken, hrunning, hdepth⟩)⟩

/-- With the job registered and a pool for one run, both runs are executed at once, and both stay in the queue. -/
theorem batch_clogs_pool : ∃ s₁ s₂,
    sampleBatchRun (fun _ _ => false) (sampleBatches [sampleOne] 1) (samplePairCreated 3) = some s₁ ∧
      ¬ s₁.executing ≤ s₁.pool.concurrency ∧
      sampleBatchRun (fun _ _ => false) s₁ samplePairExecuted = some s₂ ∧ s₂.Resolved ∧
      s₂.pool.taken = [] ∧ s₂.pool.depth = 2 ∧ ¬ (sampleBatches [sampleOne] 1).DrainedSince s₂ := by
  have hrun : (sampleBatchRun (fun _ _ => false) (sampleBatches [sampleOne] 1) (samplePairCreated 3)).any (fun s₁ =>
      decide (¬ s₁.executing ≤ s₁.pool.concurrency) &&
        (sampleBatchRun (fun _ _ => false) s₁ samplePairExecuted).any fun s₂ =>
          decide (s₂.Resolved ∧ s₂.pool.taken.isEmpty ∧ s₂.pool.depth = 2)) = true := by decide +kernel
  obtain ⟨s₁, hs₁, h⟩ := (Option.any_eq_true _ _).1 hrun
  obtain ⟨hmany, h⟩ := (Bool.and_eq_true_iff).1 h
  obtain ⟨s₂, hs₂, h⟩ := (Option.any_eq_true _ _).1 h
  obtain ⟨hresolved, htaken, hdepth⟩ := of_decide_eq_true h
  refine ⟨s₁, s₂, hs₁, of_decide_eq_true hmany, hs₂, hresolved, List.isEmpty_iff.1 htaken, hdepth,
    fun hdrained => ?_⟩
  have hzero : s₂.pool.depth = 0 := hdrained.depth
  omega

end Jobflow
