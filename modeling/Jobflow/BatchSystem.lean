import Mathlib.Data.List.Sort
import Jobflow.Batch
import Jobflow.CronSteps

/-!
# Batches in the running system (src/batch/coordinator.ts, src/workers/pool.ts)

The running system together with the worker pool and the calls of `BatchCoordinator.execute`. A worker awaits
`createRun` and `executeRun` as calls of the running system, so runs are created and executed by the system's own steps;
the batch of a call is the batch alone (`BatchRun.execute_batch`).
-/

namespace Jobflow

/-! ## `WorkerPool` -/

/-- `comparePriority` (priority.ts:8-10). -/
def comparePriority (a b : RunPriority) : RunPriority := b - a

structure QueuedRun where
  runId : RunId
  priority : RunPriority
  enqueuedAt : ISODateString

structure WorkerPool where
  concurrency : Nat
  queue : List QueuedRun
  running : Nat
  /-- The runs that `start` has taken, oldest first. -/
  taken : List QueuedRun

namespace WorkerPool

def new (concurrency : Nat) : WorkerPool := ⟨concurrency, [], 0, []⟩

/-- `enqueue` (pool.ts:16-19); the sort is stable. -/
def enqueue (pool : WorkerPool) (item : QueuedRun) : WorkerPool :=
  { pool with queue := (pool.queue ++ [item]).insertionSort fun a b => comparePriority a.priority b.priority ≤ 0 }

/-- `canAccept` (pool.ts:21-23). -/
def canAccept (pool : WorkerPool) : Bool := pool.running < pool.concurrency

/-- `start` (pool.ts:25-29). -/
def start (pool : WorkerPool) : Option QueuedRun × WorkerPool :=
  match pool.canAccept, pool.queue with
  | true, item :: rest =>
    (some item, { pool with running := pool.running + 1, queue := rest, taken := pool.taken ++ [item] })
  | _, _ => (none, pool)

/-- `complete` (pool.ts:31-33). -/
def complete (pool : WorkerPool) : WorkerPool := { pool with running := pool.running - 1 }

/-- `depth` (pool.ts:35-37). -/
def depth (pool : WorkerPool) : Nat := pool.queue.length

@[simp] theorem depth_enqueue (pool : WorkerPool) (item : QueuedRun) : (pool.enqueue item).depth = pool.depth + 1 := by
  simp [depth, enqueue, List.length_insertionSort]

end WorkerPool

/-! ## The system -/

/-- A call of `execute`, with the number of the call that each worker awaits. -/
structure BatchRun where
  batch : Batch
  calls : List Nat

structure BatchSystem where
  system : System
  pool : WorkerPool
  /-- Every call of `execute` made so far. -/
  batches : List BatchRun

inductive BatchSystemEvent where
  /-- Something else happens in the running system, or a call of it goes on. -/
  | inner (e : Event)
  | execute (manifest : BatchManifest)
  /-- A worker whose call has settled goes on; where it enqueues a run, this is the reading of the clock. -/
  | resumeWorker (batch worker : Nat) (now : ISODateString)

namespace BatchRun

/-- What `createRun` is called with for an item (coordinator.ts:41). -/
def create (system : System) (x : BatchRun) (item : BatchJobItem) : Call :=
  .create item.jobId ("batch:" ++ x.batch.manifest.id) item.input (.definitionRead (system.stores.jobs.get item.jobId))

/-- The head of the loop of worker `i`, which calls `createRun` for the next item. -/
def loop (system : System) (x : BatchRun) (i : Nat) : System × BatchRun :=
  match x.batch.queue with
  | [] => (system, { x with batch := x.batch.loop i })
  | item :: _ =>
    (system.spawn system.stores (x.create system item),
      { batch := x.batch.loop i, calls := x.calls.set i system.calls.length })

/-- One more worker. -/
def spawn (system : System) (x : BatchRun) : System × BatchRun :=
  loop system
    { batch := { x.batch with workers := x.batch.workers ++ [.returned] }, calls := x.calls ++ [0] }
    x.batch.workers.length

/-- `execute` as far as `Promise.all`. -/
def execute (system : System) (manifest : BatchManifest) : System × BatchRun :=
  (List.range manifest.parallel).foldl (fun s _ => spawn s.1 s.2) (system, ⟨.prepare manifest, []⟩)

/-- The `finally` block, and on to the next item. -/
def release (system : System) (x : BatchRun) (i : Nat) : System × BatchRun :=
  loop system
    { x with batch := { x.batch with progress := { x.batch.progress with running := x.batch.progress.running - 1 } } } i

/-- The call that worker `i` awaits. -/
def awaited (system : System) (x : BatchRun) (i : Nat) : Option Call := x.calls[i]?.bind fun call => system.calls[call]?

end BatchRun

namespace BatchSystem

/-- Batch number `b` has gone on. -/
def goOn (s : BatchSystem) (b : Nat) (next : System × BatchRun) : BatchSystem :=
  { s with system := next.1, batches := s.batches.set b next.2 }

/-- A worker from one await to the next; `none` while the call it awaits has not settled. -/
def resumeWorker (service : Nat) (s : BatchSystem) (b : Nat) (x : BatchRun) (i : Nat) (now : ISODateString) :
    Option BatchSystem :=
  match x.batch.workers[i]?, x.awaited s.system i with
  | some (.creating item), some (.create _ _ _ (.settled (.ok run))) =>
    some
      { system := s.system.execute service run.id
        pool := s.pool.enqueue ⟨run.id, item.priority.getD .normal, now⟩
        batches := s.batches.set b
          { batch :=
              { x.batch with
                progress := { x.batch.progress with runIds := x.batch.progress.runIds ++ [run.id] }
                workers := x.batch.workers.set i (.executing item run.id) }
            calls := x.calls.set i s.system.calls.length } }
  | some (.creating item), some (.create _ _ _ (.settled (.error _))) =>
    some (s.goOn b (BatchRun.release s.system { x with batch := x.batch.caught item } i))
  | some (.executing _ _), some (.execute _ _ (.settled (.ok ()))) =>
    some (s.goOn b (BatchRun.release s.system
      { x with
        batch := { x.batch with
          progress := { x.batch.progress with completed := x.batch.progress.completed + 1 } } } i))
  | some (.executing item _), some (.execute _ _ (.settled (.error _))) =>
    some (s.goOn b (BatchRun.release s.system { x with batch := x.batch.caught item } i))
  | _, _ => none

/-- One step; the runs are executed by the container's own `ExecutionService`. -/
def step (world : World) (service : Nat) (s : BatchSystem) : BatchSystemEvent → Option BatchSystem
  | .inner e => (s.system.step world e).map fun system => { s with system := system }
  | .execute manifest =>
    let begun := BatchRun.execute s.system manifest
    some { s with system := begun.1, batches := s.batches ++ [begun.2] }
  | .resumeWorker b i now => (s.batches[b]?).bind fun x => s.resumeWorker service b x i now

end BatchSystem

/-! ## What a step can do -/

/-- What an event does to the system, with everything that was checked for it. -/
inductive BatchStep (world : World) (service : Nat) (s : BatchSystem) : BatchSystemEvent → BatchSystem → Prop where
  | inner {e : Event} {system : System} (h : s.system.step world e = some system) :
      BatchStep world service s (.inner e) { s with system := system }
  | executed {manifest : BatchManifest} :
      BatchStep world service s (.execute manifest)
        { s with
          system := (BatchRun.execute s.system manifest).1
          batches := s.batches ++ [(BatchRun.execute s.system manifest).2] }
  | created {b i : Nat} {now : ISODateString} {x : BatchRun} {item : BatchJobItem} {jobId : JobId} {trigger : String}
      {input : Js.Record} {run : JobRun} (hx : s.batches[b]? = some x)
      (hi : x.batch.workers[i]? = some (.creating item))
      (hcall : x.awaited s.system i = some (.create jobId trigger input (.settled (.ok run)))) :
      BatchStep world service s (.resumeWorker b i now)
        { system := s.system.execute service run.id
          pool := s.pool.enqueue ⟨run.id, item.priority.getD .normal, now⟩
          batches := s.batches.set b
            { batch :=
                { x.batch with
                  progress := { x.batch.progress with runIds := x.batch.progress.runIds ++ [run.id] }
                  workers := x.batch.workers.set i (.executing item run.id) }
              calls := x.calls.set i s.system.calls.length } }
  | notCreated {b i : Nat} {now : ISODateString} {x : BatchRun} {item : BatchJobItem} {jobId : JobId} {trigger : String}
      {input : Js.Record} {e : JobflowError} (hx : s.batches[b]? = some x)
      (hi : x.batch.workers[i]? = some (.creating item))
      (hcall : x.awaited s.system i = some (.create jobId trigger input (.settled (.error e)))) :
      BatchStep world service s (.resumeWorker b i now)
        (s.goOn b (BatchRun.release s.system { x with batch := x.batch.caught item } i))
  | completed {b i k : Nat} {now : ISODateString} {x : BatchRun} {item : BatchJobItem} {r runId : RunId}
      (hx : s.batches[b]? = some x) (hi : x.batch.workers[i]? = some (.executing item runId))
      (hcall : x.awaited s.system i = some (.execute k r (.settled (.ok ())))) :
      BatchStep world service s (.resumeWorker b i now)
        (s.goOn b (BatchRun.release s.system
          { x with
            batch := { x.batch with
              progress := { x.batch.progress with completed := x.batch.progress.completed + 1 } } } i))
  | failed {b i k : Nat} {now : ISODateString} {x : BatchRun} {item : BatchJobItem} {r runId : RunId} {e : JobflowError}
      (hx : s.batches[b]? = some x) (hi : x.batch.workers[i]? = some (.executing item runId))
      (hcall : x.awaited s.system i = some (.execute k r (.settled (.error e)))) :
      BatchStep world service s (.resumeWorker b i now)
        (s.goOn b (BatchRun.release s.system { x with batch := x.batch.caught item } i))

section
variable {world : World} {service : Nat} {s s' : BatchSystem}

theorem BatchSystem.step_cases {e : BatchSystemEvent} (h : s.step world service e = some s') :
    BatchStep world service s e s' := by
  cases e with
  | inner e =>
    obtain ⟨system, hs, rfl⟩ := Option.map_eq_some_iff.1 h
    exact .inner hs
  | execute manifest =>
    cases h
    exact .executed
  | resumeWorker b i now =>
    obtain ⟨x, hx, h⟩ := Option.bind_eq_some_iff.1 h
    simp only [BatchSystem.resumeWorker] at h
    split at h
    · rename_i hi hcall
      cases h
      exact .created hx hi hcall
    · rename_i hi hcall
      cases h
      exact .notCreated hx hi hcall
    · rename_i hi hcall
      cases h
      exact .completed hx hi hcall
    · rename_i hi hcall
      cases h
      exact .failed hx hi hcall
    · cases h

/-! ## A worker's way through the loop -/

/-- The batch goes the way of the batch alone. -/
theorem BatchRun.loop_batch (system : System) (x : BatchRun) (i : Nat) :
    (BatchRun.loop system x i).2.batch = x.batch.loop i := by
  unfold BatchRun.loop
  split <;> rfl

theorem BatchRun.release_batch (system : System) (batch : Batch) (calls : List Nat) (i : Nat) :
    (BatchRun.release system ⟨batch, calls⟩ i).2.batch = batch.release i :=
  BatchRun.loop_batch system _ i

theorem BatchRun.execute_batch (system : System) (manifest : BatchManifest) :
    (BatchRun.execute system manifest).2.batch = BatchCoordinator.execute manifest := by
  have hall : ∀ (l : List Nat) (s : System × BatchRun),
      (l.foldl (fun s _ => BatchRun.spawn s.1 s.2) s).2.batch = l.foldl (fun b _ => b.spawn) s.2.batch := by
    intro l
    induction l with
    | nil => exact fun s => rfl
    | cons n l ih =>
      intro s
      have hspawn : (BatchRun.spawn s.1 s.2).2.batch = s.2.batch.spawn := BatchRun.loop_batch _ _ _
      rw [List.foldl_cons, List.foldl_cons, ih, hspawn]
  exact hall _ _

end

end Jobflow
