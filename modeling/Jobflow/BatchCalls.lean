import Jobflow.BatchSystem
import Jobflow.Executed

/-!
# The calls that the workers of batches await

A slot is a worker with the await it is suspended at and the number of the call it awaits. A step brings at most the
slots of the calls it makes (`BatchSystem.step_slot`), and only the worker that goes on leaves its slot
(`BatchSystem.step_keeps`). `BatchSystem.Numbered` is what follows for every state that batches can reach: no two
workers in flight await the same call.
-/

namespace Jobflow

open Js (Record)

/-- Worker `i` is suspended at `pc`, and the call it awaits is number `n`. -/
structure BatchRun.Slot (x : BatchRun) (i : Nat) (pc : WorkerPc) (n : Nat) : Prop where
  worker : x.batch.workers[i]? = some pc
  call : x.calls[i]? = some n

def BatchSystem.Slot (s : BatchSystem) (b i : Nat) (pc : WorkerPc) (n : Nat) : Prop :=
  ∃ x, s.batches[b]? = some x ∧ x.Slot i pc n

/-- Call `n` is new since `base`, and asks for a run of the item. -/
def System.Asks (base s : System) (item : BatchJobItem) (n : Nat) : Prop :=
  base.calls.length ≤ n ∧ ∃ trigger, s.calls[n]? =
    some (.create item.jobId trigger item.input (.definitionRead (base.stores.jobs.get item.jobId)))

/-! ## A worker at the head of its loop -/

section
variable {world : World} {service : Nat} {base system : System} {x : BatchRun} {i j n : Nat} {pc : WorkerPc}

theorem BatchRun.Slot.lt (h : x.Slot i pc n) : i < x.batch.workers.length := (List.getElem?_eq_some_iff.1 h.worker).1

theorem BatchRun.loop_nil (h : x.batch.queue = []) :
    BatchRun.loop system x i =
      (system, { x with batch := { x.batch with workers := x.batch.workers.set i .returned } }) := by
  simp only [BatchRun.loop, Batch.loop, h]

theorem BatchRun.loop_cons {item : BatchJobItem} {rest : List BatchJobItem} (h : x.batch.queue = item :: rest) :
    BatchRun.loop system x i =
      (system.spawn system.stores (x.create system item),
        { batch :=
            { x.batch with
              queue := rest
              progress := { x.batch.progress with running := x.batch.progress.running + 1 }
              workers := x.batch.workers.set i (.creating item)
              started := x.batch.started ++ [item] }
          calls := x.calls.set i system.calls.length }) := by
  simp only [BatchRun.loop, Batch.loop, h]

/-- What is new after the loop is the slot of the worker that goes through it. -/
theorem BatchRun.Slot.of_loop (h : (BatchRun.loop system x i).2.Slot j pc n) :
    j ≠ i ∧ x.Slot j pc n ∨
      j = i ∧ (pc = .returned ∨ ∃ item, pc = .creating item ∧ n = system.calls.length ∧
        system.Asks (BatchRun.loop system x i).1 item n) := by
  cases hqueue : x.batch.queue with
  | nil =>
    rw [BatchRun.loop_nil hqueue] at h ⊢
    obtain ⟨hworker, hcall⟩ := h
    by_cases hij : i = j
    · subst hij
      simp only [List.getElem?_set_self'] at hworker
      obtain ⟨_, -, rfl⟩ := Option.map_eq_some_iff.1 hworker
      exact .inr ⟨rfl, .inl rfl⟩
    · exact .inl ⟨Ne.symm hij, (List.getElem?_set_ne hij).symm.trans hworker, hcall⟩
  | cons item rest =>
    rw [BatchRun.loop_cons hqueue] at h ⊢
    obtain ⟨hworker, hcall⟩ := h
    by_cases hij : i = j
    · subst hij
      simp only [List.getElem?_set_self'] at hworker hcall
      obtain ⟨_, -, rfl⟩ := Option.map_eq_some_iff.1 hworker
      obtain ⟨_, -, rfl⟩ := Option.map_eq_some_iff.1 hcall
      exact .inr ⟨rfl, .inr ⟨item, rfl, rfl, Nat.le_refl _, _, List.getElem?_concat_length⟩⟩
    · exact .inl ⟨Ne.symm hij, (List.getElem?_set_ne hij).symm.trans hworker,
        (List.getElem?_set_ne hij).symm.trans hcall⟩

/-- The other workers stay where they are. -/
theorem BatchRun.Slot.loop (h : x.Slot j pc n) (hij : i ≠ j) : (BatchRun.loop system x i).2.Slot j pc n := by
  cases hqueue : x.batch.queue with
  | nil =>
    rw [BatchRun.loop_nil hqueue]
    exact ⟨(List.getElem?_set_ne hij).trans h.worker, h.call⟩
  | cons item rest =>
    rw [BatchRun.loop_cons hqueue]
    exact ⟨(List.getElem?_set_ne hij).trans h.worker, (List.getElem?_set_ne hij).trans h.call⟩

/-- The loop makes at most one call. -/
theorem BatchRun.loop_system (world : World) (system : System) (x : BatchRun) (i : Nat) :
    ∃ es, EventSystem.exec (System.step world) system es = some (BatchRun.loop system x i).1 ∧
      ∀ e ∈ es, ∃ jobId trigger input, e = .createRun jobId trigger input := by
  cases hqueue : x.batch.queue with
  | nil =>
    rw [BatchRun.loop_nil hqueue]
    exact ⟨[], rfl, fun _ he => absurd he List.not_mem_nil⟩
  | cons item rest =>
    rw [BatchRun.loop_cons hqueue]
    refine ⟨[.createRun item.jobId ("batch:" ++ x.batch.manifest.id) item.input], rfl, fun e he => ?_⟩
    rw [List.mem_singleton.1 he]
    exact ⟨_, _, _, rfl⟩

end

/-! ## The workers that `execute` makes -/

/-- What holds of a batch while its workers are made, in a system that was `base` before. -/
structure BatchRun.Made (base system : System) (x : BatchRun) : Prop where
  stores : system.stores = base.stores
  calls : base.calls <+: system.calls
  aligned : x.calls.length = x.batch.workers.length
  asks : ∀ {i pc n}, x.Slot i pc n → pc = .returned ∨ ∃ item, pc = .creating item ∧ base.Asks system item n
  distinct : ∀ {i j pc pc' n}, x.Slot i pc n → x.Slot j pc' n → pc.inFlight = true → pc'.inFlight = true →
    i = j

section
variable {world : World} {service : Nat} {base system : System} {x : BatchRun} {i j n : Nat} {pc : WorkerPc}
  {item : BatchJobItem}

theorem System.Asks.lt (h : base.Asks system item n) : n < system.calls.length := by
  obtain ⟨_, _, hcall⟩ := h
  exact (List.getElem?_eq_some_iff.1 hcall).1

theorem System.Asks.mono {system' : System} (h : base.Asks system item n) (hcalls : system.calls <+: system'.calls) :
    base.Asks system' item n := by
  obtain ⟨hn, trigger, hcall⟩ := h
  obtain ⟨rest, hrest⟩ := hcalls
  refine ⟨hn, trigger, ?_⟩
  rw [← hrest]
  exact (List.getElem?_append_left (List.getElem?_eq_some_iff.1 hcall).1).trans hcall

/-- The loop makes calls, and does nothing else. -/
theorem BatchRun.loop_grows (system : System) (x : BatchRun) (i : Nat) :
    (BatchRun.loop system x i).1.stores = system.stores ∧
      system.calls <+: (BatchRun.loop system x i).1.calls := by
  cases hqueue : x.batch.queue with
  | nil =>
    rw [BatchRun.loop_nil hqueue]
    exact ⟨rfl, List.prefix_refl _⟩
  | cons item rest =>
    rw [BatchRun.loop_cons hqueue]
    exact ⟨rfl, List.prefix_append _ _⟩

/-- The slots of a batch to which a worker is added. -/
theorem BatchRun.Slot.of_append (hlen : x.calls.length = x.batch.workers.length)
    (h : BatchRun.Slot
      { batch := { x.batch with workers := x.batch.workers ++ [.returned] }, calls := x.calls ++ [0] } j pc n)
    (hj : j ≠ x.batch.workers.length) : x.Slot j pc n := by
  have hlt : j < x.batch.workers.length := by
    have := h.lt
    simp only [List.length_append, List.length_singleton] at this
    omega
  exact ⟨(List.getElem?_append_left hlt).symm.trans h.worker,
    (List.getElem?_append_left (hlen ▸ hlt)).symm.trans h.call⟩

theorem BatchRun.length_loop (system : System) (x : BatchRun) (i : Nat) :
    (BatchRun.loop system x i).2.calls.length = x.calls.length := by
  cases hqueue : x.batch.queue with
  | nil => rw [BatchRun.loop_nil hqueue]
  | cons item rest =>
    rw [BatchRun.loop_cons hqueue]
    exact List.length_set

theorem BatchRun.Made.spawn (h : x.Made base system) :
    (BatchRun.spawn system x).2.Made base (BatchRun.spawn system x).1 := by
  let y : BatchRun := { batch := { x.batch with workers := x.batch.workers ++ [.returned] }, calls := x.calls ++ [0] }
  show (BatchRun.loop system y x.batch.workers.length).2.Made base
    (BatchRun.loop system y x.batch.workers.length).1
  have hlen : (BatchRun.loop system y x.batch.workers.length).2.calls.length =
      (BatchRun.loop system y x.batch.workers.length).2.batch.workers.length := by
    rw [BatchRun.length_loop, BatchRun.loop_batch, Batch.length_loop]
    simp [y, h.aligned]
  -- a slot is either old, or the one of the new worker
  have hslot : ∀ {j pc n}, (BatchRun.loop system y x.batch.workers.length).2.Slot j pc n →
      j ≠ x.batch.workers.length ∧ x.Slot j pc n ∨
        j = x.batch.workers.length ∧ (pc = .returned ∨ ∃ item, pc = .creating item ∧ n = system.calls.length ∧
          system.Asks (BatchRun.loop system y x.batch.workers.length).1 item n) := fun hs =>
    hs.of_loop.imp_left fun ⟨hj, hs⟩ => ⟨hj, hs.of_append h.aligned hj⟩
  have hbound : ∀ {j pc}, x.Slot j pc system.calls.length → pc.inFlight = true → False := fun hs hpc => by
    rcases h.asks hs with rfl | ⟨item, -, hasks⟩
    · cases hpc
    · exact Nat.lt_irrefl _ hasks.lt
  obtain ⟨hstores, hcalls⟩ := BatchRun.loop_grows system y x.batch.workers.length
  refine ⟨hstores.trans h.stores, h.calls.trans hcalls, hlen, fun hs => ?_, fun hs hs' hpc hpc' => ?_⟩
  · rcases hslot hs with ⟨-, hs⟩ | ⟨-, hpc | ⟨item, hpc, -, hasks⟩⟩
    · rcases h.asks hs with hpc | ⟨item, hpc, hasks⟩
      · exact .inl hpc
      · exact .inr ⟨item, hpc, hasks.mono hcalls⟩
    · exact .inl hpc
    · obtain ⟨hn, trigger, hcall⟩ := hasks
      exact .inr ⟨item, hpc, h.calls.length_le.trans hn, trigger, by rw [← h.stores]; exact hcall⟩
  · rcases hslot hs with ⟨hi, hs⟩ | ⟨rfl, hnew⟩ <;> rcases hslot hs' with ⟨hj, hs'⟩ | ⟨rfl, hnew'⟩
    · exact h.distinct hs hs' hpc hpc'
    · rcases hnew' with rfl | ⟨_, -, rfl, -⟩
      · cases hpc'
      · exact absurd hpc (hbound hs)
    · rcases hnew with rfl | ⟨_, -, rfl, -⟩
      · cases hpc
      · exact absurd hpc' (hbound hs')
    · rfl

theorem BatchRun.execute_made (system : System) (manifest : BatchManifest) :
    (BatchRun.execute system manifest).2.Made system (BatchRun.execute system manifest).1 := by
  have hall : ∀ (l : List Nat) (s : System × BatchRun), s.2.Made system s.1 →
      (l.foldl (fun s _ => BatchRun.spawn s.1 s.2) s).2.Made system
        (l.foldl (fun s _ => BatchRun.spawn s.1 s.2) s).1 := by
    intro l
    induction l with
    | nil => exact fun s hs => hs
    | cons n l ih => exact fun s hs => ih _ hs.spawn
  refine hall _ _ ⟨rfl, List.prefix_refl _, rfl, fun hs => ?_, fun hs => ?_⟩
  · exact absurd hs.lt (Nat.not_lt_zero _)
  · exact absurd hs.lt (Nat.not_lt_zero _)

/-- `execute` makes calls of `createRun` only. -/
theorem BatchRun.execute_system (world : World) (system : System) (manifest : BatchManifest) :
    ∃ es, EventSystem.exec (System.step world) system es = some (BatchRun.execute system manifest).1 ∧
      ∀ e ∈ es, ∃ jobId trigger input, e = .createRun jobId trigger input := by
  have hall : ∀ (l : List Nat) (s : System × BatchRun), ∃ es,
      EventSystem.exec (System.step world) s.1 es = some (l.foldl (fun s _ => BatchRun.spawn s.1 s.2) s).1 ∧
        ∀ e ∈ es, ∃ jobId trigger input, e = .createRun jobId trigger input := by
    intro l
    induction l with
    | nil => exact fun s => ⟨[], rfl, fun _ he => absurd he List.not_mem_nil⟩
    | cons n l ih =>
      intro s
      obtain ⟨es, hes, hcreate⟩ := BatchRun.loop_system world s.1
        { batch := { s.2.batch with workers := s.2.batch.workers ++ [.returned] }, calls := s.2.calls ++ [0] }
        s.2.batch.workers.length
      obtain ⟨es', hes', hcreate'⟩ := ih (BatchRun.spawn s.1 s.2)
      refine ⟨es ++ es', EventSystem.exec_append.2 ⟨_, hes, hes'⟩, fun e he => ?_⟩
      exact (List.mem_append.1 he).elim (hcreate e) (hcreate' e)
  exact hall (List.range manifest.parallel) (system, ⟨.prepare manifest, []⟩)

end

/-! ## A step and the slots -/

section
variable {world : World} {service : Nat} {s s' : BatchSystem} {e : BatchSystemEvent} {b i n : Nat} {pc : WorkerPc}

theorem BatchRun.awaited_eq_some {system : System} {x : BatchRun} {call : Call} (h : x.awaited system i = some call) :
    ∃ m, x.calls[i]? = some m ∧ system.calls[m]? = some call := Option.bind_eq_some_iff.1 h

/-- The slots after batch `b` has gone on. -/
theorem BatchSystem.Slot.of_set {system : System} {pool : WorkerPool} {x y : BatchRun} {b' : Nat}
    (hx : s.batches[b']? = some x) (h : BatchSystem.Slot ⟨system, pool, s.batches.set b' y⟩ b i pc n) :
    b ≠ b' ∧ s.Slot b i pc n ∨ b = b' ∧ y.Slot i pc n := by
  obtain ⟨z, hz, hslot⟩ := h
  by_cases hb : b' = b
  · subst hb
    rw [List.getElem?_set_self (List.getElem?_eq_some_iff.1 hx).1] at hz
    cases hz
    exact .inr ⟨rfl, hslot⟩
  · exact .inl ⟨Ne.symm hb, z, (List.getElem?_set_ne hb).symm.trans hz, hslot⟩

/-- The batch that `execute` adds. -/
theorem BatchSystem.getElem?_snoc {x y : BatchRun} (hx : (s.batches ++ [y])[b]? = some x)
    (hb : ¬ b < s.batches.length) : b = s.batches.length ∧ x = y := by
  have hlt := (List.getElem?_eq_some_iff.1 hx).1
  rw [List.length_append, List.length_singleton] at hlt
  rw [List.getElem?_append_right (Nat.not_lt.1 hb)] at hx
  exact ⟨by omega, List.mem_singleton.1 (List.mem_of_getElem? hx)⟩

/-- Where a slot comes from. -/
inductive BatchSystem.Origin (service : Nat) (s s' : BatchSystem) (e : BatchSystemEvent) (b i : Nat) :
    WorkerPc → Nat → Prop where
  | old {pc : WorkerPc} {n : Nat} (h : s.Slot b i pc n) (he : ∀ now, e ≠ .resumeWorker b i now) :
      Origin service s s' e b i pc n
  | returned {n : Nat} : Origin service s s' e b i .returned n
  | asked {item : BatchJobItem} {n : Nat} (h : s.system.Asks s'.system item n)
      (he : (∃ now, e = .resumeWorker b i now) ∨ ∃ manifest, e = .execute manifest ∧ b = s.batches.length) :
      Origin service s s' e b i (.creating item) n
  | executing {item : BatchJobItem} {now : ISODateString} {m : Nat} {jobId : JobId} {trigger : String} {input : Record}
      {run : JobRun} (he : e = .resumeWorker b i now) (h : s.Slot b i (.creating item) m)
      (hcall : s.system.calls[m]? = some (.create jobId trigger input (.settled (.ok run))))
      (hs : s'.system = s.system.execute service run.id) :
      Origin service s s' e b i (.executing item run.id) s.system.calls.length

theorem BatchSystem.step_slot (h : s.step world service e = some s') (hslot : s'.Slot b i pc n) :
    BatchSystem.Origin service s s' e b i pc n := by
  -- a worker that is through with its item
  have hrelease : ∀ {b' i' : Nat} {now : ISODateString} {x : BatchRun} {batch : Batch}, s.batches[b']? = some x →
      s' = s.goOn b' (BatchRun.release s.system ⟨batch, x.calls⟩ i') → batch.workers = x.batch.workers →
      e = .resumeWorker b' i' now → BatchSystem.Origin service s s' e b i pc n := by
    rintro b' i' now x batch hx rfl hworkers rfl
    rcases BatchSystem.Slot.of_set hx hslot with ⟨hb, hold⟩ | ⟨rfl, hnew⟩
    · refine .old hold fun now' he => hb ?_
      cases he
      rfl
    · rcases hnew.of_loop with ⟨hi, hworker, hcall⟩ | ⟨rfl, rfl | ⟨item, rfl, -, hasks⟩⟩
      · refine .old ⟨x, hx, hworkers ▸ hworker, hcall⟩ fun now' he => hi ?_
        cases he
        rfl
      · exact .returned
      · exact .asked hasks (.inl ⟨now, rfl⟩)
  cases BatchSystem.step_cases h with
  | inner => exact .old hslot (by simp)
  | @executed manifest =>
    obtain ⟨x, hx, hslot⟩ := hslot
    by_cases hb : b < s.batches.length
    · rw [List.getElem?_append_left hb] at hx
      exact .old ⟨x, hx, hslot⟩ (by simp)
    · obtain ⟨hb, rfl⟩ := BatchSystem.getElem?_snoc hx hb
      rcases (BatchRun.execute_made s.system manifest).asks hslot with rfl | ⟨item, rfl, hasks⟩
      · exact .returned
      · exact .asked hasks (.inr ⟨manifest, rfl, hb⟩)
  | @created b' i' now x item _ _ _ run hx hi hcall =>
    obtain ⟨m, hm, hcall⟩ := BatchRun.awaited_eq_some hcall
    rcases BatchSystem.Slot.of_set hx hslot with ⟨hb, hold⟩ | ⟨rfl, hworker, hn⟩
    · refine .old hold fun now' he => hb ?_
      cases he
      rfl
    · by_cases hii : i' = i
      · subst hii
        simp only [List.getElem?_set_self'] at hworker hn
        obtain ⟨_, -, rfl⟩ := Option.map_eq_some_iff.1 hworker
        obtain ⟨_, -, rfl⟩ := Option.map_eq_some_iff.1 hn
        exact .executing rfl ⟨x, hx, hi, hm⟩ hcall rfl
      · refine .old ⟨x, hx, (List.getElem?_set_ne hii).symm.trans hworker,
          (List.getElem?_set_ne hii).symm.trans hn⟩ fun now' he => hii ?_
        cases he
        rfl
  | notCreated hx | completed hx | failed hx => exact hrelease hx rfl rfl rfl

/-- A worker that does not go on keeps its slot. -/
theorem BatchSystem.step_keeps (h : s.step world service e = some s') (hslot : s.Slot b i pc n)
    (he : ∀ now, e ≠ .resumeWorker b i now) : s'.Slot b i pc n := by
  obtain ⟨y, hy, hslot⟩ := hslot
  have hset : ∀ {b' : Nat} {x x' : BatchRun} {system : System} {pool : WorkerPool}, s.batches[b']? = some x →
      (b' = b → y = x → x'.Slot i pc n) → BatchSystem.Slot ⟨system, pool, s.batches.set b' x'⟩ b i pc n := by
    intro b' x x' system pool hx hsame
    by_cases hb : b' = b
    · subst hb
      exact ⟨x', List.getElem?_set_self (List.getElem?_eq_some_iff.1 hx).1,
        hsame rfl (Option.some.inj (hy.symm.trans hx))⟩
    · exact ⟨y, (List.getElem?_set_ne hb).trans hy, hslot⟩
  have hrelease : ∀ {b' i' : Nat} {now : ISODateString} {x : BatchRun} {batch : Batch}, s.batches[b']? = some x →
      batch.workers = x.batch.workers → e = .resumeWorker b' i' now →
      BatchSystem.Slot (s.goOn b' (BatchRun.release s.system ⟨batch, x.calls⟩ i')) b i pc n := by
    rintro b' i' now x batch hx hworkers rfl
    refine hset hx ?_
    rintro rfl rfl
    refine BatchRun.Slot.loop (i := i') ⟨hworkers ▸ hslot.worker, hslot.call⟩ fun hi => he now ?_
    rw [hi]
  cases BatchSystem.step_cases h with
  | inner => exact ⟨y, hy, hslot⟩
  | executed => exact ⟨y, (List.getElem?_append_left (List.getElem?_eq_some_iff.1 hy).1).trans hy, hslot⟩
  | @created b' i' now x item _ _ _ run hx hi hcall =>
    refine hset hx ?_
    rintro rfl rfl
    have hi : i' ≠ i := fun hi => he now (by rw [hi])
    exact ⟨(List.getElem?_set_ne hi).trans hslot.worker, (List.getElem?_set_ne hi).trans hslot.call⟩
  | notCreated hx | completed hx | failed hx => exact hrelease hx rfl rfl

/-- Every step is a list of steps of the running system; a worker makes calls of `createRun`, and of `executeRun` for
the run that it has created. -/
theorem BatchSystem.step_system (h : s.step world service e = some s') :
    ∃ es, EventSystem.exec (System.step world) s.system es = some s'.system ∧ ∀ e' ∈ es, e = .inner e' ∨
      (∃ jobId trigger input, e' = .createRun jobId trigger input) ∨
      ∃ b i now item n jobId trigger input run, e = .resumeWorker b i now ∧ s.Slot b i (.creating item) n ∧
        s.system.calls[n]? = some (.create jobId trigger input (.settled (.ok run))) ∧
        e' = .executeRun service run.id := by
  cases BatchSystem.step_cases h with
  | @inner e system hs =>
    refine ⟨[e], EventSystem.exec_cons.2 ⟨_, hs, rfl⟩, fun e' he' => .inl ?_⟩
    rw [List.mem_singleton.1 he']
  | executed =>
    obtain ⟨es, hes, hcreate⟩ := BatchRun.execute_system world s.system _
    exact ⟨es, hes, fun e' he' => .inr (.inl (hcreate e' he'))⟩
  | @created b i now x item jobId trigger input run hx hi hcall =>
    obtain ⟨m, hm, hcall⟩ := BatchRun.awaited_eq_some hcall
    refine ⟨[.executeRun service run.id], rfl, fun e' he' => .inr (.inr ?_)⟩
    rw [List.mem_singleton.1 he']
    exact ⟨b, i, now, item, m, jobId, trigger, input, run, rfl, ⟨x, hx, hi, hm⟩, hcall, rfl⟩
  | notCreated | completed | failed =>
    obtain ⟨es, hes, hcreate⟩ := BatchRun.loop_system world s.system _ _
    exact ⟨es, hes, fun e' he' => .inr (.inl (hcreate e' he'))⟩

/-! ## Workers in flight await different calls -/

structure BatchSystem.Numbered (s : BatchSystem) : Prop where
  bounded : ∀ {b i pc n}, s.Slot b i pc n → pc.inFlight = true → n < s.system.calls.length
  distinct : ∀ {b b' i i' pc pc' n}, s.Slot b i pc n → s.Slot b' i' pc' n → pc.inFlight = true →
    pc'.inFlight = true → b = b' ∧ i = i'

theorem System.length_calls_exec {system system' : System} {es : List Event}
    (h : EventSystem.exec (System.step world) system es = some system') :
    system.calls.length ≤ system'.calls.length :=
  EventSystem.exec_invariant (I := fun (x : System) => system.calls.length ≤ x.calls.length)
    (fun _ _ _ hx (_ : True) hstep => hx.trans (System.length_calls_le hstep)) (Nat.le_refl _) (fun _ _ => trivial) h

theorem BatchSystem.Numbered.step (hn : s.Numbered) (h : s.step world service e = some s') : s'.Numbered := by
  obtain ⟨es, hes, -⟩ := BatchSystem.step_system h
  have hle := System.length_calls_exec hes
  refine ⟨fun hslot hpc => ?_, fun hslot hslot' hpc hpc' => ?_⟩
  · cases BatchSystem.step_slot h hslot with
    | old hold => exact Nat.lt_of_lt_of_le (hn.bounded hold hpc) hle
    | returned => cases hpc
    | asked hasks => exact hasks.lt
    | executing _ _ _ hs =>
      rw [hs]
      simp [System.execute, System.spawn]
  · -- a slot that is not old has a new number
    have hnew : ∀ {b i pc n}, s'.Slot b i pc n → pc.inFlight = true →
        s.Slot b i pc n ∧ n < s.system.calls.length ∨
          s.system.calls.length ≤ n ∧ ((∃ now, e = .resumeWorker b i now) ∨
            ∃ manifest, e = .execute manifest ∧ b = s.batches.length) := by
      intro b i pc n hslot hpc
      cases BatchSystem.step_slot h hslot with
      | old hold => exact .inl ⟨hold, hn.bounded hold hpc⟩
      | returned => cases hpc
      | asked hasks he => exact .inr ⟨hasks.1, he⟩
      | executing he => exact .inr ⟨Nat.le_refl _, .inl ⟨_, he⟩⟩
    rcases hnew hslot hpc with ⟨hold, hlt⟩ | ⟨hge, he⟩ <;>
      rcases hnew hslot' hpc' with ⟨hold', hlt'⟩ | ⟨hge', he'⟩
    · exact hn.distinct hold hold' hpc hpc'
    · omega
    · omega
    · rcases he with ⟨now, rfl⟩ | ⟨manifest, rfl, rfl⟩ <;>
        rcases he' with ⟨now', he'⟩ | ⟨manifest', he', hb'⟩
      · cases he'
        exact ⟨rfl, rfl⟩
      · cases he'
      · cases he'
      · cases he'
        subst hb'
        cases BatchSystem.step_cases h with
        | executed =>
          obtain ⟨x, hx, hslot⟩ := hslot
          obtain ⟨x', hx', hslot'⟩ := hslot'
          obtain ⟨-, rfl⟩ := BatchSystem.getElem?_snoc hx (Nat.lt_irrefl _)
          cases hx.symm.trans hx'
          exact ⟨rfl, (BatchRun.execute_made s.system manifest).distinct hslot hslot' hpc hpc'⟩

theorem BatchSystem.not_slot (hnone : s.batches = []) : ¬ s.Slot b i pc n := by
  rintro ⟨x, hx, -⟩
  rw [hnone] at hx
  cases hx

theorem BatchSystem.Numbered.of_none (hnone : s.batches = []) : s.Numbered :=
  ⟨fun hslot => absurd hslot (not_slot hnone), fun hslot => absurd hslot (not_slot hnone)⟩

theorem BatchSystem.numbered (hnone : s.batches = []) {events : List BatchSystemEvent}
    (h : EventSystem.exec (BatchSystem.step world service) s events = some s') : s'.Numbered :=
  EventSystem.exec_invariant (fun _ _ _ hx (_ : True) hstep => BatchSystem.Numbered.step hx hstep)
    (.of_none hnone) (fun _ _ => trivial) h

end

end Jobflow
