import Mathlib.Data.List.Basic
import Jobflow.Domain
import Jobflow.Lib.EventSystem

/-!
# Batches (src/batch/coordinator.ts, src/batch/manifest.ts)

`execute` starts its workers one after another, each as far as its first await; from then on a worker goes on whenever
the call it awaits has settled. What `createRun` and `executeRun` come to, and which worker goes on, is part of the
event, so every list of events is an interleaving. `batch_accounting` is what the counters say in all of them.
-/

namespace Jobflow

open Js (Record)

/-! ## Manifests -/

/-- The loader lets any number through as a priority. -/
abbrev RunPriority := Rat

namespace RunPriority

def low : RunPriority := 1
def normal : RunPriority := 5
def high : RunPriority := 10
def critical : RunPriority := 20

end RunPriority

structure BatchJobItem where
  jobId : JobId
  label : String
  input : Record
  priority : Option RunPriority
  continueOnError : Option Bool

structure BatchManifest where
  id : String
  items : List BatchJobItem
  maxParallel : Option Nat

structure BatchProgress where
  manifestId : String
  total : Nat
  completed : Nat
  failed : Nat
  running : Nat
  runIds : List RunId

/-- `manifest.maxParallel ?? 4`. -/
def BatchManifest.parallel (manifest : BatchManifest) : Nat := manifest.maxParallel.getD 4

/-! ## Workers -/

/-- The awaits of a worker. -/
inductive WorkerPc where
  /-- `await this.workflows.createRun(..)`. -/
  | creating (item : BatchJobItem)
  /-- `await this.execution.executeRun(run.id)`. -/
  | executing (item : BatchJobItem) (runId : RunId)
  | returned

def WorkerPc.inFlight : WorkerPc → Bool
  | .returned => false
  | _ => true

@[simp] theorem WorkerPc.inFlight_eq_false {w : WorkerPc} : w.inFlight = false ↔ w = .returned := by
  cases w <;> simp [inFlight]

/-- A call of `execute`. -/
structure Batch where
  manifest : BatchManifest
  progress : BatchProgress
  queue : List BatchJobItem
  workers : List WorkerPc
  /-- The items for which `createRun` has been called, oldest first. -/
  started : List BatchJobItem

/-- A call that a worker awaits has settled. -/
inductive BatchEvent where
  | created (worker : Nat) (result : Except JobflowError RunId)
  | executed (worker : Nat) (result : Except JobflowError Unit)

namespace Batch

/-- The head of the loop of worker `i`, and as far as the call of `createRun` (coordinator.ts:36-41). -/
def loop (b : Batch) (i : Nat) : Batch :=
  match b.queue with
  | [] => { b with workers := b.workers.set i .returned }
  | item :: rest =>
    { b with
      queue := rest
      progress := { b.progress with running := b.progress.running + 1 }
      workers := b.workers.set i (.creating item)
      started := b.started ++ [item] }

/-- A call of `execute` before the workers are made (coordinator.ts:22-33). -/
def prepare (manifest : BatchManifest) : Batch where
  manifest := manifest
  progress :=
    { manifestId := manifest.id
      total := manifest.items.length
      completed := 0
      failed := 0
      running := 0
      runIds := [] }
  queue := manifest.items
  workers := []
  started := []

/-- One more worker, which runs as far as its first await. -/
def spawn (b : Batch) : Batch := loop { b with workers := b.workers ++ [.returned] } b.workers.length

/-- The `catch` block (coordinator.ts:50-55). -/
def caught (b : Batch) (item : BatchJobItem) : Batch :=
  { b with
    progress := { b.progress with failed := b.progress.failed + 1 }
    queue := if item.continueOnError = some true then b.queue else [] }

/-- The `finally` block (coordinator.ts:56-58), and on to the next item. -/
def release (b : Batch) (i : Nat) : Batch :=
  loop { b with progress := { b.progress with running := b.progress.running - 1 } } i

/-- A worker from one await to the next. -/
def step (b : Batch) : BatchEvent → Option Batch
  | .created i result =>
    match b.workers[i]?, result with
    | some (.creating item), .ok runId =>
      some { b with
        progress := { b.progress with runIds := b.progress.runIds ++ [runId] }
        workers := b.workers.set i (.executing item runId) }
    | some (.creating item), .error _ => some ((b.caught item).release i)
    | _, _ => none
  | .executed i result =>
    match b.workers[i]?, result with
    | some (.executing _ _), .ok () =>
      some ({ b with progress := { b.progress with completed := b.progress.completed + 1 } }.release i)
    | some (.executing item _), .error _ => some ((b.caught item).release i)
    | _, _ => none

/-- Every worker has returned, so `Promise.all` and with it `execute` resolves. -/
def Resolved (b : Batch) : Prop := ∀ w ∈ b.workers, w = .returned

instance (b : Batch) : Decidable b.Resolved :=
  decidable_of_iff (∀ w ∈ b.workers, w.inFlight = false) (by simp [Resolved])

/-- The event makes the item fail. -/
def Fails (b : Batch) (item : BatchJobItem) : BatchEvent → Prop
  | .created i result => b.workers[i]? = some (.creating item) ∧ result.isOk = false
  | .executed i result => (∃ runId, b.workers[i]? = some (.executing item runId)) ∧ result.isOk = false

end Batch

/-- `execute` up to `Promise.all` (coordinator.ts:21-61). -/
def BatchCoordinator.execute (manifest : BatchManifest) : Batch :=
  (List.range manifest.parallel).foldl (fun b _ => b.spawn) (.prepare manifest)

/-! ## What a step can do -/

/-- What an event does to a batch, with what it needs for it. -/
inductive Batch.Step (b : Batch) : BatchEvent → Batch → Prop where
  | created {i : Nat} {item : BatchJobItem} {runId : RunId} (h : b.workers[i]? = some (.creating item)) :
      Step b (.created i (.ok runId))
        { b with
          progress := { b.progress with runIds := b.progress.runIds ++ [runId] }
          workers := b.workers.set i (.executing item runId) }
  | completed {i : Nat} {item : BatchJobItem} {runId : RunId} (h : b.workers[i]? = some (.executing item runId)) :
      Step b (.executed i (.ok ()))
        ({ b with progress := { b.progress with completed := b.progress.completed + 1 } }.release i)
  | failed {i : Nat} {pc : WorkerPc} {item : BatchJobItem} {e : BatchEvent} (h : b.workers[i]? = some pc)
      (hpc : pc.inFlight = true) (hfails : b.Fails item e) : Step b e ((b.caught item).release i)

theorem Batch.step_cases {b b' : Batch} {e : BatchEvent} (h : b.step e = some b') : b.Step e b' := by
  cases e with
  | created i result =>
    simp only [step] at h
    split at h
    · rename_i hw
      cases h
      exact .created hw
    · rename_i hw
      cases h
      exact .failed hw rfl ⟨hw, rfl⟩
    · cases h
  | executed i result =>
    simp only [step] at h
    split at h
    · rename_i hw
      cases h
      exact .completed hw
    · rename_i hw
      cases h
      exact .failed hw rfl ⟨⟨_, hw⟩, rfl⟩
    · cases h

/-! ## The accounts -/

/-- The items have been taken in their order, and the queue holds the others or has been cleared. -/
structure Batch.InOrder (m : BatchManifest) (b : Batch) : Prop where
  manifest : b.manifest = m
  total : b.progress.total = m.items.length
  started : b.started <+: m.items
  queue : b.started ++ b.queue = m.items ∨ b.queue = []
  sum : b.progress.completed + b.progress.failed + b.progress.running = b.started.length

/-- What holds of a batch at every await. -/
structure Batch.Counted (m : BatchManifest) (b : Batch) : Prop extends b.InOrder m where
  running : b.progress.running = b.workers.countP WorkerPc.inFlight
  returned : .returned ∈ b.workers → b.queue = []

/-- The same at the head of the loop of worker `i`, which is not in flight there. -/
structure Batch.AtHead (m : BatchManifest) (i : Nat) (b : Batch) : Prop extends b.InOrder m where
  worker : i < b.workers.length
  running : b.progress.running = (b.workers.set i .returned).countP WorkerPc.inFlight
  returned : ∀ j, j ≠ i → b.workers[j]? = some .returned → b.queue = []

section
variable {m : BatchManifest} {b b' : Batch} {e : BatchEvent} {i : Nat}

/-- A worker that takes an item is in flight again. -/
theorem Batch.AtHead.countP_set (h : b.AtHead m i) (pc : WorkerPc) :
    (b.workers.set i pc).countP WorkerPc.inFlight = b.progress.running + if pc.inFlight then 1 else 0 := by
  have hi : i < (b.workers.set i .returned).length := by
    rw [List.length_set]
    exact h.worker
  have hset := List.countP_set (p := WorkerPc.inFlight) (a := pc) hi
  rw [List.set_set, List.getElem_set_self, ← h.running] at hset
  exact hset

theorem Batch.AtHead.loop (h : b.AtHead m i) : (b.loop i).Counted m := by
  have hcount := h.countP_set
  have hothers : ∀ pc, pc ≠ .returned → .returned ∈ b.workers.set i pc → b.queue = [] := by
    intro pc hpc hmem
    obtain ⟨j, hj⟩ := List.mem_iff_getElem?.1 hmem
    rw [List.getElem?_set] at hj
    split at hj
    · split at hj
      · exact absurd (Option.some.inj hj) hpc
      · cases hj
    · rename_i hne
      exact h.returned j (Ne.symm hne) hj
  unfold Batch.loop
  split
  · rename_i hqueue
    exact ⟨⟨h.manifest, h.total, h.started, h.queue, h.sum⟩, (hcount .returned).symm, fun _ => hqueue⟩
  · rename_i item rest hqueue
    have hitems : m.items = b.started ++ item :: rest := by
      rcases h.queue with hq | hq
      · rw [← hq, hqueue]
      · rw [hqueue] at hq
        cases hq
    have hsum := h.sum
    refine ⟨⟨h.manifest, h.total, ⟨rest, ?_⟩, .inl ?_, ?_⟩, (hcount (.creating item)).symm, fun hmem => ?_⟩
    · simp [hitems]
    · simp [hitems]
    · simp only [List.length_append, List.length_singleton]
      omega
    · have hnil := hothers (.creating item) (by simp) hmem
      rw [hqueue] at hnil
      cases hnil

/-- A worker in flight that is done with its item comes back to the head of the loop. -/
theorem Batch.Counted.atHead (h : b.Counted m) {pc : WorkerPc} (hi : b.workers[i]? = some pc)
    (hpc : pc.inFlight = true) {progress : BatchProgress} {queue : List BatchJobItem}
    (htotal : progress.total = b.progress.total) (hrunning : progress.running = b.progress.running - 1)
    (hsum : progress.completed + progress.failed = b.progress.completed + b.progress.failed + 1)
    (hqueue : queue = b.queue ∨ queue = []) :
    Batch.AtHead m i { b with progress := progress, queue := queue } := by
  obtain ⟨hlt, hget⟩ := List.getElem?_eq_some_iff.1 hi
  have hset := List.countP_set (p := WorkerPc.inFlight) (a := .returned) hlt
  rw [hget, hpc, ← h.running] at hset
  have hpos : 0 < b.progress.running := by
    rw [h.running]
    exact List.countP_pos_iff.2 ⟨pc, List.mem_of_getElem? hi, hpc⟩
  have hbefore := h.sum
  refine ⟨⟨h.manifest, htotal.trans h.total, h.started, ?_, ?_⟩, hlt, ?_, fun j _ hj => ?_⟩
  · rcases hqueue with rfl | rfl
    · exact h.queue
    · exact .inr rfl
  · simp only
    omega
  · simp only
    rw [hset, hrunning]
    simp [WorkerPc.inFlight]
  · rcases hqueue with rfl | rfl
    · exact h.returned (List.mem_of_getElem? hj)
    · rfl

theorem Batch.Counted.step (h : b.Counted m) (hs : b.step e = some b') : b'.Counted m := by
  cases Batch.step_cases hs with
  | @created i item runId hi =>
    obtain ⟨hlt, hget⟩ := List.getElem?_eq_some_iff.1 hi
    have hset := List.countP_set (p := WorkerPc.inFlight) (a := .executing item runId) hlt
    have hpos : 0 < b.workers.countP WorkerPc.inFlight :=
      List.countP_pos_iff.2 ⟨_, List.mem_of_getElem? hi, rfl⟩
    refine ⟨⟨h.manifest, h.total, h.started, h.queue, h.sum⟩, ?_, fun hmem => ?_⟩
    · simp only
      rw [hset, hget, h.running]
      simp only [WorkerPc.inFlight, if_true]
      omega
    · rcases List.mem_or_eq_of_mem_set hmem with hmem | heq
      · exact h.returned hmem
      · cases heq
  | @completed i item runId hi =>
    refine (h.atHead hi (by rfl) ?_ ?_ ?_ ?_).loop
    · rfl
    · rfl
    · simp only
      omega
    · exact .inl rfl
  | @failed i pc item e hi hpc =>
    refine (h.atHead hi hpc ?_ ?_ ?_ ?_).loop
    · rfl
    · rfl
    · simp only [Batch.caught]
      omega
    · simp only [Batch.caught]
      split
      · exact .inl rfl
      · exact .inr rfl

/-- A new worker. -/
theorem Batch.Counted.spawn (h : b.Counted m) : b.spawn.Counted m := by
  have hset : (b.workers ++ [WorkerPc.returned]).set b.workers.length .returned = b.workers ++ [.returned] := by
    rw [List.set_append_right _ _ (Nat.le_refl _), Nat.sub_self]
    rfl
  refine Batch.AtHead.loop ⟨⟨h.manifest, h.total, h.started, h.queue, h.sum⟩, by simp, ?_, fun j hj hget => ?_⟩
  · simp only
    rw [hset, h.running, List.countP_append]
    simp [WorkerPc.inFlight]
  · simp only [List.getElem?_append] at hget
    split at hget
    · exact h.returned (List.mem_of_getElem? hget)
    · rename_i hge
      have hlt := (List.getElem?_eq_some_iff.1 hget).1
      rw [List.length_singleton] at hlt
      omega

theorem Batch.prepare_counted (m : BatchManifest) : (Batch.prepare m).Counted m :=
  ⟨⟨rfl, rfl, List.nil_prefix, .inl rfl, rfl⟩, rfl, fun h => absurd h List.not_mem_nil⟩

theorem BatchCoordinator.execute_counted (m : BatchManifest) : (execute m).Counted m := by
  have hall : ∀ (l : List Nat) (b : Batch), b.Counted m → (l.foldl (fun b _ => b.spawn) b).Counted m := by
    intro l
    induction l with
    | nil => exact fun b hb => hb
    | cons n l ih => exact fun b hb => ih b.spawn hb.spawn
  exact hall _ _ (Batch.prepare_counted m)

theorem Batch.length_loop (b : Batch) (i : Nat) : (b.loop i).workers.length = b.workers.length := by
  unfold Batch.loop
  split <;> exact List.length_set

/-- The workers that `execute` has made stay the only ones. -/
theorem BatchCoordinator.length_workers (m : BatchManifest) : (execute m).workers.length = m.parallel := by
  have hall : ∀ (l : List Nat) (b : Batch),
      (l.foldl (fun b _ => b.spawn) b).workers.length = b.workers.length + l.length := by
    intro l
    induction l with
    | nil => exact fun b => rfl
    | cons n l ih =>
      intro b
      rw [List.foldl_cons, ih, Batch.spawn, Batch.length_loop]
      simp only [List.length_append, List.length_cons, List.length_nil]
      omega
  rw [execute, hall, List.length_range]
  exact Nat.zero_add _

theorem Batch.length_step (hs : b.step e = some b') : b'.workers.length = b.workers.length := by
  cases Batch.step_cases hs with
  | created => exact List.length_set
  | completed | failed => exact Batch.length_loop _ _

/-! ## After a failure -/

/-- From a cleared queue nothing is started. -/
theorem Batch.loop_of_nil (h : b.queue = []) (i : Nat) :
    (b.loop i).queue = [] ∧ (b.loop i).started = b.started := by
  unfold Batch.loop
  rw [h]
  exact ⟨rfl, rfl⟩

theorem Batch.step_of_nil (h : b.queue = []) (hs : b.step e = some b') :
    b'.queue = [] ∧ b'.started = b.started := by
  cases Batch.step_cases hs with
  | created => exact ⟨h, rfl⟩
  | completed =>
    refine Batch.loop_of_nil ?_ _
    exact h
  | failed =>
    refine Batch.loop_of_nil ?_ _
    simp [Batch.caught, h]

/-- An item that must not fail clears the queue. -/
theorem Batch.step_of_fails {item : BatchJobItem} (hfails : b.Fails item e) (hitem : item.continueOnError ≠ some true)
    (hs : b.step e = some b') : b'.queue = [] ∧ b'.started = b.started := by
  cases Batch.step_cases hs with
  | created => exact absurd hfails.2 (by simp [Except.isOk, Except.toBool])
  | completed => exact absurd hfails.2 (by simp [Except.isOk, Except.toBool])
  | @failed i pc item' e hi _ hfails' =>
    have hsame : item' = item := by
      cases e with
      | created j result =>
        have := hfails'.1.symm.trans hfails.1
        cases this
        rfl
      | executed j result =>
        obtain ⟨⟨r, hr⟩, -⟩ := hfails
        obtain ⟨⟨r', hr'⟩, -⟩ := hfails'
        cases hr.symm.trans hr'
        rfl
    subst hsame
    refine Batch.loop_of_nil ?_ i
    simp [Batch.caught, hitem]

theorem Batch.exec_of_nil {events : List BatchEvent} (h : b.queue = [])
    (hs : EventSystem.exec Batch.step b events = some b') : b'.started = b.started := by
  refine (EventSystem.exec_invariant (I := fun x => x.queue = [] ∧ x.started = b.started)
    (fun x e x' hx (_ : True) hstep => ?_) ⟨h, rfl⟩ (fun _ _ => trivial) hs).2
  obtain ⟨hq, hst⟩ := Batch.step_of_nil hx.1 hstep
  exact ⟨hq, hst.trans hx.2⟩

/-- As long as every item that fails may fail, the queue holds all that has not been started. -/
theorem Batch.loop_kept (h : b.started ++ b.queue = m.items) (i : Nat) :
    (b.loop i).started ++ (b.loop i).queue = m.items := by
  unfold Batch.loop
  split
  · exact h
  · rename_i hqueue
    rw [hqueue] at h
    simpa using h

theorem Batch.step_kept (h : b.started ++ b.queue = m.items)
    (hfails : ∀ item, b.Fails item e → item.continueOnError = some true) (hs : b.step e = some b') :
    b'.started ++ b'.queue = m.items := by
  cases Batch.step_cases hs with
  | created => exact h
  | completed =>
    refine Batch.loop_kept ?_ _
    exact h
  | @failed i pc item e hi _ hfails' =>
    refine Batch.loop_kept ?_ i
    simp only [Batch.caught]
    rw [if_pos (hfails item hfails')]
    exact h

theorem BatchCoordinator.execute_kept (m : BatchManifest) : (execute m).started ++ (execute m).queue = m.items := by
  have hall : ∀ (l : List Nat) (b : Batch), b.started ++ b.queue = m.items →
      (l.foldl (fun b _ => b.spawn) b).started ++ (l.foldl (fun b _ => b.spawn) b).queue = m.items := by
    intro l
    induction l with
    | nil => exact fun b hb => hb
    | cons n l ih =>
      intro b hb
      refine ih b.spawn (Batch.loop_kept ?_ _)
      exact hb
  exact hall _ _ rfl

end

/-- In every interleaving of the workers, whatever the calls come to: at every await the started items are the first of
the manifest, `running` counts the workers in flight and is at most `maxParallel`, and the three counters add up to the
items started; nothing is started after the failure of an item that must not fail; and when `execute` resolves nothing
is running, and every item has been counted if all that failed were allowed to. -/
theorem batch_accounting {m : BatchManifest} (hparallel : m.maxParallel ≠ some 0) {events : List BatchEvent} {b : Batch}
    (hs : EventSystem.exec Batch.step (BatchCoordinator.execute m) events = some b) :
    b.started = m.items.take b.started.length ∧
      b.progress.running = b.workers.countP WorkerPc.inFlight ∧ b.progress.running ≤ m.parallel ∧
      b.progress.completed + b.progress.failed + b.progress.running = b.started.length ∧
      (∀ before e after b₁ item, events = before ++ e :: after →
        EventSystem.exec Batch.step (BatchCoordinator.execute m) before = some b₁ → b₁.Fails item e →
        item.continueOnError ≠ some true → b.started = b₁.started) ∧
      (b.Resolved → b.progress.running = 0 ∧
        (EventSystem.Along Batch.step (fun b e _ => ∀ item, b.Fails item e → item.continueOnError = some true)
          (BatchCoordinator.execute m) events → b.progress.completed + b.progress.failed = b.progress.total)) := by
  have hcounted : b.Counted m := EventSystem.exec_invariant (fun _ _ _ hx (_ : True) hstep => hx.step hstep)
    (BatchCoordinator.execute_counted m) (fun _ _ => trivial) hs
  have hlength : b.workers.length = m.parallel := EventSystem.exec_invariant
    (I := fun x => x.workers.length = m.parallel) (fun _ _ _ hx (_ : True) hstep => (Batch.length_step hstep).trans hx)
    (BatchCoordinator.length_workers m) (fun _ _ => trivial) hs
  refine ⟨List.prefix_iff_eq_take.1 hcounted.started, hcounted.running, ?_, hcounted.sum, ?_, fun hresolved => ?_⟩
  · rw [hcounted.running, ← hlength]
    exact List.countP_le_length
  · rintro before e after b₁ item rfl hbefore hfails hitem
    obtain ⟨m₁, hm₁, hafter⟩ := EventSystem.exec_append.1 hs
    rw [hbefore] at hm₁
    cases hm₁
    obtain ⟨b₂, hstep, hafter⟩ := EventSystem.exec_cons.1 hafter
    obtain ⟨hnil, hsame⟩ := Batch.step_of_fails hfails hitem hstep
    exact (Batch.exec_of_nil hnil hafter).trans hsame
  · have hidle : b.progress.running = 0 := by
      rw [hcounted.running, List.countP_eq_zero]
      intro w hw
      simp [hresolved w hw, WorkerPc.inFlight]
    refine ⟨hidle, fun hall => ?_⟩
    have hpos : 0 < m.parallel := by
      unfold BatchManifest.parallel
      cases hm : m.maxParallel with
      | none => decide
      | some n => exact Nat.pos_of_ne_zero fun h => hparallel (hm.trans (congrArg some h))
    obtain ⟨w, hw⟩ := List.exists_mem_of_length_pos (hlength ▸ hpos)
    have hnil : b.queue = [] := hcounted.returned (hresolved w hw ▸ hw)
    have hstep : ∀ (x : Batch) (e : BatchEvent) (x' : Batch), x.started ++ x.queue = m.items → True →
        x.step e = some x' → (∀ item, x.Fails item e → item.continueOnError = some true) →
        x'.started ++ x'.queue = m.items :=
      fun _ _ _ hx _ hstep hfails => Batch.step_kept hx hfails hstep
    have hkept : b.started ++ b.queue = m.items :=
      EventSystem.Along.invariant hstep (BatchCoordinator.execute_kept m) (fun _ _ => trivial) hall hs
    have hsum := hcounted.sum
    rw [hcounted.total, ← hkept, hnil, List.append_nil]
    omega

def sampleItem (label : String) (continueOnError : Option Bool) : BatchJobItem where
  jobId := "job"
  label := label
  input := []
  priority := none
  continueOnError := continueOnError

/-- Three items for two workers. -/
def sampleManifest : BatchManifest where
  id := "batch"
  items := [sampleItem "a" (some true), sampleItem "b" none, sampleItem "c" none]
  maxParallel := some 2

/-- The first item fails and the third is started; then the second fails while the third is in flight. -/
def sampleBatchEvents : List BatchEvent :=
  [.created 0 (.ok "run_1"), .created 1 (.ok "run_2"), .executed 0 (.error (.exception (.error "down"))),
    .executed 1 (.error (.exception (.error "down"))), .created 0 (.ok "run_3"), .executed 0 (.ok ())]

theorem batch_accounting_sample : ∃ b,
    EventSystem.exec Batch.step (BatchCoordinator.execute sampleManifest) sampleBatchEvents = some b ∧
      b.started = sampleManifest.items.take b.started.length ∧ b.progress.running ≤ 2 ∧
      b.progress.completed + b.progress.failed + b.progress.running = b.started.length ∧ b.progress.running = 0 := by
  have hend : (EventSystem.exec Batch.step (BatchCoordinator.execute sampleManifest) sampleBatchEvents).any
      (fun b => decide b.Resolved) = true := by decide +kernel
  obtain ⟨b, hs, hresolved⟩ := (Option.any_eq_true _ _).1 hend
  obtain ⟨hstarted, -, hmax, hsum, -, hend⟩ := batch_accounting (by decide) hs
  exact ⟨b, hs, hstarted, hmax, hsum, (hend (of_decide_eq_true hresolved)).1⟩

end Jobflow
