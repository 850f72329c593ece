import Mathlib.Data.Rat.Floor
import Jobflow.BatchSystem
import Jobflow.Lib.TicketQueue

/-!
# What the worker pool is for (src/workers/pool.ts, src/domain/priority.ts)

`PoolSpec` says it: runs come with a ticket, a free slot goes to the pending run of highest priority, and among equals
to the one that came first. `WorkerPool` keeps its queue sorted instead, by a sort after each `enqueue`, and does the
same on every sequence of calls (`pool_discipline`).
-/

namespace Jobflow

open TicketQueue (Ticket Ahead tickets)

inductive PoolCall where
  | enqueue (item : QueuedRun)
  | start
  | complete

def PoolCall.enqueued : PoolCall → Option QueuedRun
  | .enqueue item => some item
  | _ => none

/-! ## The pool as it is meant -/

structure PoolSpec where
  /-- The number of runs that have been enqueued. -/
  arrived : Nat
  /-- The runs that wait, in the order they came. -/
  pending : List (Ticket QueuedRun)
  /-- The runs that `start` has returned, oldest first. -/
  served : List (Ticket QueuedRun)
  /-- The number of slots that are taken. -/
  running : Nat

/-- What a call does, and what it returns. -/
inductive PoolSpec.Step (concurrency : Nat) : PoolSpec → PoolCall → Option QueuedRun → PoolSpec → Prop
  | enqueue {s : PoolSpec} {item : QueuedRun} : Step concurrency s (.enqueue item) none
      { s with arrived := s.arrived + 1, pending := s.pending ++ [⟨s.arrived, item⟩] }
  | start {s : PoolSpec} {before after : List (Ticket QueuedRun)} {t : Ticket QueuedRun} :
      s.running < concurrency → s.pending = before ++ t :: after →
      (∀ u ∈ before ++ after, Ahead (·.priority) t u) → Step concurrency s .start (some t.item)
        { s with pending := before ++ after, served := s.served ++ [t], running := s.running + 1 }
  | idle {s : PoolSpec} : s.pending = [] ∨ s.running = concurrency → Step concurrency s .start none s
  | complete {s : PoolSpec} : Step concurrency s .complete none { s with running := s.running - 1 }

/-- The calls of a new pool, with what they have returned. -/
inductive PoolSpec.Run (concurrency : Nat) : List (PoolCall × Option QueuedRun) → PoolSpec → Prop
  | nil : Run concurrency [] ⟨0, [], [], 0⟩
  | snoc {history : List (PoolCall × Option QueuedRun)} {s s' : PoolSpec} {call : PoolCall}
      {answer : Option QueuedRun} : Run concurrency history s → Step concurrency s call answer s' →
      Run concurrency (history ++ [(call, answer)]) s'

/-- The tickets of the runs that were enqueued. -/
def PoolSpec.ticketsOf (history : List (PoolCall × Option QueuedRun)) : List (Ticket QueuedRun) :=
  tickets (history.filterMap (·.1.enqueued))

/-- Every ticket is pending or has been served, once, and no more slots are taken than there are. -/
structure PoolSpec.Accounts (concurrency : Nat) (history : List (PoolCall × Option QueuedRun)) (s : PoolSpec) :
    Prop where
  arrived : s.arrived = (history.filterMap (·.1.enqueued)).length
  once : (s.served ++ s.pending).Perm (ticketsOf history)
  returned : history.filterMap (·.2) = s.served.map (·.item)
  slots : s.running ≤ concurrency

theorem PoolSpec.Accounts.step {concurrency : Nat} {history : List (PoolCall × Option QueuedRun)} {s s' : PoolSpec}
    {call : PoolCall} {answer : Option QueuedRun} (h : s.Accounts concurrency history)
    (hstep : Step concurrency s call answer s') : s'.Accounts concurrency (history ++ [(call, answer)]) := by
  obtain ⟨harrived, honce, hreturned, hslots⟩ := h
  unfold ticketsOf at honce
  cases hstep with
  | enqueue =>
    refine ⟨?_, ?_, ?_, hslots⟩
    · simp [harrived, PoolCall.enqueued]
    · simp only [ticketsOf, List.filterMap_append, List.filterMap_cons, List.filterMap_nil, PoolCall.enqueued]
      rw [TicketQueue.tickets_snoc, ← List.append_assoc, harrived]
      exact honce.append_right _
    · simp [hreturned]
  | start hfree hpending hahead =>
    refine ⟨?_, ?_, ?_, hfree⟩
    · simp [harrived, PoolCall.enqueued]
    · simp only [ticketsOf, List.filterMap_append, List.filterMap_cons, List.filterMap_nil, PoolCall.enqueued,
        List.append_nil]
      refine List.Perm.trans ?_ honce
      rw [hpending, List.append_assoc, List.singleton_append]
      exact List.perm_middle.symm.append_left _
    · simp [hreturned]
  | idle => exact ⟨by simp [harrived, PoolCall.enqueued], by simpa [ticketsOf, PoolCall.enqueued] using honce,
      by simp [hreturned], hslots⟩
  | complete => exact ⟨by simp [harrived, PoolCall.enqueued], by simpa [ticketsOf, PoolCall.enqueued] using honce,
      by simp [hreturned], le_trans (Nat.sub_le _ _) hslots⟩

theorem PoolSpec.Run.accounts {concurrency : Nat} {history : List (PoolCall × Option QueuedRun)} {s : PoolSpec}
    (h : Run concurrency history s) : s.Accounts concurrency history := by
  induction h with
  | nil => exact ⟨rfl, .refl _, rfl, Nat.zero_le _⟩
  | snoc _ hstep ih => exact ih.step hstep

/-! ## The pool as it is -/

namespace WorkerPool

/-- A call of the pool, with what it returns. -/
def call (pool : WorkerPool) : PoolCall → Option QueuedRun × WorkerPool
  | .enqueue item => (none, pool.enqueue item)
  | .start => pool.start
  | .complete => (none, pool.complete)

/-- The pool after some calls. -/
def after (pool : WorkerPool) (calls : List PoolCall) : WorkerPool := calls.foldl (fun pool c => (pool.call c).2) pool

/-- The calls with what they return. -/
def history : WorkerPool → List PoolCall → List (PoolCall × Option QueuedRun)
  | _, [] => []
  | pool, c :: calls => (c, (pool.call c).1) :: history (pool.call c).2 calls

end WorkerPool

/-- The queue holds the pending runs in the order in which they are to be served. -/
structure PoolSpec.Shows (s : PoolSpec) (pool : WorkerPool) : Prop where
  queue : ∃ waiting : List (Ticket QueuedRun), waiting.Perm s.pending ∧ waiting.Pairwise (Ahead (·.priority)) ∧
    pool.queue = waiting.map (·.item)
  running : pool.running = s.running

section
variable {concurrency : Nat} {s : PoolSpec} {pool : WorkerPool} {history : List (PoolCall × Option QueuedRun)}

theorem PoolSpec.Shows.enqueue (h : s.Shows pool) (hs : s.Accounts pool.concurrency history) (item : QueuedRun) :
    PoolSpec.Shows { s with arrived := s.arrived + 1, pending := s.pending ++ [⟨s.arrived, item⟩] }
      (pool.enqueue item) := by
  obtain ⟨waiting, hperm, hsorted, hqueue⟩ := h.queue
  have hnew : ∀ u ∈ waiting, u.number < s.arrived := by
    intro u hu
    have hmem := hs.once.mem_iff.1 (List.mem_append_right s.served (hperm.mem_iff.1 hu))
    rw [hs.arrived]
    exact TicketQueue.number_lt_of_mem_tickets hmem
  have hle (a b : QueuedRun) : comparePriority a.priority b.priority ≤ 0 ↔ b.priority ≤ a.priority := by
    rw [comparePriority, sub_nonpos]
  let t : Ticket QueuedRun := ⟨s.arrived, item⟩
  refine ⟨⟨(waiting ++ [t]).insertionSort fun a b => comparePriority a.item.priority b.item.priority ≤ 0, ?_, ?_, ?_⟩,
    h.running⟩
  · exact (List.perm_insertionSort _ _).trans (hperm.append_right _)
  · exact TicketQueue.pairwise_sort_snoc (fun a b => hle a.item b.item) hsorted hnew
  · rw [WorkerPool.enqueue, hqueue]
    dsimp only
    rw [List.map_insertionSort _ (fun a b : QueuedRun => comparePriority a.priority b.priority ≤ 0) _ _
      fun _ _ _ _ => Iff.rfl, List.map_append]
    rfl

/-- **A call does what it is meant to do.** -/
theorem PoolSpec.Shows.call (h : s.Shows pool) (hs : s.Accounts pool.concurrency history) (c : PoolCall) :
    ∃ s', Step pool.concurrency s c (pool.call c).1 s' ∧ s'.Shows (pool.call c).2 := by
  cases c with
  | enqueue item => exact ⟨_, .enqueue, h.enqueue hs item⟩
  | complete => exact ⟨_, .complete, h.queue, congrArg (· - 1) h.running⟩
  | start =>
    obtain ⟨waiting, hperm, hsorted, hqueue⟩ := h.queue
    rw [WorkerPool.call, WorkerPool.start]
    by_cases hfree : pool.running < pool.concurrency
    · have haccept : pool.canAccept = true := decide_eq_true hfree
      cases waiting with
      | nil =>
        rw [haccept, hqueue]
        exact ⟨s, .idle (.inl hperm.symm.eq_nil), h⟩
      | cons t waiting =>
        obtain ⟨hahead, hsorted⟩ := List.pairwise_cons.1 hsorted
        obtain ⟨before, after, hpending⟩ := List.append_of_mem (hperm.mem_iff.1 List.mem_cons_self)
        have hrest : waiting.Perm (before ++ after) := by
          rw [hpending] at hperm
          exact (hperm.trans List.perm_middle).cons_inv
        rw [haccept, hqueue]
        refine ⟨_, .start (h.running ▸ hfree) hpending fun u hu => hahead u (hrest.mem_iff.2 hu), ?_⟩
        exact ⟨⟨waiting, hrest, hsorted, rfl⟩, congrArg (· + 1) h.running⟩
    · have haccept : pool.canAccept = false := decide_eq_false hfree
      rw [haccept]
      refine ⟨s, .idle (.inr ?_), h⟩
      have hslots := hs.slots
      have hrunning := h.running
      omega

/-- `start` returns nothing if nothing waits or no slot is free. -/
theorem WorkerPool.start_eq_none_iff (pool : WorkerPool) :
    pool.start.1 = none ↔ pool.queue = [] ∨ pool.concurrency ≤ pool.running := by
  unfold start canAccept
  by_cases hfree : pool.running < pool.concurrency
  · cases hqueue : pool.queue with
    | nil => simp [hfree]
    | cons item rest => simp [hfree]
  · simp [hfree, Nat.le_of_not_lt hfree]

theorem WorkerPool.call_concurrency (pool : WorkerPool) (c : PoolCall) :
    (pool.call c).2.concurrency = pool.concurrency := by
  cases c with
  | enqueue => rfl
  | complete => rfl
  | start =>
    rw [call, start]
    split <;> rfl

theorem WorkerPool.after_concurrency (calls : List PoolCall) : ∀ pool : WorkerPool,
    (pool.after calls).concurrency = pool.concurrency := by
  induction calls with
  | nil => exact fun _ => rfl
  | cons c calls ih => exact fun pool => (ih _).trans (call_concurrency pool c)

theorem WorkerPool.map_history (calls : List PoolCall) : ∀ pool : WorkerPool,
    (pool.history calls).map Prod.fst = calls := by
  induction calls with
  | nil => exact fun _ => rfl
  | cons c calls ih => exact fun pool => congrArg (c :: ·) (ih _)

theorem PoolSpec.Shows.calls (calls : List PoolCall) : ∀ {s : PoolSpec} {pool : WorkerPool}
    {history : List (PoolCall × Option QueuedRun)}, s.Shows pool → Run pool.concurrency history s →
      ∃ s', Run pool.concurrency (history ++ pool.history calls) s' ∧ s'.Shows (pool.after calls) := by
  induction calls with
  | nil =>
    intro s pool history h hrun
    exact ⟨s, by rwa [WorkerPool.history, List.append_nil], h⟩
  | cons c calls ih =>
    intro s pool history h hrun
    obtain ⟨m, hstep, hm⟩ := h.call hrun.accounts c
    obtain ⟨s', hrun', hs'⟩ := ih hm (WorkerPool.call_concurrency pool c ▸ hrun.snoc hstep)
    rw [WorkerPool.call_concurrency, List.append_assoc] at hrun'
    exact ⟨s', hrun', hs'⟩

end

/-- **The pool keeps its discipline**: whatever is called, in whatever order, it answers as `PoolSpec` does, which
serves the pending run of highest priority, of equals the first. Each run that was enqueued is served once or still in
the queue, no more slots are taken than there are, and `start` returns nothing only if nothing waits or no slot is
free. -/
theorem pool_discipline (concurrency : Nat) (calls : List PoolCall) : ∃ s : PoolSpec,
    let pool := (WorkerPool.new concurrency).after calls
    let history := (WorkerPool.new concurrency).history calls
    PoolSpec.Run concurrency history s ∧ history.filterMap (·.2) = s.served.map (·.item) ∧
      (s.served ++ s.pending).Perm (tickets (calls.filterMap (·.enqueued))) ∧
      pool.queue.Perm (s.pending.map (·.item)) ∧ pool.running = s.running ∧ pool.running ≤ concurrency ∧
      (pool.start.1 = none ↔ pool.queue = [] ∨ pool.running = concurrency) := by
  have hnew : PoolSpec.Shows ⟨0, [], [], 0⟩ (WorkerPool.new concurrency) := ⟨⟨[], .refl _, .nil, rfl⟩, rfl⟩
  obtain ⟨s, hrun, hshows⟩ := hnew.calls calls .nil
  obtain ⟨-, honce, hreturned, hslots⟩ := hrun.accounts
  have hconcurrency : ((WorkerPool.new concurrency).after calls).concurrency = concurrency :=
    WorkerPool.after_concurrency calls _
  have hcalls : PoolSpec.ticketsOf ((WorkerPool.new concurrency).history calls) =
      tickets (calls.filterMap (·.enqueued)) := by
    conv_rhs => rw [← WorkerPool.map_history calls (WorkerPool.new concurrency), List.filterMap_map]
    rfl
  have hqueue : ((WorkerPool.new concurrency).after calls).queue.Perm (s.pending.map (·.item)) := by
    obtain ⟨waiting, hperm, -, hqueue⟩ := hshows.queue
    rw [hqueue]
    exact hperm.map _
  have hrunning : ((WorkerPool.new concurrency).after calls).running ≤ concurrency := hshows.running ▸ hslots
  refine ⟨s, hrun, hreturned, hcalls ▸ honce, hqueue, hshows.running, hrunning, ?_⟩
  rw [WorkerPool.start_eq_none_iff, hconcurrency]
  exact or_congr_right ⟨fun hle => le_antisymm hrunning hle, ge_of_eq⟩

end Jobflow
