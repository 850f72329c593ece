import Jobflow.Schedules
import Jobflow.Effects

/-!
# The cron ticker (src/workers/cron-ticker.ts)

The running system together with the schedule store, the ticks that have been started and the calls of `disable`. A
tick is cut at its awaits. It awaits `createRun` as a call of the running system, so a run is made by the system's own
steps, and nothing else in the system knows of schedules. `start` does not wait for a tick to end before it starts the
next, so any number of ticks may be under way.
-/

namespace Jobflow

open Js (Record Date Time)

/-! ## Calls in flight -/

/-- The awaits of `tick` (cron-ticker.ts:25-33). -/
inductive TickPc where
  /-- `await this.store.listEnabled()`, in `dueSchedules`. -/
  | listed (enabled : List CronSchedule)
  /-- `await this.schedules.dueSchedules()`. -/
  | due (schedules : List CronSchedule)
  /-- `await this.workflows.createRun(…)`, which is the call with this number. -/
  | creating (call : Nat) (schedule : CronSchedule) (rest : List CronSchedule)
  /-- `await this.schedules.markTriggered(s)`, whose record has been saved. -/
  | marked (run : JobRun) (rest : List CronSchedule)
  /-- The promise of `tick` has settled. -/
  | settled (result : Except JobflowError Unit)

/-- The schedules that a tick still holds as it has read them. -/
def TickPc.held : TickPc → List CronSchedule
  | .listed enabled => enabled
  | .due schedules => schedules
  | .creating _ schedule rest => schedule :: rest
  | .marked _ rest => rest
  | .settled _ => []

/-- The awaits of `disable` (schedule-service.ts:68-72). -/
inductive DisablePc where
  | read (found : Option CronSchedule)
  | saved
  | settled (result : Except JobflowError Unit)

/-! ## The system -/

structure CronSystem where
  system : System
  schedules : ScheduleStore
  /-- Every tick started so far. -/
  ticks : List TickPc
  /-- Every call of `disable` made so far. -/
  disables : List (ScheduleId × DisablePc)

def CronSystem.empty : CronSystem := ⟨.empty, .empty, [], []⟩

inductive CronEvent where
  /-- Something else happens in the running system, or a call of it goes on. -/
  | inner (e : Event)
  /-- `ScheduleService.create`, with the three readings of the clock. -/
  | create (input : CronScheduleInput) (uuid : String) (probed created issued : Date)
  | disable (id : ScheduleId)
  | resumeDisable (call : Nat)
  /-- A tick is started. -/
  | tick
  /-- A tick goes on; where it needs the time, these are the readings of the clock. -/
  | resumeTick (tick : Nat) (now nowIso : Date)

namespace CronSystem

/-- Tick number `i` is suspended again, or has settled. -/
def setTick (s : CronSystem) (i : Nat) (pc : TickPc) : CronSystem := { s with ticks := s.ticks.set i pc }

/-- Call number `i` of `disable` is suspended again, or has settled. -/
def setDisable (s : CronSystem) (i : Nat) (id : ScheduleId) (pc : DisablePc) : CronSystem :=
  { s with disables := s.disables.set i (id, pc) }

/-- Something happens in the running system. -/
def stepInner (world : World) (s : CronSystem) (e : Event) : Option CronSystem :=
  (s.system.step world e).map fun system => { s with system := system }

/-- The head of the loop of `tick`: it calls `createRun` for the next schedule, or returns. -/
def nextSchedule (world : World) (s : CronSystem) (i : Nat) : List CronSchedule → Option CronSystem
  | [] => some (s.setTick i (.settled (.ok ())))
  | schedule :: rest =>
    (s.stepInner world (.createRun schedule.jobId "cron" schedule.defaultInput)).map fun s' =>
      s'.setTick i (.creating s.system.calls.length schedule rest)

/-- A tick from one await to the next; `none` while `createRun` has not settled. -/
def resumeTick (world : World) (service : Nat) (s : CronSystem) (i : Nat) (now nowIso : Date) :
    TickPc → Option CronSystem
  | .listed enabled => some (s.setTick i (.due (enabled.filter (ScheduleService.isDue now))))
  | .due schedules => s.nextSchedule world i schedules
  | .creating call schedule rest =>
    match s.system.calls[call]? with
    | some (.create _ _ _ (.settled (.ok run))) =>
      match ScheduleService.markTriggered schedule now nowIso with
      | .ok updated =>
        some ({ s with schedules := ScheduleStore.save s.schedules updated }.setTick i (.marked run rest))
      | .error e => some (s.setTick i (.settled (.error (.exception e))))
    | some (.create _ _ _ (.settled (.error e))) => some (s.setTick i (.settled (.error e)))
    | _ => none
  | .marked run rest => (s.stepInner world (.executeRun service run.id)).bind fun s' => s'.nextSchedule world i rest
  | .settled _ => none

/-- `disable` from one await to the next. -/
def resumeDisable (s : CronSystem) (i : Nat) (id : ScheduleId) : DisablePc → Option CronSystem
  | .read none =>
    some (s.setDisable i id (.settled (.error (.validationError ("schedule not found: " ++ id) []))))
  | .read (some found) =>
    some ({ s with schedules := ScheduleStore.save s.schedules { found with enabled := false } }.setDisable i id .saved)
  | .saved => some (s.setDisable i id (.settled (.ok ())))
  | .settled _ => none

/-- One step; the runs are executed by the container's own `ExecutionService`. -/
def step (world : World) (service : Nat) (s : CronSystem) : CronEvent → Option CronSystem
  | .inner e => s.stepInner world e
  | .create input uuid probed created issued =>
    -- `randomUUID` never repeats
    if (s.schedules.get (newScheduleId uuid)).isSome then none
    else match ScheduleService.create input uuid probed created issued with
      | .ok schedule => some { s with schedules := ScheduleStore.save s.schedules schedule }
      | .error _ => some s
  | .disable id => some { s with disables := s.disables ++ [(id, .read (s.schedules.get id))] }
  | .resumeDisable i => (s.disables[i]?).bind fun (id, pc) => s.resumeDisable i id pc
  | .tick => some { s with ticks := s.ticks ++ [.listed (ScheduleStore.listEnabled s.schedules)] }
  | .resumeTick i now nowIso => (s.ticks[i]?).bind fun pc => s.resumeTick world service i now nowIso pc

/-- Some list of events leads from the empty system to `s`. -/
abbrev Reachable (world : World) (service : Nat) (s : CronSystem) : Prop :=
  EventSystem.Reachable (step world service) empty s

end CronSystem

end Jobflow
