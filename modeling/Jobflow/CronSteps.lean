import Jobflow.CronTicker

/-!
# What a step of the cron system does

`CronStep` lists what an event can do, with everything that was checked for it, and `CronSystem.Coherent` is what every
reachable state satisfies: schedules are stored under their own ids, whoever has read one has read a schedule that is
still stored, and every tick awaits a `createRun` of its own.
-/

namespace Jobflow

open Js (Record Date Time)

/-! ## A call of `createRun` in the running system -/

section
variable {world : World} {s s' : System} {e : Event} {i : Nat} {jobId : JobId} {trigger : String} {input : Record}
  {pc : CreatePc}

/-- A new call leaves the others as they are. -/
theorem System.calls_spawn {call : Call} (hi : s.calls[i]? = some call) (st : Stores) (new : Call) :
    (s.spawn st new).calls[i]? = some call :=
  (List.getElem?_append_left (List.getElem?_eq_some_iff.1 hi).1).trans hi

/-- A call of `createRun` stays as it is until it is resumed, and then makes one of its own steps. -/
theorem System.step_create (hi : s.calls[i]? = some (.create jobId trigger input pc)) (h : s.step world e = some s') :
    ∃ pc', s'.calls[i]? = some (.create jobId trigger input pc') ∧
      (pc' = pc ∨ ∃ reply st, e = .resume i reply ∧ CreateStep jobId trigger input s.stores reply pc st pc') := by
  have hlt := (List.getElem?_eq_some_iff.1 hi).1
  have hsuspend : ∀ {k : Nat} {st : Stores} {old new : Call}, s.calls[k]? = some old →
      old ≠ .create jobId trigger input pc →
      (s.suspend k st new).calls[i]? = some (.create jobId trigger input pc) := by
    intro k st old new hk hne
    refine (List.getElem?_set_ne fun hki => ?_).trans hi
    subst hki
    exact hne (Option.some.inj (hk.symm.trans hi))
  cases System.step_cases h with
  | registered | notRegistered | restored | notRestored | acquired | notAcquired | released =>
    exact ⟨pc, hi, .inl rfl⟩
  | createCalled | executeCalled | useCalled | replayCalled => exact ⟨pc, System.calls_spawn hi _ _, .inl rfl⟩
  | executed hk | used hk | replayed hk => exact ⟨pc, hsuspend hk (by simp), .inl rfl⟩
  | replayExecutes hk => exact ⟨pc, System.calls_spawn (hsuspend hk (by simp)) _ _, .inl rfl⟩
  | @created k reply _ _ _ _ pc' st hk hx =>
    by_cases hki : k = i
    · subst hki
      cases Option.some.inj (hk.symm.trans hi)
      exact ⟨pc', List.getElem?_set_self hlt, .inr ⟨reply, st, rfl, hx⟩⟩
    · exact ⟨pc, (List.getElem?_set_ne hki).trans hi, .inl rfl⟩

end

/-! ## One step -/

/-- The head of the loop of tick `i`. -/
inductive LoopStep (s : CronSystem) (i : Nat) : List CronSchedule → CronSystem → Prop where
  | ended : LoopStep s i [] (s.setTick i (.settled (.ok ())))
  | called {schedule : CronSchedule} {rest : List CronSchedule} :
      LoopStep s i (schedule :: rest)
        ({ s with
            system := s.system.spawn s.system.stores (.create schedule.jobId "cron" schedule.defaultInput
              (.definitionRead (s.system.stores.jobs.get schedule.jobId))) }.setTick i
          (.creating s.system.calls.length schedule rest))

/-- What an event does to the cron system, with everything that was checked for it. -/
inductive CronStep (world : World) (service : Nat) (s : CronSystem) : CronEvent → CronSystem → Prop where
  | inner {e : Event} {system : System} (h : s.system.step world e = some system) :
      CronStep world service s (.inner e) { s with system := system }
  | created {input : CronScheduleInput} {uuid : String} {probed created issued : Date} {schedule : CronSchedule}
      (hfresh : s.schedules.get (newScheduleId uuid) = none)
      (h : ScheduleService.create input uuid probed created issued = .ok schedule) :
      CronStep world service s (.create input uuid probed created issued)
        { s with schedules := ScheduleStore.save s.schedules schedule }
  | notCreated {input : CronScheduleInput} {uuid : String} {probed created issued : Date} :
      CronStep world service s (.create input uuid probed created issued) s
  | disableCalled {id : ScheduleId} :
      CronStep world service s (.disable id) { s with disables := s.disables ++ [(id, .read (s.schedules.get id))] }
  | disableMissed {i : Nat} {id : ScheduleId} (hi : s.disables[i]? = some (id, .read none)) :
      CronStep world service s (.resumeDisable i)
        (s.setDisable i id (.settled (.error (.validationError ("schedule not found: " ++ id) []))))
  | disableSaved {i : Nat} {id : ScheduleId} {found : CronSchedule}
      (hi : s.disables[i]? = some (id, .read (some found))) :
      CronStep world service s (.resumeDisable i)
        ({ s with schedules := ScheduleStore.save s.schedules { found with enabled := false } }.setDisable i id .saved)
  | disableReturned {i : Nat} {id : ScheduleId} (hi : s.disables[i]? = some (id, .saved)) :
      CronStep world service s (.resumeDisable i) (s.setDisable i id (.settled (.ok ())))
  | started : CronStep world service s .tick
      { s with ticks := s.ticks ++ [.listed (ScheduleStore.listEnabled s.schedules)] }
  | filtered {i : Nat} {now nowIso : Date} {enabled : List CronSchedule} (hi : s.ticks[i]? = some (.listed enabled)) :
      CronStep world service s (.resumeTick i now nowIso)
        (s.setTick i (.due (enabled.filter (ScheduleService.isDue now))))
  | entered {i : Nat} {now nowIso : Date} {schedules : List CronSchedule} {s' : CronSystem}
      (hi : s.ticks[i]? = some (.due schedules)) (hl : LoopStep s i schedules s') :
      CronStep world service s (.resumeTick i now nowIso) s'
  | triggered {i call : Nat} {now nowIso : Date} {schedule updated : CronSchedule} {rest : List CronSchedule}
      {jobId : JobId} {trigger : String} {input : Record} {run : JobRun}
      (hi : s.ticks[i]? = some (.creating call schedule rest))
      (hcall : s.system.calls[call]? = some (.create jobId trigger input (.settled (.ok run))))
      (hm : ScheduleService.markTriggered schedule now nowIso = .ok updated) :
      CronStep world service s (.resumeTick i now nowIso)
        ({ s with schedules := ScheduleStore.save s.schedules updated }.setTick i (.marked run rest))
  | notTriggered {i call : Nat} {now nowIso : Date} {schedule : CronSchedule} {rest : List CronSchedule}
      {jobId : JobId} {trigger : String} {input : Record} {run : JobRun} {e : Js.Exception}
      (hi : s.ticks[i]? = some (.creating call schedule rest))
      (hcall : s.system.calls[call]? = some (.create jobId trigger input (.settled (.ok run))))
      (hm : ScheduleService.markTriggered schedule now nowIso = .error e) :
      CronStep world service s (.resumeTick i now nowIso) (s.setTick i (.settled (.error (.exception e))))
  | notCreating {i call : Nat} {now nowIso : Date} {schedule : CronSchedule} {rest : List CronSchedule}
      {jobId : JobId} {trigger : String} {input : Record} {e : JobflowError}
      (hi : s.ticks[i]? = some (.creating call schedule rest))
      (hcall : s.system.calls[call]? = some (.create jobId trigger input (.settled (.error e)))) :
      CronStep world service s (.resumeTick i now nowIso) (s.setTick i (.settled (.error e)))
  | executed {i : Nat} {now nowIso : Date} {run : JobRun} {rest : List CronSchedule} {s' : CronSystem}
      (hi : s.ticks[i]? = some (.marked run rest))
      (hl : LoopStep { s with system := s.system.execute service run.id } i rest s') :
      CronStep world service s (.resumeTick i now nowIso) s'

section
variable {world : World} {service : Nat} {s s' : CronSystem}

theorem CronSystem.nextSchedule_step {i : Nat} {rest : List CronSchedule}
    (h : s.nextSchedule world i rest = some s') : LoopStep s i rest s' := by
  cases rest with
  | nil =>
    cases h
    exact .ended
  | cons schedule rest =>
    cases h
    exact .called

theorem CronSystem.resumeTick_step {i : Nat} {now nowIso : Date} {pc : TickPc} (hi : s.ticks[i]? = some pc)
    (h : s.resumeTick world service i now nowIso pc = some s') :
    CronStep world service s (.resumeTick i now nowIso) s' := by
  cases pc with
  | listed enabled =>
    cases h
    exact .filtered hi
  | due schedules => exact .entered hi (CronSystem.nextSchedule_step h)
  | creating call schedule rest =>
    simp only [CronSystem.resumeTick] at h
    split at h
    · rename_i hcall
      split at h
      · rename_i hm
        cases h
        exact .triggered hi hcall hm
      · rename_i hm
        cases h
        exact .notTriggered hi hcall hm
    · rename_i hcall
      cases h
      exact .notCreating hi hcall
    · cases h
  | marked run rest => exact .executed hi (CronSystem.nextSchedule_step h)
  | settled result => cases h

theorem CronSystem.resumeDisable_step {i : Nat} {id : ScheduleId} {pc : DisablePc}
    (hi : s.disables[i]? = some (id, pc)) (h : s.resumeDisable i id pc = some s') :
    CronStep world service s (.resumeDisable i) s' := by
  cases pc with
  | read found =>
    cases found <;> cases h
    · exact .disableMissed hi
    · exact .disableSaved hi
  | saved =>
    cases h
    exact .disableReturned hi
  | settled result => cases h

/-- Every step is on the list. -/
theorem CronSystem.step_cases {e : CronEvent} (h : s.step world service e = some s') :
    CronStep world service s e s' := by
  cases e with
  | inner e =>
    obtain ⟨system, hs, rfl⟩ := Option.map_eq_some_iff.1 h
    exact .inner hs
  | create input uuid probed created issued =>
    simp only [CronSystem.step] at h
    split at h
    · cases h
    · rename_i hfresh
      split at h <;> cases h
      · rename_i hc
        exact .created (by simpa using hfresh) hc
      · exact .notCreated
  | disable id =>
    cases h
    exact .disableCalled
  | resumeDisable i =>
    obtain ⟨⟨id, pc⟩, hi, h⟩ := Option.bind_eq_some_iff.1 h
    exact CronSystem.resumeDisable_step hi h
  | tick =>
    cases h
    exact .started
  | resumeTick i now nowIso =>
    obtain ⟨pc, hi, h⟩ := Option.bind_eq_some_iff.1 h
    exact CronSystem.resumeTick_step hi h

/-- A step of the cron system is a step of the running system, several of them or none: whatever the running system
keeps, it keeps under the ticker. -/
theorem CronSystem.step_system {I : System → Prop}
    (hI : ∀ m e m', I m → m.step world e = some m' → I m') {e : CronEvent} (h : s.step world service e = some s')
    (hs : I s.system) : I s'.system := by
  cases CronSystem.step_cases h with
  | inner hstep => exact hI _ _ _ hs hstep
  | entered _ hl =>
    cases hl with
    | ended => exact hs
    | called => exact hI _ (.createRun _ _ _) _ hs rfl
  | @executed _ _ _ run _ _ _ hl =>
    have hexec : I (s.system.execute service run.id) := hI _ (.executeRun _ _) _ hs rfl
    cases hl with
    | ended => exact hexec
    | called => exact hI _ (.createRun _ _ _) _ hexec rfl
  | _ => exact hs

theorem CronSystem.Reachable.system (h : CronSystem.Reachable world service s) : System.Reachable world s.system := by
  have hone : ∀ m e m', System.Reachable world m → m.step world e = some m' → System.Reachable world m' := by
    intro m e m' hm hs
    have hexec : EventSystem.exec (System.step world) m [e] = some m' := EventSystem.exec_cons.2 ⟨m', hs, rfl⟩
    exact hm.exec hexec
  exact EventSystem.Reachable.invariant (I := fun s : CronSystem => System.Reachable world s.system) ⟨[], rfl⟩
    (fun _ _ _ hr hs => CronSystem.step_system hone hs hr) h

end

/-! ## Who writes to the schedule store -/

/-- What an event writes to the schedule store. -/
inductive CronWrite (s : CronSystem) : CronEvent → ScheduleStore → Prop where
  | none {e : CronEvent} : CronWrite s e s.schedules
  | created {input : CronScheduleInput} {uuid : String} {probed created issued : Date} {schedule : CronSchedule}
      (hfresh : s.schedules.get schedule.id = none) (hnext : schedule.nextRunAt.isSome = true) :
      CronWrite s (.create input uuid probed created issued) (ScheduleStore.save s.schedules schedule)
  | disabled {i : Nat} {id : ScheduleId} {found : CronSchedule} (hi : s.disables[i]? = some (id, .read (some found))) :
      CronWrite s (.resumeDisable i) (ScheduleStore.save s.schedules { found with enabled := false })
  | triggered {i call : Nat} {now nowIso : Date} {schedule updated : CronSchedule} {rest : List CronSchedule}
      {jobId : JobId} {trigger : String} {input : Record} {run : JobRun}
      (hi : s.ticks[i]? = some (.creating call schedule rest))
      (hcall : s.system.calls[call]? = some (.create jobId trigger input (.settled (.ok run))))
      (hm : ScheduleService.markTriggered schedule now nowIso = .ok updated) :
      CronWrite s (.resumeTick i now nowIso) (ScheduleStore.save s.schedules updated)

section
variable {world : World} {service : Nat} {s s' : CronSystem} {e : CronEvent}

theorem LoopStep.schedules {i : Nat} {rest : List CronSchedule} (h : LoopStep s i rest s') :
    s'.schedules = s.schedules := by
  cases h <;> rfl

theorem LoopStep.disables {i : Nat} {rest : List CronSchedule} (h : LoopStep s i rest s') :
    s'.disables = s.disables := by
  cases h <;> rfl

theorem CronSystem.step_schedules (h : s.step world service e = some s') : CronWrite s e s'.schedules := by
  cases CronSystem.step_cases h with
  | created hfresh hc =>
    obtain ⟨hid, _, hnext⟩ := ScheduleService.create_ok hc
    exact .created (by rwa [hid]) hnext
  | disableSaved hi => exact .disabled hi
  | triggered hi hcall hm => exact .triggered hi hcall hm
  | entered _ hl | executed _ hl =>
    rw [hl.schedules]
    exact .none
  | _ => exact .none

/-- What `disable` has read was stored. -/
theorem CronSystem.step_read (h : s.step world service e = some s') {id : ScheduleId} {c : CronSchedule}
    (hr : (id, DisablePc.read (some c)) ∈ s'.disables) :
    (id, DisablePc.read (some c)) ∈ s.disables ∨ s.schedules.get id = some c := by
  have hset : ∀ {i : Nat} {id' : ScheduleId} {pc : DisablePc}, (∀ found, pc ≠ .read found) →
      s'.disables = s.disables.set i (id', pc) → (id, DisablePc.read (some c)) ∈ s.disables := by
    intro i id' pc hpc he
    rw [he] at hr
    rcases List.mem_or_eq_of_mem_set hr with hr | hr
    · exact hr
    · exact absurd (congrArg Prod.snd hr).symm (hpc _)
  cases CronSystem.step_cases h with
  | disableCalled =>
    rcases List.mem_append.1 hr with hr | hr
    · exact .inl hr
    · obtain ⟨rfl, hread⟩ := Prod.mk.inj (List.mem_singleton.1 hr)
      exact .inr (DisablePc.read.inj hread).symm
  | disableMissed | disableSaved | disableReturned => exact .inl (hset (by simp) rfl)
  | entered _ hl | executed _ hl =>
    rw [hl.disables] at hr
    exact .inl hr
  | _ => exact .inl hr

end

/-! ## What becomes of a tick -/

/-- How a tick goes on, from one await to the next. -/
inductive TickMove (s s' : CronSystem) (now : Date) : TickPc → TickPc → Prop where
  | filtered {enabled : List CronSchedule} :
      TickMove s s' now (.listed enabled) (.due (enabled.filter (ScheduleService.isDue now)))
  | called {pc : TickPc} {call : Nat} {schedule : CronSchedule} {rest : List CronSchedule}
      (hpc : pc = .due (schedule :: rest) ∨ ∃ run, pc = .marked run (schedule :: rest))
      (hcall : s.system.calls.length ≤ call)
      (hnew : s'.system.calls[call]? = some (.create schedule.jobId "cron" schedule.defaultInput
        (.definitionRead (s'.system.stores.jobs.get schedule.jobId)))) :
      TickMove s s' now pc (.creating call schedule rest)
  | marked {call : Nat} {schedule : CronSchedule} {rest : List CronSchedule} {run : JobRun} :
      TickMove s s' now (.creating call schedule rest) (.marked run rest)
  | settled {pc : TickPc} {result : Except JobflowError Unit} : TickMove s s' now pc (.settled result)

section
variable {world : World} {service : Nat} {s s' : CronSystem} {e : CronEvent} {j : Nat} {pc pc' : TickPc}

/-- A tick is as it was before the step, or it has just been started, or it has gone on. -/
theorem CronSystem.step_tick (h : s.step world service e = some s') (hj : s'.ticks[j]? = some pc') :
    s.ticks[j]? = some pc' ∨ (j = s.ticks.length ∧ pc' = .listed (ScheduleStore.listEnabled s.schedules)) ∨
      ∃ pc now nowIso, e = .resumeTick j now nowIso ∧ s.ticks[j]? = some pc ∧ TickMove s s' now pc pc' := by
  have hset : ∀ {i : Nat} {now nowIso : Date} {old new : TickPc}, e = .resumeTick i now nowIso →
      s.ticks[i]? = some old → s'.ticks = s.ticks.set i new → TickMove s s' now old new →
      s.ticks[j]? = some pc' ∨ (j = s.ticks.length ∧ pc' = .listed (ScheduleStore.listEnabled s.schedules)) ∨
        ∃ pc now nowIso, e = .resumeTick j now nowIso ∧ s.ticks[j]? = some pc ∧ TickMove s s' now pc pc' := by
    intro i now nowIso old new he hi hticks hmove
    rw [hticks] at hj
    by_cases hij : i = j
    · subst hij
      rw [List.getElem?_set_self (List.getElem?_eq_some_iff.1 hi).1] at hj
      exact .inr (.inr ⟨old, now, nowIso, he, hi, Option.some.inj hj ▸ hmove⟩)
    · rw [List.getElem?_set_ne hij] at hj
      exact .inl hj
  cases CronSystem.step_cases h with
  | started =>
    rw [List.getElem?_append] at hj
    split at hj
    · exact .inl hj
    · obtain ⟨hlen, rfl⟩ := List.getElem?_eq_some_iff.1 hj
      rw [List.length_singleton] at hlen
      exact .inr (.inl ⟨by omega, by simp⟩)
  | filtered hi => exact hset rfl hi rfl .filtered
  | entered hi hl =>
    cases hl with
    | ended => exact hset rfl hi rfl .settled
    | called => exact hset rfl hi rfl (.called (.inl rfl) (Nat.le_refl _) List.getElem?_concat_length)
  | triggered hi => exact hset rfl hi rfl .marked
  | notTriggered hi | notCreating hi => exact hset rfl hi rfl .settled
  | executed hi hl =>
    cases hl with
    | ended => exact hset rfl hi rfl .settled
    | called =>
      refine hset rfl hi rfl (.called (.inr ⟨_, rfl⟩) ?_ List.getElem?_concat_length)
      simp [System.execute, System.spawn]
  | _ => exact .inl hj

/-- A tick that does not go on stays as it is. -/
theorem CronSystem.step_tick_of (h : s.step world service e = some s') (hj : s.ticks[j]? = some pc)
    (he : ∀ now nowIso, e ≠ .resumeTick j now nowIso) : s'.ticks[j]? = some pc := by
  have hset : ∀ {i : Nat} {now nowIso : Date} {new : TickPc}, e = .resumeTick i now nowIso →
      (s.ticks.set i new)[j]? = some pc := by
    intro i now nowIso new hi
    refine (List.getElem?_set_ne fun hij => ?_).trans hj
    subst hij
    exact he now nowIso hi
  cases CronSystem.step_cases h with
  | started => exact (List.getElem?_append_left (List.getElem?_eq_some_iff.1 hj).1).trans hj
  | filtered | triggered | notTriggered | notCreating => exact hset rfl
  | entered _ hl | executed _ hl => cases hl <;> exact hset rfl
  | _ => exact hj

/-- A tick gets hold of schedules when it is started, and of no others later on. -/
theorem CronSystem.step_held (h : s.step world service e = some s') {c : CronSchedule}
    (hj : s'.ticks[j]? = some pc') (hc : c ∈ pc'.held) :
    (∃ pc, s.ticks[j]? = some pc ∧ c ∈ pc.held) ∨
      j = s.ticks.length ∧ c ∈ ScheduleStore.listEnabled s.schedules := by
  rcases CronSystem.step_tick h hj with hj | ⟨hlen, rfl⟩ | ⟨pc, now, nowIso, rfl, hj, hmove⟩
  · exact .inl ⟨pc', hj, hc⟩
  · exact .inr ⟨hlen, hc⟩
  · refine .inl ⟨pc, hj, ?_⟩
    cases hmove with
    | filtered => exact (List.mem_filter.1 hc).1
    | called hpc => rcases hpc with rfl | ⟨run, rfl⟩ <;> exact hc
    | marked => exact List.mem_cons_of_mem _ hc
    | settled => cases hc

/-- Where a tick awaits `createRun` after a step, it has awaited it before or has just made the call. -/
theorem CronSystem.step_creating (h : s.step world service e = some s') {call : Nat} {c : CronSchedule}
    {rest : List CronSchedule} (hj : s'.ticks[j]? = some (.creating call c rest)) :
    s.ticks[j]? = some (.creating call c rest) ∨
      s.system.calls.length ≤ call ∧ (∃ now nowIso, e = .resumeTick j now nowIso) ∧
        s'.system.calls[call]? = some (.create c.jobId "cron" c.defaultInput
          (.definitionRead (s'.system.stores.jobs.get c.jobId))) := by
  rcases CronSystem.step_tick h hj with hj | ⟨_, hpc⟩ | ⟨pc, now, nowIso, rfl, _, hmove⟩
  · exact .inl hj
  · cases hpc
  · cases hmove with
    | called _ hcall hnew => exact .inr ⟨hcall, ⟨now, nowIso, rfl⟩, hnew⟩

end

/-! ## What every reachable state satisfies -/

/-- `c` stands for a stored schedule that has a time of its next run. -/
structure ScheduleStore.Knows (store : ScheduleStore) (c : CronSchedule) : Prop where
  known : (store.get c.id).isSome = true
  next : c.nextRunAt.isSome = true

structure CronSystem.Coherent (s : CronSystem) : Prop where
  stored : ∀ id c, s.schedules.get id = some c → c.id = id ∧ c.nextRunAt.isSome = true
  held : ∀ (i : Nat) pc, s.ticks[i]? = some pc → ∀ c ∈ pc.held, c.enabled = true ∧ ScheduleStore.Knows s.schedules c
  read : ∀ id c, (id, DisablePc.read (some c)) ∈ s.disables → c.id = id ∧ ScheduleStore.Knows s.schedules c
  /-- A tick that awaits `createRun` awaits the call that it has made. -/
  awaited : ∀ (i call : Nat) c rest, s.ticks[i]? = some (.creating call c rest) →
    ∃ pc, s.system.calls[call]? = some (.create c.jobId "cron" c.defaultInput pc)
  /-- No other tick awaits this call. -/
  single : ∀ (i j call : Nat) c c' rest rest', s.ticks[i]? = some (.creating call c rest) →
    s.ticks[j]? = some (.creating call c' rest') → i = j

section
variable {world : World} {service : Nat} {s s' : CronSystem} {e : CronEvent} {store : ScheduleStore} {c : CronSchedule}
  {id : ScheduleId}

theorem ScheduleStore.get_save (store : ScheduleStore) (c : CronSchedule) (id : ScheduleId) :
    (ScheduleStore.save store c).get id = if c.id = id then some c else store.get id :=
  InsertionMap.get_set store c.id id c

theorem ScheduleStore.mem_listEnabled (h : c ∈ ScheduleStore.listEnabled store) :
    c.enabled = true ∧ ∃ id, store.get id = some c := by
  obtain ⟨hmem, henabled⟩ := List.mem_filter.1 h
  obtain ⟨⟨id, c'⟩, hentry, rfl⟩ := List.mem_map.1 hmem
  exact ⟨henabled, id, InsertionMap.get_eq_some.2 hentry⟩

/-- A write takes no schedule away. -/
theorem CronWrite.isSome (h : CronWrite s e store) (hid : (s.schedules.get id).isSome = true) :
    (store.get id).isSome = true := by
  cases h with
  | none => exact hid
  | created | disabled | triggered =>
    rw [ScheduleStore.get_save]
    split
    · rfl
    · exact hid

theorem CronWrite.knows (h : CronWrite s e store) (hc : ScheduleStore.Knows s.schedules c) :
    ScheduleStore.Knows store c := ⟨h.isSome hc.known, hc.next⟩

/-- What is written is written under its own id, with a time of its next run. -/
theorem CronWrite.stored (h : CronWrite s e store) (hs : s.Coherent) (hc : store.get id = some c) :
    c.id = id ∧ c.nextRunAt.isSome = true := by
  have hsave : ∀ {u : CronSchedule}, u.nextRunAt.isSome = true →
      (ScheduleStore.save s.schedules u).get id = some c → c.id = id ∧ c.nextRunAt.isSome = true := by
    intro u hu hget
    rw [ScheduleStore.get_save] at hget
    split at hget
    · rename_i hid
      cases hget
      exact ⟨hid, hu⟩
    · exact hs.stored id c hget
  cases h with
  | none => exact hs.stored id c hc
  | created _ hnext => exact hsave hnext hc
  | @disabled _ _ found hi =>
    have hnext : found.nextRunAt.isSome = true := (hs.read _ _ (List.mem_of_getElem? hi)).2.next
    exact hsave (u := { found with enabled := false }) hnext hc
  | triggered _ _ hm =>
    obtain ⟨_, _, _, _, _, rfl⟩ := ScheduleService.markTriggered_ok hm
    exact hsave rfl hc

/-- A call of `createRun` under a step of the cron system. -/
theorem CronSystem.step_create (h : s.step world service e = some s') {i : Nat} {jobId : JobId} {trigger : String}
    {input : Record} {pc : CreatePc} (hi : s.system.calls[i]? = some (.create jobId trigger input pc)) :
    ∃ pc', s'.system.calls[i]? = some (.create jobId trigger input pc') ∧
      (pc' = pc ∨ ∃ reply st, e = .inner (.resume i reply) ∧
        CreateStep jobId trigger input s.system.stores reply pc st pc') := by
  have hloop : ∀ {m : CronSystem} {k : Nat} {todo : List CronSchedule},
      m.system.calls[i]? = some (.create jobId trigger input pc) → LoopStep m k todo s' →
      s'.system.calls[i]? = some (.create jobId trigger input pc) := by
    intro m k todo hm hl
    cases hl with
    | ended => exact hm
    | called => exact System.calls_spawn hm _ _
  cases CronSystem.step_cases h with
  | inner hs =>
    obtain ⟨pc', hi', hpc⟩ := System.step_create hi hs
    refine ⟨pc', hi', hpc.imp_right ?_⟩
    rintro ⟨reply, st, rfl, hstep⟩
    exact ⟨reply, st, rfl, hstep⟩
  | entered _ hl => exact ⟨pc, hloop hi hl, .inl rfl⟩
  | executed _ hl => exact ⟨pc, hloop (System.calls_spawn hi _ _) hl, .inl rfl⟩
  | _ => exact ⟨pc, hi, .inl rfl⟩

theorem CronSystem.Coherent.step (hs : s.Coherent) (h : s.step world service e = some s') : s'.Coherent := by
  have hw := CronSystem.step_schedules h
  have hknows : ∀ {id : ScheduleId} {c : CronSchedule}, s.schedules.get id = some c →
      c.id = id ∧ ScheduleStore.Knows s.schedules c := by
    intro id c hc
    obtain ⟨rfl, hnext⟩ := hs.stored id c hc
    exact ⟨rfl, by simp [hc], hnext⟩
  constructor
  · intro id c hc
    exact hw.stored hs hc
  · intro i pc hi c hc
    rcases CronSystem.step_held h hi hc with ⟨pc', hi', hc'⟩ | ⟨_, hc'⟩
    · obtain ⟨henabled, hk⟩ := hs.held i pc' hi' c hc'
      exact ⟨henabled, hw.knows hk⟩
    · obtain ⟨henabled, id, hget⟩ := ScheduleStore.mem_listEnabled hc'
      exact ⟨henabled, hw.knows (hknows hget).2⟩
  · intro id c hr
    rcases CronSystem.step_read h hr with hr | hget
    · obtain ⟨hid, hk⟩ := hs.read id c hr
      exact ⟨hid, hw.knows hk⟩
    · exact ⟨(hknows hget).1, hw.knows (hknows hget).2⟩
  · intro i call c rest hi
    rcases CronSystem.step_creating h hi with hi | ⟨_, _, hcall⟩
    · obtain ⟨pc, hcall⟩ := hs.awaited i call c rest hi
      obtain ⟨pc', hcall', _⟩ := CronSystem.step_create h hcall
      exact ⟨pc', hcall'⟩
    · exact ⟨_, hcall⟩
  · intro i j call c c' rest rest' hi hj
    have hold : ∀ {i : Nat} {c rest}, s.ticks[i]? = some (.creating call c rest) → ¬ s.system.calls.length ≤ call := by
      intro i c rest hi hle
      obtain ⟨pc, hcall⟩ := hs.awaited i call c rest hi
      rw [List.getElem?_eq_none hle] at hcall
      cases hcall
    rcases CronSystem.step_creating h hi with hi | ⟨hlei, ⟨_, _, hei⟩, _⟩ <;>
      rcases CronSystem.step_creating h hj with hj | ⟨hlej, ⟨_, _, hej⟩, _⟩
    · exact hs.single i j call c c' rest rest' hi hj
    · exact absurd hlej (hold hi)
    · exact absurd hlei (hold hj)
    · cases hei.symm.trans hej
      rfl

theorem CronSystem.empty_coherent : CronSystem.empty.Coherent := by
  constructor
  · intro id c hc
    cases hc
  · intro i pc hi
    cases hi
  · intro id c hr
    cases hr
  · intro i call c rest hi
    cases hi
  · intro i j call c c' rest rest' hi
    cases hi

theorem CronSystem.Reachable.coherent (h : CronSystem.Reachable world service s) : s.Coherent :=
  EventSystem.Reachable.invariant CronSystem.empty_coherent (fun _ _ _ hc hs => hc.step hs) h

end

/-! ## The runs that ticks create -/

/-- The tick that awaits this call of `createRun`, with the schedule it is made for. -/
def CronSystem.awaiting (s : CronSystem) (call : Nat) : Option (Nat × CronSchedule) :=
  (List.range s.ticks.length).findSome? fun i : Nat =>
    match s.ticks[i]? with
    | some (.creating call' schedule _) => if call' = call then some (i, schedule) else none
    | _ => none

/-- The event creates a run for a tick: the call of `createRun` that the tick awaits saves it. -/
def CronSystem.creation (s : CronSystem) : CronEvent → Option (Nat × CronSchedule)
  | .inner (.resume call _) =>
    match s.system.calls[call]? with
    | some (.create _ _ _ (.workflowSaved _)) => s.awaiting call
    | _ => none
  | _ => none

section
variable {s : CronSystem} {e : CronEvent} {i call : Nat} {c : CronSchedule}

theorem CronSystem.awaiting_mem (h : s.awaiting call = some (i, c)) :
    ∃ rest, s.ticks[i]? = some (.creating call c rest) := by
  obtain ⟨k, _, hk⟩ := List.exists_of_findSome?_eq_some h
  split at hk
  · rename_i hi
    split at hk
    · rename_i hcall
      cases hk
      exact ⟨_, hcall ▸ hi⟩
    · cases hk
  · cases hk

/-- Only one tick awaits the call. -/
theorem CronSystem.Coherent.awaiting_eq_some (hs : s.Coherent) :
    s.awaiting call = some (i, c) ↔ ∃ rest, s.ticks[i]? = some (.creating call c rest) := by
  constructor
  · exact CronSystem.awaiting_mem
  · rintro ⟨rest, hi⟩
    cases ha : s.awaiting call with
    | none =>
      have hnone := List.findSome?_eq_none_iff.1 ha i (List.mem_range.2 (List.getElem?_eq_some_iff.1 hi).1)
      simp [hi] at hnone
    | some found =>
      obtain ⟨rest', hj⟩ := CronSystem.awaiting_mem (i := found.1) (c := found.2) ha
      obtain rfl := hs.single _ _ _ _ _ _ _ hi hj
      cases hi.symm.trans hj
      rfl

theorem CronSystem.creation_eq_some (h : s.creation e = some (i, c)) :
    ∃ call reply jobId trigger input run rest, e = .inner (.resume call reply) ∧
      s.system.calls[call]? = some (.create jobId trigger input (.workflowSaved run)) ∧
      s.ticks[i]? = some (.creating call c rest) := by
  unfold CronSystem.creation at h
  split at h
  · rename_i call reply
    split at h
    · rename_i hcall
      obtain ⟨rest, hi⟩ := CronSystem.awaiting_mem h
      exact ⟨call, reply, _, _, _, _, rest, rfl, hcall, hi⟩
    · cases h
  · cases h

end

/-! ## The schedules that ticks write back -/

/-- The schedule for which the event makes a tick call `markTriggered`, with the readings of the clock. -/
def CronSystem.marks (s : CronSystem) : CronEvent → Option (CronSchedule × Date × Date)
  | .resumeTick i now nowIso =>
    match s.ticks[i]? with
    | some (.creating call schedule _) =>
      match s.system.calls[call]? with
      | some (.create _ _ _ (.settled (.ok _))) => some (schedule, now, nowIso)
      | _ => none
    | _ => none
  | _ => none

/-- The record that the event makes a tick write back. -/
def CronSystem.writesBack (s : CronSystem) (e : CronEvent) : Option CronSchedule :=
  (s.marks e).bind fun x => (ScheduleService.markTriggered x.1 x.2.1 x.2.2).toOption

section
variable {world : World} {service : Nat} {s s' : CronSystem} {e : CronEvent} {i call : Nat} {now nowIso : Date}
  {schedule updated : CronSchedule} {rest : List CronSchedule} {jobId : JobId} {trigger : String} {input : Record}
  {run : JobRun}

theorem CronSystem.marks_eq_some {x : CronSchedule × Date × Date} (h : s.marks e = some x) :
    ∃ i call rest jobId trigger input run, e = .resumeTick i x.2.1 x.2.2 ∧
      s.ticks[i]? = some (.creating call x.1 rest) ∧
      s.system.calls[call]? = some (.create jobId trigger input (.settled (.ok run))) := by
  unfold CronSystem.marks at h
  split at h
  · split at h
    · rename_i hi
      split at h
      · rename_i hcall
        cases h
        exact ⟨_, _, _, _, _, _, _, rfl, hi, hcall⟩
      · cases h
    · cases h
  · cases h

theorem CronSystem.marks_creating (hi : s.ticks[i]? = some (.creating call schedule rest))
    (hcall : s.system.calls[call]? = some (.create jobId trigger input (.settled (.ok run)))) :
    s.marks (.resumeTick i now nowIso) = some (schedule, now, nowIso) := by
  simp [CronSystem.marks, hi, hcall]

theorem CronSystem.writesBack_triggered (hi : s.ticks[i]? = some (.creating call schedule rest))
    (hcall : s.system.calls[call]? = some (.create jobId trigger input (.settled (.ok run))))
    (hm : ScheduleService.markTriggered schedule now nowIso = .ok updated) :
    s.writesBack (.resumeTick i now nowIso) = some updated := by
  simp [CronSystem.writesBack, CronSystem.marks_creating hi hcall, hm, Except.toOption]

theorem CronSystem.writesBack_eq_some (h : s.writesBack e = some updated) :
    ∃ x, s.marks e = some x ∧ ScheduleService.markTriggered x.1 x.2.1 x.2.2 = .ok updated := by
  obtain ⟨x, hx, hm⟩ := Option.bind_eq_some_iff.1 h
  refine ⟨x, hx, ?_⟩
  cases ho : ScheduleService.markTriggered x.1 x.2.1 x.2.2 with
  | error e =>
    rw [ho] at hm
    cases hm
  | ok u =>
    rw [ho] at hm
    cases hm
    rfl

/-- What a tick writes back is stored, and enabled. -/
theorem CronSystem.step_writesBack (hs : s.Coherent) (h : s.step world service e = some s')
    (hw : s.writesBack e = some updated) :
    s'.schedules = ScheduleStore.save s.schedules updated ∧ updated.enabled = true := by
  obtain ⟨⟨schedule, now, nowIso⟩, hx, hm⟩ := CronSystem.writesBack_eq_some hw
  obtain ⟨i, call, rest, jobId, trigger, input, run, rfl, hi, hcall⟩ := CronSystem.marks_eq_some hx
  have henabled := (hs.held i _ hi schedule List.mem_cons_self).1
  simp only [CronSystem.step, hi, Option.bind_some, CronSystem.resumeTick, hcall, hm] at h
  cases h
  obtain ⟨_, _, _, _, _, rfl⟩ := ScheduleService.markTriggered_ok hm
  exact ⟨rfl, henabled⟩

end

end Jobflow
