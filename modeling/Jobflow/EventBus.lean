import Mathlib.Logic.Function.Basic
import Jobflow.Domain
import Jobflow.Lib.EventSystem

/-!
# The event bus (src/services/event-bus.ts)

A listener that is called may subscribe, unsubscribe and publish in turn, so that calls of `publish` nest. `subscribe`
pushes to the list that they iterate, an unsubscribe function puts a new list in its place, without any subscription of
the same listener. Events are delivered as they should be just if neither makes a difference (`deliveries_exact_iff`).
-/

namespace Jobflow

/-! ## The source -/

/-- A call of `publish`: the list it iterates, by its reference, and the next index. For the record it has the listeners
that were subscribed when it was called, and those that it has called. -/
structure Publish (Listener : Type) where
  event : DomainEvent
  listeners : Nat
  index : Nat
  due : List Listener
  delivered : List Listener

structure EventBus (Listener : Type) where
  /-- The lists, by their references. -/
  lists : Nat → List Listener
  /-- `this.listeners`; lists are made one after the other. -/
  listeners : Nat
  /-- The listener of each call of `subscribe`. -/
  subscribed : List Listener
  /-- The subscriptions that no call of their unsubscribe function has ended, by their numbers. -/
  live : List (Nat × Listener)
  /-- The calls of `publish` that have not returned, the innermost first. -/
  publishing : List (Publish Listener)
  /-- Those that have. -/
  published : List (Publish Listener)

inductive BusStep (Listener : Type) where
  | subscribe (listener : Listener)
  /-- The unsubscribe function of the `k`th subscription is called. -/
  | unsubscribe (k : Nat)
  | publish (event : DomainEvent)
  /-- The listener that is running returns or throws, which is caught. -/
  | ended (threw : Bool)

namespace EventBus

variable {Listener : Type}

def init : EventBus Listener := ⟨fun _ => [], 0, [], [], [], []⟩

/-- `this.listeners.push(listener)`. -/
def push (s : EventBus Listener) (listener : Listener) : EventBus Listener :=
  { s with lists := Function.update s.lists s.listeners (s.lists s.listeners ++ [listener]) }

/-- The head of the loop of `publish`: the next listener is called, or `publish` returns. -/
def callNext (s : EventBus Listener) (p : Publish Listener) (outer : List (Publish Listener)) : EventBus Listener :=
  match (s.lists p.listeners)[p.index]? with
  | some l => { s with publishing := { p with index := p.index + 1, delivered := p.delivered ++ [l] } :: outer }
  | none => { s with publishing := outer, published := s.published ++ [p] }

variable [DecidableEq Listener]

/-- `this.listeners = this.listeners.filter((l) => l !== listener)`. -/
def replace (s : EventBus Listener) (listener : Listener) : EventBus Listener :=
  { s with
    lists := Function.update s.lists (s.listeners + 1) ((s.lists s.listeners).filter (· ≠ listener))
    listeners := s.listeners + 1 }

def step (s : EventBus Listener) : BusStep Listener → Option (EventBus Listener)
  | .subscribe listener =>
    some { s.push listener with
      subscribed := s.subscribed ++ [listener]
      live := s.live ++ [(s.subscribed.length, listener)] }
  | .unsubscribe k =>
    match s.subscribed[k]? with
    | some listener => some { s.replace listener with live := s.live.filter (·.1 ≠ k) }
    | none => none
  | .publish event => some (s.callNext ⟨event, s.listeners, 0, s.live.map Prod.snd, []⟩ s.publishing)
  | .ended _ =>
    match s.publishing with
    | p :: outer => some (s.callNext p outer)
    | [] => none

end EventBus

/-! ## What should hold, and when it does -/

section
variable {Listener : Type}

/-- The bus has the live subscriptions, and each event whose `publish` has returned was delivered once for each
subscription that was live when it was called. -/
structure EventBus.Faithful (s : EventBus Listener) : Prop where
  subscriptions : (s.lists s.listeners).Perm (s.live.map Prod.snd)
  deliveries : ∀ p ∈ s.published, p.delivered.Perm p.due

/-- A listener is subscribed only while no call of `publish` iterates the list of the bus, that is, while every such
call was made before the last unsubscription; an unsubscribe function is called only while no other subscription of the
listener is live. -/
def EventBus.Apart (s : EventBus Listener) : BusStep Listener → Prop
  | .subscribe _ => ∀ p ∈ s.publishing, p.listeners ≠ s.listeners
  | .unsubscribe k => ∀ other ∈ s.live, other.1 ≠ k → s.subscribed[k]? ≠ some other.2
  | .publish _ | .ended _ => True

instance [DecidableEq Listener] (s : EventBus Listener) : (e : BusStep Listener) → Decidable (s.Apart e)
  | .subscribe _ => inferInstanceAs (Decidable (∀ p ∈ s.publishing, p.listeners ≠ s.listeners))
  | .unsubscribe k => inferInstanceAs (Decidable (∀ other ∈ s.live, other.1 ≠ k → s.subscribed[k]? ≠ some other.2))
  | .publish _ | .ended _ => isTrue trivial

/-- What holds as long as all steps keep apart. -/
structure EventBus.Regular (s : EventBus Listener) : Prop where
  subscriptions : s.lists s.listeners = s.live.map Prod.snd
  numbers : ∀ sub ∈ s.live, s.subscribed[sub.1]? = some sub.2
  publishing : ∀ p ∈ s.publishing, s.lists p.listeners = p.due
  delivered : ∀ p ∈ s.publishing, p.delivered = p.due.take p.index
  published : ∀ p ∈ s.published, p.delivered = p.due

/-- What holds in any case. -/
structure EventBus.Sound (s : EventBus Listener) : Prop where
  older : ∀ p ∈ s.publishing, p.listeners ≤ s.listeners
  counted : ∀ p ∈ s.publishing, p.delivered.length = p.index

/-- A call of `publish` delivers to more listeners than it should, or will. -/
def EventBus.Doomed (s : EventBus Listener) : Prop :=
  (∃ p ∈ s.publishing, p.due.length < (s.lists p.listeners).length) ∨
    ∃ p ∈ s.published, p.due.length < p.delivered.length

end

namespace EventBus

variable {Listener : Type} {s s' : EventBus Listener}

theorem Regular.faithful (h : s.Regular) : s.Faithful :=
  ⟨.of_eq h.subscriptions, fun p hp => .of_eq (h.published p hp)⟩

theorem regular_init : (init : EventBus Listener).Regular where
  subscriptions := rfl
  numbers := by simp [init]
  publishing := by simp [init]
  delivered := by simp [init]
  published := by simp [init]

theorem sound_init : (init : EventBus Listener).Sound := ⟨by simp [init], by simp [init]⟩

theorem Doomed.not_faithful (h : s.Doomed) (hdone : s.publishing = []) : ¬ s.Faithful := by
  rintro ⟨_, hdeliveries⟩
  rcases h with ⟨p, hp, _⟩ | ⟨p, hp, hlt⟩
  · rw [hdone] at hp
    cases hp
  · have hlength := (hdeliveries p hp).length_eq
    omega

/-! ## The loop of `publish` -/

section
variable {p : Publish Listener} {outer : List (Publish Listener)}

/-- A call of `publish` goes on with its next listener, or returns. -/
theorem callNext_cases (s : EventBus Listener) (p : Publish Listener) (outer : List (Publish Listener)) :
    (∃ l, (s.lists p.listeners)[p.index]? = some l ∧ s.callNext p outer =
      { s with publishing := { p with index := p.index + 1, delivered := p.delivered ++ [l] } :: outer }) ∨
    (s.lists p.listeners).length ≤ p.index ∧
      s.callNext p outer = { s with publishing := outer, published := s.published ++ [p] } := by
  unfold callNext
  cases hl : (s.lists p.listeners)[p.index]? with
  | some l => exact .inl ⟨l, rfl, rfl⟩
  | none => exact .inr ⟨List.getElem?_eq_none_iff.1 hl, rfl⟩

theorem Sound.callNext (h : { s with publishing := p :: outer }.Sound) : (s.callNext p outer).Sound := by
  obtain ⟨holder, hcounted⟩ := h
  simp only [List.forall_mem_cons] at holder hcounted
  rcases callNext_cases s p outer with ⟨l, _, heq⟩ | ⟨_, heq⟩
  · rw [heq]
    refine ⟨List.forall_mem_cons.2 holder, List.forall_mem_cons.2 ⟨?_, hcounted.2⟩⟩
    rw [List.length_append, hcounted.1, List.length_singleton]
  · rw [heq]
    exact ⟨holder.2, hcounted.2⟩

theorem Regular.callNext (h : { s with publishing := p :: outer }.Regular) : (s.callNext p outer).Regular := by
  obtain ⟨hsubscriptions, hnumbers, hpublishing, hdelivered, hpublished⟩ := h
  simp only [List.forall_mem_cons] at hpublishing hdelivered
  rcases callNext_cases s p outer with ⟨l, hl, heq⟩ | ⟨hlength, heq⟩
  · rw [heq]
    refine ⟨hsubscriptions, hnumbers, List.forall_mem_cons.2 hpublishing, List.forall_mem_cons.2 ⟨?_, hdelivered.2⟩,
      hpublished⟩
    rw [hpublishing.1] at hl
    obtain ⟨hlt, hl⟩ := List.getElem?_eq_some_iff.1 hl
    rw [hdelivered.1, List.take_add_one, List.getElem?_eq_getElem hlt, hl]
    rfl
  · rw [heq]
    refine ⟨hsubscriptions, hnumbers, hpublishing.2, hdelivered.2, List.forall_mem_append.2 ⟨hpublished, ?_⟩⟩
    rw [hpublishing.1] at hlength
    rintro q hq
    rw [List.mem_singleton.1 hq, hdelivered.1]
    exact List.take_of_length_le hlength

theorem Doomed.callNext (hsound : { s with publishing := p :: outer }.Sound)
    (h : { s with publishing := p :: outer }.Doomed) : (s.callNext p outer).Doomed := by
  have hcounted := hsound.counted p List.mem_cons_self
  rcases callNext_cases s p outer with ⟨l, _, heq⟩ | ⟨hlength, heq⟩
  · rw [heq]
    rcases h with ⟨q, hq, hlt⟩ | hpublished
    · rcases List.mem_cons.1 hq with rfl | hq
      · exact .inl ⟨_, List.mem_cons_self, hlt⟩
      · exact .inl ⟨q, List.mem_cons_of_mem _ hq, hlt⟩
    · exact .inr hpublished
  · rw [heq]
    rcases h with ⟨q, hq, hlt⟩ | ⟨q, hq, hlt⟩
    · rcases List.mem_cons.1 hq with rfl | hq
      · refine .inr ⟨q, List.mem_append_right _ List.mem_cons_self, ?_⟩
        simp only at hlt
        omega
      · exact .inl ⟨q, hq, hlt⟩
    · exact .inr ⟨q, List.mem_append_left _ hq, hlt⟩

end

/-! ## Steps -/

variable [DecidableEq Listener] {e : BusStep Listener}

/-- What a step does. -/
theorem step_cases (hstep : s.step e = some s') :
    (∃ l, e = .subscribe l ∧ s' = { s.push l with
      subscribed := s.subscribed ++ [l], live := s.live ++ [(s.subscribed.length, l)] }) ∨
    (∃ k l, e = .unsubscribe k ∧ s.subscribed[k]? = some l ∧
      s' = { s.replace l with live := s.live.filter (·.1 ≠ k) }) ∨
    (∃ p outer, s' = s.callNext p outer ∧
      ((∃ event, e = .publish event ∧ outer = s.publishing ∧ p = ⟨event, s.listeners, 0, s.live.map Prod.snd, []⟩) ∨
        ∃ threw, e = .ended threw ∧ s.publishing = p :: outer)) := by
  cases e with
  | subscribe l => exact .inl ⟨l, rfl, (Option.some.inj hstep).symm⟩
  | unsubscribe k =>
    simp only [step] at hstep
    split at hstep
    · rename_i l hl
      exact .inr (.inl ⟨k, l, rfl, hl, (Option.some.inj hstep).symm⟩)
    · cases hstep
  | publish event => exact .inr (.inr ⟨_, _, (Option.some.inj hstep).symm, .inl ⟨event, rfl, rfl, rfl⟩⟩)
  | ended threw =>
    simp only [step] at hstep
    split at hstep
    · rename_i p outer hp
      exact .inr (.inr ⟨p, outer, (Option.some.inj hstep).symm, .inr ⟨threw, rfl, hp⟩⟩)
    · cases hstep

theorem Sound.step (h : s.Sound) (hstep : s.step e = some s') : s'.Sound := by
  rcases step_cases hstep with ⟨l, _, rfl⟩ | ⟨k, l, _, _, rfl⟩ | ⟨p, outer, rfl, ⟨event, _, rfl, rfl⟩ | ⟨_, _, hp⟩⟩
  · exact ⟨h.older, h.counted⟩
  · exact ⟨fun p hp => Nat.le_succ_of_le (h.older p hp), h.counted⟩
  · refine Sound.callNext ⟨List.forall_mem_cons.2 ⟨Nat.le_refl _, h.older⟩, List.forall_mem_cons.2 ⟨rfl, h.counted⟩⟩
  · exact Sound.callNext ⟨hp ▸ h.older, hp ▸ h.counted⟩

theorem Doomed.step (h : s.Doomed) (hsound : s.Sound) (hstep : s.step e = some s') : s'.Doomed := by
  rcases step_cases hstep with ⟨l, _, rfl⟩ | ⟨k, l, _, _, rfl⟩ | ⟨p, outer, rfl, ⟨event, _, rfl, rfl⟩ | ⟨_, _, hp⟩⟩
  · refine h.imp_left fun ⟨p, hp, hlt⟩ => ⟨p, hp, Nat.lt_of_lt_of_le hlt ?_⟩
    simp only [push, Function.update_apply]
    split_ifs with heq
    · rw [heq, List.length_append]
      exact Nat.le_add_right _ _
    · exact Nat.le_refl _
  · refine h.imp_left fun ⟨p, hp, hlt⟩ => ⟨p, hp, ?_⟩
    have hne : p.listeners ≠ s.listeners + 1 := Nat.ne_of_lt (Nat.lt_succ_of_le (hsound.older p hp))
    simpa only [replace, Function.update_of_ne hne] using hlt
  · refine Doomed.callNext ⟨List.forall_mem_cons.2 ⟨Nat.le_refl _, hsound.older⟩,
      List.forall_mem_cons.2 ⟨rfl, hsound.counted⟩⟩ ?_
    exact h.imp_left fun ⟨p, hp, hlt⟩ => ⟨p, List.mem_cons_of_mem _ hp, hlt⟩
  · refine Doomed.callNext ⟨hp ▸ hsound.older, hp ▸ hsound.counted⟩ ?_
    exact h.imp_left fun ⟨q, hq, hlt⟩ => ⟨q, hp ▸ hq, hlt⟩

/-- Steps that keep apart leave the bus regular. -/
theorem Regular.step (h : s.Regular) (hsound : s.Sound) (hapart : s.Apart e) (hstep : s.step e = some s') :
    s'.Regular := by
  rcases step_cases hstep with ⟨l, rfl, rfl⟩ | ⟨k, l, rfl, hk, rfl⟩ | ⟨p, outer, rfl, ⟨event, _, rfl, rfl⟩ | ⟨_, _, hp⟩⟩
  · refine ⟨?_, ?_, fun p hp => ?_, h.delivered, h.published⟩
    · simp [push, h.subscriptions]
    · refine List.forall_mem_append.2 ⟨fun sub hsub => ?_, by simp⟩
      have hlt := (List.getElem?_eq_some_iff.1 (h.numbers sub hsub)).1
      rw [List.getElem?_append_left hlt]
      exact h.numbers sub hsub
    · simp only [push, Function.update_of_ne (hapart p hp)]
      exact h.publishing p hp
  · refine ⟨?_, fun sub hsub => h.numbers sub (List.mem_of_mem_filter hsub), fun p hp => ?_, h.delivered, h.published⟩
    · -- the subscriptions of the listener are the one that ends
      simp only [replace, Function.update_self, h.subscriptions, List.filter_map]
      refine congrArg (List.map Prod.snd) (List.filter_congr fun sub hsub => ?_)
      have hnumber := h.numbers sub hsub
      by_cases hsubk : sub.1 = k
      · rw [hsubk, hk] at hnumber
        simp [hsubk, Option.some.inj hnumber]
      · have hother := hapart sub hsub hsubk
        rw [hk, ne_eq, Option.some.injEq] at hother
        simp [hsubk, Ne.symm hother]
    · have hne : p.listeners ≠ s.listeners + 1 := Nat.ne_of_lt (Nat.lt_succ_of_le (hsound.older p hp))
      simp only [replace, Function.update_of_ne hne]
      exact h.publishing p hp
  · exact Regular.callNext ⟨h.subscriptions, h.numbers, List.forall_mem_cons.2 ⟨h.subscriptions, h.publishing⟩,
      List.forall_mem_cons.2 ⟨rfl, h.delivered⟩, h.published⟩
  · exact Regular.callNext ⟨h.subscriptions, h.numbers, hp ▸ h.publishing, hp ▸ h.delivered, h.published⟩

/-- A step that does not keep apart shows: at once, or when the call of `publish` returns. -/
theorem Regular.apart (h : s.Regular) (hstep : s.step e = some s') (hfaithful : s'.Faithful) (hdoomed : ¬ s'.Doomed) :
    s.Apart e := by
  rcases step_cases hstep with ⟨l, rfl, rfl⟩ | ⟨k, l, rfl, hk, rfl⟩ | ⟨_, _, _, ⟨event, rfl, _⟩ | ⟨_, rfl, _⟩⟩
  · intro p hp heq
    refine hdoomed (.inl ⟨p, hp, ?_⟩)
    simp only [push, heq, Function.update_self, List.length_append, List.length_singleton]
    rw [← heq, h.publishing p hp]
    exact Nat.lt_succ_self _
  · intro other hother hne hlistener
    obtain rfl := Option.some.inj (hk.symm.trans hlistener)
    have hlive : other.2 ∈ (s.live.filter (·.1 ≠ k)).map Prod.snd :=
      List.mem_map_of_mem (List.mem_filter.2 ⟨hother, decide_eq_true hne⟩)
    have hgone := hfaithful.subscriptions.mem_iff.2 hlive
    simp [replace] at hgone
  · trivial
  · trivial

/-- The bus is faithful after every step. -/
abbrev FaithfulStep (_ : EventBus Listener) (_ : BusStep Listener) (s' : EventBus Listener) : Prop := s'.Faithful

abbrev ApartStep (s : EventBus Listener) (e : BusStep Listener) (_ : EventBus Listener) : Prop := s.Apart e

theorem faithful_of_apart {events : List (BusStep Listener)} (h : s.Regular) (hsound : s.Sound)
    (hapart : EventSystem.Along step ApartStep s events) : EventSystem.Along step FaithfulStep s events := by
  refine @EventSystem.Along.of_invariant _ _ step (fun s => s.Regular ∧ s.Sound) (fun _ => True) _ _ ?_ _ _ ⟨h, hsound⟩
    (fun _ _ => trivial) hapart
  intro s e s' hs _ hstep hapart
  have hregular := hs.1.step hs.2 hapart hstep
  exact ⟨hregular.faithful, hregular, hs.2.step hstep⟩

theorem apart_of_faithful {events : List (BusStep Listener)} {s' : EventBus Listener} (hdone : s'.publishing = []) :
    ∀ {s : EventBus Listener}, s.Regular → s.Sound → EventSystem.exec step s events = some s' →
      EventSystem.Along step FaithfulStep s events → EventSystem.Along step ApartStep s events := by
  induction events with
  | nil => exact fun _ _ _ _ => trivial
  | cons e events ih =>
    intro s h hsound hrun hfaithful
    obtain ⟨m, hm, hrun⟩ := EventSystem.exec_cons.1 hrun
    unfold EventSystem.Along at hfaithful ⊢
    rw [hm] at hfaithful ⊢
    -- a call that delivers too much has done so when all calls have returned
    have hdoomed : ¬ m.Doomed := by
      intro hdoomed
      have hend : s'.Doomed ∧ s'.Sound :=
        @EventSystem.exec_invariant _ _ step (fun s => s.Doomed ∧ s.Sound) (fun _ => True)
          (fun s e s' hs _ hstep => ⟨hs.1.step hs.2 hstep, hs.2.step hstep⟩) events m s' ⟨hdoomed, hsound.step hm⟩
          (fun _ _ => trivial) hrun
      have hfaithfulEnd : s'.Faithful :=
        @EventSystem.Along.invariant _ _ step Faithful (fun _ => True) _ (fun _ _ _ _ _ _ h => h) events m s'
          hfaithful.1 (fun _ _ => trivial) hfaithful.2 hrun
      exact hend.1.not_faithful hdone hfaithfulEnd
    have hapart := h.apart hm hfaithful.1 hdoomed
    exact ⟨hapart, ih (h.step hsound hapart hm) (hsound.step hm) hrun hfaithful.2⟩

end EventBus

/-- **Each event is delivered once for each subscription**, and a subscription is ended by its own unsubscribe function
only: in every run whose steps keep apart, and, where all calls of `publish` have returned, in no other. -/
theorem deliveries_exact_iff {Listener : Type} [DecidableEq Listener] {events : List (BusStep Listener)}
    {s : EventBus Listener} (hrun : EventSystem.exec EventBus.step .init events = some s) :
    (EventSystem.Along EventBus.step EventBus.ApartStep .init events →
      EventSystem.Along EventBus.step EventBus.FaithfulStep .init events) ∧
    (s.publishing = [] → (EventSystem.Along EventBus.step EventBus.FaithfulStep .init events ↔
      EventSystem.Along EventBus.step EventBus.ApartStep .init events)) := by
  have henough := @EventBus.faithful_of_apart _ _ _ events EventBus.regular_init EventBus.sound_init
  exact ⟨henough, fun hdone =>
    ⟨EventBus.apart_of_faithful hdone EventBus.regular_init EventBus.sound_init hrun, henough⟩⟩

/-! ## Runs -/

def eventSample : DomainEvent := .runStarted "r1" "j1" "2026-01-01T00:00:00.000Z"

/-- A listener that was subscribed twice is not called after one of its unsubscribe functions was; a listener that is
subscribed while an event is published hears of it. -/
theorem deliveries_fail :
    (∃ s, EventSystem.exec EventBus.step .init
        [.subscribe 7, .subscribe 7, .unsubscribe 0, .publish eventSample] = some s ∧ s.publishing = [] ∧
      s.live.map Prod.snd = [7] ∧ s.published.map Publish.delivered = [[]]) ∧
    (∃ s, EventSystem.exec EventBus.step .init
        [.subscribe 7, .publish eventSample, .subscribe 8, .ended false, .ended false] = some s ∧ s.publishing = [] ∧
      s.published.map Publish.due = [[7]] ∧ s.published.map Publish.delivered = [[7, 8]]) :=
  ⟨⟨_, rfl, rfl, rfl, rfl⟩, ⟨_, rfl, rfl, rfl, rfl⟩⟩

/-- A listener that unsubscribes itself when it is called, and publishes. -/
theorem deliveries_exact_iff_sample : EventSystem.Along EventBus.step EventBus.FaithfulStep .init
    [.subscribe 7, .subscribe 8, .publish eventSample, .unsubscribe 0, .publish eventSample, .ended true, .ended false,
      .ended false] := by
  exact (@deliveries_exact_iff Nat _ _ _ rfl).1 (by decide)

end Jobflow
