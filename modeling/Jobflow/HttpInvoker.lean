import Jobflow.Lib.EventSystem
import Jobflow.Lib.InsertionMap
import Jobflow.Js.Value
import Jobflow.CircuitBreaker

/-!
# Invocations over HTTP (src/handlers/http/invoker.ts)

A call of `invoke` asks the breaker of its handler, waits for the network and records the outcome. In between any
number of other calls ask. Each breaker goes through the calls and outcomes of its own handler (`getBreaker_exec`). The
half open state lets everything through, so that a second call between an opening and the next outcome is held back
only by the failure of a request from before the opening, for the time of a cooldown (`half_open_probes_iff`).
-/

namespace Jobflow

open Js (Number Value)

/-- The result of a call, but for its latency, which nothing reads. -/
structure HttpInvokeResult where
  ok : Bool
  status : Nat
  body : Value

/-- What a call that is not let through returns. -/
def HttpInvokeResult.circuitOpen : HttpInvokeResult := ⟨false, 503, .object none [("error", .string "circuit_open")]⟩

/-- What comes of a request: a response, its body parsed if it is JSON, or an exception with this text. -/
inductive FetchOutcome where
  | response (ok : Bool) (status : Nat) (body : Value)
  | threw (err : String)

def FetchOutcome.ok : FetchOutcome → Bool
  | .response ok _ _ => ok
  | .threw _ => false

def FetchOutcome.result : FetchOutcome → HttpInvokeResult
  | .response ok status body => ⟨ok, status, body⟩
  | .threw err => ⟨false, 0, .object none [("error", .string err)]⟩

/-- A call of `invoke`: its handler, whether the breaker let it through, and its result, if it has one. -/
structure HttpInvocation where
  handler : String
  admitted : Bool
  result : Option HttpInvokeResult

structure HttpHandlerInvoker where
  defaultBreakerThreshold : Number
  defaultCooldownMs : Number
  breakers : InsertionMap String CircuitBreaker
  /-- Every call so far. -/
  invocations : List HttpInvocation

inductive InvokerEvent where
  | invoke (handler : String) (now : Int)
  /-- The request of the `i`th call comes to its end. -/
  | settle (i : Nat) (outcome : FetchOutcome) (now : Int)

namespace HttpHandlerInvoker

def new (defaultBreakerThreshold defaultCooldownMs : Number) : HttpHandlerInvoker :=
  ⟨defaultBreakerThreshold, defaultCooldownMs, .empty, []⟩

/-- `getBreaker` (invoker.ts:63-70). -/
def getBreaker (x : HttpHandlerInvoker) (handler : String) : CircuitBreaker :=
  (x.breakers.get handler).getD (.new x.defaultBreakerThreshold x.defaultCooldownMs)

/-- `invoke` up to its request (invoker.ts:28-43). -/
def invoke (x : HttpHandlerInvoker) (handler : String) (now : Int) : HttpHandlerInvoker :=
  let (breaker, admitted) := (x.getBreaker handler).canExecute now
  { x with
    breakers := x.breakers.set handler breaker
    invocations := x.invocations ++ [⟨handler, admitted, if admitted then none else some .circuitOpen⟩] }

/-- `invoke` from its request on (invoker.ts:44-60): the outcome is recorded. -/
def settle (x : HttpHandlerInvoker) (i : Nat) (outcome : FetchOutcome) (now : Int) : Option HttpHandlerInvoker :=
  match x.invocations[i]? with
  | some ⟨handler, admitted, none⟩ =>
    let breaker := x.getBreaker handler
    some { x with
      breakers := x.breakers.set handler (if outcome.ok then breaker.recordSuccess else breaker.recordFailure now)
      invocations := x.invocations.set i ⟨handler, admitted, some outcome.result⟩ }
  | _ => none

def step (x : HttpHandlerInvoker) : InvokerEvent → Option HttpHandlerInvoker
  | .invoke handler now => some (x.invoke handler now)
  | .settle i outcome now => x.settle i outcome now

/-! ## Between an opening and the next outcome -/

/-- The step from `x` to `y` opens the breaker of the handler. -/
def Opens (handler : String) (x y : HttpHandlerInvoker) : Prop :=
  (x.getBreaker handler).state ≠ .opened ∧ (y.getBreaker handler).state = .opened

/-- The calls for the handler after the first `n` calls. -/
def since (x : HttpHandlerInvoker) (handler : String) (n : Nat) : List HttpInvocation :=
  (x.invocations.drop n).filter fun c => c.handler = handler

/-- None of their requests has come to its end. -/
def Undecided (x : HttpHandlerInvoker) (handler : String) (n : Nat) : Prop :=
  ∀ c ∈ x.since handler n, c.admitted = true → c.result.isNone

/-- How many of their requests are on their way. -/
def inFlight (x : HttpHandlerInvoker) (handler : String) (n : Nat) : Nat :=
  (x.since handler n).countP fun c => c.result.isNone

/-- At most one request is on its way, and all other calls have been turned away. -/
structure OneProbe (x : HttpHandlerInvoker) (handler : String) (n : Nat) : Prop where
  atMostOne : x.inFlight handler n ≤ 1
  others : ∀ c ∈ x.since handler n, c.result = none ∨ c.result = some .circuitOpen

/-- After the events `past` the breaker of the handler has just opened, in the state `x`. With the events `since` the
run has come to `y`, and no request that was sent since the opening has come to its end. -/
structure Period (init : HttpHandlerInvoker) (past since : List InvokerEvent) (handler : String)
    (x y : HttpHandlerInvoker) : Prop where
  opening : ∃ before e w, past = before ++ [e] ∧ EventSystem.exec step init before = some w ∧ step w e = some x ∧
    Opens handler w x
  run : EventSystem.exec step x since = some y
  undecided : y.Undecided handler x.invocations.length

/-- After an opening the run has one request at a time, until an outcome. -/
def AdmitsOneProbe (init : HttpHandlerInvoker) (events : List InvokerEvent) (handler : String) : Prop :=
  ∀ past since rest x y, events = past ++ since ++ rest → Period init past since handler x y →
    y.OneProbe handler x.invocations.length

/-! ## What a run asks of a breaker -/

/-- The handlers of the calls, in their order. -/
def calledHandlers (events : List InvokerEvent) : List String :=
  events.filterMap fun
    | .invoke handler _ => some handler
    | .settle _ _ _ => none

/-- What an event asks of the breaker of the handler; `called` are the handlers of the calls. -/
def breakerCall (called : List String) (handler : String) : InvokerEvent → Option (Int × BreakerCall)
  | .invoke handler' now => if handler' = handler then some (now, .canExecute) else none
  | .settle i outcome now =>
    if called[i]? = some handler then some (now, if outcome.ok then .recordSuccess else .recordFailure) else none

/-- The calls and outcomes of the handler among `part` of the events of a run. -/
def breakerHistory (events : List InvokerEvent) (handler : String) (part : List InvokerEvent) : CallHistory :=
  part.filterMap (breakerCall (calledHandlers events) handler)

/-- A call that comes while a request sent since an opening is on its way comes within the cooldown of a late failure:
one recorded since the opening, of a request from before it, that has brought the failures since the last success to the
threshold, and after which only calls within its cooldown have come. -/
def ProbesApart (threshold cooldownMs : Number) (events : List InvokerEvent) (handler : String) : Prop :=
  ∀ past since (now : Int) rest x y, events = past ++ since ++ .invoke handler now :: rest →
    Period (.new threshold cooldownMs) past since handler x y → y.inFlight handler x.invocations.length ≠ 0 →
      ∃ failedAt, OpenedIn threshold cooldownMs (breakerHistory events handler past)
        (breakerHistory events handler since) failedAt ∧ cooldownMs.le (.finite (now - failedAt)) = false

section
variable {x y : HttpHandlerInvoker} {threshold cooldownMs : Number} {events past since : List InvokerEvent}
  {handler : String} {n i : Nat} {now : Int} {outcome : FetchOutcome}

theorem invocations_invoke (x : HttpHandlerInvoker) (handler : String) (now : Int) :
    (x.invoke handler now).invocations = x.invocations ++ [⟨handler, ((x.getBreaker handler).canExecute now).2,
      if ((x.getBreaker handler).canExecute now).2 then none else some .circuitOpen⟩] := rfl

/-- A call that is not made for the handler is none of its calls; one that is comes last. -/
theorem since_invoke (hn : n ≤ x.invocations.length) (handler' : String) : (x.invoke handler' now).since handler n =
    x.since handler n ++ if handler' = handler then [⟨handler, ((x.getBreaker handler).canExecute now).2,
      if ((x.getBreaker handler).canExecute now).2 then none else some .circuitOpen⟩] else [] := by
  rw [since, invocations_invoke, List.drop_append_of_le_length hn, List.filter_append, ← since]
  by_cases h : handler' = handler
  · subst h
    simp
  · simp [h]

theorem settle_cases (h : x.settle i outcome now = some y) : ∃ c, x.invocations[i]? = some c ∧ c.result = none ∧
    y.invocations = x.invocations.set i { c with result := some outcome.result } := by
  unfold settle at h
  split at h
  · rename_i handler admitted hi
    cases h
    exact ⟨_, hi, rfl, rfl⟩
  · cases h

/-- There are `n` calls, and those without a result have been let through. -/
structure Waits (n : Nat) (x : HttpHandlerInvoker) : Prop where
  le_length : n ≤ x.invocations.length
  admitted : ∀ c ∈ x.invocations, c.result = none → c.admitted = true

theorem Waits.step {e : InvokerEvent} (h : Waits n x) (he : x.step e = some y) : Waits n y := by
  cases e with
  | invoke handler now =>
    cases he
    refine ⟨?_, fun c hc hnone => ?_⟩
    · rw [invocations_invoke, List.length_append]
      exact h.le_length.trans (Nat.le_add_right _ _)
    · rw [invocations_invoke, List.mem_append, List.mem_singleton] at hc
      rcases hc with hc | rfl
      · exact h.admitted c hc hnone
      · cases hadmitted : ((x.getBreaker handler).canExecute now).2 with
        | true => rfl
        | false => simp [hadmitted] at hnone
  | settle i outcome now =>
    obtain ⟨c, hi, -, hy⟩ := settle_cases he
    refine ⟨?_, fun c' hc' hnone => ?_⟩
    · rw [hy, List.length_set]
      exact h.le_length
    · rw [hy] at hc'
      rcases List.mem_or_eq_of_mem_set hc' with hc' | rfl
      · exact h.admitted c' hc' hnone
      · cases hnone

/-- A change outside what is listed leaves the list as it is. -/
theorem filter_set_of_not {α : Type} {p : α → Bool} {a b : α} (ha : p a = false) (hb : p b = false) :
    ∀ {l : List α} {i : Nat}, l[i]? = some a → (l.set i b).filter p = l.filter p
  | [], _, h => by cases h
  | _ :: _, 0, h => by
    obtain rfl := Option.some.inj h
    simp [ha, hb]
  | _ :: l, i + 1, h => by
    rw [List.set_cons_succ, List.filter_cons, List.filter_cons, filter_set_of_not ha hb (l := l) h]

/-- What a step adds to the calls since an opening that is still undecided after it. -/
theorem step_since {e : InvokerEvent} (h : Waits n x) (he : x.step e = some y) (hy : y.Undecided handler n) :
    y.since handler n = x.since handler n ∨ ∃ now, e = .invoke handler now ∧ y.since handler n = x.since handler n ++
      [⟨handler, ((x.getBreaker handler).canExecute now).2,
        if ((x.getBreaker handler).canExecute now).2 then none else some .circuitOpen⟩] := by
  cases e with
  | invoke handler' now =>
    cases he
    have hsince := @since_invoke x handler n now h.le_length handler'
    by_cases hh : handler' = handler
    · subst hh
      exact .inr ⟨now, rfl, by simpa using hsince⟩
    · exact .inl (by simpa [hh] using hsince)
  | settle i outcome now =>
    obtain ⟨c, hi, hnone, hinv⟩ := settle_cases he
    refine .inl ?_
    rw [since, hinv, since]
    by_cases hin : i < n
    · rw [List.drop_set_of_lt hin]
    · have hdrop : (x.invocations.drop n)[i - n]? = some c := by
        rw [List.getElem?_drop, Nat.add_sub_cancel' (Nat.not_lt.1 hin), hi]
      rw [List.drop_set, if_neg hin]
      by_cases hh : c.handler = handler
      · -- the request would be one of those that are undecided
        have hset : { c with result := some outcome.result } ∈ y.since handler n := by
          rw [since, hinv, List.drop_set, if_neg hin, List.mem_filter]
          refine ⟨List.mem_of_getElem? (i := i - n) ?_, by simpa using hh⟩
          rw [List.getElem?_set_self (List.getElem?_eq_some_iff.1 hdrop).1]
        have hundecided := hy _ hset (h.admitted c (List.mem_of_getElem? hi) hnone)
        cases hundecided
      · exact filter_set_of_not (by simpa using hh) (by simpa using hh) hdrop

theorem Waits.exec {es : List InvokerEvent} (h : Waits n x)
    (hes : EventSystem.exec HttpHandlerInvoker.step x es = some y) : Waits n y :=
  EventSystem.exec_invariant (fun _ _ _ h (_ : True) he => h.step he) h (fun _ _ => trivial) hes

/-- The calls after an opening wait for their results. -/
theorem Period.waits (h : Period (.new threshold cooldownMs) past since handler x y) :
    Waits x.invocations.length x := by
  obtain ⟨before, e, w, -, hbefore, he, -⟩ := h.opening
  have hnew : Waits 0 (.new threshold cooldownMs) := ⟨Nat.le_refl 0, by simp [new]⟩
  exact ⟨Nat.le_refl _, ((hnew.exec hbefore).step he).admitted⟩

theorem Period.exec (h : Period (.new threshold cooldownMs) past since handler x y) :
    EventSystem.exec step (.new threshold cooldownMs) (past ++ since) = some y := by
  obtain ⟨before, e, w, rfl, hbefore, he, -⟩ := h.opening
  exact EventSystem.exec_append.2 ⟨x, EventSystem.exec_snoc.2 ⟨w, hbefore, he⟩, h.run⟩

/-- The list of the calls of a period that has just begun is empty. -/
theorem since_length (x : HttpHandlerInvoker) (handler : String) : x.since handler x.invocations.length = [] := by
  simp [since]

/-- A call that is let through is one more request on its way, one that is not is turned away. -/
theorem inFlight_snoc {c : HttpInvocation} (h : y.since handler n = x.since handler n ++ [c]) :
    y.inFlight handler n = x.inFlight handler n + if c.result.isNone then 1 else 0 := by
  rw [inFlight, h, List.countP_append, ← inFlight, List.countP_singleton]

theorem Undecided.of_snoc {c : HttpInvocation} (h : y.Undecided handler n)
    (hsince : y.since handler n = x.since handler n ++ [c]) : x.Undecided handler n :=
  fun c' hc' => h c' (hsince ▸ List.mem_append_left _ hc')

/-- One step of a period in which no call is let through while a request is on its way. -/
theorem OneProbe.step {e : InvokerEvent} (h : x.OneProbe handler n) (hwaits : Waits n x) (he : x.step e = some y)
    (hy : y.Undecided handler n) (hapart : ∀ now, e = .invoke handler now → x.inFlight handler n ≠ 0 →
      ((x.getBreaker handler).canExecute now).2 = false) : y.OneProbe handler n := by
  rcases step_since hwaits he hy with hsame | ⟨now, rfl, hsince⟩
  · exact ⟨by rw [inFlight, hsame]; exact h.atMostOne, by rw [hsame]; exact h.others⟩
  · have hcount := inFlight_snoc hsince
    have hapart := hapart now rfl
    cases hadmitted : ((x.getBreaker handler).canExecute now).2 with
    | false =>
      simp only [hadmitted, Bool.false_eq_true, if_false] at hcount hsince
      refine ⟨by simpa [hcount] using h.atMostOne, fun c hc => ?_⟩
      rw [hsince, List.mem_append, List.mem_singleton] at hc
      rcases hc with hc | rfl
      · exact h.others c hc
      · exact .inr rfl
    | true =>
      simp only [hadmitted, if_true] at hcount hsince
      have hzero : x.inFlight handler n = 0 := by
        by_contra hne
        exact absurd (hapart hne) (by simp [hadmitted])
      refine ⟨by simp [hcount, hzero], fun c hc => ?_⟩
      rw [hsince, List.mem_append, List.mem_singleton] at hc
      rcases hc with hc | rfl
      · exact h.others c hc
      · exact .inl rfl

/-! ## Each breaker and its history -/

theorem step_invocations {e : InvokerEvent} (he : x.step e = some y) :
    y.invocations.map (·.handler) = x.invocations.map (·.handler) ++ calledHandlers [e] := by
  cases e with
  | invoke handler now =>
    cases he
    simp [invocations_invoke, calledHandlers]
  | settle i outcome now =>
    obtain ⟨c, hi, -, hy⟩ := settle_cases he
    rw [hy, List.map_set]
    have hsame : (x.invocations.map (·.handler))[i]? = some c.handler := by simp [hi]
    rw [List.getElem?_eq_some_iff] at hsame
    obtain ⟨hlt, hget⟩ := hsame
    rw [← hget, List.set_getElem_self]
    simp [calledHandlers]

theorem exec_invocations : ∀ {es : List InvokerEvent} {x : HttpHandlerInvoker},
    EventSystem.exec HttpHandlerInvoker.step x es = some y →
      y.invocations.map (·.handler) = x.invocations.map (·.handler) ++ calledHandlers es
  | [], x, h => by
    cases h
    simp [calledHandlers]
  | e :: es, x, h => by
    obtain ⟨m, hm, h⟩ := EventSystem.exec_cons.1 h
    rw [exec_invocations h, step_invocations hm, List.append_assoc]
    simp [calledHandlers, ← List.filterMap_append]

/-- Asking for another handler's breaker, or recording there, is no matter. -/
theorem getBreaker_set (x : HttpHandlerInvoker) (handler handler' : String) (b : CircuitBreaker)
    (invocations : List HttpInvocation) :
    getBreaker { x with breakers := x.breakers.set handler' b, invocations := invocations } handler =
      if handler' = handler then b else x.getBreaker handler := by
  rw [getBreaker, InsertionMap.get_set]
  by_cases h : handler' = handler
  · simp [h]
  · rw [if_neg h, if_neg h]
    rfl

/-- A step is to the breaker of the handler what its history says. -/
theorem step_getBreaker {e : InvokerEvent} {called : List String} (he : x.step e = some y)
    (hcalled : x.invocations.map (·.handler) <+: called) :
    y.getBreaker handler = (breakerCall called handler e).toList.foldl .call (x.getBreaker handler) := by
  cases e with
  | invoke handler' now =>
    cases he
    rw [invoke, getBreaker_set, breakerCall]
    by_cases h : handler' = handler
    · subst h
      simp [CircuitBreaker.call]
    · simp [h]
  | settle i outcome now =>
    obtain ⟨c, hi, hnone, -⟩ := settle_cases he
    have hhandler : called[i]? = some c.handler := by
      obtain ⟨rest, rfl⟩ := hcalled
      have hlt : i < x.invocations.length := (List.getElem?_eq_some_iff.1 hi).1
      rw [List.getElem?_append_left (by simpa using hlt)]
      simp [hi]
    obtain ⟨handler', admitted, result⟩ := c
    obtain rfl : result = none := hnone
    simp only [HttpHandlerInvoker.step, settle, hi, Option.some.injEq] at he
    rw [← he, getBreaker_set, breakerCall, hhandler]
    by_cases h : handler' = handler
    · subst h
      cases outcome.ok <;> simp [CircuitBreaker.call]
    · simp [h]

/-- **Each breaker goes through the history of its own handler.** -/
theorem getBreaker_exec {part rest : List InvokerEvent} (hevents : events = part ++ rest)
    (h : EventSystem.exec HttpHandlerInvoker.step (.new threshold cooldownMs) part = some y) :
    y.getBreaker handler = .after threshold cooldownMs (breakerHistory events handler part) := by
  induction part using List.reverseRecOn generalizing y rest with
  | nil =>
    cases h
    simp [getBreaker, new, breakerHistory, CircuitBreaker.after]
  | append_singleton part e ih =>
    obtain ⟨m, hm, he⟩ := EventSystem.exec_snoc.1 h
    rw [List.append_assoc] at hevents
    have hcalled : m.invocations.map (·.handler) <+: calledHandlers events := by
      rw [exec_invocations hm, hevents, calledHandlers, calledHandlers, List.filterMap_append]
      exact List.prefix_append _ _
    rw [step_getBreaker he hcalled, ih hevents hm, breakerHistory, breakerHistory, List.filterMap_append,
      CircuitBreaker.after, CircuitBreaker.after, List.foldl_append]
    cases hcall : breakerCall (calledHandlers events) handler e <;> simp [hcall]

theorem breakerHistory_append (part part' : List InvokerEvent) : breakerHistory events handler (part ++ part') =
    breakerHistory events handler part ++ breakerHistory events handler part' := List.filterMap_append

/-! ## Periods -/

/-- A period up to any of its events. -/
theorem Period.of_snoc {e : InvokerEvent} (h : Period (.new threshold cooldownMs) past (since ++ [e]) handler x y) :
    ∃ m, Period (.new threshold cooldownMs) past since handler x m ∧ m.step e = some y := by
  obtain ⟨m, hm, hstep⟩ := EventSystem.exec_snoc.1 h.run
  refine ⟨m, ⟨h.opening, hm, ?_⟩, hstep⟩
  rcases step_since (h.waits.exec hm) hstep h.undecided with hsame | ⟨now, -, hsince⟩
  · exact fun c hc => h.undecided c (hsame ▸ hc)
  · exact h.undecided.of_snoc hsince

/-- What the breaker of the handler answers in a period. -/
theorem Period.canExecute_eq_false_iff {rest : List InvokerEvent} (hevents : events = past ++ since ++ rest)
    (h : Period (.new threshold cooldownMs) past since handler x y) :
    ((y.getBreaker handler).canExecute now).2 = false ↔ ∃ failedAt,
      OpenedIn threshold cooldownMs [] (breakerHistory events handler past ++ breakerHistory events handler since)
        failedAt ∧ cooldownMs.le (.finite (now - failedAt)) = false := by
  rw [getBreaker_exec hevents h.exec, canExecute_after_eq_false_iff, breakerHistory_append]

/-- As long as only calls within the cooldown of the opening come, nothing is sent. -/
theorem Period.inFlight_eq_zero {failedAt : Int} {rest : List InvokerEvent}
    (h : Period (.new threshold cooldownMs) past since handler x y) (hevents : events = past ++ since ++ rest)
    (hopened : OpenedIn threshold cooldownMs [] (breakerHistory events handler past) failedAt)
    (hsince : ∀ c ∈ breakerHistory events handler since,
      c.2 = .canExecute ∧ cooldownMs.le (.finite (c.1 - failedAt)) = false) :
    y.inFlight handler x.invocations.length = 0 := by
  induction since using List.reverseRecOn generalizing y rest with
  | nil =>
    cases h.run
    simp [inFlight, since_length]
  | append_singleton since e ih =>
    obtain ⟨m, hm, he⟩ := h.of_snoc
    have hevents' : events = past ++ since ++ e :: rest := by simpa using hevents
    rw [breakerHistory_append] at hsince
    have hbefore := fun c hc => hsince c (List.mem_append_left _ hc)
    have ih := ih hm hevents' hbefore
    rcases step_since (hm.waits.exec hm.run) he h.undecided with hsame | ⟨now, rfl, hsnoc⟩
    · rw [inFlight, hsame]
      exact ih
    · have hnow : cooldownMs.le (.finite (now - failedAt)) = false :=
        (hsince (now, .canExecute) (List.mem_append_right _ (by simp [breakerHistory, breakerCall]))).2
      -- the breaker is still open since the opening
      have hrefused : ((m.getBreaker handler).canExecute now).2 = false := by
        refine (hm.canExecute_eq_false_iff hevents').2 ⟨failedAt, ?_, hnow⟩
        obtain ⟨earlier, later, hpast, hreached, hlater⟩ := hopened
        exact ⟨earlier, later ++ breakerHistory events handler since, by simp [hpast], hreached,
          List.forall_mem_append.2 ⟨hlater, hbefore⟩⟩
      rw [inFlight_snoc hsnoc, ih]
      simp [hrefused]

/-- While a request is on its way, a breaker that holds calls back has been opened by a late failure. -/
theorem Period.openedIn_since {failedAt : Int} {rest : List InvokerEvent}
    (h : Period (.new threshold cooldownMs) past since handler x y) (hevents : events = past ++ since ++ rest)
    (hflight : y.inFlight handler x.invocations.length ≠ 0)
    (hopened : OpenedIn threshold cooldownMs []
      (breakerHistory events handler past ++ breakerHistory events handler since) failedAt) :
    OpenedIn threshold cooldownMs (breakerHistory events handler past) (breakerHistory events handler since)
      failedAt := by
  obtain ⟨earlier, later, hsplit, hreached, hlater⟩ := hopened
  rcases List.append_eq_append_iff.1 hsplit with ⟨middle, rfl, hsince⟩ | ⟨middle, hpast, hrest⟩
  · exact ⟨middle, later, hsince, by simpa using hreached, hlater⟩
  · cases middle with
    | nil =>
      rw [List.append_nil] at hpast
      exact ⟨[], later, by simpa using hrest.symm, by simpa [hpast] using hreached, hlater⟩
    | cons c middle =>
      obtain ⟨rfl, rfl⟩ := List.cons.inj hrest
      obtain ⟨hmiddle, hsince⟩ := List.forall_mem_append.1 hlater
      exact absurd (h.inFlight_eq_zero hevents ⟨earlier, middle, hpast, hreached, hmiddle⟩ hsince) hflight

end

/-- **Half open, one probe**: between an opening and the next outcome a run has at most one request on its way and
turns all other calls away if and only if each call that comes while one is on its way comes within the cooldown of a
late failure that has opened the breaker again. -/
theorem half_open_probes_iff (threshold cooldownMs : Number) (events : List InvokerEvent) (handler : String) :
    AdmitsOneProbe (.new threshold cooldownMs) events handler ↔ ProbesApart threshold cooldownMs events handler := by
  constructor
  · intro hprobe past since now rest x y hevents hperiod hflight
    -- with the call the period goes on, and two requests would be on their way
    have hrefused : ((y.getBreaker handler).canExecute now).2 = false := by
      rw [← Bool.not_eq_true]
      intro hadmitted
      have hsince := @since_invoke y handler _ now (hperiod.waits.exec hperiod.run).le_length handler
      simp only [if_true, hadmitted] at hsince
      have hnext : Period (.new threshold cooldownMs) past (since ++ [.invoke handler now]) handler x
          (y.invoke handler now) := by
        refine ⟨hperiod.opening, EventSystem.exec_snoc.2 ⟨y, hperiod.run, rfl⟩, fun c hc hc' => ?_⟩
        rw [hsince, List.mem_append, List.mem_singleton] at hc
        rcases hc with hc | rfl
        · exact hperiod.undecided c hc hc'
        · rfl
      have hmost := (hprobe past _ rest x _ (by simpa using hevents) hnext).atMostOne
      rw [inFlight_snoc hsince] at hmost
      simp only [Option.isNone_none, if_true] at hmost
      omega
    obtain ⟨failedAt, hopened, hnow⟩ := (hperiod.canExecute_eq_false_iff hevents).1 hrefused
    exact ⟨failedAt, hperiod.openedIn_since hevents hflight hopened, hnow⟩
  · intro hapart past since rest x y hevents hperiod
    induction since using List.reverseRecOn generalizing y rest with
    | nil =>
      cases hperiod.run
      exact ⟨by simp [inFlight, since_length], by simp [since_length]⟩
    | append_singleton since e ih =>
      obtain ⟨m, hm, he⟩ := hperiod.of_snoc
      have hevents' : events = past ++ since ++ e :: rest := by simpa using hevents
      refine (ih (e :: rest) m hevents' hm).step (hm.waits.exec hm.run) he hperiod.undecided ?_
      rintro now rfl hflight
      obtain ⟨failedAt, hopened, hnow⟩ := hapart past since now rest x m hevents' hm hflight
      exact (hm.canExecute_eq_false_iff hevents').2 ⟨failedAt, hopened.append, hnow⟩

/-- A breaker with a threshold of 1 opens, and 30 s later two calls are let through at once. -/
theorem two_probes : ¬ ∀ (defaultBreakerThreshold defaultCooldownMs : Number) (events : List InvokerEvent)
    (handler : String), AdmitsOneProbe (.new defaultBreakerThreshold defaultCooldownMs) events handler := by
  intro h
  let init := HttpHandlerInvoker.new (.finite 1) (.finite 30000)
  obtain ⟨w, x, y, hw, hx, hy, hopens, hundecided, htwo⟩ : ∃ w x y,
      EventSystem.exec step init [.invoke "crm" 0] = some w ∧ w.step (.settle 0 (.threw "timeout") 10) = some x ∧
        EventSystem.exec step x [.invoke "crm" 40000, .invoke "crm" 40001] = some y ∧ Opens "crm" w x ∧
        (∀ c ∈ y.since "crm" x.invocations.length, c.result.isNone) ∧ y.inFlight "crm" x.invocations.length = 2 :=
    ⟨_, _, _, rfl, rfl, rfl, ⟨by decide +kernel, by decide +kernel⟩, by decide +kernel, by decide +kernel⟩
  have hperiod : Period init _ _ "crm" x y :=
    ⟨⟨[.invoke "crm" 0], _, w, rfl, hw, hx, hopens⟩, hy, fun c hc _ => hundecided c hc⟩
  have hmost := (h (.finite 1) (.finite 30000) _ "crm" _ _ [] x y rfl hperiod).atMostOne
  rw [htwo] at hmost
  exact absurd hmost (by decide)

end HttpHandlerInvoker

end Jobflow
