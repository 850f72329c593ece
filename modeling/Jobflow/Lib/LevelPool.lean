import Mathlib.Data.List.Nodup
import Mathlib.Data.List.Perm.Basic
import Mathlib.Data.List.Perm.Subperm
import Jobflow.Lib.EventSystem

/-!
# Worker pools that go through levels

Items are worked on level by level. The first `limit` items of a level are handed out at once;
whenever a call settles, its worker takes the next item of the level, and when all have settled the
next level is begun. Which of the calls in flight settles next is left open.

`handOut_spec` says what has settled when an item is handed out: everything of earlier levels, and
all but fewer than `limit` of the items before it in its own. `exists_complete` and `exists_avoiding`
give runs in which every item is handed out, the second with some item settling after its whole level
has been handed out.
-/

namespace LevelPool

variable {β : Type}

structure Pool (β : Type) where
  /-- the levels that have not been begun -/
  levels : List (List β)
  /-- the items of the level that have not been handed out -/
  queue : List β
  inFlight : List β
  settled : List β
  /-- every item handed out, with what had settled at that moment -/
  log : List (β × List β)

/-- The items handed out so far. -/
def Pool.handed (p : Pool β) : List β := p.log.map Prod.fst

def Pool.handOut (p : Pool β) (b : β) : Pool β :=
  { p with inFlight := p.inFlight ++ [b], log := p.log ++ [(b, p.settled)] }

/-- `k` workers that are free take the next items of the level. -/
def Pool.take : Nat → Pool β → Pool β
  | 0, p => p
  | k + 1, p =>
    match p.queue with
    | [] => p
    | b :: queue => Pool.take k ({ p with queue := queue }.handOut b)

/-- Begin the first of the levels that has an item. -/
def Pool.begin (limit : Nat) : List (List β) → Pool β → Pool β
  | [], p => { p with levels := [] }
  | level :: levels, p =>
    let p' := Pool.take limit { p with levels := levels, queue := level }
    if p'.inFlight.isEmpty then Pool.begin limit levels p' else p'

def Pool.start (limit : Nat) (levels : List (List β)) : Pool β := Pool.begin limit levels ⟨[], [], [], [], []⟩

/-- The `k`-th call in flight settles. -/
def Pool.settle (limit : Nat) (p : Pool β) (k : Nat) : Option (Pool β) :=
  (p.inFlight[k]?).map fun b =>
    let p' := Pool.take 1 { p with inFlight := p.inFlight.eraseIdx k, settled := p.settled ++ [b] }
    if p'.inFlight.isEmpty then Pool.begin limit p'.levels p' else p'

/-! ## What is true of every hand-out -/

/-- `b` was handed out when `settled` had settled: `cur` are the items of its level before it, `waiting` those of
them that were still in flight. -/
def HandOutOk (levels : List (List β)) (limit : Nat) (b : β) (settled : List β) : Prop :=
  ∃ n cur rest waiting, levels[n]? = some (cur ++ b :: rest) ∧
    (settled ++ waiting).Perm ((levels.take n).flatten ++ cur) ∧ (∀ x ∈ waiting, x ∈ cur) ∧ waiting.length < limit

/-- Within level `n`, of which the items of `cur` have been handed out. -/
structure Within (levels : List (List β)) (limit n : Nat) (cur : List β) (p : Pool β) : Prop where
  handed : p.handed = (levels.take n).flatten ++ cur
  level : levels[n]? = some (cur ++ p.queue)
  later : p.levels = levels.drop (n + 1)
  settled : (p.settled ++ p.inFlight).Perm ((levels.take n).flatten ++ cur)
  current : ∀ x ∈ p.inFlight, x ∈ cur
  log : ∀ e ∈ p.log, HandOutOk levels limit e.1 e.2

/-- Between two levels: the first `n` have settled. -/
structure Between (levels : List (List β)) (limit n : Nat) (p : Pool β) : Prop where
  handed : p.handed = (levels.take n).flatten
  settled : p.settled.Perm (levels.take n).flatten
  idle : p.inFlight = []
  log : ∀ e ∈ p.log, HandOutOk levels limit e.1 e.2

/-- What every pool that a run reaches satisfies: it is at work on a level, or all levels have settled. -/
inductive Inv (levels : List (List β)) (limit : Nat) (p : Pool β) : Prop where
  | within {n : Nat} {cur : List β} (h : Within levels limit n cur p) (busy : p.inFlight ≠ [])
      (width : p.inFlight.length ≤ limit) (full : p.queue ≠ [] → p.inFlight.length = limit)
  | finished (h : Between levels limit levels.length p)

section
variable {levels : List (List β)} {limit n : Nat} {cur : List β} {p : Pool β}

theorem Within.handOut {b : β} {queue : List β} (h : Within levels limit n cur p) (hq : p.queue = b :: queue)
    (hlt : p.inFlight.length < limit) :
    Within levels limit n (cur ++ [b]) ({ p with queue := queue }.handOut b) := by
  have hlevel := h.level
  rw [hq] at hlevel
  have hok : HandOutOk levels limit b p.settled :=
    ⟨n, cur, queue, p.inFlight, hlevel, h.settled, h.current, hlt⟩
  exact
    { handed := by
        have := h.handed
        simp only [Pool.handed] at this
        simp [Pool.handed, Pool.handOut, this]
      level := by
        rw [hlevel]
        simp [Pool.handOut]
      later := h.later
      settled := by
        have := h.settled.append_right [b]
        simpa [Pool.handOut, List.append_assoc] using this
      current := fun x hx => by
        rcases List.mem_append.1 hx with hx | hx
        · exact List.mem_append_left _ (h.current x hx)
        · exact List.mem_append_right _ hx
      log := fun e he => by
        rcases List.mem_append.1 he with he | he
        · exact h.log e he
        · rw [List.mem_singleton.1 he]
          exact hok }

theorem Within.take : ∀ (k : Nat) {p : Pool β} {cur : List β}, Within levels limit n cur p →
    p.inFlight.length + k ≤ limit →
    Within levels limit n (cur ++ p.queue.take k) (Pool.take k p) ∧
      (Pool.take k p).inFlight = p.inFlight ++ p.queue.take k ∧ (Pool.take k p).queue = p.queue.drop k := by
  intro k
  induction k with
  | zero =>
    intro p cur h _
    simpa [Pool.take] using h
  | succ k ih =>
    intro p cur h hlimit
    unfold Pool.take
    cases hq : p.queue with
    | nil => simpa [hq] using h
    | cons b queue =>
      have hnext := h.handOut hq (by omega)
      have hflight : ({ p with queue := queue }.handOut b).inFlight = p.inFlight ++ [b] := rfl
      have hqueue : ({ p with queue := queue }.handOut b).queue = queue := rfl
      obtain ⟨hw, hin, hqu⟩ := ih hnext (by simp only [hflight, List.length_append, List.length_singleton]; omega)
      rw [hqueue] at hw hin hqu
      rw [hflight] at hin
      refine ⟨?_, ?_, hqu⟩
      · simpa [List.append_assoc] using hw
      · simpa [List.append_assoc] using hin

theorem Within.between (h : Within levels limit n cur p) (hq : p.queue = []) (hidle : p.inFlight = []) :
    Between levels limit (n + 1) p := by
  have hlevel := h.level
  rw [hq, List.append_nil] at hlevel
  have htake : (levels.take (n + 1)).flatten = (levels.take n).flatten ++ cur := by
    rw [List.take_add_one, hlevel, Option.toList_some, List.flatten_append, List.flatten_singleton]
  refine ⟨?_, ?_, hidle, h.log⟩
  · rw [htake, h.handed]
  · have hs := h.settled
    rw [hidle, List.append_nil] at hs
    rwa [htake]

/-- Beginning the levels from `n` on. -/
theorem Between.begin (hlimit : 0 < limit) : ∀ (later : List (List β)) {n : Nat} {p : Pool β},
    Between levels limit n p → levels.drop n = later → Inv levels limit (Pool.begin limit later p) := by
  intro later
  induction later with
  | nil =>
    intro n p h hdrop
    have hn : levels.length ≤ n := List.drop_eq_nil_iff.1 hdrop
    refine .finished ⟨?_, ?_, h.idle, h.log⟩
    · have := h.handed
      rwa [List.take_of_length_le hn, ← List.take_length (l := levels)] at this
    · have := h.settled
      rwa [List.take_of_length_le hn, ← List.take_length (l := levels)] at this
  | cons level later ih =>
    intro n p h hdrop
    have hlevel : levels[n]? = some level := by
      rw [← List.head?_drop, hdrop, List.head?_cons]
    have hlater : levels.drop (n + 1) = later := by
      rw [← List.tail_drop, hdrop, List.tail_cons]
    have hw : Within levels limit n [] { p with levels := later, queue := level } :=
      { handed := by
          rw [List.append_nil]
          exact h.handed
        level := hlevel
        later := hlater.symm
        settled := by
          simpa [h.idle] using h.settled
        current := by
          simp [h.idle]
        log := h.log }
    obtain ⟨hw', hflight, hqueue⟩ := hw.take limit (by simp [h.idle])
    have hflight : (Pool.take limit { p with levels := later, queue := level }).inFlight = level.take limit := by
      rw [hflight]
      simp [h.idle]
    unfold Pool.begin
    dsimp only
    split
    · rename_i hidle
      rw [List.isEmpty_iff] at hidle
      have hnil : level = [] := by
        rw [hflight] at hidle
        exact (List.take_eq_nil_iff.1 hidle).resolve_left (by omega)
      refine ih (hw'.between ?_ hidle) hlater
      rw [hqueue, hnil, List.drop_nil]
    · rename_i hbusy
      rw [List.isEmpty_iff] at hbusy
      refine .within hw' hbusy ?_ fun hne => ?_
      · rw [hflight]
        exact List.length_take_le _ _
      · rw [hqueue] at hne
        change level.drop limit ≠ [] at hne
        have := List.length_pos_of_ne_nil hne
        rw [List.length_drop] at this
        rw [hflight, List.length_take]
        omega

theorem inv_start (hlimit : 0 < limit) : Inv levels limit (Pool.start limit levels) :=
  Between.begin (n := 0) hlimit levels ⟨by simp [Pool.handed], by simp, rfl, by simp⟩ (by simp)

theorem Inv.settle (hlimit : 0 < limit) (h : Inv levels limit p) {k : Nat} {p' : Pool β}
    (hs : p.settle limit k = some p') : Inv levels limit p' := by
  obtain ⟨b, hb, rfl⟩ := Option.map_eq_some_iff.1 hs
  obtain ⟨hk, rfl⟩ := List.getElem?_eq_some_iff.1 hb
  cases h with
  | finished h =>
    rw [h.idle] at hk
    exact absurd hk (by simp)
  | @within n cur h busy width full =>
    -- the call has settled, and its worker is free
    have hfree : Within levels limit n cur
        { p with inFlight := p.inFlight.eraseIdx k, settled := p.settled ++ [p.inFlight[k]] } :=
      { handed := h.handed
        level := h.level
        later := h.later
        settled := by
          refine List.Perm.trans ?_ h.settled
          rw [List.append_assoc]
          refine List.Perm.append_left _ ?_
          exact (List.getElem_cons_eraseIdx_perm hk)
        current := fun x hx => h.current x (List.mem_of_mem_eraseIdx hx)
        log := h.log }
    have hlength : (p.inFlight.eraseIdx k).length + 1 = p.inFlight.length := by
      rw [List.length_eraseIdx_of_lt hk]
      omega
    obtain ⟨hw, hflight, hqueue⟩ := hfree.take 1 (by dsimp only; omega)
    dsimp only at hw hflight hqueue ⊢
    split
    · rename_i hidle
      rw [List.isEmpty_iff] at hidle
      have hnil : p.queue = [] := by
        rw [hflight, List.append_eq_nil_iff] at hidle
        exact (List.take_eq_nil_iff.1 hidle.2).resolve_left (by omega)
      refine (hw.between ?_ hidle).begin hlimit _ hw.later.symm
      rw [hqueue, hnil, List.drop_nil]
    · rename_i hbusy
      rw [List.isEmpty_iff] at hbusy
      refine .within hw hbusy ?_ fun hne => ?_
      · rw [hflight, List.length_append, List.length_take]
        omega
      · rw [hqueue] at hne
        have hpos := List.length_pos_of_ne_nil hne
        rw [List.length_drop] at hpos
        have := full (List.ne_nil_of_length_pos (by omega))
        rw [hflight, List.length_append, List.length_take]
        omega

theorem inv_of_exec (hlimit : 0 < limit) {ks : List Nat}
    (h : EventSystem.exec (Pool.settle limit) (Pool.start limit levels) ks = some p) : Inv levels limit p := by
  refine EventSystem.exec_invariant (fun q k q' hinv (_ : True) hs => ?_) (inv_start hlimit) (fun _ _ => trivial) h
  exact hinv.settle hlimit hs

/-- Every item is handed out when the earlier levels have settled, and nearly all items before it in its own. -/
theorem handOut_spec (hlimit : 0 < limit) {ks : List Nat}
    (h : EventSystem.exec (Pool.settle limit) (Pool.start limit levels) ks = some p) :
    ∀ e ∈ p.log, HandOutOk levels limit e.1 e.2 := by
  cases inv_of_exec hlimit h with
  | within h _ _ _ => exact h.log
  | finished h => exact h.log

/-! ## What a step adds to the log -/

/-- `p'` has handed out some more items than `p`, and nothing has settled in between. -/
structure Extends (p p' : Pool β) : Prop where
  settled : p'.settled = p.settled
  log : ∃ new, p'.log = p.log ++ new ∧ ∀ e ∈ new, e.2 = p.settled

theorem Extends.refl (p : Pool β) : Extends p p := ⟨rfl, [], by simp, by simp⟩

theorem Extends.trans {p₁ p₂ p₃ : Pool β} (h₁ : Extends p₁ p₂) (h₂ : Extends p₂ p₃) : Extends p₁ p₃ := by
  obtain ⟨new₁, hlog₁, hnew₁⟩ := h₁.log
  obtain ⟨new₂, hlog₂, hnew₂⟩ := h₂.log
  refine ⟨h₂.settled.trans h₁.settled, new₁ ++ new₂, by rw [hlog₂, hlog₁, List.append_assoc], fun e he => ?_⟩
  rcases List.mem_append.1 he with he | he
  · exact hnew₁ e he
  · rw [hnew₂ e he, h₁.settled]

theorem take_extends : ∀ (k : Nat) (p : Pool β), Extends p (Pool.take k p)
  | 0, p => .refl p
  | k + 1, p => by
    unfold Pool.take
    cases p.queue with
    | nil => exact .refl p
    | cons b queue =>
      have hone : Extends p ({ p with queue := queue }.handOut b) :=
        ⟨rfl, [(b, p.settled)], rfl, by simp⟩
      exact hone.trans (take_extends k _)

theorem begin_extends : ∀ (later : List (List β)) (p : Pool β), Extends p (Pool.begin limit later p)
  | [], p => ⟨rfl, [], by simp [Pool.begin], by simp⟩
  | level :: later, p => by
    unfold Pool.begin
    have hone : Extends p (Pool.take limit { p with levels := later, queue := level }) := by
      have := take_extends limit { p with levels := later, queue := level }
      exact ⟨this.settled, this.log⟩
    dsimp only
    split
    · exact hone.trans (begin_extends later _)
    · exact hone

theorem settle_extends {k : Nat} {p' : Pool β} (hs : p.settle limit k = some p') :
    ∃ b, p.inFlight[k]? = some b ∧
      Extends { p with inFlight := p.inFlight.eraseIdx k, settled := p.settled ++ [b] } p' := by
  obtain ⟨b, hb, rfl⟩ := Option.map_eq_some_iff.1 hs
  have htake := take_extends 1 { p with inFlight := p.inFlight.eraseIdx k, settled := p.settled ++ [b] }
  have hbegin : ∀ q q' : Pool β, Extends q q' →
      Extends q (if q'.inFlight.isEmpty then Pool.begin limit q'.levels q' else q') := by
    intro q q' h
    split
    · exact h.trans (begin_extends _ _)
    · exact h
  exact ⟨b, hb, hbegin _ _ htake⟩

/-! ## Complete runs -/

theorem Inv.settled_perm (h : Inv levels limit p) : (p.settled ++ p.inFlight).Perm p.handed := by
  cases h with
  | within h _ _ _ => exact h.handed ▸ h.settled
  | finished h =>
    rw [h.idle, List.append_nil, h.handed]
    exact h.settled

theorem Inv.handed_prefix (h : Inv levels limit p) : p.handed <+: levels.flatten := by
  cases h with
  | @within n cur h _ _ _ =>
    rw [h.handed]
    have hsplit : levels.flatten =
        ((levels.take n).flatten ++ cur) ++ (p.queue ++ (levels.drop (n + 1)).flatten) := by
      obtain ⟨hn, hlevel⟩ := List.getElem?_eq_some_iff.1 h.level
      conv_lhs => rw [← List.take_append_drop n levels, List.drop_eq_getElem_cons hn, hlevel]
      simp [List.append_assoc]
    exact ⟨_, hsplit.symm⟩
  | finished h =>
    have hall : p.handed = levels.flatten := by rw [h.handed, List.take_length]
    exact hall ▸ List.prefix_refl _

theorem Inv.handed_of_idle (h : Inv levels limit p) (hidle : p.inFlight = []) :
    p.handed = levels.flatten := by
  cases h with
  | within _ busy _ _ => exact absurd hidle busy
  | finished h => rw [h.handed, List.take_length]

/-- All of the levels before that of an item in flight has settled. -/
theorem Inv.earlier_settled (h : Inv levels limit p) (hn : levels.flatten.Nodup) {b : β} (hb : b ∈ p.inFlight) :
    ∃ n level, levels[n]? = some level ∧ b ∈ level ∧ ∀ x ∈ (levels.take n).flatten, x ∈ p.settled := by
  have hhanded := h.handed_prefix.sublist.nodup hn
  cases h with
  | finished h =>
    rw [h.idle] at hb
    cases hb
  | @within n cur h _ _ _ =>
    refine ⟨n, cur ++ p.queue, h.level, List.mem_append_left _ (h.current b hb), fun x hx => ?_⟩
    have hmem := h.settled.mem_iff.2 (List.mem_append_left cur hx)
    refine (List.mem_append.1 hmem).resolve_right fun hflight => ?_
    rw [h.handed] at hhanded
    exact (List.nodup_append.1 hhanded).2.2 x hx x (h.current x hflight) rfl

theorem Inv.width (h : Inv levels limit p) : p.inFlight.length ≤ limit := by
  cases h with
  | within _ _ width _ => exact width
  | finished h => simp [h.idle]

/-- Whatever call is picked to settle next, in the end every item has been handed out and has settled. -/
theorem exists_complete (hlimit : 0 < limit) (pick : Pool β → Nat)
    (hpick : ∀ p, p.inFlight ≠ [] → pick p < p.inFlight.length) {J : Pool β → Prop}
    (hstep : ∀ p p', Inv levels limit p → J p → p.settle limit (pick p) = some p' → J p') :
    ∀ {p : Pool β}, Inv levels limit p → J p → ∃ ks p', EventSystem.exec (Pool.settle limit) p ks = some p' ∧
      p'.handed = levels.flatten ∧ p'.inFlight = [] ∧ J p' := by
  have hrun : ∀ (m : Nat) (p : Pool β), levels.flatten.length - p.settled.length ≤ m → Inv levels limit p → J p →
      ∃ ks p', EventSystem.exec (Pool.settle limit) p ks = some p' ∧ p'.handed = levels.flatten ∧
        p'.inFlight = [] ∧ J p' := by
    intro m
    induction m with
    | zero =>
      intro p hm hinv hJ
      have hle := hinv.handed_prefix.length_le
      have hperm := hinv.settled_perm.length_eq
      rw [List.length_append] at hperm
      have hidle : p.inFlight = [] := List.eq_nil_of_length_eq_zero (by omega)
      exact ⟨[], p, rfl, hinv.handed_of_idle hidle, hidle, hJ⟩
    | succ m ih =>
      intro p hm hinv hJ
      by_cases hidle : p.inFlight = []
      · exact ⟨[], p, rfl, hinv.handed_of_idle hidle, hidle, hJ⟩
      · have hk := hpick p hidle
        obtain ⟨p₁, hp₁⟩ : ∃ p₁, p.settle limit (pick p) = some p₁ := by
          unfold Pool.settle
          rw [List.getElem?_eq_getElem hk]
          exact ⟨_, rfl⟩
        obtain ⟨b, _, hextends⟩ := settle_extends hp₁
        have hle := hinv.handed_prefix.length_le
        have hperm := hinv.settled_perm.length_eq
        rw [List.length_append] at hperm
        have hlen : p₁.settled.length = p.settled.length + 1 := by
          rw [hextends.settled]
          simp
        obtain ⟨ks, p', hks, hrest⟩ := ih p₁ (by omega) (hinv.settle hlimit hp₁) (hstep p p₁ hinv hJ hp₁)
        exact ⟨pick p :: ks, p', EventSystem.exec_cons.2 ⟨p₁, hp₁, hks⟩, hrest⟩
  intro p hinv hJ
  exact hrun _ p (Nat.le_refl _) hinv hJ

end

/-! ## A run that keeps one item waiting -/

section
variable {levels : List (List β)} {limit : Nat} {p : Pool β}

/-- An item is in one level only. -/
theorem level_unique (hn : levels.flatten.Nodup) {m n : Nat} {l₁ l₂ : List β} {x : β} (h₁ : levels[m]? = some l₁)
    (h₂ : levels[n]? = some l₂) (hx₁ : x ∈ l₁) (hx₂ : x ∈ l₂) : l₁ = l₂ := by
  obtain ⟨hm, rfl⟩ := List.getElem?_eq_some_iff.1 h₁
  obtain ⟨hn', rfl⟩ := List.getElem?_eq_some_iff.1 h₂
  have hpair := List.pairwise_iff_getElem.1 (List.nodup_flatten.1 hn).2
  rcases Nat.lt_trichotomy m n with hlt | rfl | hlt
  · exact absurd hx₂ (hpair m n hm hn' hlt hx₁)
  · rfl
  · exact absurd hx₁ (hpair n m hn' hm hlt hx₂)

/-- `x` settles after all of its level has been handed out. -/
structure Kept (x : β) (level : List β) (p : Pool β) : Prop where
  settled : x ∈ p.settled → ∀ b ∈ level, b ∈ p.handed
  log : ∀ e ∈ p.log, e.1 ∈ level → x ∉ e.2

theorem Kept.extends {x : β} {level : List β} {p' : Pool β} (h : Kept x level p) (hext : Extends p p')
    (hnodup : p'.handed.Nodup) : Kept x level p' := by
  obtain ⟨new, hlog, hnew⟩ := hext.log
  have hhanded : p'.handed = p.handed ++ new.map Prod.fst := by
    unfold Pool.handed
    rw [hlog, List.map_append]
  refine ⟨fun hx b hb => ?_, fun e he hlevel => ?_⟩
  · rw [hext.settled] at hx
    rw [hhanded]
    exact List.mem_append_left _ (h.settled hx b hb)
  · rw [hlog] at he
    rcases List.mem_append.1 he with he | he
    · exact h.log e he hlevel
    · -- a new item of the level was not handed out before, so `x` has not settled
      rw [hnew e he]
      intro hx
      rw [hhanded] at hnodup
      exact (List.nodup_append.1 hnodup).2.2 _ (h.settled hx _ hlevel) _ (List.mem_map_of_mem he) rfl

open Classical in
/-- The first call in flight that is not `x`. -/
noncomputable def pickOther (x : β) (p : Pool β) : Nat :=
  if ∃ y ∈ p.inFlight, y ≠ x then p.inFlight.findIdx (· ≠ x) else 0

theorem pickOther_lt (x : β) (p : Pool β) (h : p.inFlight ≠ []) : pickOther x p < p.inFlight.length := by
  classical
  unfold pickOther
  split
  · rename_i hy
    obtain ⟨y, hy, hne⟩ := hy
    exact List.findIdx_lt_length_of_exists ⟨y, hy, by simpa using hne⟩
  · exact List.length_pos_of_ne_nil h

theorem pickOther_eq {x : β} {p : Pool β} (h : p.inFlight[pickOther x p]? = some x) : ∀ y ∈ p.inFlight, y = x := by
  classical
  intro y hy
  by_contra hne
  have hex : ∃ y ∈ p.inFlight, y ≠ x := ⟨y, hy, hne⟩
  unfold pickOther at h
  rw [if_pos hex] at h
  obtain ⟨hlt, hget⟩ := List.getElem?_eq_some_iff.1 h
  have hother := List.findIdx_getElem (w := hlt)
  rw [hget] at hother
  simp at hother

/-- With two workers or more some complete run hands out the whole level of `x` before `x` settles. -/
theorem exists_avoiding (hlimit : 2 ≤ limit) (hn : levels.flatten.Nodup) {m : Nat} {level : List β} {x : β}
    (hl : levels[m]? = some level) (hx : x ∈ level) :
    ∃ ks p, EventSystem.exec (Pool.settle limit) (Pool.start limit levels) ks = some p ∧
      p.handed = levels.flatten ∧ ∀ e ∈ p.log, e.1 ∈ level → x ∉ e.2 := by
  have hstart : Inv levels limit (Pool.start limit levels) := inv_start (by omega)
  have hkept : Kept x level (Pool.start limit levels) := by
    have h₀ : Kept x level (⟨[], [], [], [], []⟩ : Pool β) := ⟨by simp, by simp⟩
    exact h₀.extends (begin_extends _ _) (hstart.handed_prefix.sublist.nodup hn)
  have hstep : ∀ p p', Inv levels limit p → Kept x level p → p.settle limit (pickOther x p) = some p' →
      Kept x level p' := by
    intro p p' hinv hJ hs
    obtain ⟨b, hb, hext⟩ := settle_extends hs
    have hinv' := hinv.settle (by omega) hs
    have hhanded : p.handed.Nodup := hinv.handed_prefix.sublist.nodup hn
    have hsettled : x ∈ p.settled ++ [b] → ∀ c ∈ level, c ∈ p.handed := by
      intro hmem c hc
      rcases List.mem_append.1 hmem with hmem | hmem
      · exact hJ.settled hmem c hc
      · -- `x` is the only call in flight, so no item of its level waits for a worker
        obtain rfl := List.mem_singleton.1 hmem
        have honly := pickOther_eq hb
        cases hinv with
        | finished h =>
          rw [h.idle] at hb
          cases hb
        | @within n cur h busy width full =>
          have hone : p.inFlight.length ≤ 1 := by
            have hnodup := h.settled.nodup_iff.2 (h.handed ▸ hhanded)
            have hsub := (List.nodup_append.1 hnodup).2.1.subperm fun y hy => List.mem_singleton.2 (honly y hy)
            exact hsub.length_le
          have hq : p.queue = [] := by
            by_contra hne
            have := full hne
            omega
          have hcur := h.level
          rw [hq, List.append_nil] at hcur
          have hxcur : x ∈ cur := h.current x (List.mem_of_getElem? hb)
          rw [level_unique hn hl hcur hx hxcur] at hc
          rw [h.handed]
          exact List.mem_append_right _ hc
    have hnow : Kept x level
        { p with inFlight := p.inFlight.eraseIdx (pickOther x p), settled := p.settled ++ [b] } := by
      refine ⟨fun hmem c hc => ?_, hJ.log⟩
      change c ∈ p.handed
      exact hsettled hmem c hc
    exact hnow.extends hext (hinv'.handed_prefix.sublist.nodup hn)
  obtain ⟨ks, p, hks, hhanded, _, hJ⟩ :=
    exists_complete (by omega) (pickOther x) (pickOther_lt x) hstep hstart hkept
  exact ⟨ks, p, hks, hhanded, hJ.log⟩

end

end LevelPool
