import Mathlib.Algebra.Order.Ring.Int
import Mathlib.Data.List.Induction
import Jobflow.Lib.InsertionMap

/-!
# Rate limiting (src/middleware/rate-limit.ts)

A window of an address starts with a request, lasts a minute and lets `maxPerMinute` requests through. An interval of a
minute meets two windows at most (`rate_limited`).
-/

namespace Jobflow

/-! ## The source -/

structure Bucket where
  count : Nat
  resetAt : Int

structure Request where
  ip : String
  now : Int

/-- The bucket a request is counted in (rate-limit.ts:14-18). -/
def bucketFor (buckets : InsertionMap String Bucket) (req : Request) : Bucket :=
  match buckets.get req.ip with
  | none => ⟨0, req.now + 60000⟩
  | some bucket => if req.now > bucket.resetAt then ⟨0, req.now + 60000⟩ else bucket

/-- The hook of `registerRateLimit` (rate-limit.ts:11-23), and whether it answers 429. -/
def rateLimitHook (maxPerMinute : Nat) (buckets : InsertionMap String Bucket) (req : Request) :
    InsertionMap String Bucket × Bool :=
  let bucket := bucketFor buckets req
  let bucket := { bucket with count := bucket.count + 1 }
  (buckets.set req.ip bucket, decide (bucket.count > maxPerMinute))

/-- The buckets, and the requests let through so far. -/
structure RateLimited where
  buckets : InsertionMap String Bucket
  passed : List Request

def RateLimited.serve (maxPerMinute : Nat) (s : RateLimited) (req : Request) : RateLimited :=
  let (buckets, refused) := rateLimitHook maxPerMinute s.buckets req
  ⟨buckets, if refused then s.passed else s.passed ++ [req]⟩

/-- After a sequence of requests. -/
def RateLimited.after (maxPerMinute : Nat) (requests : List Request) : RateLimited :=
  requests.foldl (.serve maxPerMinute) ⟨.empty, []⟩

/-- Whether a request is answered 429 after others. -/
def refused (maxPerMinute : Nat) (before : List Request) (req : Request) : Bool :=
  (rateLimitHook maxPerMinute (RateLimited.after maxPerMinute before).buckets req).2

/-! ## Counting -/

/-- How many of the requests come from an address, from `lo` on and before `hi`. -/
def requestsIn (ip : String) (lo hi : Int) (requests : List Request) : Nat :=
  requests.countP fun r => r.ip = ip ∧ lo ≤ r.now ∧ r.now < hi

section
variable {ip : String} {lo mid hi lo' hi' : Int} {requests : List Request}

theorem requestsIn_le (h : ∀ r ∈ requests, r.ip = ip → lo ≤ r.now ∧ r.now < hi → lo' ≤ r.now ∧ r.now < hi') :
    requestsIn ip lo hi requests ≤ requestsIn ip lo' hi' requests := by
  refine List.countP_mono_left fun r hr hin => ?_
  simp only [decide_eq_true_eq] at hin ⊢
  exact ⟨hin.1, h r hr hin.1 hin.2⟩

theorem requestsIn_split (lo mid hi : Int) (requests : List Request) :
    requestsIn ip lo hi requests ≤ requestsIn ip lo mid requests + requestsIn ip mid hi requests := by
  induction requests with
  | nil => exact le_rfl
  | cons r requests ih =>
    simp only [requestsIn, List.countP_cons, decide_eq_true_eq] at ih ⊢
    by_cases hip : r.ip = ip
    · simp only [hip, true_and]
      split_ifs <;> omega
    · simp only [hip, false_and, if_false]
      omega

theorem requestsIn_eq_zero (h : ∀ r ∈ requests, r.ip = ip → ¬ (lo ≤ r.now ∧ r.now < hi)) :
    requestsIn ip lo hi requests = 0 := by
  refine List.countP_eq_zero.2 fun r hr hin => ?_
  simp only [decide_eq_true_eq] at hin
  exact h r hr hin.1 hin.2

theorem requestsIn_snoc_of_not {r : Request} (h : ¬ (r.ip = ip ∧ lo ≤ r.now ∧ r.now < hi)) :
    requestsIn ip lo hi (requests ++ [r]) = requestsIn ip lo hi requests := by
  simp [requestsIn, h]

theorem requestsIn_snoc {r : Request} (h : r.ip = ip ∧ lo ≤ r.now ∧ r.now < hi) :
    requestsIn ip lo hi (requests ++ [r]) = requestsIn ip lo hi requests + 1 := by
  simp [requestsIn, h]

end

/-! ## Windows -/

/-- What the bucket of an address says of the requests let through. -/
structure BucketOk (m : Nat) (passed : List Request) (ip : String) (b : Bucket) : Prop where
  ended : ∀ r ∈ passed, r.ip = ip → r.now ≤ b.resetAt
  /-- The window counts what it lets through. -/
  current : requestsIn ip (b.resetAt - 60000) (b.resetAt + 1) passed = min b.count m
  /-- In the minute before it there was one other window at most. -/
  previous : requestsIn ip (b.resetAt - 120000) (b.resetAt - 60000) passed ≤ m

structure WindowInv (m : Nat) (s : RateLimited) (ip : String) (now : Int) : Prop where
  past : ∀ r ∈ s.passed, r.now ≤ now
  unseen : s.buckets.get ip = none → ∀ r ∈ s.passed, r.ip ≠ ip
  bucket : ∀ b, s.buckets.get ip = some b → BucketOk m s.passed ip b ∧ b.resetAt - 60000 ≤ now
  bounded : ∀ a, requestsIn ip a (a + 60000) s.passed ≤ 2 * m

section
variable {m : Nat} {s : RateLimited} {ip : String} {now : Int} {req : Request} {b : Bucket}

theorem WindowInv.mono {now' : Int} (h : WindowInv m s ip now) (hle : now ≤ now') : WindowInv m s ip now' where
  past r hr := (h.past r hr).trans hle
  unseen := h.unseen
  bucket b hb := ⟨(h.bucket b hb).1, (h.bucket b hb).2.trans hle⟩
  bounded := h.bounded

/-- The window a request is counted in is open. -/
theorem WindowInv.bucketFor (h : WindowInv m s req.ip req.now) :
    BucketOk m s.passed req.ip (bucketFor s.buckets req) ∧
      (bucketFor s.buckets req).resetAt - 60000 ≤ req.now ∧ req.now ≤ (bucketFor s.buckets req).resetAt := by
  unfold Jobflow.bucketFor
  cases hget : s.buckets.get req.ip with
  | none =>
    have hnone : ∀ lo hi, requestsIn req.ip lo hi s.passed = 0 := fun lo hi =>
      requestsIn_eq_zero fun r hr hip => absurd hip (h.unseen hget r hr)
    refine ⟨⟨fun r hr _ => ?_, ?_, ?_⟩, ?_, ?_⟩
    · have hpast := h.past r hr
      dsimp only
      omega
    · rw [hnone]
      exact (Nat.zero_min m).symm
    · rw [hnone]
      exact Nat.zero_le m
    · dsimp only
      omega
    · dsimp only
      omega
  | some b =>
    obtain ⟨hok, hstarted⟩ := h.bucket b hget
    dsimp only
    by_cases hover : req.now > b.resetAt
    · rw [if_pos hover]
      refine ⟨⟨fun r hr _ => ?_, ?_, ?_⟩, ?_, ?_⟩
      · have hpast := h.past r hr
        dsimp only
        omega
      · rw [requestsIn_eq_zero fun r hr hip hin => ?_]
        · exact (Nat.zero_min m).symm
        · have hended := hok.ended r hr hip
          dsimp only at hin
          omega
      · -- what is left of the old window
        have hold : requestsIn req.ip (b.resetAt - 60000) (b.resetAt + 1) s.passed ≤ m :=
          hok.current ▸ Nat.min_le_right _ _
        refine (requestsIn_le fun r hr hip hin => ?_).trans hold
        have hended := hok.ended r hr hip
        dsimp only at hin
        omega
      · dsimp only
        omega
      · dsimp only
        omega
    · rw [if_neg hover]
      exact ⟨hok, hstarted, not_lt.1 hover⟩

/-- An interval of a minute ends in the open window: the requests in it are from that window and the one before. -/
theorem BucketOk.bound (hok : BucketOk m s.passed ip b) {a t : Int} (hstarted : b.resetAt - 60000 ≤ t)
    (ha : a ≤ t) (ht : t < a + 60000) : requestsIn ip a (a + 60000) s.passed ≤ m + min b.count m := by
  have hsplit := @requestsIn_split ip a (b.resetAt - 60000) (a + 60000) s.passed
  have hprevious : requestsIn ip a (b.resetAt - 60000) s.passed ≤ m := by
    refine (requestsIn_le fun r _ _ hin => ?_).trans hok.previous
    omega
  have hcurrent : requestsIn ip (b.resetAt - 60000) (a + 60000) s.passed ≤ min b.count m := by
    rw [← hok.current]
    refine requestsIn_le fun r hr hip hin => ?_
    have hended := hok.ended r hr hip
    omega
  omega

/-- The address of the request. -/
theorem WindowInv.serve_same (h : WindowInv m s req.ip req.now) : WindowInv m (s.serve m req) req.ip req.now := by
  obtain ⟨hok, hstarted, hopen⟩ := h.bucketFor
  have hget : ∀ b', (s.buckets.set req.ip b').get req.ip = some b' := fun b' => InsertionMap.get_set_self _ _ _
  unfold RateLimited.serve rateLimitHook
  dsimp only
  generalize Jobflow.bucketFor s.buckets req = b at hok hstarted hopen ⊢
  by_cases hfull : b.count + 1 > m
  · rw [decide_eq_true hfull, if_pos rfl]
    refine ⟨h.past, fun hnone => ?_, fun b' hb' => ?_, h.bounded⟩
    · rw [hget] at hnone
      cases hnone
    · rw [hget] at hb'
      obtain rfl := Option.some.inj hb'
      refine ⟨⟨hok.ended, ?_, hok.previous⟩, hstarted⟩
      rw [hok.current]
      dsimp only
      omega
  · rw [decide_eq_false hfull, if_neg Bool.false_ne_true]
    have hnew : ∀ {P : Request → Prop}, (∀ r ∈ s.passed, P r) → P req → ∀ r ∈ s.passed ++ [req], P r := by
      intro P hold hreq r hr
      rcases List.mem_append.1 hr with hr | hr
      · exact hold r hr
      · exact List.mem_singleton.1 hr ▸ hreq
    refine ⟨hnew h.past le_rfl, fun hnone => ?_, fun b' hb' => ?_, fun a => ?_⟩
    · rw [hget] at hnone
      cases hnone
    · rw [hget] at hb'
      obtain rfl := Option.some.inj hb'
      refine ⟨⟨hnew hok.ended fun _ => hopen, ?_, ?_⟩, hstarted⟩
      · rw [requestsIn_snoc ⟨rfl, hstarted, Int.lt_add_one_of_le hopen⟩, hok.current]
        dsimp only
        omega
      · rw [requestsIn_snoc_of_not fun hin => absurd hin.2.2 (not_lt.2 hstarted)]
        exact hok.previous
    · dsimp only
      by_cases hin : a ≤ req.now ∧ req.now < a + 60000
      · have hbound := hok.bound hstarted hin.1 hin.2
        rw [requestsIn_snoc ⟨rfl, hin⟩]
        omega
      · rw [requestsIn_snoc_of_not fun h => hin h.2]
        exact h.bounded a

/-- And every other. -/
theorem WindowInv.serve_other (h : WindowInv m s ip req.now) (hip : req.ip ≠ ip) :
    WindowInv m (s.serve m req) ip req.now := by
  have hget : (s.serve m req).buckets.get ip = s.buckets.get ip := InsertionMap.get_set_ne _ _ hip
  have hpassed : (s.serve m req).passed = s.passed ∨ (s.serve m req).passed = s.passed ++ [req] := by
    unfold RateLimited.serve
    dsimp only
    split_ifs
    · exact .inl rfl
    · exact .inr rfl
  have hcount : ∀ lo hi, requestsIn ip lo hi (s.serve m req).passed = requestsIn ip lo hi s.passed := by
    intro lo hi
    rcases hpassed with hp | hp
    · rw [hp]
    · rw [hp, requestsIn_snoc_of_not fun hin => hip hin.1]
  have hmem : ∀ r ∈ (s.serve m req).passed, r ∈ s.passed ∨ r = req := by
    intro r hr
    rcases hpassed with hp | hp
    · exact .inl (hp ▸ hr)
    · rw [hp, List.mem_append, List.mem_singleton] at hr
      exact hr
  refine ⟨fun r hr => ?_, fun hnone r hr => ?_, fun b hb => ?_, fun a => ?_⟩
  · rcases hmem r hr with hr | rfl
    · exact h.past r hr
    · exact le_rfl
  · rcases hmem r hr with hr | rfl
    · exact h.unseen (hget ▸ hnone) r hr
    · exact hip
  · obtain ⟨hok, hstarted⟩ := h.bucket b (hget ▸ hb)
    refine ⟨⟨fun r hr hr' => ?_, ?_, ?_⟩, hstarted⟩
    · rcases hmem r hr with hr | rfl
      · exact hok.ended r hr hr'
      · exact absurd hr' hip
    · rw [hcount]
      exact hok.current
    · rw [hcount]
      exact hok.previous
  · rw [hcount]
    exact h.bounded a

theorem after_snoc (m : Nat) (requests : List Request) (req : Request) :
    RateLimited.after m (requests ++ [req]) = (RateLimited.after m requests).serve m req := by
  rw [RateLimited.after, List.foldl_append]
  rfl

theorem windowInv_after (m : Nat) (ip : String) {requests : List Request}
    (hclock : requests.Pairwise fun r r' => r.now ≤ r'.now) (now : Int) (hnow : ∀ r ∈ requests, r.now ≤ now) :
    WindowInv m (.after m requests) ip now := by
  induction requests using List.reverseRecOn generalizing ip now with
  | nil =>
    refine ⟨fun r hr => ?_, fun _ r hr => ?_, fun b hb => ?_, fun a => Nat.zero_le _⟩
    · cases hr
    · cases hr
    · cases hb
  | append_singleton requests req ih =>
    rw [List.pairwise_append] at hclock
    have h : ∀ ip, WindowInv m (.after m requests) ip req.now := fun ip =>
      ih ip hclock.1 req.now fun r hr => hclock.2.2 r hr req List.mem_cons_self
    rw [after_snoc]
    have hserve : WindowInv m ((RateLimited.after m requests).serve m req) ip req.now := by
      by_cases hip : req.ip = ip
      · subst hip
        exact (h req.ip).serve_same
      · exact (h ip).serve_other hip
    exact hserve.mono (hnow req (by simp))

end

/-- **No more than twice the limit in any minute, and no refusal without as many requests as the limit.** -/
theorem rate_limited (m : Nat) {requests : List Request} (hclock : requests.Pairwise fun r r' => r.now ≤ r'.now) :
    (∀ ip a, requestsIn ip a (a + 60000) (RateLimited.after m requests).passed ≤ 2 * m) ∧
      ∀ before req after, requests = before ++ req :: after → refused m before req = true →
        m ≤ (RateLimited.after m before).passed.countP fun r =>
          r.ip = req.ip ∧ req.now - 60000 ≤ r.now ∧ r.now ≤ req.now := by
  constructor
  · intro ip a
    obtain ⟨now, hnow⟩ : ∃ now, ∀ r ∈ requests, r.now ≤ now := by
      cases requests using List.reverseRecOn with
      | nil => exact ⟨0, fun r hr => by cases hr⟩
      | append_singleton requests req =>
        refine ⟨req.now, fun r hr => ?_⟩
        rcases List.mem_append.1 hr with hr | hr
        · exact (List.pairwise_append.1 hclock).2.2 r hr req List.mem_cons_self
        · rw [List.mem_singleton.1 hr]
    exact (windowInv_after m ip hclock now hnow).bounded a
  · rintro before req after rfl hrefused
    rw [List.pairwise_append] at hclock
    have h := windowInv_after m req.ip hclock.1 req.now fun r hr => hclock.2.2 r hr req List.mem_cons_self
    obtain ⟨hok, _, hopen⟩ := h.bucketFor
    have hfull := of_decide_eq_true hrefused
    have hcurrent := hok.current
    dsimp only at hfull
    rw [Nat.min_eq_right (Nat.le_of_lt_succ hfull)] at hcurrent
    refine hcurrent.ge.trans (List.countP_mono_left fun r hr hin => ?_)
    simp only [decide_eq_true_eq] at hin ⊢
    have hpast := h.past r hr
    exact ⟨hin.1, by omega, hpast⟩

theorem rate_limited_sample :
    (∀ ip a, requestsIn ip a (a + 60000) (RateLimited.after 1 [⟨"10.0.0.1", 0⟩, ⟨"10.0.0.1", 60000⟩]).passed ≤ 2) ∧
      1 ≤ (RateLimited.after 1 [⟨"10.0.0.1", 0⟩]).passed.countP fun r =>
        r.ip = "10.0.0.1" ∧ 60000 - 60000 ≤ r.now ∧ r.now ≤ 60000 := by
  obtain ⟨hbound, hrefused⟩ := @rate_limited 1 [⟨"10.0.0.1", 0⟩, ⟨"10.0.0.1", 60000⟩] (by simp)
  exact ⟨hbound, hrefused [⟨"10.0.0.1", 0⟩] ⟨"10.0.0.1", 60000⟩ [] rfl (by decide)⟩

end Jobflow
