import Mathlib.Logic.Equiv.Basic
import Jobflow.Lib.Delimiters

/-!
# Webhook signatures (src/webhooks/signer.ts)

The signed text is the timestamp, a dot and the body. Which timestamp and which body it was put together from is told
by the text as long as the timestamps hold equally many dots (`verifySignature_iff`).
-/

namespace Jobflow

/-! ## The source -/

section
variable (hmac : String → String → String)

/-- `createHmac("sha256", secret).update(payload).digest("hex")` is `hmac secret payload` (signer.ts:3-6). -/
def signPayload (secret body timestamp : String) : String :=
  let payload := timestamp ++ "." ++ body
  hmac secret payload

/-- It throws on buffers of different lengths. -/
def timingSafeEqual (a b : ByteArray) : Except String Bool :=
  if a.size = b.size then .ok (a.data == b.data) else .error "Input buffers must have the same byte length"

/-- signer.ts:8-20. -/
def verifySignature (secret body timestamp signature : String) : Bool :=
  let expected := signPayload hmac secret body timestamp
  match timingSafeEqual expected.toByteArray signature.toByteArray with
  | .ok equal => equal
  | .error _ => false

end

/-! ## What a signature tells -/

section
variable {hmac : String → String → String} {secret body body' timestamp timestamp' : String}

theorem timingSafeEqual_ok {a b : ByteArray} : timingSafeEqual a b = .ok true ↔ a = b := by
  unfold timingSafeEqual
  constructor
  · intro h
    split_ifs at h with hsize
    · exact ByteArray.ext (beq_iff_eq.1 (Except.ok.inj h))
  · rintro rfl
    simp

theorem verifySignature_eq (signature : String) :
    verifySignature hmac secret body timestamp signature = true ↔
      signPayload hmac secret body timestamp = signature := by
  rw [← String.toByteArray_inj, ← timingSafeEqual_ok]
  simp only [verifySignature]
  cases timingSafeEqual (signPayload hmac secret body timestamp).toByteArray signature.toByteArray with
  | ok equal => exact ⟨congrArg Except.ok, Except.ok.inj⟩
  | error _ => exact ⟨nofun, nofun⟩

/-- The text that is signed, by its characters. -/
theorem payload_eq_iff : timestamp' ++ "." ++ body' = timestamp ++ "." ++ body ↔
    timestamp'.toList ++ '.' :: body'.toList = timestamp.toList ++ '.' :: body.toList := by
  rw [← String.toList_inj]
  simp [String.toList_append]

/-- One of the texts is the other up to a dot that is read as the separator. -/
def SplitElsewhere (timestamp body timestamp' body' : String) : Prop :=
  ∃ x : String, timestamp' = timestamp ++ "." ++ x ∧ body = x ++ "." ++ body'

theorem splitElsewhere_iff : SplitElsewhere timestamp body timestamp' body' ↔
    ∃ x, timestamp'.toList = timestamp.toList ++ '.' :: x ∧ body.toList = x ++ '.' :: body'.toList := by
  constructor
  · rintro ⟨x, rfl, rfl⟩
    exact ⟨x.toList, by simp [String.toList_append], by simp [String.toList_append]⟩
  · rintro ⟨x, ht, hb⟩
    refine ⟨String.ofList x, String.toList_inj.1 ?_, String.toList_inj.1 ?_⟩
    · simp [String.toList_append, ht]
    · simp [String.toList_append, hb]

/-- **A signature is that of its timestamp and body**, unless a dot inside them is taken for the one that was put
between them. -/
theorem verifySignature_iff (h : Function.Injective (hmac secret)) (body timestamp body' timestamp' : String) :
    (verifySignature hmac secret body' timestamp' (signPayload hmac secret body timestamp) = true ↔
      (body' = body ∧ timestamp' = timestamp) ∨ SplitElsewhere timestamp body timestamp' body' ∨
        SplitElsewhere timestamp' body' timestamp body) ∧
    (timestamp'.toList.count '.' = timestamp.toList.count '.' →
      (verifySignature hmac secret body' timestamp' (signPayload hmac secret body timestamp) = true ↔
        body' = body ∧ timestamp' = timestamp)) := by
  have hpayload : verifySignature hmac secret body' timestamp' (signPayload hmac secret body timestamp) = true ↔
      timestamp'.toList ++ '.' :: body'.toList = timestamp.toList ++ '.' :: body.toList := by
    rw [verifySignature_eq, ← payload_eq_iff]
    exact h.eq_iff
  rw [hpayload]
  constructor
  · rw [Delimiters.split_iff, splitElsewhere_iff, splitElsewhere_iff, String.toList_inj, String.toList_inj]
    exact or_congr and_comm or_comm
  · intro hcount
    constructor
    · intro heq
      obtain ⟨ht, hb⟩ := Delimiters.split_of_count heq hcount
      exact ⟨String.toList_inj.1 hb, String.toList_inj.1 ht⟩
    · rintro ⟨rfl, rfl⟩
      rfl

end

/-! ## Two texts -/

/-- Under the key "secret" the digest of the text `1.2.3` is that of HMAC-SHA256. -/
def hmacSample (_secret message : String) : String :=
  Equiv.swap "1.2.3" "48df62b60b2d7da876180c7b7f48a5d1c3bdf007e7173757b2dfcb174bfea7de" message

theorem hmacSample_injective (secret : String) : Function.Injective (hmacSample secret) := Equiv.injective _

/-- The signature of the body `2.3` at the time `1` is also that of the body `3` at the time `1.2`. -/
theorem verifySignature_ambiguous : Function.Injective (hmacSample "secret") ∧
    verifySignature hmacSample "secret" "3" "1.2" (signPayload hmacSample "secret" "2.3" "1") = true ∧
    ¬("3" = "2.3" ∧ "1.2" = "1") := by
  refine ⟨hmacSample_injective _, ?_, by decide⟩
  rw [verifySignature_eq]
  rfl

theorem verifySignature_iff_sample :
    verifySignature hmacSample "secret" "2.3" "1" (signPayload hmacSample "secret" "2.3" "1") = true :=
  ((verifySignature_iff (hmacSample_injective "secret") "2.3" "1" "2.3" "1").2 rfl).2 ⟨rfl, rfl⟩

end Jobflow
