import Mathlib.Logic.Equiv.Basic
import Jobflow.RunQuery
import Jobflow.Lib.Recency

/-!
# API keys (src/security/api-key.ts, auth.ts)

A key is looked up by its first eight characters, and only the first record found is compared by its hash. So a key is
recognised exactly as long as no other key with the same first characters was inserted before it
(`authenticate_exact_iff`).
-/

namespace Jobflow

/-! ## The source -/

/-- `raw.slice(0, 8)`, in UTF-16 units: the cut can fall inside a character. -/
def keyPrefixOf (raw : String) : List Nat := (Js.codeUnits raw).take 8

structure ApiKeyRecord where
  id : String
  tenantId : String
  keyPrefix : List Nat
  hash : String
  scopes : List String
  createdAt : String
  revokedAt : Option String

/-- `!k.revokedAt`. -/
def ApiKeyRecord.live (k : ApiKeyRecord) : Bool := given k.revokedAt = none

structure ApiKeyStore where
  keys : List ApiKeyRecord

def ApiKeyStore.insert (store : ApiKeyStore) (record : ApiKeyRecord) : ApiKeyStore := ⟨store.keys ++ [record]⟩

/-- auth.ts:13-15. -/
def ApiKeyStore.findByPrefix (store : ApiKeyStore) (keyPrefix : List Nat) : Option ApiKeyRecord :=
  store.keys.find? fun k => k.keyPrefix = keyPrefix ∧ k.live

/-- `new JobflowError(code, message)`. -/
structure CodedError where
  code : String
  message : String
  deriving DecidableEq

/-- What `authenticate` answers. -/
structure Authenticated where
  tenantId : String
  scopes : List String
  deriving DecidableEq

section
variable (hashKey : String → String)

/-- `ApiKeyAuthenticator.authenticate` (auth.ts:21-32). -/
def authenticate (store : ApiKeyStore) (header : Option String) : Except CodedError Authenticated :=
  let bearer := header.filter fun h => "Bearer ".toList.isPrefixOf h.toList
  match bearer with
  | none => .error ⟨"UNAUTHORIZED", "missing bearer token"⟩
  | some header =>
    let raw := String.ofList (Js.Number.trim (header.toList.drop 7))
    match store.findByPrefix (keyPrefixOf raw) with
    | none => .error ⟨"UNAUTHORIZED", "invalid api key"⟩
    | some record =>
      if record.hash ≠ hashKey raw then .error ⟨"UNAUTHORIZED", "invalid api key"⟩
      else .ok ⟨record.tenantId, record.scopes⟩

/-- A record of a key: `generateApiKey` (api-key.ts:14-19) makes both fields of the key. -/
structure IssuedKey where
  raw : String
  record : ApiKeyRecord
  keyPrefix_eq : record.keyPrefix = keyPrefixOf raw
  hash_eq : record.hash = hashKey raw

/-- The store after the records were inserted. -/
def storeOf (issued : List (IssuedKey hashKey)) : ApiKeyStore :=
  issued.foldl (fun store k => store.insert k.record) ⟨[]⟩

end

/-! ## Which keys are recognised -/

section
variable {hashKey : String → String} {issued : List (IssuedKey hashKey)} {raw : String}

theorem keys_storeOf (issued : List (IssuedKey hashKey)) :
    (storeOf hashKey issued).keys = issued.map IssuedKey.record :=
  foldl_appends ApiKeyStore.keys IssuedKey.record _ (fun _ _ => rfl) ⟨[]⟩ issued

/-- A record that `findByPrefix` can answer for a key. -/
def IssuedKey.CandidateFor (raw : String) (k : IssuedKey hashKey) : Prop :=
  k.record.keyPrefix = keyPrefixOf raw ∧ k.record.live = true

instance (raw : String) : DecidablePred (@IssuedKey.CandidateFor hashKey raw) :=
  fun k => inferInstanceAs (Decidable (k.record.keyPrefix = keyPrefixOf raw ∧ k.record.live = true))

/-- A record that was generated from a key and is not revoked. -/
def IssuedKey.ValidFor (raw : String) (k : IssuedKey hashKey) : Prop := k.raw = raw ∧ k.record.live = true

theorem IssuedKey.ValidFor.candidateFor {k : IssuedKey hashKey} (h : k.ValidFor raw) : k.CandidateFor raw :=
  ⟨k.keyPrefix_eq.trans (congrArg keyPrefixOf h.1), h.2⟩

/-- The record that is compared is the first candidate. -/
theorem authenticate_ok_iff (hinj : Function.Injective hashKey) (htrim : Js.Number.trim raw.toList = raw.toList)
    {answer : Authenticated} : authenticate hashKey (storeOf hashKey issued) (some ("Bearer " ++ raw)) = .ok answer ↔
      ∃ k, issued.find? (·.CandidateFor raw) = some k ∧ k.raw = raw ∧
        answer = ⟨k.record.tenantId, k.record.scopes⟩ := by
  have hheader : ("Bearer ".toList.isPrefixOf ("Bearer " ++ raw).toList) = true := by
    rw [String.toList_append, List.isPrefixOf_iff_prefix]
    exact List.prefix_append _ _
  have hraw : String.ofList (Js.Number.trim (("Bearer " ++ raw).toList.drop 7)) = raw := by
    rw [String.toList_append, List.drop_append_of_le_length (by decide)]
    exact (congrArg String.ofList htrim).trans String.ofList_toList
  have hfind : (storeOf hashKey issued).findByPrefix (keyPrefixOf raw) =
      (issued.find? (·.CandidateFor raw)).map IssuedKey.record := by
    rw [ApiKeyStore.findByPrefix, keys_storeOf, List.find?_map]
    rfl
  simp only [authenticate, Option.filter_some, hheader, if_true, hraw, hfind]
  cases issued.find? (·.CandidateFor raw) with
  | none => exact ⟨nofun, nofun⟩
  | some k =>
    simp only [Option.map_some, k.hash_eq, ne_eq, hinj.eq_iff, Option.some.injEq, exists_eq_left']
    by_cases hk : k.raw = raw
    · simp [hk, eq_comm]
    · simp [hk]

/-- Before the first valid record of the key stands no unrevoked record of a key with the same first characters. -/
def NotShadowed (issued : List (IssuedKey hashKey)) (raw : String) : Prop :=
  ∀ before k after, issued = before ++ k :: after → k.ValidFor raw → (∀ other ∈ before, ¬ other.ValidFor raw) →
    ∀ other ∈ before, other.record.live = true → other.record.keyPrefix ≠ keyPrefixOf raw

/-- **A key is recognised exactly when it is valid**, as the record it was generated for, just if no other key hides
it. -/
theorem authenticate_exact_iff (hinj : Function.Injective hashKey) (issued : List (IssuedKey hashKey)) {raw : String}
    (htrim : Js.Number.trim raw.toList = raw.toList) :
    (((∃ answer, authenticate hashKey (storeOf hashKey issued) (some ("Bearer " ++ raw)) = .ok answer) ↔
        ∃ k ∈ issued, k.ValidFor raw) ∧
      (∀ answer, authenticate hashKey (storeOf hashKey issued) (some ("Bearer " ++ raw)) = .ok answer →
        ∃ k ∈ issued, k.ValidFor raw ∧ answer = ⟨k.record.tenantId, k.record.scopes⟩)) ↔
    NotShadowed issued raw := by
  have hsound : ∀ answer, authenticate hashKey (storeOf hashKey issued) (some ("Bearer " ++ raw)) = .ok answer →
      ∃ k ∈ issued, k.ValidFor raw ∧ answer = ⟨k.record.tenantId, k.record.scopes⟩ := by
    intro answer hanswer
    obtain ⟨k, hfind, hk, rfl⟩ := (authenticate_ok_iff hinj htrim).1 hanswer
    have hcandidate : k.CandidateFor raw := by simpa using List.find?_some hfind
    exact ⟨k, List.mem_of_find?_eq_some hfind, ⟨hk, hcandidate.2⟩, rfl⟩
  constructor
  · rintro ⟨hiff, _⟩ before k after rfl hk hfirst other hother hlive hsame
    obtain ⟨answer, hanswer⟩ := hiff.2 ⟨k, List.mem_append_right _ List.mem_cons_self, hk⟩
    obtain ⟨found, hfind, hfound, _⟩ := (authenticate_ok_iff hinj htrim).1 hanswer
    -- the other key is a candidate, so the record that was found stands among the earlier ones
    obtain ⟨first, hfindFirst⟩ : ∃ first, before.find? (·.CandidateFor raw) = some first := by
      rw [← Option.isSome_iff_exists, List.find?_isSome]
      exact ⟨other, hother, decide_eq_true ⟨hsame, hlive⟩⟩
    rw [List.find?_append, hfindFirst, Option.some_or] at hfind
    obtain rfl := Option.some.inj hfind
    have hcandidate : first.CandidateFor raw := by simpa using List.find?_some hfindFirst
    exact hfirst first (List.mem_of_find?_eq_some hfindFirst) ⟨hfound, hcandidate.2⟩
  · intro hclear
    refine ⟨⟨fun ⟨answer, hanswer⟩ => ?_, fun ⟨k, hmem, hk⟩ => ?_⟩, hsound⟩
    · obtain ⟨k, hmem, hk, _⟩ := hsound answer hanswer
      exact ⟨k, hmem, hk⟩
    · have hvalid : (issued.find? fun k => k.raw = raw ∧ k.record.live).isSome := by
        rw [List.find?_isSome]
        exact ⟨k, hmem, decide_eq_true hk⟩
      obtain ⟨first, hfirst⟩ := Option.isSome_iff_exists.1 hvalid
      obtain ⟨hvalidFirst, before, after, rfl, hbefore⟩ := List.find?_eq_some_iff_append.1 hfirst
      have hvalidFirst : first.ValidFor raw := by simpa [IssuedKey.ValidFor] using hvalidFirst
      have hothers : ∀ other ∈ before, ¬ other.ValidFor raw := by
        intro other hother hv
        have hno := hbefore other hother
        simp [hv.1, hv.2] at hno
      have hhidden := hclear before first after rfl hvalidFirst hothers
      refine ⟨_, (authenticate_ok_iff hinj htrim).2 ⟨first, ?_, hvalidFirst.1, rfl⟩⟩
      refine List.find?_eq_some_iff_append.2 ⟨decide_eq_true hvalidFirst.candidateFor, before, after, rfl, ?_⟩
      intro other hother
      simp only [Bool.not_eq_true', decide_eq_false_iff_not]
      exact fun hcandidate => hhidden other hother hcandidate.2 hcandidate.1

end

/-! ## Two keys -/

/-- The digests of two keys are those of SHA-256. -/
def hashSample (raw : String) : String :=
  Equiv.swap "job_key_1" "d944100d3572af9c369888f33ec89de99e4334085426908df74db9f626d74b85"
    (Equiv.swap "job_key_2" "c5633ce0b584cf251fb10b49d4c66c9c259ee124bccf9486e50994683b0820f0" raw)

theorem hashSample_injective : Function.Injective hashSample := fun _ _ h =>
  (Equiv.injective _) ((Equiv.injective _) h)

def issuedSample (id raw tenantId : String) : IssuedKey hashSample where
  raw := raw
  record := ⟨id, tenantId, keyPrefixOf raw, hashSample raw, ["runs:read"], "2026-01-01T00:00:00.000Z", none⟩
  keyPrefix_eq := rfl
  hash_eq := rfl

/-- The second of two keys with the same first eight characters is refused, though it is not revoked. -/
theorem authenticate_shadowed :
    let issued := [issuedSample "k1" "job_key_1" "t1", issuedSample "k2" "job_key_2" "t2"]
    Function.Injective hashSample ∧ Js.Number.trim "job_key_2".toList = "job_key_2".toList ∧
      (∃ k ∈ issued, k.ValidFor "job_key_2") ∧
      authenticate hashSample (storeOf hashSample issued) (some ("Bearer " ++ "job_key_2")) =
        .error ⟨"UNAUTHORIZED", "invalid api key"⟩ := by
  refine ⟨hashSample_injective, by decide, ⟨issuedSample "k2" "job_key_2" "t2", by simp, rfl, by decide⟩, ?_⟩
  decide

/-- The first of them is recognised. -/
theorem authenticate_exact_iff_sample : ∃ answer, authenticate hashSample
    (storeOf hashSample [issuedSample "k1" "job_key_1" "t1", issuedSample "k2" "job_key_2" "t2"])
    (some ("Bearer " ++ "job_key_1")) = .ok answer := by
  refine ((authenticate_exact_iff hashSample_injective _ (by decide)).2 ?_).1.2
    ⟨issuedSample "k1" "job_key_1" "t1", by simp, rfl, by decide⟩
  intro before k after hissued hk hfirst other hother
  cases before with
  | nil => cases hother
  | cons first before =>
    obtain ⟨rfl, _⟩ := List.cons.inj hissued
    exact absurd ⟨rfl, by decide⟩ (hfirst _ List.mem_cons_self)

end Jobflow
