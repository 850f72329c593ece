import Jobflow.JobDocuments

/-!
# Importing a directory of jobs (src/import/job-bundle-importer.ts)

`importDirectory` registers the job of each file in turn; a file that cannot be read, parsed or registered is listed and
left. Among any other files, printed jobs are so restored (`import_restores`).
-/

namespace Jobflow

open JobDocument

/-! ## The source -/

/-- A file of the directory: what is read of it, unless reading fails, the time it is registered at, and what other
calls save before that. -/
structure DirectoryEntry where
  file : String
  contents : Option (List Char)
  now : ISODateString
  meanwhile : List JobDocument

structure ImportResult where
  imported : List JobId
  failed : List (String × ImportError)

/-- `InMemoryJobStore.byId`. -/
abbrev JobStore := InsertionMap JobId JobDocument

def JobStore.save (store : JobStore) (d : JobDocument) : JobStore := store.set d.id d

/-- `file.endsWith(".json")`. -/
def DirectoryEntry.isJson (entry : DirectoryEntry) : Bool := ".json".toList.isSuffixOf entry.file.toList

/-- What is done in the `try` (job-bundle-importer.ts:28-30). -/
def DirectoryEntry.register (z : Zod) (handlers : List HandlerManifestEntry) (entry : DirectoryEntry) :
    Except ImportError JobDocument :=
  match entry.contents with
  | none => .error .unreadable
  | some text => registerText z handlers text entry.now

namespace JobBundleImporter

/-- The body of the loop (job-bundle-importer.ts:24-36). -/
def importFile (z : Zod) (handlers : List HandlerManifestEntry) (s : ImportResult × JobStore)
    (entry : DirectoryEntry) : ImportResult × JobStore :=
  if !entry.isJson then s
  else
    let store := entry.meanwhile.foldl JobStore.save s.2
    match entry.register z handlers with
    | .ok d => ({ s.1 with imported := s.1.imported ++ [d.id] }, store.save d)
    | .error e => ({ s.1 with failed := s.1.failed ++ [(entry.file, e)] }, store)

/-- `importDirectory` (job-bundle-importer.ts:19-39). -/
def importDirectory (z : Zod) (handlers : List HandlerManifestEntry) (entries : List DirectoryEntry)
    (store : JobStore) : ImportResult × JobStore :=
  entries.foldl (importFile z handlers) (⟨[], []⟩, store)

/-! ## What an import does -/

section
variable {z : Zod} {handlers : List HandlerManifestEntry} {entry : DirectoryEntry} {d : JobDocument}

def importedBy (z : Zod) (handlers : List HandlerManifestEntry) (entry : DirectoryEntry) : Option JobDocument :=
  if entry.isJson then (entry.register z handlers).toOption else none

def failedBy (z : Zod) (handlers : List HandlerManifestEntry) (entry : DirectoryEntry) :
    Option (String × ImportError) :=
  match entry.isJson, entry.register z handlers with
  | true, .error e => some (entry.file, e)
  | _, _ => none

/-- What is saved while a file is looked at, in order. -/
def savedBy (z : Zod) (handlers : List HandlerManifestEntry) (entry : DirectoryEntry) : List JobDocument :=
  if entry.isJson then entry.meanwhile ++ (importedBy z handlers entry).toList else []

theorem importFile_eq (s : ImportResult × JobStore) (entry : DirectoryEntry) :
    importFile z handlers s entry =
      (⟨s.1.imported ++ ((importedBy z handlers entry).map (·.id)).toList,
          s.1.failed ++ (failedBy z handlers entry).toList⟩,
        (savedBy z handlers entry).foldl JobStore.save s.2) := by
  cases hjson : entry.isJson with
  | false => simp [importFile, importedBy, failedBy, savedBy, hjson]
  | true =>
    cases hregister : entry.register z handlers with
    | error e => simp [importFile, importedBy, failedBy, savedBy, hjson, hregister, Except.toOption]
    | ok d => simp [importFile, importedBy, failedBy, savedBy, hjson, hregister, Except.toOption]

/-- Each file adds to the result and to the store what it does by itself. -/
theorem importDirectory_eq (entries : List DirectoryEntry) (store : JobStore) :
    importDirectory z handlers entries store =
      (⟨entries.flatMap fun e => ((importedBy z handlers e).map (·.id)).toList,
        entries.flatMap fun e => (failedBy z handlers e).toList⟩,
        (entries.flatMap (savedBy z handlers)).foldl JobStore.save store) := by
  have hfold : ∀ s : ImportResult × JobStore, entries.foldl (importFile z handlers) s =
      (⟨s.1.imported ++ entries.flatMap fun e => ((importedBy z handlers e).map (·.id)).toList,
        s.1.failed ++ entries.flatMap fun e => (failedBy z handlers e).toList⟩,
        (entries.flatMap (savedBy z handlers)).foldl JobStore.save s.2) := by
    induction entries with
    | nil => simp
    | cons entry entries ih =>
      intro s
      rw [List.foldl_cons, importFile_eq, ih]
      simp only [List.flatMap_cons, List.foldl_append, List.append_assoc]
  exact hfold _

theorem get_foldl_save (ds : List JobDocument) (store : JobStore) (id : JobId) :
    (ds.foldl JobStore.save store).get id = (ds.reverse.find? fun d => d.id = id).or (store.get id) := by
  have hpairs : ds.foldl JobStore.save store =
      (ds.map fun d => (d.id, d)).foldl (fun m e => m.set e.1 e.2) store := by
    rw [List.foldl_map]
    rfl
  rw [hpairs, InsertionMap.get_foldl_set, ← List.map_reverse, InsertionMap.lookupIn, List.find?_map, Option.map_map]
  congr 1
  exact congrFun Option.map_id _

end

/-! ## Restoring -/

/-- Files that hold these jobs. Whatever else is imported or saved meanwhile has other ids. -/
structure Backup (z : Zod) (handlers : List HandlerManifestEntry) (jobs : List JobDocument)
    (entries : List DirectoryEntry) : Prop where
  registered : ∀ d ∈ jobs, ∃ text now, registerText z handlers text now = .ok d
  plain : ∀ d ∈ jobs, ∀ p ∈ d.metadata.entries, p.1 ≠ "__proto__"
  distinct : (jobs.map (·.id)).Nodup
  complete : ∀ d ∈ jobs, ∃ entry ∈ entries, entry.isJson = true ∧ entry.contents = some d.print
  others : ∀ entry ∈ entries, (∃ d ∈ jobs, entry.contents = some d.print) ∨
    ∀ d', entry.register z handlers = .ok d' → d'.id ∉ jobs.map (·.id)
  meanwhile : ∀ entry ∈ entries, ∀ d' ∈ entry.meanwhile, d'.id ∉ jobs.map (·.id)

section
variable {z : Zod} {handlers : List HandlerManifestEntry} {jobs : List JobDocument} {entries : List DirectoryEntry}
  {d : JobDocument}

/-- What a file of a backup makes of a job. -/
theorem Backup.register (hz : z.Laws) (hcaps : ∀ h ∈ handlers, h.cap.isInteger = true)
    (h : Backup z handlers jobs entries) (hd : d ∈ jobs) {entry : DirectoryEntry}
    (hcontents : entry.contents = some d.print) :
    entry.register z handlers =
      if d.retryPolicy.backoffMultiplier = .infinity false then .error (.rejected .zodError)
      else .ok (d.again entry.now) := by
  obtain ⟨text, now, hregister⟩ := h.registered d hd
  rw [DirectoryEntry.register, hcontents]
  exact job_document_round_trip hz hcaps hregister (h.plain d hd) entry.now

/-- What is saved under the id of a job is the job. -/
theorem Backup.saved (hz : z.Laws) (hcaps : ∀ h ∈ handlers, h.cap.isInteger = true)
    (h : Backup z handlers jobs entries) (hd : d ∈ jobs) {d' : JobDocument}
    (hsaved : d' ∈ entries.flatMap (savedBy z handlers)) (hid : d'.id = d.id) :
    d.retryPolicy.backoffMultiplier ≠ .infinity false ∧ ∃ entry ∈ entries, entry.contents = some d.print ∧
      d' = d.again entry.now := by
  obtain ⟨entry, hentry, hsaved⟩ := List.mem_flatMap.1 hsaved
  have hmem : d'.id ∈ jobs.map (·.id) := hid ▸ List.mem_map_of_mem hd
  unfold savedBy importedBy at hsaved
  split_ifs at hsaved with hjson
  · rcases List.mem_append.1 hsaved with hother | himported
    · exact absurd hmem (h.meanwhile entry hentry d' hother)
    · have hregister := ok_of_toOption (Option.mem_toList.1 himported)
      rcases h.others entry hentry with ⟨d₁, hd₁, hcontents⟩ | hother
      · have hregister' := h.register hz hcaps hd₁ hcontents
        rw [hregister] at hregister'
        split_ifs at hregister' with hinfinite
        have hd' := Except.ok.inj hregister'
        obtain rfl : d₁ = d := by
          refine List.inj_on_of_nodup_map h.distinct hd₁ hd ?_
          rw [← hid, hd', d₁.again_id]
        exact ⟨hinfinite, entry, hentry, hcontents, hd'⟩
      · exact absurd hmem (hother d' hregister)
  · cases hsaved

/-- What a file imports is saved. -/
theorem mem_saved {d' : JobDocument} {entry : DirectoryEntry} (hentry : entry ∈ entries)
    (himported : importedBy z handlers entry = some d') : d' ∈ entries.flatMap (savedBy z handlers) := by
  refine List.mem_flatMap.2 ⟨entry, hentry, ?_⟩
  have hjson : entry.isJson = true := by
    by_contra hjson
    simp [importedBy, hjson] at himported
  rw [savedBy, if_pos hjson, himported]
  simp

/-- Nothing is saved under the id of a job with an infinite multiplier. -/
theorem Backup.lost (hz : z.Laws) (hcaps : ∀ h ∈ handlers, h.cap.isInteger = true)
    (h : Backup z handlers jobs entries) (hd : d ∈ jobs)
    (hinfinite : d.retryPolicy.backoffMultiplier = .infinity false) {d' : JobDocument}
    (hsaved : d' ∈ entries.flatMap (savedBy z handlers)) : d'.id ≠ d.id :=
  fun hid => (h.saved hz hcaps hd hsaved hid).1 hinfinite

/-- Any other job is imported from its file. -/
theorem Backup.imported (hz : z.Laws) (hcaps : ∀ h ∈ handlers, h.cap.isInteger = true)
    (h : Backup z handlers jobs entries) (hd : d ∈ jobs)
    (hfinite : d.retryPolicy.backoffMultiplier ≠ .infinity false) :
    ∃ entry ∈ entries, importedBy z handlers entry = some (d.again entry.now) := by
  obtain ⟨entry, hentry, hjson, hcontents⟩ := h.complete d hd
  have hregister := h.register hz hcaps hd hcontents
  rw [if_neg hfinite] at hregister
  refine ⟨entry, hentry, ?_⟩
  rw [importedBy, if_pos hjson, hregister]
  rfl

/-- **A backup is restored**: whatever other files are about and whatever is saved meanwhile, each job is stored again
but for its times. One with an infinite multiplier is not, and each of its files is listed. -/
theorem import_restores (hz : z.Laws) (hcaps : ∀ h ∈ handlers, h.cap.isInteger = true)
    (h : Backup z handlers jobs entries) (store : JobStore) {result : ImportResult} {store' : JobStore}
    (hrun : importDirectory z handlers entries store = (result, store')) (hd : d ∈ jobs) :
    if d.retryPolicy.backoffMultiplier = .infinity false then
      d.id ∉ result.imported ∧ store'.get d.id = store.get d.id ∧
        ∀ entry ∈ entries, entry.isJson = true → entry.contents = some d.print →
          (entry.file, .rejected .zodError) ∈ result.failed
    else
      d.id ∈ result.imported ∧ ∃ entry ∈ entries, entry.contents = some d.print ∧
        store'.get d.id = some (d.again entry.now) := by
  rw [importDirectory_eq, Prod.mk.injEq] at hrun
  obtain ⟨rfl, rfl⟩ := hrun
  have hget := get_foldl_save (entries.flatMap (savedBy z handlers)) store d.id
  split_ifs with hinfinite
  · refine ⟨fun hmem => ?_, ?_, fun entry hentry hjson hcontents => ?_⟩
    · obtain ⟨entry, hentry, hid⟩ := List.mem_flatMap.1 hmem
      obtain ⟨d', hd', hid⟩ := Option.map_eq_some_iff.1 (Option.mem_toList.1 hid)
      exact h.lost hz hcaps hd hinfinite (mem_saved hentry hd') hid
    · have hfind : (entries.flatMap (savedBy z handlers)).reverse.find? (fun d' => d'.id = d.id) = none := by
        rw [List.find?_eq_none]
        intro d' hd'
        simpa using h.lost hz hcaps hd hinfinite (List.mem_reverse.1 hd')
      rw [hget, hfind, Option.none_or]
    · refine List.mem_flatMap.2 ⟨entry, hentry, ?_⟩
      have hregister := h.register hz hcaps hd hcontents
      rw [if_pos hinfinite] at hregister
      simp [failedBy, hjson, hregister]
  · obtain ⟨entry, hentry, himported⟩ := h.imported hz hcaps hd hinfinite
    refine ⟨List.mem_flatMap.2 ⟨entry, hentry, by simp [himported]⟩, ?_⟩
    -- the last one saved under the id is found, and it is the job
    cases hfind : (entries.flatMap (savedBy z handlers)).reverse.find? (fun d' => d'.id = d.id) with
    | none =>
      rw [List.find?_eq_none] at hfind
      have := hfind _ (List.mem_reverse.2 (mem_saved hentry himported))
      simp at this
    | some d' =>
      have hmem := List.mem_reverse.1 (List.mem_of_find?_eq_some hfind)
      have hid : d'.id = d.id := by simpa using List.find?_some hfind
      obtain ⟨-, entry', hentry', hcontents', rfl⟩ := h.saved hz hcaps hd hmem hid
      exact ⟨entry', hentry', hcontents', by rw [hget, hfind, Option.some_or]⟩

end

/-- A printed job between a text cut short and a file of another kind. -/
def sampleDirectory (d : JobDocument) : List DirectoryEntry :=
  [⟨"cut.json", some ['\x7b', '"', 'i', 'd', '"'], "u", []⟩, ⟨"j.json", some d.print, "v", []⟩,
   ⟨"notes.txt", none, "w", []⟩]

theorem import_restores_sample : ∃ d result store',
    registerText .plain BUILTIN_HANDLERS (sampleJobText "1.5") "t" = .ok d ∧
    importDirectory .plain BUILTIN_HANDLERS (sampleDirectory d) .empty = (result, store') ∧ d.id ∈ result.imported ∧
    ∃ entry ∈ sampleDirectory d, entry.contents = some d.print ∧
      store'.get d.id = some (d.again entry.now) := by
  have hsample : (registerText .plain BUILTIN_HANDLERS (sampleJobText "1.5") "t").toOption.any (fun d =>
      d.retryPolicy.backoffMultiplier ≠ .infinity false ∧ ∀ p ∈ d.metadata.entries, p.1 ≠ "__proto__") = true := by
    decide +kernel
  obtain ⟨d, hd, hsample⟩ := (Option.any_eq_true _ _).1 hsample
  obtain ⟨hmultiplier, hproto⟩ := of_decide_eq_true hsample
  have hregistered := ok_of_toOption hd
  have hcut : Js.parse ['\x7b', '"', 'i', 'd', '"'] = none := by
    rw [← Option.isNone_iff_eq_none]
    decide +kernel
  have hbackup : Backup .plain BUILTIN_HANDLERS [d] (sampleDirectory d) := by
    refine ⟨by simpa using ⟨_, _, hregistered⟩, by simpa using hproto, by simp,
      by simp [sampleDirectory, DirectoryEntry.isJson], ?_, ?_⟩
    · simp only [sampleDirectory, List.forall_mem_cons]
      refine ⟨.inr fun d' h => ?_, .inl ⟨d, by simp, rfl⟩, .inr fun d' h => ?_, List.forall_mem_nil _⟩
      · rw [DirectoryEntry.register] at h
        simp [registerText, hcut] at h
      · cases h
    · simp [sampleDirectory]
  have hrestored := import_restores Zod.laws_plain caps_builtin hbackup .empty rfl (List.mem_singleton_self d)
  rw [if_neg hmultiplier] at hrestored
  exact ⟨d, _, _, hregistered, rfl, hrestored⟩

end JobBundleImporter

end Jobflow
