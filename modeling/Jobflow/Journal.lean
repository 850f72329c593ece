import Jobflow.Js.JsonRoundTrip

/-!
# The file journal (src/storage/file/journal.ts)

One line of JSON for each entry. The number of an entry is counted by the `FileJournal` that appends it, from 0 each
time one is opened; `readAll` parses the file as a whole.
-/

namespace Jobflow

open Js (Number Value Record IsValue)

/-! ## The source -/

/-- `JournalEntry`; `date` is its `at`. -/
structure JournalEntry where
  seq : Number
  type : String
  payload : Record
  date : String

def JournalEntry.toValue (entry : JournalEntry) : Value :=
  .object none
    [("seq", .number entry.seq), ("type", .string entry.type), ("payload", .object none entry.payload),
      ("at", .string entry.date)]

/-- `JSON.stringify(entry)`. -/
def JournalEntry.text (entry : JournalEntry) : List Char := (Js.serialize entry.toValue).getD "undefined".toList

def JournalEntry.line (entry : JournalEntry) : List Char := entry.text ++ ['\n']

/-- A call of `append`, at the time `now`. -/
structure AppendCall where
  type : String
  payload : Record
  now : String
  isValue : IsValue (.object none payload)

/-- The characters of a file in UTF-8; `none` is no file. -/
abbrev JournalFile := Option (List Char)

/-- What `appendFile` makes of the file. -/
def JournalFile.append (file : JournalFile) (text : List Char) : JournalFile := some (file.getD [] ++ text)

/-- A `FileJournal` by its counter; its path is that of the file. -/
structure FileJournal where
  seq : Number

namespace FileJournal

def opened : FileJournal := ⟨.finite 0⟩

/-- The entry `append` makes (journal.ts:18-23), and the counter it leaves. -/
def makeEntry (journal : FileJournal) (call : AppendCall) : FileJournal × JournalEntry :=
  let seq := journal.seq.add (.finite 1)
  (⟨seq⟩, ⟨seq, call.type, call.payload, call.now⟩)

/-- `append` (journal.ts:16-26). -/
def append (journal : FileJournal) (file : JournalFile) (call : AppendCall) :
    FileJournal × JournalFile × JournalEntry :=
  let (journal, entry) := journal.makeEntry call
  (journal, file.append entry.line, entry)

/-- `readAll` (journal.ts:28-38): whatever is thrown, nothing is read. -/
def readAll (file : JournalFile) : List Value :=
  match file with
  | none => []
  | some raw => (((raw.splitOn '\n').filter (· ≠ [])).mapM Js.parse).getD []

/-! ## Runs -/

/-- Calls of `append` on one object, each awaited. -/
def appendAll (journal : FileJournal) (file : JournalFile) :
    List AppendCall → FileJournal × JournalFile × List JournalEntry
  | [] => (journal, file, [])
  | call :: calls =>
    let (journal, file, entry) := journal.append file call
    let (journal, file, entries) := appendAll journal file calls
    (journal, file, entry :: entries)

/-- The file after the objects that were opened on it, one after the other, and the entries they appended. -/
def runs (file : JournalFile) : List (List AppendCall) → JournalFile × List JournalEntry
  | [] => (file, [])
  | calls :: rest =>
    let (_, file, entries) := opened.appendAll file calls
    let (file, entries') := runs file rest
    (file, entries ++ entries')

end FileJournal

/-! ## What is written -/

/-- What JSON keeps of the entry. -/
def JournalEntry.kept (entry : JournalEntry) : Value := (Js.canonical entry.toValue).getD .undefined

/-- An entry that was made of values. -/
def JournalEntry.IsProper (entry : JournalEntry) : Prop := entry.seq.IsBinary64 ∧ IsValue (.object none entry.payload)

section
variable {entry : JournalEntry}

theorem JournalEntry.serialize_eq (entry : JournalEntry) : Js.serialize entry.toValue = some entry.text := rfl

theorem JournalEntry.IsProper.isValue (h : entry.IsProper) : IsValue entry.toValue := by
  refine .object (by simp) fun p hp => ?_
  simp only [List.mem_cons, List.not_mem_nil, or_false] at hp
  rcases hp with rfl | rfl | rfl | rfl
  · exact .number h.1
  · exact .string _
  · exact h.2
  · exact .string _

theorem JournalEntry.newline_not_mem (entry : JournalEntry) : '\n' ∉ entry.text :=
  (Js.isText_serialize entry.serialize_eq).newline_not_mem

theorem JournalEntry.text_ne_nil (entry : JournalEntry) : entry.text ≠ [] := List.cons_ne_nil _ _

theorem JournalEntry.IsProper.parse_text (h : entry.IsProper) : Js.parse entry.text = some entry.kept := by
  obtain ⟨w, hw, hparse⟩ := Js.parse_serialize h.isValue entry.serialize_eq
  rw [hparse, JournalEntry.kept, hw]
  rfl

end

theorem splitOn_lines {rest : List Char} (hrest : '\n' ∉ rest) : ∀ entries : List JournalEntry,
    (entries.flatMap JournalEntry.line ++ rest).splitOn '\n' = entries.map JournalEntry.text ++ [rest]
  | [] => List.splitOn_eq_singleton hrest
  | entry :: entries => by
    rw [List.flatMap_cons, JournalEntry.line, List.append_assoc, List.append_assoc, List.singleton_append,
      List.splitOn_append_cons_self_of_not_mem entry.newline_not_mem, splitOn_lines hrest entries]
    rfl

theorem mapM_parse_texts : ∀ {entries : List JournalEntry}, (∀ e ∈ entries, e.IsProper) → ∀ rest : List (List Char),
    (entries.map JournalEntry.text ++ rest).mapM Js.parse =
      (rest.mapM Js.parse).map fun vs => entries.map JournalEntry.kept ++ vs
  | [], _, rest => by simp
  | entry :: entries, h, rest => by
    have ih := mapM_parse_texts (fun e he => h e (List.mem_cons_of_mem _ he)) rest
    rw [List.map_cons, List.cons_append, List.mapM_cons, (h entry List.mem_cons_self).parse_text, ih]
    cases rest.mapM Js.parse <;> rfl

/-- **What is read of a file of whole lines and of what came after them.** -/
theorem readAll_lines {entries : List JournalEntry} (h : ∀ e ∈ entries, e.IsProper) {rest : List Char}
    (hrest : '\n' ∉ rest) :
    FileJournal.readAll (some (entries.flatMap JournalEntry.line ++ rest)) =
      if rest = [] then entries.map JournalEntry.kept
      else match Js.parse rest with
        | some v => entries.map JournalEntry.kept ++ [v]
        | none => [] := by
  have hfilter : (entries.map JournalEntry.text).filter (· ≠ []) = entries.map JournalEntry.text := by
    rw [List.filter_eq_self]
    intro text htext
    obtain ⟨e, _, rfl⟩ := List.mem_map.1 htext
    exact decide_eq_true e.text_ne_nil
  rw [FileJournal.readAll, splitOn_lines hrest, List.filter_append, hfilter, mapM_parse_texts h]
  split_ifs with hnil
  · simp [hnil]
  · cases hparse : Js.parse rest <;> simp [hnil, hparse]

/-! ## Numbering -/

/-- What `++this.seq` has counted after `n` calls: past 2^53 the number stays. -/
def count (n : Nat) : Number := .finite ((min n (2 ^ 53) : Nat) : Rat)

theorem count_succ (n : Nat) : (count n).add (.finite 1) = count (n + 1) := by
  by_cases hn : n < 2 ^ 53
  · have hround := Number.ofRat_natCast (show n + 1 ≤ 2 ^ 53 by omega)
    rw [count, count, min_eq_left hn.le, min_eq_left (by omega)]
    push_cast at hround
    push_cast
    exact hround
  · have hstays : (Number.finite ((2 ^ 53 : Nat) : Rat)).add (.finite 1) = .finite ((2 ^ 53 : Nat) : Rat) := by
      decide +kernel
    rw [count, count, min_eq_right (by omega), min_eq_right (by omega)]
    exact hstays

theorem isBinary64_count (n : Nat) : (count n).IsBinary64 := by
  rintro q h
  rw [← Number.finite.inj h]
  exact Number.ofRat_natCast (min_le_right _ _)

theorem count_lt_iff {m n : Nat} : (count m).lt (count n) = true ↔ m < n ∧ m < 2 ^ 53 := by
  rw [count, count, Number.lt_iff rfl rfl, Nat.cast_lt]
  omega

/-- The entries of one object that has counted `n`. -/
def entriesFrom : Nat → List AppendCall → List JournalEntry
  | _, [] => []
  | n, call :: calls => ⟨count (n + 1), call.type, call.payload, call.now⟩ :: entriesFrom (n + 1) calls

theorem isProper_entriesFrom : ∀ (n : Nat) (calls : List AppendCall), ∀ e ∈ entriesFrom n calls, e.IsProper
  | n, call :: calls, e, h => by
    rcases List.mem_cons.1 h with rfl | h
    · exact ⟨isBinary64_count (n + 1), call.isValue⟩
    · exact isProper_entriesFrom (n + 1) calls e h

theorem seq_entriesFrom : ∀ (n : Nat) (calls : List AppendCall),
    (entriesFrom n calls).map JournalEntry.seq = (List.range' (n + 1) calls.length).map count
  | _, [] => rfl
  | n, call :: calls => by
    rw [entriesFrom, List.map_cons, seq_entriesFrom (n + 1) calls, List.length_cons, List.range'_succ]
    rfl

/-- A file to which entries were appended. -/
def JournalFile.written (file : JournalFile) (entries : List JournalEntry) : JournalFile :=
  if entries = [] then file else some (file.getD [] ++ entries.flatMap JournalEntry.line)

theorem JournalFile.written_cons (file : JournalFile) (entry : JournalEntry) (entries : List JournalEntry) :
    (file.append entry.line).written entries = file.written (entry :: entries) := by
  unfold written append
  by_cases h : entries = [] <;> simp [h]

theorem JournalFile.written_append (file : JournalFile) (entries entries' : List JournalEntry) :
    (file.written entries).written entries' = file.written (entries ++ entries') := by
  unfold written
  by_cases h : entries = [] <;> by_cases h' : entries' = [] <;> simp [h, h']

theorem appendAll_eq : ∀ (n : Nat) (file : JournalFile) (calls : List AppendCall),
    FileJournal.appendAll ⟨count n⟩ file calls =
      (⟨count (n + calls.length)⟩, file.written (entriesFrom n calls), entriesFrom n calls)
  | n, file, [] => rfl
  | n, file, call :: calls => by
    rw [FileJournal.appendAll, FileJournal.append, FileJournal.makeEntry, count_succ]
    dsimp only
    have hcount : n + 1 + calls.length = n + (calls.length + 1) := by omega
    rw [appendAll_eq (n + 1), JournalFile.written_cons, List.length_cons, hcount]
    rfl

theorem opened_eq : FileJournal.opened = ⟨count 0⟩ := by
  simp [FileJournal.opened, count]

theorem runs_eq : ∀ (file : JournalFile) (sessions : List (List AppendCall)),
    FileJournal.runs file sessions =
      (file.written (sessions.flatMap (entriesFrom 0)), sessions.flatMap (entriesFrom 0))
  | file, [] => rfl
  | file, calls :: rest => by
    rw [FileJournal.runs, opened_eq, appendAll_eq]
    dsimp only
    rw [runs_eq, JournalFile.written_append]
    rfl

theorem isProper_runs (sessions : List (List AppendCall)) : ∀ e ∈ sessions.flatMap (entriesFrom 0), e.IsProper := by
  intro e he
  obtain ⟨calls, _, he⟩ := List.mem_flatMap.1 he
  exact isProper_entriesFrom 0 calls e he

/-- **What was appended is read, in order.** -/
theorem readAll_written {entries : List JournalEntry} (h : ∀ e ∈ entries, e.IsProper) :
    FileJournal.readAll (JournalFile.written none entries) = entries.map JournalEntry.kept := by
  unfold JournalFile.written
  split_ifs with hnil
  · rw [hnil]
    rfl
  · have hlines := @readAll_lines _ h [] (by simp)
    rw [List.append_nil, if_pos rfl] at hlines
    exact hlines

/-! ## Identification -/

/-- The number of an entry that was read. -/
def seqOf (v : Value) : Number :=
  match v.get "seq" with
  | .number n => n
  | _ => .nan

/-- The entries that were appended are read in order, and are numbered upwards. -/
structure Identifies (entries : List JournalEntry) (found : List Value) : Prop where
  inOrder : found = entries.map JournalEntry.kept
  increasing : (found.map seqOf).Pairwise fun m n => m.lt n = true

theorem seqOf_kept {entry : JournalEntry} {n : Nat} (h : entry.seq = count n) : seqOf entry.kept = count n := by
  have hcanonical : Js.canonical entry.toValue = some (.object none (Js.inKeyOrder
      [("seq", .number (count n)), ("type", .string entry.type),
        ("payload", .object none (Js.inKeyOrder (Js.canonicalProps entry.payload))), ("at", .string entry.date)])) := by
    unfold JournalEntry.toValue
    rw [h]
    rfl
  rw [JournalEntry.kept, hcanonical, Option.getD_some, seqOf, Value.get_object,
    Js.own_congr (by simp) (Js.perm_inKeyOrder _)]
  rfl

theorem map_seqOf_kept {entries : List JournalEntry} {ns : List Nat} (h : entries.map JournalEntry.seq = ns.map count) :
    (entries.map JournalEntry.kept).map seqOf = ns.map count := by
  rw [← h, List.map_map]
  refine List.map_congr_left fun e he => ?_
  have hseq : e.seq ∈ ns.map count := h ▸ List.mem_map_of_mem he
  obtain ⟨n, _, hn⟩ := List.mem_map.1 hseq
  rw [Function.comp_apply, seqOf_kept hn.symm, hn]

theorem seq_runs (sessions : List (List AppendCall)) :
    (sessions.flatMap (entriesFrom 0)).map JournalEntry.seq =
      (sessions.flatMap fun calls => List.range' 1 calls.length).map count := by
  rw [List.map_flatMap, List.map_flatMap]
  exact List.flatMap_congr fun calls _ => seq_entriesFrom 0 calls

/-- Objects that append nothing number nothing. -/
theorem flatMap_range_filter (sessions : List (List AppendCall)) :
    (sessions.flatMap fun calls => List.range' 1 calls.length) =
      (sessions.filter (· ≠ [])).flatMap fun calls => List.range' 1 calls.length := by
  induction sessions with
  | nil => rfl
  | cons calls rest ih =>
    by_cases h : calls = []
    · simp [h, ih]
    · simp [h, ih]

theorem pairwise_count_range (n : Nat) :
    ((List.range' 1 n).map count).Pairwise (fun m n => m.lt n = true) ↔ n ≤ 2 ^ 53 := by
  rw [List.pairwise_map]
  constructor
  · intro h
    by_contra hn
    have hlt := List.pairwise_iff_getElem.1 h (2 ^ 53 - 1) (2 ^ 53) (by simp; omega) (by simp; omega) (by omega)
    rw [count_lt_iff] at hlt
    simp at hlt
  · intro hn
    have hpairwise : (List.range' 1 n).Pairwise (· < ·) := List.pairwise_lt_range'
    refine hpairwise.imp_of_mem fun {a b} ha hb hab => count_lt_iff.2 ⟨hab, ?_⟩
    have hb' := List.mem_range'_1.1 hb
    omega

/-- **Numbers identify entries as long as one object appends**, and no more than it can count. -/
theorem seq_identifies_iff (sessions : List (List AppendCall)) :
    Identifies (FileJournal.runs none sessions).2 (FileJournal.readAll (FileJournal.runs none sessions).1) ↔
      (sessions.filter (· ≠ [])).length ≤ 1 ∧ ∀ calls ∈ sessions, calls.length ≤ 2 ^ 53 := by
  have hread := readAll_written (isProper_runs sessions)
  have hseqs := map_seqOf_kept (seq_runs sessions)
  rw [flatMap_range_filter] at hseqs
  have hmem : (∀ calls ∈ sessions, calls.length ≤ 2 ^ 53) ↔
      ∀ calls ∈ sessions.filter (· ≠ []), calls.length ≤ 2 ^ 53 := by
    constructor
    · exact fun h calls hcalls => h calls (List.mem_of_mem_filter hcalls)
    · intro h calls hcalls
      by_cases hnil : calls = []
      · simp [hnil]
      · exact h calls (List.mem_filter.2 ⟨hcalls, decide_eq_true hnil⟩)
  rw [runs_eq, hmem]
  have hiff : Identifies (sessions.flatMap (entriesFrom 0))
      (FileJournal.readAll (JournalFile.written none (sessions.flatMap (entriesFrom 0)))) ↔
        (((sessions.filter (· ≠ [])).flatMap fun calls => List.range' 1 calls.length).map count).Pairwise
          fun m n => m.lt n = true := by
    rw [← hseqs, ← hread]
    exact ⟨fun h => h.increasing, fun h => ⟨hread, h⟩⟩
  rw [hiff]
  have hne : ∀ calls ∈ sessions.filter (· ≠ []), calls ≠ [] := fun calls h => of_decide_eq_true (List.mem_filter.1 h).2
  generalize sessions.filter (· ≠ []) = used at *
  match used with
  | [] => simp
  | [calls] =>
    rw [List.flatMap_singleton, pairwise_count_range]
    simp
  | calls :: calls' :: rest =>
    -- both begin with 1
    have hone : ∀ c ∈ calls :: calls' :: rest, count 1 ∈ (List.range' 1 c.length).map count := by
      intro c hc
      have hlength := List.length_pos_iff.2 (hne c hc)
      exact List.mem_map_of_mem (List.mem_range'_1.2 (by omega))
    refine iff_of_false (fun h => ?_) (by simp)
    rw [List.flatMap_cons, List.map_append, List.pairwise_append] at h
    have hsecond : count 1 ∈ ((calls' :: rest).flatMap fun c => List.range' 1 c.length).map count := by
      rw [List.flatMap_cons, List.map_append]
      exact List.mem_append_left _ (hone calls' (by simp))
    have hlt := h.2.2 _ (hone calls List.mem_cons_self) _ hsecond
    rw [count_lt_iff] at hlt
    omega

/-- Two processes append an entry each. -/
theorem restart_counts_anew :
    let call : AppendCall := ⟨"run.started", [], "2026-01-01T00:00:00.000Z", .object (by simp) (by simp)⟩
    ¬ Identifies (FileJournal.runs none [[call], [call]]).2
      (FileJournal.readAll (FileJournal.runs none [[call], [call]]).1) := by
  intro call h
  have hincreasing := h.increasing
  rw [runs_eq, readAll_written (isProper_runs _), map_seqOf_kept (seq_runs _)] at hincreasing
  have hlt : (count 1).lt (count 1) = true := by simpa using hincreasing
  rw [count_lt_iff] at hlt
  omega

end Jobflow
