import Jobflow.Journal

/-!
# A journal cut short (src/storage/file/journal.ts)

A crash during `appendFile` leaves the first bytes of the last line. `readAll` then loses nothing only if these are
none or the whole text of the entry, or if there is no other entry: what is left of a text does not parse, and the
exception is caught around all lines.
-/

namespace Jobflow

open Js (Value)

/-! ## Bytes -/

/-- The first `n` bytes of a text in UTF-8, as they are decoded. U+FFFD stands for a part of a character. -/
def utf8Take : Nat → List Char → List Char
  | _, [] => []
  | n, c :: cs =>
    if c.utf8Size ≤ n then c :: utf8Take (n - c.utf8Size) cs
    else if n = 0 then []
    else ['\uFFFD']

def utf8Length (cs : List Char) : Nat := (cs.map Char.utf8Size).sum

theorem utf8Take_zero (cs : List Char) : utf8Take 0 cs = [] := by
  cases cs with
  | nil => rfl
  | cons c cs =>
    have hsize := c.utf8Size_pos
    rw [utf8Take, if_neg (by omega), if_pos rfl]

theorem utf8Take_append {ds : List Char} : ∀ {cs : List Char} {n : Nat}, utf8Length cs ≤ n →
    utf8Take n (cs ++ ds) = cs ++ utf8Take (n - utf8Length cs) ds
  | [], n, _ => rfl
  | c :: cs, n, h => by
    have hlength : utf8Length (c :: cs) = c.utf8Size + utf8Length cs := by simp [utf8Length]
    rw [hlength] at h ⊢
    rw [List.cons_append, utf8Take, if_pos (by omega), utf8Take_append (by omega), List.cons_append, Nat.sub_add_eq]

/-- Too few bytes for a text leave a proper beginning of it. -/
theorem utf8Take_short {ds : List Char} : ∀ {cs : List Char} {n : Nat}, n < utf8Length cs →
    ∃ t, t <+: cs ∧ t ≠ cs ∧ (utf8Take n (cs ++ ds) = t ∨ utf8Take n (cs ++ ds) = t ++ ['\uFFFD'])
  | [], n, h => by cases h
  | c :: cs, n, h => by
    have hlength : utf8Length (c :: cs) = c.utf8Size + utf8Length cs := by simp [utf8Length]
    rw [hlength] at h
    rw [List.cons_append, utf8Take]
    by_cases hfits : c.utf8Size ≤ n
    · rw [if_pos hfits]
      obtain ⟨t, ht, hne, hcut⟩ := @utf8Take_short ds cs (n - c.utf8Size) (by omega)
      refine ⟨c :: t, (List.prefix_cons_inj c).2 ht, fun heq => hne (List.cons.inj heq).2, ?_⟩
      rcases hcut with hcut | hcut
      · exact .inl (by rw [hcut])
      · exact .inr (by rw [hcut]; rfl)
    · rw [if_neg hfits]
      refine ⟨[], List.nil_prefix, (List.cons_ne_nil c cs).symm, ?_⟩
      by_cases hzero : n = 0
      · exact .inl (if_pos hzero)
      · exact .inr (if_neg hzero)

/-! ## Crashes -/

/-- Some objects have appended entries, one after the other, the last of them those of `calls`; then it crashes while
the line of `call` is written, of which only `bytes` come into the file. -/
structure Crash where
  sessions : List (List AppendCall)
  calls : List AppendCall
  call : AppendCall
  bytes : Nat

namespace Crash

/-- The file and the object before the last call. -/
def before (crash : Crash) : FileJournal × JournalFile × List JournalEntry :=
  let (file, entries) := FileJournal.runs none crash.sessions
  let (journal, file, entries') := FileJournal.opened.appendAll file crash.calls
  (journal, file, entries ++ entries')

/-- The entries whose lines were written. -/
def written (crash : Crash) : List JournalEntry := crash.before.2.2

def torn (crash : Crash) : JournalEntry := (crash.before.1.makeEntry crash.call).2

def file (crash : Crash) : JournalFile := crash.before.2.1.append (utf8Take crash.bytes crash.torn.line)

end Crash

/-- All that was written is read, in order, and nothing else but perhaps the last entry. -/
structure Survives (crash : Crash) (found : List Value) : Prop where
  all : crash.written.map JournalEntry.kept <+: found
  only : found <+: (crash.written ++ [crash.torn]).map JournalEntry.kept

section
variable (crash : Crash)

theorem Crash.before_eq :
    crash.before = (⟨count crash.calls.length⟩,
      JournalFile.written none (crash.sessions.flatMap (entriesFrom 0) ++ entriesFrom 0 crash.calls),
      crash.sessions.flatMap (entriesFrom 0) ++ entriesFrom 0 crash.calls) := by
  rw [before, runs_eq, opened_eq]
  dsimp only
  rw [appendAll_eq, JournalFile.written_append, Nat.zero_add]

theorem Crash.isProper_written : ∀ e ∈ crash.written, e.IsProper := by
  rw [written, before_eq]
  intro e he
  rcases List.mem_append.1 he with he | he
  · exact isProper_runs _ e he
  · exact isProper_entriesFrom 0 _ e he

theorem Crash.isProper_torn : crash.torn.IsProper := by
  rw [torn, before_eq, FileJournal.makeEntry]
  dsimp only
  rw [count_succ]
  exact ⟨isBinary64_count _, crash.call.isValue⟩

theorem Crash.file_eq :
    crash.file = some (crash.written.flatMap JournalEntry.line ++ utf8Take crash.bytes crash.torn.line) := by
  rw [file, written, before_eq, JournalFile.append, JournalFile.written]
  dsimp only
  split_ifs with hnil
  · simp [hnil]
  · rfl

/-- What is left of a text does not parse. -/
theorem Crash.parse_torn (hpos : 0 < crash.bytes) (hshort : crash.bytes < utf8Length crash.torn.text) :
    '\n' ∉ utf8Take crash.bytes crash.torn.line ∧ utf8Take crash.bytes crash.torn.line ≠ [] ∧
      Js.parse (utf8Take crash.bytes crash.torn.line) = none := by
  have hfirst : (utf8Take crash.bytes crash.torn.line).head? = some '\x7b' := by
    obtain ⟨rest, hrest⟩ : ∃ rest, crash.torn.line = '\x7b' :: rest := ⟨_, rfl⟩
    have hsize : ('\x7b').utf8Size ≤ crash.bytes := hpos
    rw [hrest, utf8Take, if_pos hsize]
    rfl
  obtain ⟨t, hinit, hne, hcut⟩ := @utf8Take_short ['\n'] _ _ hshort
  have hnewline : '\n' ∉ t := fun h => crash.torn.newline_not_mem (hinit.subset h)
  have htext := crash.torn.serialize_eq
  rw [JournalEntry.line] at hfirst ⊢
  rcases hcut with hcut | hcut
  · rw [hcut] at hfirst ⊢
    refine ⟨hnewline, fun hnil => ?_, Js.parse_prefix_of_object crash.isProper_torn.isValue htext hinit hne⟩
    simp [hnil] at hfirst
  · rw [hcut] at hfirst ⊢
    have hnil : t ≠ [] := by
      rintro rfl
      simp at hfirst
    exact ⟨by simp [hnewline], by simp, Js.parse_torn_of_object htext hinit hnil (by decide) (by decide)⟩

theorem Crash.written_eq_nil_iff : crash.written = [] ↔ crash.sessions.flatten = [] ∧ crash.calls = [] := by
  have hnil : ∀ (n : Nat) (calls : List AppendCall), entriesFrom n calls = [] ↔ calls = [] := by
    rintro n (_ | ⟨call, calls⟩) <;> simp [entriesFrom]
  rw [written, before_eq]
  simp [hnil]

/-- **A torn write costs nothing but its entry only if it leaves all or nothing of the text**, or if there is no other
entry. -/
theorem torn_write_iff :
    Survives crash (FileJournal.readAll crash.file) ↔
      crash.bytes = 0 ∨ utf8Length crash.torn.text ≤ crash.bytes ∨ crash.sessions.flatten = [] ∧ crash.calls = [] := by
  have hproper := crash.isProper_written
  rw [crash.file_eq, ← crash.written_eq_nil_iff]
  by_cases hzero : crash.bytes = 0
  · refine iff_of_true ?_ (.inl hzero)
    rw [hzero, utf8Take_zero, readAll_lines hproper (by simp), if_pos rfl]
    exact ⟨List.prefix_rfl, by simp⟩
  by_cases hlong : utf8Length crash.torn.text ≤ crash.bytes
  · refine iff_of_true ?_ (.inr (.inl hlong))
    rw [JournalEntry.line, utf8Take_append hlong]
    by_cases hnewline : crash.bytes - utf8Length crash.torn.text = 0
    · -- only the newline is missing
      rw [hnewline, utf8Take_zero, List.append_nil, readAll_lines hproper crash.torn.newline_not_mem,
        if_neg crash.torn.text_ne_nil, crash.isProper_torn.parse_text]
      exact ⟨List.prefix_append _ _, by simp⟩
    · have hline : utf8Take (crash.bytes - utf8Length crash.torn.text) ['\n'] = ['\n'] := by
        have hsize : ('\n').utf8Size = 1 := rfl
        rw [utf8Take, if_pos (by omega), utf8Take]
      have hall : ∀ e ∈ crash.written ++ [crash.torn], e.IsProper := by
        intro e he
        rcases List.mem_append.1 he with he | he
        · exact hproper e he
        · rw [List.mem_singleton.1 he]
          exact crash.isProper_torn
      have hread := @readAll_lines _ hall [] (by simp)
      simp only [List.flatMap_append, List.flatMap_singleton, List.append_nil, if_true] at hread
      rw [hline, ← JournalEntry.line, hread]
      exact ⟨by simp, List.prefix_rfl⟩
  · obtain ⟨hnewline, hne, hparse⟩ := crash.parse_torn (by omega) (by omega)
    rw [readAll_lines hproper hnewline, if_neg hne, hparse]
    simp only [hzero, hlong, false_or]
    constructor
    · intro h
      exact List.map_eq_nil_iff.1 (List.prefix_nil.1 h.all)
    · intro hnil
      exact ⟨by simp [hnil], List.nil_prefix⟩

end

/-- One byte of the second entry takes the first one with it. -/
theorem torn_byte_hides_all :
    let call : AppendCall := ⟨"run.started", [], "2026-01-01T00:00:00.000Z", .object (by simp) (by simp)⟩
    ¬ Survives ⟨[], [call], call, 1⟩ (FileJournal.readAll (Crash.file ⟨[], [call], call, 1⟩)) := by
  intro call h
  have hshort : 1 < utf8Length (Crash.torn ⟨[], [call], call, 1⟩).text := by decide +kernel
  obtain ⟨hnewline, hne, hparse⟩ := Crash.parse_torn ⟨[], [call], call, 1⟩ (by decide) hshort
  have hall := h.all
  rw [Crash.file_eq, readAll_lines (Crash.isProper_written _) hnewline, if_neg hne, hparse] at hall
  exact absurd (List.prefix_nil.1 hall) (by simp [Crash.written, Crash.before_eq, entriesFrom])

end Jobflow
