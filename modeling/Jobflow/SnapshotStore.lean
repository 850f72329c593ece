import Jobflow.JournalCrash
import Jobflow.Js.JsonIndented

/-!
# The snapshot file (src/storage/file/snapshot-store.ts)

`save` replaces the file by the text of a state, so a crash leaves the beginning of a text. Of an object that is
refused, and `load` gives what was saved last or nothing at all (`snapshot_store_exact`).
-/

namespace Jobflow

open Js (Value Record IsData)

/-! ## The source -/

/-- The file by its characters; `none` is no file. -/
abbrev SnapshotFile := Option (List Char)

/-- A call of `save` with plain data; if it has not come to its end, or never will, the number of bytes it has
written. -/
structure SaveCall where
  state : Value
  cutAt : Option Nat
  isData : IsData state

namespace FileSnapshotStore

/-- `JSON.stringify(state, null, 2)`. -/
def text (state : Value) : Option (List Char) := Js.stringify [' ', ' '] [] state

/-- `save` (snapshot-store.ts:7-10). `writeFile` empties the file first; it takes no `undefined`. -/
def save (file : SnapshotFile) (call : SaveCall) : SnapshotFile :=
  match text call.state with
  | none => file
  | some t =>
    match call.cutAt with
    | none => some t
    | some bytes => some (utf8Take bytes t)

/-- `load` (snapshot-store.ts:12-19); `none` is `undefined`. -/
def load (file : SnapshotFile) : Option Value := file.bind Js.parse

def saveAll (history : List SaveCall) : SnapshotFile := history.foldl save none

end FileSnapshotStore

open FileSnapshotStore

/-! ## What is in the file -/

def SaveCall.OfObject (call : SaveCall) : Prop := ∃ ref props, call.state = .object ref props

/-- All of the text has been written. -/
def SaveCall.completes (call : SaveCall) : Bool :=
  call.cutAt.all fun bytes => utf8Length ((text call.state).getD []) ≤ bytes

theorem text_isSome {call : SaveCall} (h : call.OfObject) : ∃ t, text call.state = some t := by
  obtain ⟨ref, props, hstate⟩ := h
  exact ⟨_, by rw [hstate]; rfl⟩

theorem utf8Take_all {t : List Char} {bytes : Nat} (h : utf8Length t ≤ bytes) : utf8Take bytes t = t := by
  have htake := @utf8Take_append [] _ _ h
  rw [List.append_nil] at htake
  rw [htake]
  cases bytes - utf8Length t <;> simp [utf8Take]

theorem save_of_completes {call : SaveCall} (h : call.OfObject) (hdone : call.completes = true) (file : SnapshotFile) :
    save file call = text call.state := by
  obtain ⟨t, ht⟩ := text_isSome h
  unfold SaveCall.completes at hdone
  unfold save
  cases hbytes : call.cutAt with
  | none => simp [ht]
  | some bytes =>
    simp only [hbytes, ht, Option.all_some, Option.getD_some, decide_eq_true_eq] at hdone
    simp [ht, utf8Take_all hdone]

/-- What is left of a text does not parse. -/
theorem parse_utf8Take {call : SaveCall} (h : call.OfObject) {t : List Char} (ht : text call.state = some t)
    {bytes : Nat} (hshort : bytes < utf8Length t) : Js.parse (utf8Take bytes t) = none := by
  obtain ⟨ref, props, hstate⟩ := h
  have hvalue := call.isData.isValue
  rw [hstate] at ht hvalue
  obtain ⟨s, hprefix, hne, hcut⟩ := @utf8Take_short [] _ _ hshort
  rw [List.append_nil] at hcut
  rcases hcut with hcut | hcut
  · rw [hcut]
    exact Js.parse_prefix_of_stringify Js.JsonParser.blank_spaces hvalue ht hprefix hne
  · rw [hcut]
    by_cases hnil : s = []
    · rw [hnil]
      decide +kernel
    · exact Js.parse_torn_of_stringify ht hprefix hnil (by decide) rfl

/-- What is loaded after a call, whatever the file held. -/
theorem load_save {call : SaveCall} (h : call.OfObject) (file : SnapshotFile) :
    load (save file call) = if call.completes then Js.canonical call.state else none := by
  obtain ⟨t, ht⟩ := text_isSome h
  by_cases hdone : call.completes = true
  · obtain ⟨w, hw, hparse⟩ := Js.parse_stringify Js.JsonParser.blank_spaces call.isData.isValue ht
    rw [if_pos hdone, save_of_completes h hdone, ht, load, Option.bind_some, hparse, hw]
  · rw [if_neg hdone]
    unfold SaveCall.completes at hdone
    cases hbytes : call.cutAt with
    | none => simp [hbytes] at hdone
    | some bytes =>
      simp only [hbytes, ht, Option.all_some, Option.getD_some, decide_eq_true_eq, not_le] at hdone
      simpa [save, ht, hbytes, load] using parse_utf8Take h ht hdone

theorem saveAll_concat (history : List SaveCall) (call : SaveCall) :
    saveAll (history ++ [call]) = save (saveAll history) call := by
  simp [saveAll]

/-- **The last state or none.** Of objects of plain data `load` gives what JSON keeps of the state saved last, if all of
its text has been written, and otherwise nothing; and to save what was loaded leaves the file as it is. -/
theorem snapshot_store_exact (history : List SaveCall) (hobjects : ∀ call ∈ history, call.OfObject) :
    load (saveAll history) =
        (history.getLast?.bind fun call => if call.completes then Js.canonical call.state else none) ∧
      ∀ call : SaveCall, load (saveAll history) = some call.state → call.cutAt = none →
        save (saveAll history) call = saveAll history := by
  rcases List.eq_nil_or_concat history with rfl | ⟨earlier, last, rfl⟩
  · exact ⟨rfl, fun call h => by cases h⟩
  · rw [List.concat_eq_append] at hobjects ⊢
    have hlast : last.OfObject := hobjects last (by simp)
    rw [saveAll_concat, load_save hlast, List.getLast?_concat, Option.bind_some]
    refine ⟨rfl, fun call hloaded hcut => ?_⟩
    split_ifs at hloaded with hdone
    · have htext : text call.state = text last.state := Js.stringify_canonical [] hloaded
      obtain ⟨t, ht⟩ := text_isSome hlast
      rw [save_of_completes hlast hdone]
      simp [save, hcut, htext, ht]

def labelled (label : String) : Record := [("label", .string label)]

theorem isData_labelled (label : String) : IsData (.object none (labelled label)) := by
  refine .object (by simp [labelled]) fun p hp => ?_
  rw [List.mem_singleton.1 hp]
  exact .string label

/-- Two states, the second cut short in the middle of a character. -/
def snapshotSample : List SaveCall :=
  [⟨.object none (labelled "zürich"), none, isData_labelled _⟩,
    ⟨.object none (labelled "genève"), some 18, isData_labelled _⟩]

theorem snapshotSample_ofObject : ∀ call ∈ snapshotSample, call.OfObject := by
  simp [snapshotSample, SaveCall.OfObject]

theorem snapshot_store_exact_torn :
    load (saveAll (snapshotSample.take 1)) = some (.object none (labelled "zürich")) ∧
      load (saveAll snapshotSample) = none := by
  have hfirst : ∀ call ∈ snapshotSample.take 1, call.OfObject := fun call h =>
    snapshotSample_ofObject call (List.mem_of_mem_take h)
  have hcut : ∀ call ∈ snapshotSample.getLast?, call.completes = false := by
    intro call h
    rw [← Option.some.inj (Option.mem_def.1 h)]
    decide +kernel
  refine ⟨(snapshot_store_exact _ hfirst).1, (snapshot_store_exact _ snapshotSample_ofObject).1.trans ?_⟩
  simp [snapshotSample] at hcut ⊢
  simp [hcut]

/-- A number cut short is another number. -/
example : (load (some (utf8Take 1 ((text (.number (.finite 12))).getD [])))).bind text = some ['1'] := by
  decide +kernel

end Jobflow
