import Mathlib.Data.List.Basic
import Jobflow.Domain
import Jobflow.Lib.Delimiters

/-!
# CSV export (src/export/run-exporter.ts)

A run is written as one line per task, each field between quotes. Whatever the texts in it are, the rows can be told
from the text (`toCsv_inj`).
-/

namespace Jobflow

/-! ## The source -/

structure RunExportRow where
  runId : String
  jobId : String
  state : String
  taskId : String
  taskStatus : String
  attempt : Nat
  error : Option String
  deriving DecidableEq

/-- run-exporter.ts:15-25. -/
def toRows (workflow : WorkflowInstance) : List RunExportRow :=
  workflow.tasks.map fun t =>
    { runId := workflow.runId
      jobId := workflow.jobId
      state := workflow.state.text
      taskId := t.definitionTaskId
      taskStatus := t.status.text
      attempt := t.attempt
      error := t.errorMessage }

/-- `"${String(c).replace(/"/g, '""')}"` for a text `c`. -/
def csvCell (c : String) : String :=
  "\"" ++ String.ofList (c.toList.flatMap fun ch => if ch = '"' then ['"', '"'] else [ch]) ++ "\""

def RunExportRow.cells (r : RunExportRow) : List String :=
  [r.runId, r.jobId, r.state, r.taskId, r.taskStatus, toString r.attempt, r.error.getD ""]

def RunExportRow.line (r : RunExportRow) : String := ",".intercalate (r.cells.map csvCell)

def csvHeader : String := "runId,jobId,state,taskId,taskStatus,attempt,error"

/-- run-exporter.ts:27-36. -/
def toCsv (workflow : WorkflowInstance) : String :=
  let rows := toRows workflow
  let lines := rows.map RunExportRow.line
  "\n".intercalate (csvHeader :: lines)

/-! ## The text as a table -/

theorem toList_csvCell (c : String) : (csvCell c).toList = Delimiters.quoted '"' c.toList := by
  simp [csvCell, Delimiters.quoted, Delimiters.doubled, String.toList_append]

theorem RunExportRow.toList_line (r : RunExportRow) :
    r.line.toList = Delimiters.row '"' ',' (r.cells.map String.toList) := by
  unfold RunExportRow.line Delimiters.row
  rw [String.toList_intercalate, List.map_map, List.map_map]
  exact congrArg _ (List.map_congr_left fun c _ => toList_csvCell c)

/-- Behind the header stands the table of the rows' fields. -/
theorem toList_toCsv (workflow : WorkflowInstance) : (toCsv workflow).toList = csvHeader.toList ++
    Delimiters.table '"' ',' '\n' ((toRows workflow).map fun r => r.cells.map String.toList) := by
  unfold toCsv
  rw [String.toList_intercalate, List.map_cons]
  refine (Delimiters.intercalate_cons '\n' _ _).trans ?_
  unfold Delimiters.table
  rw [List.map_map, List.flatMap_map, List.flatMap_map]
  refine congrArg _ (congrArg (List.flatMap · _) (funext fun r => ?_))
  exact congrArg _ r.toList_line

/-! ## Reading the rows -/

/-- The row with no error read as an empty one. -/
def RunExportRow.errorRead (r : RunExportRow) : RunExportRow := { r with error := some (r.error.getD "") }

theorem RunExportRow.cells_inj {r r' : RunExportRow} (h : r.cells = r'.cells) : r.errorRead = r'.errorRead := by
  simp only [RunExportRow.cells, List.cons.injEq, and_true] at h
  obtain ⟨hrun, hjob, hstate, htask, hstatus, hattempt, herror⟩ := h
  simp only [RunExportRow.errorRead, hrun, hjob, hstate, htask, hstatus, herror, Delimiters.decimal_inj hattempt]

/-- **The export tells its rows**: the same text comes from the same rows, up to an absent error. -/
theorem toCsv_inj {workflow workflow' : WorkflowInstance} (h : toCsv workflow = toCsv workflow') :
    (toRows workflow).map RunExportRow.errorRead = (toRows workflow').map RunExportRow.errorRead := by
  have hfields : ∀ w, ∀ fields ∈ (toRows w).map fun r => r.cells.map String.toList, fields ≠ [] := by
    intro w fields hfields
    obtain ⟨r, _, rfl⟩ := List.mem_map.1 hfields
    exact List.cons_ne_nil _ _
  have htables := congrArg String.toList h
  rw [toList_toCsv, toList_toCsv] at htables
  have hrows := Delimiters.table_inj (by decide) (by decide) (by decide) (hfields workflow) (hfields workflow')
    (List.append_cancel_left htables)
  have hcells : (toRows workflow).map RunExportRow.cells = (toRows workflow').map RunExportRow.cells := by
    refine List.map_injective_iff.2 (List.map_injective_iff.2 fun _ _ h => String.toList_injective h) ?_
    rwa [List.map_map, List.map_map]
  -- the cells decide the row but for its error
  refine List.ext_getElem? fun i => ?_
  have hcell := congrArg (·[i]?) hcells
  simp only [List.getElem?_map] at hcell ⊢
  cases hr : (toRows workflow)[i]? with
  | none =>
    rw [hr] at hcell
    rw [Option.map_eq_none_iff.1 hcell.symm]
  | some r =>
    rw [hr] at hcell
    obtain ⟨r', hr', hr'cells⟩ := Option.map_eq_some_iff.1 hcell.symm
    rw [hr']
    exact congrArg some (RunExportRow.cells_inj hr'cells.symm)

/-- A run of one task, which failed with a message or without any. -/
def exportSample (errorMessage : Option String) : WorkflowInstance where
  id := "wf1"
  jobId := "job,1"
  runId := "run\"1\""
  state := .failed
  context := []
  tasks := [{ createTaskRun "t1" "run\"1\"" "a" "h" with status := .failed, errorMessage := errorMessage }]
  history := []
  version := 1
  createdAt := "2026-01-01T00:00:00.000Z"
  updatedAt := "2026-01-01T00:00:00.000Z"

theorem toCsv_inj_sample : toCsv (exportSample none) = toCsv (exportSample (some "")) ∧
    toRows (exportSample none) ≠ toRows (exportSample (some "")) ∧
    (toRows (exportSample none)).map RunExportRow.errorRead =
      (toRows (exportSample (some ""))).map RunExportRow.errorRead :=
  ⟨rfl, by decide, toCsv_inj rfl⟩

end Jobflow
