import CodeIndex.Embedding.Batch
import CodeIndex.Index.Report
import CodeIndex.Plan

/-!
# The work of a run

Of the files that a plan wants processed, those whose content is completely indexed under some path
take over its units; the others have to be decomposed and embedded.  `Workload.nextSnapshot` and
`Workload.report` put the results together.
-/

namespace CodeIndex

/-- What a run has to do. -/
structure Workload where
  plan : UpdatePlan
  /-- Files with the units of their content, taken over from the previous snapshot. -/
  relocated : List FileRecord
  /-- Files that have to be decomposed. -/
  pending : List FileRecord
  deriving Inhabited

/-- A file that was decomposed, or why it was not. -/
structure Decomposed where
  filepath : String
  outcome : Except IndexError FileRecord

namespace Decomposed

/-- The file with its units, if it has them. -/
def record? (d : Decomposed) : Option FileRecord :=
  match d.outcome with
  | .ok r => some r
  | .error _ => none

/-- The line of a failure in reports. -/
def failure? (d : Decomposed) : Option String :=
  match d.outcome with
  | .ok _ => none
  | .error e => some (d.filepath ++ ": " ++ e.message)

end Decomposed

namespace Workload

/-- A file with the units of its content, if the previous snapshot has all of them. -/
def relocate? (plan : UpdatePlan) (previous : Snapshot) (file : FileRecord) : Option FileRecord :=
  if plan.reuseEmbeddings then
    (previous.embeddedUnits? file.checksum).map fun units => { file with units := units }
  else none

/-- The work of bringing `previous` up to date with `scan`. -/
def make (scan : List FileRecord) (previous : Snapshot) (model : String) : Workload :=
  let plan := UpdatePlan.make scan previous model
  { plan := plan
    relocated := plan.toProcess.filterMap (relocate? plan previous)
    pending := plan.toProcess.filter fun file => (relocate? plan previous file).isNone }

/-- Decomposes the pending files. -/
def decompose (w : Workload) (decomposeFile : FileRecord → Except IndexError FileRecord) :
    List Decomposed :=
  w.pending.map fun file => ⟨file.filepath, decomposeFile file⟩

/-- The files that were decomposed. -/
def parsed (results : List Decomposed) : List FileRecord := results.filterMap Decomposed.record?

/-- The lines of the files that were not decomposed, in order. -/
def parseFailures (results : List Decomposed) : List String :=
  (results.filterMap Decomposed.failure?).mergeSort fun a b => decide (a ≤ b)

/-- The rows that a run adds. -/
def newRows (w : Workload) (embedded : EmbedOutcome) : List SnapshotRow :=
  Snapshot.rowsOfRecords (embedded.records ++ w.relocated)

/-- The snapshot after a run. -/
def nextSnapshot (w : Workload) (previous : Snapshot) (model : String) (embedded : EmbedOutcome) :
    Snapshot :=
  ((previous.merge w.plan.carried (w.newRows embedded)).withModel model).withIncomplete
    (embedded.failures.map EmbeddingFailure.key)

/-- The report of a run. -/
def report (w : Workload) (scan : List FileRecord) (previous : Snapshot)
    (results : List Decomposed) (embedded : EmbedOutcome) : RunReport :=
  let carried := (previous.rows.filter fun r => w.plan.carried.contains r.key).length
  { filesScanned := scan.length
    filesUnchanged := w.plan.carried.length
    filesProcessed := w.pending.length
    filesRelocated := w.relocated.length
    filesSkippedEmpty := w.plan.skippedEmpty.length
    unitsCreated := (w.newRows embedded).length
    unitsCarried := carried
    rowsRemoved := previous.rows.length - carried
    parseFailures := parseFailures results
    embeddingFailures := embedded.failures.map EmbeddingFailure.text }

end Workload

end CodeIndex
