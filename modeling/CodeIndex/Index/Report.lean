/-!
# Run reports

What a run says about the files and units it dealt with.
-/

namespace CodeIndex

/-- The counts and failures of one run. -/
structure RunReport where
  filesScanned : Nat
  /-- Files carried forward as they were. -/
  filesUnchanged : Nat
  /-- Files that were decomposed, successfully or not. -/
  filesProcessed : Nat
  /-- Files whose content was already indexed elsewhere. -/
  filesRelocated : Nat
  filesSkippedEmpty : Nat
  unitsCreated : Nat
  unitsCarried : Nat
  /-- Rows of the previous snapshot that were not carried forward. -/
  rowsRemoved : Nat
  /-- A line per file that could not be decomposed, in order. -/
  parseFailures : List String
  /-- A line per unit that could not be embedded. -/
  embeddingFailures : List String
  deriving DecidableEq, Inhabited, Repr

namespace RunReport

/-- Whether any file or unit failed. -/
def hasFailures (r : RunReport) : Bool := !r.parseFailures.isEmpty || !r.embeddingFailures.isEmpty

/-- The counts of files, as users see them. -/
def filesLine (r : RunReport) : String :=
  "scanned " ++ toString r.filesScanned ++ " files: " ++ toString r.filesUnchanged
    ++ " unchanged, " ++ toString r.filesProcessed ++ " processed, " ++ toString r.filesRelocated
    ++ " relocated, " ++ toString r.filesSkippedEmpty ++ " empty"

/-- The counts of units and the run's duration, as users see them. -/
def unitsLine (r : RunReport) (millis : Nat) : String :=
  "units: " ++ toString r.unitsCreated ++ " created, " ++ toString r.unitsCarried
    ++ " carried forward, " ++ toString r.rowsRemoved ++ " rows removed (" ++ toString millis
    ++ " ms)"

/-- The whole report, as users see it. -/
def lines (r : RunReport) (millis : Nat) : List String :=
  [r.filesLine, r.unitsLine millis]
    ++ r.parseFailures.map ("parse failure: " ++ ·)
    ++ r.embeddingFailures.map ("embedding failure: " ++ ·)

end RunReport

end CodeIndex
