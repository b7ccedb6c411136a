import CodeIndex.Checksum
import CodeIndex.Snapshot

/-!
# Update plans

A plan compares a fresh scan with the previous snapshot, file by file: which files are carried
forward as they are, which are skipped because they are empty, and which have to be processed.
-/

namespace CodeIndex

/-- The outcome of comparing a scan with a snapshot. -/
structure UpdatePlan where
  /-- New and changed files, and those that are to be tried again, in the order of the scan. -/
  toProcess : List FileRecord
  /-- Checksums whose rows are being replaced, without repetition. -/
  stale : List String
  /-- File versions whose rows are kept as they are, without repetition. -/
  carried : List FileKey
  /-- Paths of files without content. -/
  skippedEmpty : List String
  /-- Whether embeddings of the previous snapshot may be used again. -/
  reuseEmbeddings : Bool
  deriving DecidableEq, Inhabited, Repr

namespace UpdatePlan

/-- A plan that neither processes a file nor replaces rows. -/
def isNoop (p : UpdatePlan) : Bool := p.toProcess.isEmpty && p.stale.isEmpty

/-- What becomes of one scanned file. -/
inductive Fate where
  | carry
  | skip
  | process
  deriving DecidableEq, Repr

/-- The checksum under which a path is known, if the snapshot may be relied on. -/
def known? (previous : Snapshot) (model : String) (filepath : String) : Option String :=
  if previous.embeddedBy model then previous.checksumOf? filepath else none

/-- What becomes of a file, given the checksum under which its path is known. -/
def fate (previous : Snapshot) (known : Option String) (file : FileRecord) : Fate :=
  if known = some file.checksum ∧ ¬ previous.isIncomplete file.key then .carry
  else if file.checksum = Checksum.empty then .skip
  else .process

/-- The plan for bringing `previous` up to date with `scan`.  A snapshot that another model embedded
counts as empty, and all its checksums are stale. -/
def make (scan : List FileRecord) (previous : Snapshot) (model : String) : UpdatePlan :=
  let known := fun file : FileRecord => known? previous model file.filepath
  let fateOf := fun file => fate previous (known file) file
  let replaced := (scan.filter fun file => fateOf file != .carry).filterMap known
  let reuse := previous.embeddedBy model
  { toProcess := scan.filter fun file => fateOf file == .process
    stale := if reuse then replaced.eraseDups else previous.checksums
    carried := ((scan.filter fun file => fateOf file == .carry).map FileRecord.key).eraseDups
    skippedEmpty := (scan.filter fun file => fateOf file == .skip).map FileRecord.filepath
    reuseEmbeddings := reuse }

end UpdatePlan

end CodeIndex
