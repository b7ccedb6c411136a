import CodeIndex.Unit

/-!
# Snapshots

A snapshot is the table of all indexed units as of the last successful run, one row per unit with
its file's path and checksum.  Rows are ordered by path and the units of one file keep their order.
-/

namespace CodeIndex

/-- What identifies one version of one file: its path and its checksum. -/
abbrev FileKey := String × String

/-- One unit with its file's path and checksum. -/
structure SnapshotRow where
  filepath : String
  checksum : String
  unit : CodeUnit
  deriving DecidableEq, Inhabited, Repr

namespace SnapshotRow

/-- The version of the file that the row belongs to. -/
def key (r : SnapshotRow) : FileKey := (r.filepath, r.checksum)

/-- Equality with embeddings compared as numbers. -/
def sameContent (a b : SnapshotRow) : Bool :=
  decide (a.key = b.key) && a.unit.sameContent b.unit

end SnapshotRow

/-- All indexed units. -/
structure Snapshot where
  rows : List SnapshotRow
  /-- The model that produced every embedding; `none` if there are no rows or they disagree. -/
  model : Option String
  /-- The file versions that lost a unit to a failed embedding, without repetition. -/
  incomplete : List FileKey
  deriving DecidableEq, Inhabited, Repr

namespace Snapshot

/-- The snapshot without rows. -/
def empty : Snapshot := ⟨[], none, []⟩

/-- A snapshot with these rows and nothing else. -/
def ofRows (rows : List SnapshotRow) : Snapshot := ⟨rows, none, []⟩

/-- Tags the rows with the model that embedded them; a snapshot without rows stays untagged. -/
def withModel (s : Snapshot) (model : String) : Snapshot :=
  { s with model := if s.rows.isEmpty then none else some model }

/-- Replaces the incomplete file versions. -/
def withIncomplete (s : Snapshot) (files : List FileKey) : Snapshot :=
  { s with incomplete := files.eraseDups }

/-- Whether every row was embedded by `model`; true of a snapshot without rows. -/
def embeddedBy (s : Snapshot) (model : String) : Bool :=
  s.rows.isEmpty || s.model == some model

/-- Whether a file version lost a unit to a failed embedding. -/
def isIncomplete (s : Snapshot) (key : FileKey) : Bool := s.incomplete.contains key

/-- The rows of one file record. -/
def rowsOfRecord (r : FileRecord) : List SnapshotRow :=
  r.units.map fun u => ⟨r.filepath, r.checksum, u⟩

/-- The rows of several file records in order. -/
def rowsOfRecords (records : List FileRecord) : List SnapshotRow :=
  records.flatMap rowsOfRecord

/-- The snapshot of several file records. -/
def ofRecords (records : List FileRecord) : Snapshot := ofRows (rowsOfRecords records)

/-- Every checksum that has a row, without repetition. -/
def checksums (s : Snapshot) : List String := (s.rows.map SnapshotRow.checksum).eraseDups

/-- The checksum of a path: that of its last row. -/
def checksumOf? (s : Snapshot) (filepath : String) : Option String :=
  (s.rows.reverse.find? fun r => r.filepath == filepath).map SnapshotRow.checksum

/-- Every path that has a row, without repetition. -/
def paths (s : Snapshot) : List String := (s.rows.map SnapshotRow.filepath).eraseDups

/-- Every path with its checksum. -/
def pathChecksums (s : Snapshot) : List FileKey :=
  s.paths.filterMap fun p => (s.checksumOf? p).map fun c => (p, c)

/-- The rows whose unit has this name, bare or qualified. -/
def findByName (s : Snapshot) (name : String) : List SnapshotRow :=
  s.rows.filter fun r => r.unit.name == some name || r.unit.qualifiedName == some name

/-- The units of the first complete file with this checksum, if every one of them is embedded. -/
def embeddedUnits? (s : Snapshot) (checksum : String) : Option (List CodeUnit) :=
  (s.rows.find? fun r => r.checksum == checksum && !s.isIncomplete r.key).bind fun first =>
    let units := (s.rows.filter fun r => decide (r.key = first.key)).map SnapshotRow.unit
    if units.all fun u => u.embedding.isSome then some units else none

/-- Puts a row in front of the records of the rows after it. -/
def consRecord (r : SnapshotRow) : List FileRecord → List FileRecord
  | [] => [⟨r.filepath, r.checksum, [r.unit]⟩]
  | f :: fs =>
    if f.key = r.key then { f with units := r.unit :: f.units } :: fs
    else ⟨r.filepath, r.checksum, [r.unit]⟩ :: f :: fs

/-- The rows regrouped into file records: neighbours of one file version share a record. -/
def files (s : Snapshot) : List FileRecord := s.rows.foldr consRecord []

/-- Rows in the order of their paths; rows of one path keep their order. -/
def sortRows (rows : List SnapshotRow) : List SnapshotRow :=
  rows.mergeSort fun a b => decide (a.filepath ≤ b.filepath)

/-- The rows of the next snapshot: the previous rows of the file versions carried forward and the
new rows, in the order of their paths. -/
def merge (previous : Snapshot) (carried : List FileKey) (newRows : List SnapshotRow) : Snapshot :=
  ofRows (sortRows (previous.rows.filter (fun r => carried.contains r.key) ++ newRows))

/-- Equality with embeddings compared as numbers and the incomplete file versions as a set. -/
def sameContent (a b : Snapshot) : Bool :=
  a.rows.length == b.rows.length
    && (a.rows.zip b.rows).all (fun (x, y) => x.sameContent y)
    && a.model == b.model
    && a.incomplete.all b.incomplete.contains && b.incomplete.all a.incomplete.contains

end Snapshot

end CodeIndex
