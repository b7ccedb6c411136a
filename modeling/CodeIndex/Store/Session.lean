import CodeIndex.FileTree
import CodeIndex.Store.Codec

/-!
# Store sessions

A session owns the snapshot file: it keeps a copy of the snapshot in memory, reads the file again on
request, and replaces it in one step.  A snapshot is first written to a temporary file, which is
then renamed into place; when any step fails the temporary file is removed and nothing else has
changed.  Reading connects to the file, and whoever connects to a database in write-ahead mode puts
it into rollback mode, whether anything can be read of it then or not.
-/

namespace CodeIndex

/-! ## §1 Readings -/

/-- The steps of a reading that can fail. -/
inductive ReadStep where
  | lookUp
  | connect
  | configure
  | readColumns
  | readRows
  | readModels
  | findIncomplete
  | readIncomplete
  deriving DecidableEq, Repr

namespace ReadStep

/-- Nothing fails by circumstance. -/
def noFault : ReadStep → Bool := fun _ => false

/-- What the system says of a step that fails. -/
def fault : ReadStep → IndexError
  | lookUp => .io "Input/output error (os error 5)"
  | _ => .database "disk I/O error"

/-- What a step yields, unless it fails by circumstance. -/
def attempt {α : Type} (step : ReadStep) (fails : ReadStep → Bool) (yields : Except IndexError α) :
    Except IndexError α :=
  if fails step then .error step.fault else yields

end ReadStep

namespace Database

/-- The table of units, if there is one with the columns that every reader needs. -/
def unitTable (db : Database) : Except IndexError Table :=
  match db.table? Snapshot.unitTable with
  | none => .error (.snapshotSchema .missingTable)
  | some t =>
    match missingColumns t with
    | [] => .ok t
    | missing => .error (.snapshotSchema (.missingColumns missing))

/-- The snapshot that a database stores, query by query. -/
def readStepwise (fails : ReadStep → Bool) (db : Database) : Except IndexError Snapshot := do
  let t ← ReadStep.readColumns.attempt fails db.unitTable
  let rows ← ReadStep.readRows.attempt fails (readRows t)
  let model ← (if t.listedNames.contains Snapshot.modelColumn then
    ReadStep.readModels.attempt fails (readModel t) else .ok none)
  let found ← ReadStep.findIncomplete.attempt fails
    (.ok (db.any fun t => t.name == Snapshot.incompleteTable))
  let incomplete ← (if found then ReadStep.readIncomplete.attempt fails (readIncomplete db)
    else .ok [])
  return ⟨rows, model, incomplete⟩

end Database

namespace FileTree.Occupant

/-- Whether something lies at the path. -/
def exists? : Occupant → Except IndexError Bool
  | nothing => .ok false
  | folder => .ok true
  | file _ => .ok true
  | blocked e => .error (.io e.message)

/-- The database at a path, as a connection sees it. -/
def database : Occupant → Except IndexError Database
  | nothing => .error (.database "unable to open database file")
  | folder => .error (.database "unable to open database file")
  | file content =>
    match content.database? with
    | some db => .ok db
    | none => .error (.database "file is not a database")
  | blocked e => .error (.io e.message)

/-- The snapshot at a path; nothing there is an empty snapshot. -/
def readSnapshot (o : Occupant) : Except IndexError Snapshot := do
  if ← o.exists? then (← o.database).readSnapshot else return .empty

/-- The database that a reading gets hold of, step by step.  No connection is made where there is
nothing. -/
def reached (fails : ReadStep → Bool) (o : Occupant) : Except IndexError (Option Database) := do
  if ← ReadStep.lookUp.attempt fails o.exists? then
    let db ← ReadStep.connect.attempt fails o.database
    let () ← ReadStep.configure.attempt fails (.ok ())
    return some db
  else return none

/-- Whether a database in write-ahead mode lies at the path. -/
def isWriteAhead : Occupant → Bool
  | file content => content.isWriteAhead
  | _ => false

/-- What lies at the path after a connection, which puts a database into rollback mode. -/
def inRollbackMode : Occupant → Occupant
  | file content => file content.inRollbackMode
  | o => o

end FileTree.Occupant

/-- The snapshot's path and the temporary file beside it. -/
structure Disk where
  target : FileTree.Occupant
  temporary : Option FileContent
  deriving Inhabited

namespace Disk

/-- The disk after a connection to what lies at the path. -/
def connected (d : Disk) : Disk := { d with target := d.target.inRollbackMode }

/-- Reads the snapshot at the path, step by step. -/
def read (fails : ReadStep → Bool) (d : Disk) : Disk × Except IndexError Snapshot :=
  match d.target.reached fails with
  | .error e => (d, .error e)
  | .ok none => (d, .ok .empty)
  | .ok (some db) => (d.connected, db.readStepwise fails)

end Disk

/-! ## §2 Writings -/

/-- The steps of a write that can fail. -/
inductive WriteStep where
  | createFolder
  | connect
  | createTables
  | insertRow (index : Nat)
  | insertIncomplete (index : Nat)
  | commitTransaction
  | close
  | rename
  deriving DecidableEq, Repr

namespace Disk

/-- The steps up to the rename, in order. -/
def stepsBefore (s : Snapshot) : List WriteStep :=
  [.connect, .createTables] ++ (List.range s.rows.length).map WriteStep.insertRow
    ++ (List.range s.incomplete.length).map WriteStep.insertIncomplete
    ++ [.commitTransaction, .close]

/-- The disk after one step on the temporary file: it is created empty and filled by the commit. -/
def afterStep (s : Snapshot) (d : Disk) : WriteStep → Disk
  | .connect => { d with temporary := some (.database []) }
  | .commitTransaction => { d with temporary := some (.database s.toDatabase) }
  | _ => d

/-- Takes the steps one after the other; `.error` holds the disk at the step that failed. -/
def takeSteps (fails : WriteStep → Bool) (s : Snapshot) : List WriteStep → Disk → Except Disk Disk
  | [], d => .ok d
  | step :: steps, d =>
    if fails step then .error (afterStep s d step)
    else takeSteps fails s steps (afterStep s d step)

/-- Renames the temporary file into place, unless a folder is there. -/
def renameIntoPlace (d : Disk) : Option Disk :=
  match d.target, d.temporary with
  | .folder, _ => none
  | .blocked _, _ => none
  | _, some content => some ⟨.file content, none⟩
  | _, none => none

/-- The disk without the temporary file. -/
def clean (d : Disk) : Disk := { d with temporary := none }

/-- Writes to the temporary file and renames it; `.error` holds the disk as the failure left it. -/
def writeThenRename (fails : WriteStep → Bool) (s : Snapshot) (d : Disk) : Except Disk Disk :=
  if fails .createFolder then .error d
  else
    match takeSteps fails s (stepsBefore s) d with
    | .error d => .error d
    | .ok d =>
      if fails .rename then .error d
      else
        match d.renameIntoPlace with
        | some d => .ok d
        | none => .error d

/-- Writes a snapshot to the path, or leaves everything as it was. -/
def write (fails : WriteStep → Bool) (path : String) (s : Snapshot) (d : Disk) :
    Disk × Except IndexError Unit :=
  match writeThenRename fails s d with
  | .ok d => (d, .ok ())
  | .error d => (d.clean, .error (.storageWrite (.failed path "write failed")))

end Disk

/-! ## §3 Sessions -/

/-- A session on one snapshot file. -/
structure StoreSession where
  memory : Snapshot
  disk : Disk
  deriving Inhabited

namespace StoreSession

/-- Opens the snapshot on a disk; a failure leaves the disk and no session. -/
def «open» (d : Disk) (fails : ReadStep → Bool := ReadStep.noFault) :
    Disk × Except IndexError StoreSession :=
  match d.read fails with
  | (d, .ok s) => (d, .ok ⟨s, d⟩)
  | (d, .error e) => (d, .error e)

/-- Reads the file again; a failure keeps the copy in memory. -/
def reload (st : StoreSession) (fails : ReadStep → Bool := ReadStep.noFault) :
    StoreSession × Except IndexError Unit :=
  match st.disk.read fails with
  | (d, .ok s) => (⟨s, d⟩, .ok ())
  | (d, .error e) => ({ st with disk := d }, .error e)

/-- Replaces the file by a snapshot and makes it the copy in memory; a failure keeps both. -/
def commit (fails : WriteStep → Bool) (path : String) (s : Snapshot) (st : StoreSession) :
    StoreSession × Except IndexError Unit :=
  match st.disk.write fails path s with
  | (d, .ok ()) => (⟨s, d⟩, .ok ())
  | (d, .error e) => ({ st with disk := d }, .error e)

/-- Commits to a path, which needs a last name for the name of the temporary file beside it. -/
def commitAt (fails : WriteStep → Bool) (path : RawPath) (s : Snapshot) (st : StoreSession) :
    StoreSession × Except IndexError Unit :=
  match FilePath.fileName? path with
  | none => (st, .error (.storageWrite (.invalidPath (Text.decodeLossy path))))
  | some _ => st.commit fails (Text.decodeLossy path) s

end StoreSession

end CodeIndex
