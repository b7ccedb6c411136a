import CodeIndex.Error
import CodeIndex.Json.Decode
import CodeIndex.Json.Writer
import CodeIndex.Snapshot
import CodeIndex.Store.Database

/-!
# Snapshots as databases

A snapshot is stored as one flat table of units, each row tagged with the model that embedded it,
and a side table of incomplete files.  Signatures are JSON lists of strings and embeddings are runs
of little-endian octets.  `Snapshot.toDatabase` writes and `Database.readSnapshot` reads; the reader
also accepts foreign databases that have at least the required columns.
-/

namespace CodeIndex

/-! ## §1 Writing -/

namespace Snapshot

/-- The name of the table of units. -/
def unitTable : String := "code_units"

/-- The name of the table of incomplete files. -/
def incompleteTable : String := "incomplete_files"

/-- The columns that every reader needs. -/
def requiredColumns : List String :=
  ["filepath", "file_checksum", "unit_kind", "name", "enclosing_class_name", "source_text",
    "summary_text", "input_signature", "output_signature", "embedding_vector"]

/-- The column of the model's name, which older databases lack. -/
def modelColumn : String := "embedding_model"

/-- The columns of the table of units. -/
def unitColumns : List Column :=
  [.plain "filepath" "TEXT", .plain "file_checksum" "TEXT", .plain "unit_kind" "TEXT",
    .plain "name" "TEXT", .plain "enclosing_class_name" "TEXT", .plain "source_text" "TEXT",
    .plain "summary_text" "TEXT", .plain "input_signature" "TEXT", .plain "output_signature" "TEXT",
    .plain "embedding_vector" "BLOB", .plain "embedding_model" "TEXT"]

/-- The columns of the table of incomplete files. -/
def incompleteColumns : List Column := [.plain "filepath" "TEXT", .plain "file_checksum" "TEXT"]

/-- A text that may be missing. -/
def textCell : Option String → Cell
  | some s => .text s
  | none => .null

/-- A signature that may be missing. -/
def signatureCell (s : Option (List String)) : Cell :=
  textCell (s.map fun items => String.ofList (Json.writeStrings items))

/-- A vector that may be missing. -/
def embeddingCell : Option Embedding → Cell
  | some v => .blob v.toOctets
  | none => .null

/-- The cells of a row. -/
def rowCells (model : Option String) (r : SnapshotRow) : List Cell :=
  [.text r.filepath, .text r.checksum, .text r.unit.kind.name, textCell r.unit.name,
    textCell r.unit.enclosingClass, .text r.unit.sourceText, textCell r.unit.summaryText,
    signatureCell r.unit.inputSignature, signatureCell r.unit.outputSignature,
    embeddingCell r.unit.embedding, textCell model]

/-- The database that stores a snapshot. -/
def toDatabase (s : Snapshot) : Database :=
  [(s.rows.map (rowCells s.model)).foldl Table.insert (.empty unitTable unitColumns),
    (s.incomplete.map fun (p, c) => [Cell.text p, Cell.text c]).foldl Table.insert
      (.empty incompleteTable incompleteColumns)]

end Snapshot

/-! ## §2 Reading cells -/

namespace Cell

/-- A cell read as a text: a missing value is empty, and numbers and blobs are refused. -/
def asText : Cell → Except IndexError String
  | .text s => .ok s
  | .null => .ok ""
  | _ => .error (.database "mismatched types")

/-- A cell read as a text that may be missing. -/
def asOptionalText : Cell → Except IndexError (Option String)
  | .null => .ok none
  | c => c.asText.map some

/-- A cell read as octets that may be missing: blobs and texts have octets. -/
def asOptionalOctets : Cell → Except IndexError (Option Text.Octets)
  | .null => .ok none
  | .blob bytes => .ok (some bytes)
  | .text s => .ok (some (Text.octets s))
  | _ => .error (.database "mismatched types")

end Cell

/-- A signature read from its text. -/
def signatureOfText (text : Option String) : Except IndexError (Option (List String)) :=
  match text with
  | none => .ok none
  | some s =>
    match (Json.ofText? s).bind Json.asStrings? with
    | some items => .ok (some items)
    | none => .error (.json "not a list of strings")

/-! ## §3 Reading a snapshot -/

namespace Database

/-- The cell of a required column. -/
def required (t : Table) (row : List Cell) (column : String) : Cell :=
  (t.cell? row column).getD .null

/-- A row of the table of units. -/
def readRow (t : Table) (row : List Cell) : Except IndexError SnapshotRow := do
  let cell := required t row
  let kindText ← (cell "unit_kind").asText
  let kind ← match UnitKind.ofName? kindText with
    | some kind => .ok kind
    | none => .error (.snapshotSchema (.unknownKind kindText))
  let inputText ← (cell "input_signature").asOptionalText
  let outputText ← (cell "output_signature").asOptionalText
  let vector ← (cell "embedding_vector").asOptionalOctets
  let filepath ← (cell "filepath").asText
  let checksum ← (cell "file_checksum").asText
  let name ← (cell "name").asOptionalText
  let enclosingClass ← (cell "enclosing_class_name").asOptionalText
  let sourceText ← (cell "source_text").asText
  let summaryText ← (cell "summary_text").asOptionalText
  let inputSignature ← signatureOfText inputText
  let outputSignature ← signatureOfText outputText
  return ⟨filepath, checksum, kind, name, enclosingClass, sourceText, summaryText,
    inputSignature, outputSignature, vector.map Embedding.ofOctets⟩

/-- The rows of the table of units, in the order of `rowid`. -/
def readRows (t : Table) : Except IndexError (List SnapshotRow) :=
  if t.numbered then t.rows.mapM (readRow t) else .error (.database "no such column: rowid")

/-- The required columns that a table does not list, in their order. -/
def missingColumns (t : Table) : List String :=
  Snapshot.requiredColumns.filter fun c => !t.listedNames.contains c

/-- The different values of a column, each as it comes first; which are different is for the
collation of the column to say. -/
def distinctCells (t : Table) (column : String) : List Cell :=
  (t.rows.map fun row => required t row column).eraseDupsBy (Cell.same (t.collationOf column))

/-- The model of a table's rows: what all of them hold, if they hold the same. -/
def readModel (t : Table) : Except IndexError (Option String) :=
  if t.collationOf Snapshot.modelColumn = .foreign then
    .error (.database "no such collation sequence")
  else do
    let models ← (distinctCells t Snapshot.modelColumn).mapM Cell.asOptionalText
    match models with
    | [model] => return model
    | _ => return none

/-- A row of the table of incomplete files. -/
def readIncompleteRow (t : Table) (row : List Cell) : Except IndexError FileKey := do
  match t.cell? row "filepath", t.cell? row "file_checksum" with
  | some p, some c => return (← p.asText, ← c.asText)
  | _, _ => .error (.database "no column found for name")

/-- The incomplete files; none if there is no table of that exact name.  The table must have both
columns, in whatever case, and in the exact case as soon as it has a row. -/
def readIncomplete (db : Database) : Except IndexError (List FileKey) :=
  match db.find? fun t => t.name == Snapshot.incompleteTable with
  | none => .ok []
  | some t =>
    let has := fun name => t.columnNames.any (sameIgnoringCase name)
    if has "filepath" && has "file_checksum" then
      (t.rows.mapM (readIncompleteRow t)).map List.eraseDups
    else .error (.database "no such column")

/-- The snapshot that a database stores. -/
def readSnapshot (db : Database) : Except IndexError Snapshot := do
  match db.table? Snapshot.unitTable with
  | none => .error (.snapshotSchema .missingTable)
  | some t =>
    match missingColumns t with
    | [] =>
      let rows ← readRows t
      let model ← if t.listedNames.contains Snapshot.modelColumn then readModel t else .ok none
      let incomplete ← readIncomplete db
      return ⟨rows, model, incomplete⟩
    | missing => .error (.snapshotSchema (.missingColumns missing))

end Database

end CodeIndex
