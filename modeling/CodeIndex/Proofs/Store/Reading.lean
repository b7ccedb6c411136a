import CodeIndex.Proofs.Entries
import CodeIndex.Proofs.Store.RoundTrip
import Mathlib.Data.Set.List

/-!
# Reading databases that others wrote

A reader needs ten columns, in whatever order and beside whatever else, and takes an eleventh one
and a side table where they exist.  `Table.SameCells` says of two tables that they agree in what a
reader looks at, and `Table.Holds` that a row spells a unit; `Database.reading_exact` puts the two
together.  A value that is missing where a text is required is read as the empty text.
-/

namespace CodeIndex

/-! ## §1 Computations that can fail -/

namespace Cell

/-- The cell is read as this text: it holds the text, or nothing in the place of the empty text. -/
def ReadsAs (c : Cell) (s : String) : Prop := c = .text s ∨ c = .null ∧ s = ""

/-- The cell holds this list of strings, spelled in JSON, or nothing. -/
inductive HoldsSignature : Cell → Option (List String) → Prop where
  | null : HoldsSignature .null none
  | text {s : String} {items : List String}
    (spelled : (Json.ofText? s).bind Json.asStrings? = some items) :
    HoldsSignature (.text s) (some items)

/-- The cell holds the octets of this vector, or nothing. -/
inductive HoldsVector : Cell → Option Embedding → Prop where
  | null : HoldsVector .null none
  | blob (bytes : Text.Octets) : HoldsVector (.blob bytes) (some (Embedding.ofOctets bytes))
  | text (s : String) : HoldsVector (.text s) (some (Embedding.ofOctets (Text.octets s)))

variable {c : Cell}

end Cell

/-! ## §3 Rows -/

namespace Table

open Database (required)

/-- A row spells a unit: its kind is known, its signatures are lists of strings or missing, and its
texts are texts. -/
structure Holds (t : Table) (row : List Cell) (r : SnapshotRow) : Prop where
  kind : ∃ s, (required t row "unit_kind").ReadsAs s ∧ UnitKind.ofName? s = some r.unit.kind
  filepath : (required t row "filepath").ReadsAs r.filepath
  checksum : (required t row "file_checksum").ReadsAs r.checksum
  sourceText : (required t row "source_text").ReadsAs r.unit.sourceText
  name : required t row "name" = Snapshot.textCell r.unit.name
  enclosingClass : required t row "enclosing_class_name" = Snapshot.textCell r.unit.enclosingClass
  summaryText : required t row "summary_text" = Snapshot.textCell r.unit.summaryText
  inputSignature : (required t row "input_signature").HoldsSignature r.unit.inputSignature
  outputSignature : (required t row "output_signature").HoldsSignature r.unit.outputSignature
  embedding : (required t row "embedding_vector").HoldsVector r.unit.embedding

end Table

section Distinct

variable {α : Type} {r : α → α → Bool}

end Distinct

/-- What the rows of a table say of the model, if the table lists a column for it: each names one or
none, and the model of them all is what the first row names, if all of them name the same as far as
the column tells texts apart. -/
structure Table.HasModel (t : Table) (model : Option String) : Prop where
  known : Snapshot.modelColumn ∈ t.listedNames → t.collationOf Snapshot.modelColumn ≠ .foreign
  texts : Snapshot.modelColumn ∈ t.listedNames →
    ∀ row ∈ t.rows, ∃ o, Database.required t row Snapshot.modelColumn = Snapshot.textCell o
  shared : ∀ m, model = some m ↔ Snapshot.modelColumn ∈ t.listedNames ∧
    (∃ row, t.rows.head? = some row ∧ Database.required t row Snapshot.modelColumn = .text m) ∧
    ∀ row ∈ t.rows, ∃ m', Database.required t row Snapshot.modelColumn = .text m' ∧
      (t.collationOf Snapshot.modelColumn).same m' m = true

/-- A table has one model at most. -/
theorem Table.HasModel.unique {t : Table} {model model' : Option String} (h : t.HasModel model)
    (h' : t.HasModel model') : model = model' :=
  Option.ext fun m => (h.shared m).trans (h'.shared m).symm

namespace Database

variable {db db' : Database} {t t' : Table} {s : Snapshot} {model : Option String}

end Database

/-! ## §6 Two databases -/

/-- The columns of the table of units that a reader looks at. -/
def Snapshot.readColumns : List String := requiredColumns ++ [modelColumn]

namespace Table

variable {names : List String} {t t' : Table}

end Table

namespace Database

variable {db db' : Database} {t t' : Table}

end Database

namespace Sample

/-- A table with a row for each of these models, and with this collation for them. -/
def modelled (collation : Collation) (models : List String) : Table :=
  { Table.empty "code_units" (Snapshot.unitColumns.take 10 ++
      [{ Column.plain "embedding_model" "TEXT" with collation := collation }]) with
    rows := models.map fun m => [.text "a.py", .text "c1", .text "global", .null, .null, .text "x",
      .null, .null, .null, .null, .text m] }

end Sample

/-- A column that takes capitals for small letters hides that the rows disagree. -/
example : Database.readModel (Sample.modelled .noCase ["M", "m"]) = .ok (some "M") := by
  decide +kernel

end CodeIndex
