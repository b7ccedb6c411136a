import CodeIndex.Json.Decode
import CodeIndex.Json.Writer
import CodeIndex.Language
import CodeIndex.Number.Shortest
import CodeIndex.Unit

/-!
# Units and file records as JSON

Units and file records are structures whose members come in a fixed order; kinds and languages stand
for themselves by name.  A number that is not finite has no text and becomes a missing value.
-/

namespace CodeIndex.Json

/-! ## §1 Names -/

/-- A unit kind. -/
def asUnitKind? : Json → Option UnitKind := asName? UnitKind.ofName?

/-- A language. -/
def asLanguage? : Json → Option Language := asName? Language.ofId?

/-- The text of a unit kind. -/
def writeUnitKind (k : UnitKind) : List Char := writeString k.name

/-- The text of a language. -/
def writeLanguage (l : Language) : List Char := writeString l.id

/-! ## §2 Units -/

/-- The names of a unit's members, in order. -/
def unitFields : List String :=
  ["kind", "name", "enclosing_class", "source_text", "summary_text", "input_signature",
    "output_signature", "embedding"]

/-- A unit. -/
def asUnit? (v : Json) : Option CodeUnit := do
  match ← asFields? unitFields v with
  | [kind, name, enclosingClass, sourceText, summaryText, inputSignature, outputSignature,
      embedding] =>
    return {
      kind := ← requiredField? asUnitKind? kind
      name := ← optionalField? asText? name
      enclosingClass := ← optionalField? asText? enclosingClass
      sourceText := ← requiredField? asText? sourceText
      summaryText := ← optionalField? asText? summaryText
      inputSignature := ← optionalField? asStrings? inputSignature
      outputSignature := ← optionalField? asStrings? outputSignature
      embedding := ← optionalField? (asList? asSingle?) embedding }
  | _ => none

/-- The text of a number. -/
def writeSingle (x : Single) : List Char := x.text?.getD writeNull

/-- The text of a vector. -/
def writeEmbedding (v : Embedding) : List Char := writeArray (v.map writeSingle)

/-- The text of a unit. -/
def writeUnit (u : CodeUnit) : List Char :=
  writeObject
    [("kind", writeUnitKind u.kind),
      ("name", writeOption writeString u.name),
      ("enclosing_class", writeOption writeString u.enclosingClass),
      ("source_text", writeString u.sourceText),
      ("summary_text", writeOption writeString u.summaryText),
      ("input_signature", writeOption writeStrings u.inputSignature),
      ("output_signature", writeOption writeStrings u.outputSignature),
      ("embedding", writeOption writeEmbedding u.embedding)]

/-! ## §3 File records -/

/-- The names of a file record's members, in order. -/
def recordFields : List String := ["filepath", "checksum", "units"]

/-- A file record. -/
def asFileRecord? (v : Json) : Option FileRecord := do
  match ← asFields? recordFields v with
  | [filepath, checksum, units] =>
    return {
      filepath := ← requiredField? asText? filepath
      checksum := ← requiredField? asText? checksum
      units := ← requiredField? (asList? asUnit?) units }
  | _ => none

/-- The text of a file record. -/
def writeFileRecord (r : FileRecord) : List Char :=
  writeObject
    [("filepath", writeString r.filepath),
      ("checksum", writeString r.checksum),
      ("units", writeArray (r.units.map writeUnit))]

end CodeIndex.Json
