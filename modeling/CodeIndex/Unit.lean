import CodeIndex.Number.Single

/-!
# Code units

A code unit is one semantic block of a source file: a function, a method, a class, or the code that
no declaration covers.  A file record is a tracked file with its content checksum and its units.
-/

namespace CodeIndex

/-- What a code unit is. -/
inductive UnitKind where
  | function
  | method
  | «class»
  /-- The code outside all declarations of a file. -/
  | global
  deriving DecidableEq, Inhabited, Repr

namespace UnitKind

/-- The name under which a kind is stored. -/
def name : UnitKind → String
  | function => "function"
  | method => "method"
  | «class» => "class"
  | global => "global"

/-- The kind stored under a name. -/
def ofName? : String → Option UnitKind
  | "function" => some function
  | "method" => some method
  | "class" => some «class»
  | "global" => some global
  | _ => none

/-- What is said of a text that names no kind. -/
def unknownMessage (text : String) : String := "unknown unit kind: " ++ text

/-- A kind is found by its name. -/
@[simp] theorem ofName?_name (k : UnitKind) : ofName? k.name = some k := by
  cases k <;> rfl

end UnitKind

/-- One semantic block of source code. -/
structure CodeUnit where
  kind : UnitKind
  name : Option String
  /-- The class of a method. -/
  enclosingClass : Option String
  sourceText : String
  /-- For a class, a listing of its methods' signatures. -/
  summaryText : Option String
  /-- Parameters of a function or method; base classes of a class. -/
  inputSignature : Option (List String)
  outputSignature : Option (List String)
  /-- Present once the unit has been embedded. -/
  embedding : Option Embedding
  deriving DecidableEq, Inhabited, Repr

namespace CodeUnit

/-- The unit for code outside all declarations. -/
def ofGlobalCode (sourceText : String) : CodeUnit where
  kind := .global
  name := none
  enclosingClass := none
  sourceText := sourceText
  summaryText := none
  inputSignature := none
  outputSignature := none
  embedding := none

/-- The base classes of a class unit. -/
def parents (u : CodeUnit) : Option (List String) :=
  match u.kind with
  | .class => u.inputSignature
  | _ => none

/-- The name, after the enclosing class and a point if there is one. -/
def qualifiedName (u : CodeUnit) : Option String :=
  u.name.map fun name =>
    match u.enclosingClass with
    | some c => c ++ "." ++ name
    | none => name

/-- How reports refer to the unit: its qualified name, or its kind if it has no name. -/
def label (u : CodeUnit) : String := u.qualifiedName.getD u.kind.name

/-- The unit without its embedding. -/
def erase (u : CodeUnit) : CodeUnit := { u with embedding := none }

/-- Equality with embeddings compared as numbers. -/
def sameContent (a b : CodeUnit) : Bool :=
  decide (a.erase = b.erase) &&
    match a.embedding, b.embedding with
    | none, none => true
    | some v, some w => v.sameNumbers w
    | _, _ => false

end CodeUnit

/-- A tracked file: its path below the root, the checksum of its content and its units. -/
structure FileRecord where
  filepath : String
  checksum : String
  units : List CodeUnit
  deriving DecidableEq, Inhabited, Repr

namespace FileRecord

/-- A file whose units are not known yet. -/
def bare (filepath checksum : String) : FileRecord := ⟨filepath, checksum, []⟩

/-- What identifies one version of one file. -/
def key (r : FileRecord) : String × String := (r.filepath, r.checksum)

end FileRecord

end CodeIndex
