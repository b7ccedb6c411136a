import CodeIndex.Decomposition.Leftover
import CodeIndex.Language.Mapping
import CodeIndex.SyntaxTree.Cursor
import CodeIndex.SyntaxTree.Position
import CodeIndex.Unit

/-!
# Decomposition

A source file falls into its functions, its classes, each followed by its methods, and last the code
that none of the top-level declarations takes.  The syntax tree says where the declarations are and
the grammar's mapping which nodes count.
-/

namespace CodeIndex

namespace Decomposition

/-! ## §1 Finding declarations -/

mutual

/-- The tree itself if its kind is accepted; otherwise, if it is a wrapper, the first accepted
declaration reached through its structural children. -/
def findDeclaration (wrappers : List String) (accept : String → Bool) :
    SyntaxTree → Option SyntaxTree
  | .node i cs =>
    if accept i.kind then some (.node i cs)
    else if wrappers.contains i.kind then findAmong wrappers accept cs
    else none

/-- The first accepted declaration among the structural trees of a list. -/
def findAmong (wrappers : List String) (accept : String → Bool) :
    List SyntaxTree → Option SyntaxTree
  | [] => none
  | t :: ts =>
    match (if t.isStructural then findDeclaration wrappers accept t else none) with
    | some found => some found
    | none => findAmong wrappers accept ts

end

/-! ## §2 Functions and methods -/

section Functions

variable (source : Text.Octets) (m : Mapping)

/-- The source text of a tree. -/
def textOf (t : SyntaxTree) : String := t.info.text source

/-- The texts of the structural children. -/
def childTexts (t : SyntaxTree) : List String := t.namedChildren.map (textOf source)

/-- The name of a function or method. -/
def functionName? (t : SyntaxTree) : Option String :=
  (t.namedChildren.find? fun c => c.kind == m.name || m.methodName? == some c.kind).map
    (textOf source)

/-- The parameter list: the field of that name if it has the right kind, since the receiver of a
method may be a parameter list too; else the first structural child of that kind. -/
def parameterList? (t : SyntaxTree) (kind : String) : Option SyntaxTree :=
  match (t.childByField? "parameters").filter fun p => p.kind == kind with
  | some p => some p
  | none => t.namedChildren.find? fun c => c.kind == kind

/-- The return type: a structural child of the mapping's kind, else the field it names. -/
def outputNode? (t : SyntaxTree) : Option SyntaxTree :=
  match m.output?.bind fun kind => t.namedChildren.find? fun c => c.kind == kind with
  | some out => some out
  | none => m.outputField?.bind t.childByField?

/-- The parts of a return type, or the whole of it if it has none. -/
def outputTexts (out : SyntaxTree) : List String :=
  match childTexts source out with
  | [] => [textOf source out]
  | parts => parts

/-- The unit of a function, or of a method of `enclosingClass`. -/
def functionUnit (t : SyntaxTree) (kind : UnitKind) (enclosingClass : Option String) :
    CodeUnit where
  kind := kind
  name := functionName? source m t
  enclosingClass := enclosingClass
  sourceText := textOf source t
  summaryText := none
  inputSignature := m.parameters?.bind fun kind =>
    (parameterList? t kind).map (childTexts source)
  outputSignature := (outputNode? m t).map (outputTexts source)
  embedding := none

/-! ## §3 Classes -/

/-- A base of a class: a plain name or a qualified one, and nothing else. -/
def parentName? (t : SyntaxTree) : Option String :=
  if m.parentName? = some t.kind ∨ m.parentPaths.contains t.kind then some (textOf source t)
  else none

/-- The bases that one entry of the parent clause names. -/
def parentsOfEntry (entry : SyntaxTree) : List String :=
  if m.parentGroups.contains entry.kind then
    entry.namedChildren.filterMap (parentName? source m)
  else (parentName? source m entry).toList

/-- The bases of a class, `none` if it names none. -/
def parentNames (t : SyntaxTree) : Option (List String) :=
  m.parentClause?.bind fun clauseKind =>
    (t.namedChildren.find? fun c => c.kind == clauseKind).bind fun clause =>
      let names := clause.namedChildren.flatMap (parentsOfEntry source m)
      if names = [] then none else some names

/-- The methods declared in the members of a class body. -/
def methodsOf (body : SyntaxTree) (methodKind : String) (className : Option String) :
    List CodeUnit :=
  body.namedChildren.filterMap fun member =>
    (findDeclaration m.wrappers (· == methodKind) member).map fun t =>
      functionUnit source m t .method className

/-- The methods of a class. -/
def classMethods (t : SyntaxTree) (className : Option String) : List CodeUnit :=
  match m.classBody?, m.method? with
  | some bodyKind, some methodKind =>
    match t.namedChildren.find? fun c => c.kind == bodyKind with
    | some body => methodsOf source m body methodKind className
    | none => []
  | _, _ => []

/-- A signature in a class summary. -/
def signatureText : Option (List String) → String
  | none => "None"
  | some items => "(" ++ ", ".intercalate items ++ ")"

/-- What stands for a name that is missing. -/
def nameOrAnonymous (name : Option String) : String := name.getD "<anonymous>"

/-- The three lines of a method in a class summary. -/
def methodSummary (u : CodeUnit) : String :=
  "    method: " ++ nameOrAnonymous u.name ++ "\n"
    ++ "        input parameters: " ++ signatureText u.inputSignature ++ "\n"
    ++ "        output parameters: " ++ signatureText u.outputSignature ++ "\n"

/-- The listing of a class: its name, its bases and its methods' signatures. -/
def classSummary (name : Option String) (parents : Option (List String))
    (methods : List CodeUnit) : String :=
  "class: " ++ nameOrAnonymous name ++ "\n"
    ++ "    parent classes: " ++ signatureText parents ++ "\n"
    ++ String.join (methods.map methodSummary)

/-- The name of a class. -/
def className? (t : SyntaxTree) : Option String :=
  (t.namedChildren.find? fun c => c.kind == m.className).map (textOf source)

/-- The unit of a class, followed by its methods. -/
def classUnits (t : SyntaxTree) : List CodeUnit :=
  let name := className? source m t
  let parents := parentNames source m t
  let methods := classMethods source m t name
  { kind := .class
    name := name
    enclosingClass := none
    sourceText := textOf source t
    summaryText := some (classSummary name parents methods)
    inputSignature := parents
    outputSignature := none
    embedding := none } :: methods

/-! ## §4 Whole files -/

/-- The declarations at the top level of a file, in order. -/
def declarations (root : SyntaxTree) : List SyntaxTree :=
  root.namedChildren.filterMap (findDeclaration m.wrappers m.isTopLevel)

/-- The units of one top-level declaration. -/
def declarationUnits (t : SyntaxTree) : List CodeUnit :=
  if m.class? = some t.kind then classUnits source m t
  else [functionUnit source m t .function none]

end Functions

/-- The units of a file with this syntax tree: those of its declarations in order, then the code
left over. -/
def ofTree (source : String) (root : SyntaxTree) (m : Mapping) : List CodeUnit :=
  let bytes := Text.octets source
  let found := declarations m root
  let spans := found.map fun t => t.info.rowSpan bytes
  found.flatMap (declarationUnits bytes m)
    ++ ((Leftover.leftoverCode source spans).map CodeUnit.ofGlobalCode).toList

/-- Why a file has no decomposition: where its syntax goes wrong. -/
structure SyntaxFault where
  position : Position
  deriving DecidableEq, Repr

/-- The wording of a fault; rows and columns are counted from one. -/
def SyntaxFault.message (f : SyntaxFault) : String :=
  "syntax error at line " ++ toString (f.position.row + 1)
    ++ ", column " ++ toString (f.position.column + 1)

/-- The units of a file, unless its syntax tree has an error or missing node. -/
def ofParse (source : String) (root : SyntaxTree) (language : Language) :
    Except SyntaxFault (List CodeUnit) :=
  if root.info.hasError then
    let offset := (root.firstFault?.map NodeInfo.start).getD root.info.start
    .error ⟨Position.ofOffset (Text.octets source) offset⟩
  else .ok (ofTree source root language.mapping)

/-- A quick check of a piece of code: neither the root nor the last node below it is an error
node. -/
def looksValid (root : SyntaxTree) : Bool :=
  !root.info.isError && (root.children.getLast?.all fun t => !t.info.isError)

end Decomposition

end CodeIndex
