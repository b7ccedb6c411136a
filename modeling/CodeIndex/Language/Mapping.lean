import CodeIndex.Language

/-!
# Grammar mappings

Which node kinds of a grammar carry meaning for the decomposition of a source file.  Supporting a
language takes one row of this table.
-/

namespace CodeIndex

/-- The node kinds that carry meaning in one grammar; `none` where the grammar has no such
construct. -/
structure Mapping where
  function : String
  class? : Option String
  method? : Option String
  /-- The node that holds a class's members. -/
  classBody? : Option String
  /-- The node that lists a class's bases. -/
  parentClause? : Option String
  /-- A base given by a plain name. -/
  parentName? : Option String
  /-- Bases given by a qualified name, taken whole. -/
  parentPaths : List String
  /-- Entries of the parent clause whose own children name the bases. -/
  parentGroups : List String
  parameters? : Option String
  /-- The node of a return type. -/
  output? : Option String
  /-- The field of a return type, for grammars without a node of its own for it. -/
  outputField? : Option String
  /-- The node of a function's name. -/
  name : String
  /-- The node of a class's name. -/
  className : String
  /-- A further node kind for the name of a method. -/
  methodName? : Option String
  /-- Nodes that are looked through in the search for declarations. -/
  wrappers : List String
  deriving DecidableEq, Inhabited, Repr

namespace Mapping

/-- Methods of a class are functions in its block. -/
def python : Mapping where
  function := "function_definition"
  class? := "class_definition"
  method? := "function_definition"
  classBody? := "block"
  parentClause? := "argument_list"
  parentName? := "identifier"
  parentPaths := ["attribute"]
  parentGroups := []
  parameters? := "parameters"
  output? := "type"
  outputField? := none
  name := "identifier"
  className := "identifier"
  methodName? := "identifier"
  wrappers := ["decorated_definition"]

/-- No type annotations, so no return type. -/
def javaScript : Mapping where
  function := "function_declaration"
  class? := "class_declaration"
  method? := "method_definition"
  classBody? := "class_body"
  parentClause? := "class_heritage"
  parentName? := "identifier"
  parentPaths := ["member_expression"]
  parentGroups := []
  parameters? := "formal_parameters"
  output? := none
  outputField? := none
  name := "identifier"
  className := "identifier"
  methodName? := "property_identifier"
  wrappers := ["export_statement"]

/-- Bases stand inside an extends clause of the heritage node. -/
def typeScript : Mapping where
  function := "function_declaration"
  class? := "class_declaration"
  method? := "method_definition"
  classBody? := "class_body"
  parentClause? := "class_heritage"
  parentName? := "identifier"
  parentPaths := ["member_expression"]
  parentGroups := ["extends_clause"]
  parameters? := "formal_parameters"
  output? := "type_annotation"
  outputField? := none
  name := "identifier"
  className := "type_identifier"
  methodName? := "property_identifier"
  wrappers := ["export_statement"]

/-- The return type is a field, whatever its node kind. -/
def php : Mapping where
  function := "function_definition"
  class? := "class_declaration"
  method? := "method_declaration"
  classBody? := "declaration_list"
  parentClause? := "base_clause"
  parentName? := "name"
  parentPaths := ["qualified_name"]
  parentGroups := []
  parameters? := "formal_parameters"
  output? := none
  outputField? := "return_type"
  name := "name"
  className := "name"
  methodName? := "name"
  wrappers := []

/-- No classes: methods are top-level declarations and come out as functions. -/
def go : Mapping where
  function := "function_declaration"
  class? := none
  method? := "method_declaration"
  classBody? := none
  parentClause? := none
  parentName? := none
  parentPaths := []
  parentGroups := []
  parameters? := "parameter_list"
  output? := none
  outputField? := "result"
  name := "identifier"
  className := "type_identifier"
  methodName? := "field_identifier"
  wrappers := []

/-- Whether a node kind declares a unit at the top level of a file. -/
def isTopLevel (m : Mapping) (kind : String) : Bool :=
  kind == m.function || m.class? == some kind || m.method? == some kind

end Mapping

/-- The mapping of a language's grammar. -/
def Language.mapping : Language → Mapping
  | python => .python
  | javaScript => .javaScript
  | typeScript => .typeScript
  | tsx => .typeScript
  | php => .php
  | go => .go

end CodeIndex
