import CodeIndex.FilePath

/-!
# Languages

The languages whose files are indexed, and how a file's extension tells its language.
-/

namespace CodeIndex

/-- A language with a grammar. -/
inductive Language where
  | python
  | javaScript
  | typeScript
  | tsx
  | php
  | go
  deriving DecidableEq, Inhabited, Repr

namespace Language

/-- The name of a language in settings and reports. -/
def id : Language → String
  | python => "python"
  | javaScript => "javascript"
  | typeScript => "typescript"
  | tsx => "tsx"
  | php => "php"
  | go => "go"

/-- The language of a name. -/
def ofId? : String → Option Language
  | "python" => some python
  | "javascript" => some javaScript
  | "typescript" => some typeScript
  | "tsx" => some tsx
  | "php" => some php
  | "go" => some go
  | _ => none

/-- A language is found by its name. -/
@[simp] theorem ofId?_id (l : Language) : ofId? l.id = some l := by
  cases l <;> rfl

/-- The extensions of a language's files. -/
def extensions : Language → List String
  | python => ["py", "pyi"]
  | javaScript => ["js", "jsx", "mjs", "cjs"]
  | typeScript => ["ts", "mts", "cts"]
  | tsx => ["tsx"]
  | php => ["php"]
  | go => ["go"]

/-- Every language. -/
def all : List Language := [python, javaScript, typeScript, tsx, php, go]

/-- The language that claims an extension. -/
def ofExtension? (ext : RawName) : Option Language :=
  all.find? fun l => l.extensions.any fun e => Text.octets e == ext

/-- The language of a file with this name. -/
def ofFileName? (name : RawName) : Option Language :=
  (FilePath.nameExtension? name).bind ofExtension?

/-- The language of the file at a path. -/
def ofPath? (path : RawPath) : Option Language :=
  (FilePath.extension? path).bind ofExtension?

/-- Whether the file at a path is indexed: its language is known, and every known language has a
grammar. -/
def isIndexable (path : RawPath) : Bool := (ofPath? path).isSome

end Language

end CodeIndex
