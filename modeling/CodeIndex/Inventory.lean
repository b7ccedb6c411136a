import CodeIndex.Embedding.Chunk
import CodeIndex.Json.Decode
import CodeIndex.Language
import CodeIndex.Provider
import CodeIndex.SyntaxTree.Outline

/-!
# Inventories

The grammars, the tokenizer and the provider are programs of their own.  What they have to say about
one run stands in an inventory, one JSON document per line: the files with their syntax trees, and
texts with their tokens and vectors.  An inventory then stands in for all of them.
-/

namespace CodeIndex

/-- A file of the repository. -/
structure ListedFile where
  path : String
  tree : Option SyntaxTree
  deriving Inhabited

/-- A text that requests may carry. -/
structure ListedText where
  text : String
  /-- The octets of each token. -/
  tokens : List Nat
  vector : Option Embedding
  deriving Inhabited

/-- What is known about one run. -/
structure Inventory where
  files : List ListedFile
  texts : List ListedText
  deriving Inhabited

namespace Inventory

/-! ## §1 Reading -/

/-- A node of a tree: depth, range, flags, field and kind. -/
def entryOf? : Json → Option SyntaxTree.OutlineEntry
  | .array [depth, start, stop, flags, field, kind] => do
    return .withFlags (← depth.asNat?) (← start.asNat?) (← stop.asNat?) (← flags.asText?)
      (← Json.asOptional? Json.asText? field) (← kind.asText?)
  | _ => none

/-- A syntax tree. -/
def treeOf? (v : Json) : Option SyntaxTree :=
  (Json.asList? entryOf? v).bind SyntaxTree.ofOutline?

/-- A line about a file. -/
def fileOf? (v : Json) : Option ListedFile := do
  match ← Json.asFields? ["path", "tree"] v with
  | [path, tree] =>
    return ⟨← Json.requiredField? Json.asText? path, ← Json.optionalField? treeOf? tree⟩
  | _ => none

/-- A line about a text. -/
def textOf? (v : Json) : Option ListedText := do
  match ← Json.asFields? ["text", "tokens", "vector"] v with
  | [text, tokens, vector] =>
    return ⟨← Json.requiredField? Json.asText? text,
      (← Json.optionalField? (Json.asList? Json.asNat?) tokens).getD [],
      ← Json.optionalField? (Json.asList? Json.asSingle?) vector⟩
  | _ => none

/-- An inventory with one more line at its start; lines that say nothing are passed over. -/
def addLine (line : String) (known : Inventory) : Inventory :=
  match Json.ofText? line with
  | none => known
  | some v =>
    match fileOf? v with
    | some file => { known with files := file :: known.files }
    | none =>
      match textOf? v with
      | some text => { known with texts := text :: known.texts }
      | none => known

/-- The inventory of several lines. -/
def ofLines (lines : List String) : Inventory := lines.foldr addLine ⟨[], []⟩

/-! ## §2 Standing in -/

/-- The tree of a text that nobody could read. -/
def unreadable (text : String) : SyntaxTree :=
  .node ⟨0, text.utf8ByteSize, "ERROR", none, true, false, true, false, true⟩ []

/-- The grammars, for files whose texts are known; `read` gives the text at a path. -/
def grammar (known : Inventory) (read : String → Option String) (language : Language)
    (text : String) : SyntaxTree :=
  let isAbout := fun file : ListedFile =>
    Language.ofPath? (Text.octets file.path) == some language && read file.path == some text
  match (known.files.find? isAbout).bind ListedFile.tree with
  | some tree => tree
  | none => unreadable text

/-- The tokenizer.  A text that is not listed has no tokens and is never cut. -/
def tokenize (known : Inventory) (text : String) : Tokens :=
  match known.texts.find? fun t => t.text == text with
  | some t => .ofLengths text.toUTF8 0 t.tokens
  | none => []

/-- The provider of this name and model.  It cannot be reached with a text that has no vector. -/
def provider (known : Inventory) (name model : String) : Provider Unit where
  name := name
  model := model
  delay := ⟨0⟩
  answer := fun text state =>
    match (known.texts.find? fun t => t.text == text).bind ListedText.vector with
    | some v => (.ok v, state)
    | none => (.error (.http true "no answer"), state)

end Inventory

end CodeIndex
