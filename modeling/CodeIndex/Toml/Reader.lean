import CodeIndex.Toml.Scalar
import CodeIndex.Toml.Strings

/-!
# Reading TOML

`Toml.ofText?` reads a document.  Values are read by recursive descent; the statements of a document
are then carried out one after the other, and the first that is not allowed refuses the document.
-/

namespace CodeIndex.Toml

/-- Passes over a comment at the start of a text; `none` if the comment holds a control character.
-/
def skipComment? : List Char → Option (List Char)
  | '#' :: rest =>
    let body := rest.takeWhile fun c => c != '\n' && c != '\r'
    if body.any isControl then none else some (rest.drop body.length)
  | s => some s

/-- Passes over white space, comments and line breaks. -/
def skipLines? : Nat → List Char → Option (List Char)
  | 0, _ => none
  | fuel + 1, s =>
    match skipComment? (skipBlanks s) with
    | none => none
    | some rest =>
      match newline? rest with
      | some rest => skipLines? fuel rest
      | none => some rest

/-- How deep values may lie in each other. -/
def depthLimit : Nat := 80

mutual

/-- A value; `depth` levels of brackets may still be opened. -/
def value? : Nat → Nat → List Char → Option (Toml × List Char)
  | 0, _, _ => none
  | fuel + 1, depth, s =>
    match s with
    | '[' :: rest =>
      match depth with
      | 0 => none
      | depth + 1 => (items? fuel depth rest).map fun (items, rest) => (.array items, rest)
    | '{' :: rest =>
      match depth with
      | 0 => none
      | depth + 1 =>
        match entries? fuel depth rest with
        | none => none
        | some (entries, rest) => (inlineTable entries).map fun t => (t, rest)
    | s =>
      match string? s with
      | some (cs, rest) => some (.text (String.ofList cs), rest)
      | none =>
        let (cs, rest) := takeScalar s
        (scalar? cs).map fun v => (v, rest)

/-- The items of an array up to its closing bracket; a comma may stand behind the last one. -/
def items? : Nat → Nat → List Char → Option (List Toml × List Char)
  | 0, _, _ => none
  | fuel + 1, depth, s =>
    match skipLines? (s.length + 1) s with
    | none => none
    | some (']' :: rest) => some ([], rest)
    | some s =>
      match value? fuel depth s with
      | none => none
      | some (v, rest) =>
        match skipLines? (rest.length + 1) rest with
        | some (',' :: rest) => (items? fuel depth rest).map fun (vs, rest) => (v :: vs, rest)
        | some (']' :: rest) => some ([v], rest)
        | _ => none

/-- The entries of an inline table up to its closing brace; a comma may stand behind the last
one. -/
def entries? : Nat → Nat → List Char → Option (List (List String × Toml) × List Char)
  | 0, _, _ => none
  | fuel + 1, depth, s =>
    match skipLines? (s.length + 1) s with
    | none => none
    | some ('}' :: rest) => some ([], rest)
    | some s =>
      match key? (s.length + 1) s with
      | some (path, '=' :: rest) =>
        match value? fuel depth (skipBlanks rest) with
        | none => none
        | some (v, rest) =>
          match skipLines? (rest.length + 1) rest with
          | some (',' :: rest) =>
            (entries? fuel depth rest).map fun (more, rest) => ((path, v) :: more, rest)
          | some ('}' :: rest) => some ([(path, v)], rest)
          | _ => none
      | _ => none

end

/-! ## §1 Statements -/

/-- A line of a document. -/
inductive Statement where
  /-- `[path]`: what follows belongs to this table. -/
  | define (path : List String)
  /-- `[[path]]`: what follows belongs to a new table among those of this header. -/
  | append (path : List String)
  /-- `path = v`. -/
  | assign (path : List String) (v : Toml)
  deriving Inhabited

/-- A statement at the start of a text, and what follows it. -/
def statement? (s : List Char) : Option (Statement × List Char) :=
  match s with
  | '[' :: '[' :: rest =>
    match key? (rest.length + 1) rest with
    | some (path, ']' :: ']' :: rest) => some (.append path, rest)
    | _ => none
  | '[' :: rest =>
    match key? (rest.length + 1) rest with
    | some (path, ']' :: rest) => some (.define path, rest)
    | _ => none
  | s =>
    match key? (s.length + 1) s with
    | some (path, '=' :: rest) =>
      (value? (2 * s.length + 2) depthLimit (skipBlanks rest)).map fun (v, rest) =>
        (.assign path v, rest)
    | _ => none

/-- The end of a line: white space, a comment, and a line break or the end of the text. -/
def lineEnd? (s : List Char) : Option (List Char) :=
  match skipComment? (skipBlanks s) with
  | none => none
  | some [] => some []
  | some rest => newline? rest

/-- The statements of a document. -/
def statements? : Nat → List Char → Option (List Statement)
  | 0, _ => none
  | fuel + 1, s =>
    match skipLines? (s.length + 1) s with
    | none => none
    | some [] => some []
    | some s =>
      match statement? s with
      | none => none
      | some (st, rest) =>
        match lineEnd? rest with
        | none => none
        | some rest => (statements? fuel rest).map (st :: ·)

/-! ## §2 Documents -/

/-- Carries out statements; `place` is the table that assignments belong to. -/
def perform : List Statement → (place : List String) → Toml → Option Toml
  | [], _, doc => some doc
  | .define path :: rest, _, doc => (doc.define path).bind (perform rest path)
  | .append path :: rest, _, doc => (doc.append path).bind (perform rest path)
  | .assign path v :: rest, place, doc => (doc.assign place path v).bind (perform rest place)

/-- The document that a text spells.  A mark of byte order at its start is passed over. -/
def ofText? (s : String) : Option Toml :=
  let cs := match s.toList with
    | '\uFEFF' :: rest => rest
    | cs => cs
  (statements? (cs.length + 1) cs).bind fun statements => perform statements [] empty

end CodeIndex.Toml
