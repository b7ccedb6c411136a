import CodeIndex.Text.Utf8

/-!
# File paths

A path is a sequence of octets; its components are what stands between the slashes.  Empty
components and single dots vanish, except for a dot at the very start of a relative path.
-/

namespace CodeIndex

/-- A path as the operating system has it. -/
abbrev RawPath := Text.Octets

/-- The name of one directory entry. -/
abbrev RawName := Text.Octets

namespace FilePath

/-- The separator of components. -/
def slash : UInt8 := 0x2F

/-- The full stop. -/
def dot : UInt8 := 0x2E

/-- One step of a path. -/
inductive Component where
  /-- The slash at the start of an absolute path. -/
  | root
  /-- A dot at the start of a relative path. -/
  | here
  /-- Two dots. -/
  | parent
  /-- The name of an entry. -/
  | name (n : RawName)
  deriving DecidableEq, Repr

/-- The component that a piece between slashes stands for, if it stands for one. -/
def pieceComponent? (piece : RawName) : Option Component :=
  if piece = [] ∨ piece = [dot] then none
  else if piece = [dot, dot] then some .parent
  else some (.name piece)

/-- Whether a path starts at the root. -/
def isAbsolute (path : RawPath) : Bool := path.head? == some slash

/-- The steps of a path. -/
def components (path : RawPath) : List Component :=
  let pieces := path.splitOn slash
  let start : List Component :=
    if isAbsolute path then [.root]
    else if pieces.head? = some [dot] then [.here]
    else []
  start ++ pieces.filterMap pieceComponent?

/-- The name of an entry, for a step that is one. -/
def Component.name? : Component → Option RawName
  | .name n => some n
  | _ => none

/-- The last name of a path, if the path ends in one. -/
def fileName? (path : RawPath) : Option RawName :=
  (components path).getLast?.bind Component.name?

/-- What follows the last dot of a name, unless the name has no other dot before which there is
nothing. -/
def nameExtension? (name : RawName) : Option RawName :=
  let after := name.reverse.takeWhile (· != dot)
  match name.reverse.dropWhile (· != dot) with
  | [] => none
  | _ :: before => if before = [] then none else some after.reverse

/-- The extension of a path's last name. -/
def extension? (path : RawPath) : Option RawName :=
  (fileName? path).bind nameExtension?

/-- `path` continued by `next`; an absolute `next` stands for itself. -/
def join (path next : RawPath) : RawPath :=
  if isAbsolute next then next
  else if path = [] ∨ path.getLast? = some slash then path ++ next
  else path ++ slash :: next

/-- What stands before the last slash of a path; nothing if it has none. -/
def parent (path : RawPath) : RawPath := ((path.reverse.dropWhile (· != slash)).drop 1).reverse

/-- Names with a slash between neighbours, as text. -/
def joinNames (names : List RawName) : String :=
  "/".intercalate (names.map Text.decodeLossy)

/-- What follows the steps `base` at the start of `path`. -/
def stripComponents? : List Component → List Component → Option (List Component)
  | [], path => some path
  | _ :: _, [] => none
  | b :: base, p :: path => if b = p then stripComponents? base path else none

/-- The names by which `path` goes on below `root`, with slashes between them; `none` when `path`
is not below `root` or adds no name to it. -/
def relative? (root path : RawPath) : Option String :=
  (stripComponents? (components root) (components path)).bind fun rest =>
    let names := rest.filterMap Component.name?
    if names = [] then none else some (joinNames names)

end FilePath

end CodeIndex
