import CodeIndex.FilePath
import CodeIndex.FileTree.Content

/-!
# File trees

A file tree is a folder with all that is in it, or a file, or a link that stands for another path.
Paths are followed from a top folder, links on the way included; `FileTree.find` answers what lies
at the end, and `create`, `remove` and `move` change the tree.
-/

namespace CodeIndex

/-- A file, a link or a folder. -/
inductive FileTree where
  | file (content : FileContent)
  /-- A link, with the path that it stands for as seen from the link's folder. -/
  | link (target : RawPath)
  | folder (entries : List (RawName × FileTree))
  deriving Inhabited

namespace FileTree

/-- A folder with nothing in it. -/
def emptyFolder : FileTree := .folder []

/-- What a folder holds; nothing if it is none. -/
def entries : FileTree → List (RawName × FileTree)
  | folder entries => entries
  | _ => []

/-! ## §1 Looking things up -/

/-- The tree below names, one folder per name; links are not followed. -/
def at? : List RawName → FileTree → Option FileTree
  | [], t => some t
  | n :: ns, t => (t.entries.lookup n).bind (at? ns)

/-- Why a path leads nowhere. -/
inductive LookupError where
  | notFound
  /-- A file stands where a folder should be. -/
  | notFolder
  /-- The path goes through too many links. -/
  | tooManyLinks
  deriving DecidableEq, Inhabited, Repr

/-- The system's wording of a failed lookup. -/
def LookupError.message : LookupError → String
  | notFound => "No such file or directory (os error 2)"
  | notFolder => "Not a directory (os error 20)"
  | tooManyLinks => "Too many levels of symbolic links (os error 40)"

/-- The most links that a lookup goes through. -/
def linkLimit : Nat := 40

/-- Follows `steps` from the folder at `place` to the names of the end, at most `links` links on the
way.  Where there is nothing the lookup fails, or, when `creating`, goes on as if there were a
folder.  Absolute paths lead out of the tree. -/
def walk (top : FileTree) (creating : Bool) (links : Nat) (place : List RawName) :
    List FilePath.Component → Except LookupError (List RawName)
  | [] => .ok place
  | .root :: _ => .error .notFound
  | .here :: steps => walk top creating links place steps
  | .parent :: steps => walk top creating links place.dropLast steps
  | .name n :: steps =>
    match at? (place ++ [n]) top with
    | none => if creating then walk top creating links (place ++ [n]) steps else .error .notFound
    | some (.folder _) => walk top creating links (place ++ [n]) steps
    | some (.file _) => if steps = [] then .ok (place ++ [n]) else .error .notFolder
    | some (.link target) =>
      match links with
      | 0 => .error .tooManyLinks
      | links + 1 => walk top creating links place (FilePath.components target ++ steps)
  termination_by steps => (links, steps.length)

/-- The names of what a path leads to. -/
def locate (top : FileTree) (path : RawPath) : Except LookupError (List RawName) :=
  walk top false linkLimit [] (FilePath.components path)

/-- What a path leads to; never a link. -/
def find (top : FileTree) (path : RawPath) : Except LookupError FileTree :=
  match locate top path with
  | .error e => .error e
  | .ok place =>
    match at? place top with
    | some t => .ok t
    | none => .error .notFound

/-- The text of the file at a path. -/
def readText (top : FileTree) (path : RawPath) : Except IndexError String :=
  match top.find path with
  | .ok (.file content) => content.text
  | .ok _ => .error (.io "Is a directory (os error 21)")
  | .error e => .error (.io e.message)

/-! ## §2 Changing trees -/

/-- Entries with one put in, in place of the entry of its name if there is one. -/
def setEntry (name : RawName) (t : FileTree) : List (RawName × FileTree) → List (RawName × FileTree)
  | [] => [(name, t)]
  | (n, old) :: rest => if n = name then (n, t) :: rest else (n, old) :: setEntry name t rest

/-- Puts `entry` below names, with all folders on the way; `none` if a file is on the way. -/
def putAt (entry : FileTree) : List RawName → FileTree → Option FileTree
  | [], _ => some entry
  | n :: ns, folder entries =>
    (putAt entry ns ((entries.lookup n).getD emptyFolder)).map fun t =>
      folder (setEntry n t entries)
  | _ :: _, _ => none

/-- The tree without what lies below names. -/
def removeAt : List RawName → FileTree → FileTree
  | [n], folder entries => folder (entries.filter fun (name, _) => name != n)
  | n :: ns, folder entries =>
    match entries.lookup n with
    | some t => folder (setEntry n (removeAt ns t) entries)
    | none => folder entries
  | _, t => t

/-- Puts `entry` at a path, with all folders on the way.  Links are followed, but one that is put
somewhere takes the place of what was there.  A path that cannot be followed changes nothing. -/
def create (top : FileTree) (path : RawPath) (entry : FileTree) : FileTree :=
  match walk top true linkLimit [] (FilePath.components path) with
  | .ok place => (putAt entry place top).getD top
  | .error _ => top

/-- The path up to its last name, and that name. -/
def splitLast (path : RawPath) : List FilePath.Component × Option RawName :=
  let steps := FilePath.components path
  (steps.dropLast, steps.getLast?.bind FilePath.Component.name?)

/-- The names of the entry itself that a path ends in: a link at the end is not followed. -/
def entryPlace? (top : FileTree) (creating : Bool) (path : RawPath) : Option (List RawName) :=
  match splitLast path with
  | (steps, some name) =>
    match walk top creating linkLimit [] steps with
    | .ok place => some (place ++ [name])
    | .error _ => none
  | (_, none) => none

/-- The tree without the entry that a path ends in. -/
def remove (top : FileTree) (path : RawPath) : FileTree :=
  match entryPlace? top false path with
  | some place => removeAt place top
  | none => top

/-- Moves the entry at one path to another, with all folders on the way. -/
def move (top : FileTree) (source target : RawPath) : FileTree :=
  match entryPlace? top false source with
  | none => top
  | some place =>
    match at? place top with
    | none => top
    | some entry =>
      match entryPlace? top true target with
      | none => top
      | some place' => (putAt entry place' (removeAt place top)).getD top

/-! ## §3 What lies at a path -/

/-- What lies at a path. -/
inductive Occupant where
  | nothing
  | folder
  | file (content : FileContent)
  /-- The path cannot be followed. -/
  | blocked (e : LookupError)
  deriving Inhabited

/-- What lies at a path of a tree. -/
def occupant (top : FileTree) (path : RawPath) : Occupant :=
  match top.find path with
  | .ok (.file content) => .file content
  | .ok _ => .folder
  | .error .notFound => .nothing
  | .error e => .blocked e

/-- The tree with this at a path; what a path that cannot be followed holds stays as it is. -/
def occupy (top : FileTree) (path : RawPath) (o : Occupant) : FileTree :=
  match o with
  | .nothing => top.remove path
  | .folder => top
  | .file content => top.create path (.file content)
  | .blocked _ => top

end FileTree

end CodeIndex
