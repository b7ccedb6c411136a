import CodeIndex.FileTree
import CodeIndex.Ignore.Rules
import CodeIndex.Language

/-!
# Scans

A scan lists the files below a folder that can be indexed, each with its checksum, in the order of
their paths.  Ignored entries and hidden folders are left out with all that is below them, and links
are not followed.
-/

namespace CodeIndex

/-! ## §1 Rules of a folder -/

namespace IgnoreRules

/-- The files that a folder's rules come from, in this order. -/
def fileNames : List String := [".gitignore", ".repodexignore"]

/-- The rules of lines, for users of the index. -/
def read (lines : List (List Char)) : Except IndexError IgnoreRules :=
  match ofLines lines with
  | .ok rules => .ok rules
  | .error _ => .error (.ignoreRules "malformed pattern")

/-- The rules of the ignore file at a path; none if there is no such file. -/
def ofFile (top : FileTree) (path : RawPath) : Except IndexError IgnoreRules :=
  match top.find path with
  | .ok (.file content) =>
    match content.text with
    | .ok text => read (fileLines text)
    | .error _ => .error (.ignoreRules "stream did not contain valid UTF-8")
  | _ => .ok []

/-- The rules of a folder: those of its ignore files, and then `extra` patterns. -/
def load (top : FileTree) (root : RawPath) (extra : List String) :
    Except IndexError IgnoreRules := do
  let own ← fileNames.mapM fun name => ofFile top (FilePath.join root (Text.octets name))
  let more ← read (extra.map String.toList)
  return own.flatten ++ more

end IgnoreRules

/-! ## §2 Scanning -/

namespace Scan

/-- Whether the name of a folder hides it. -/
def isHidden (name : RawName) : Bool := name.head? == some FilePath.dot

variable (ignored : RawPath → Bool → Bool) (checksum : FileContent → String)

mutual

/-- The files of one entry, in no particular order.  `base` is the path of the entry's folder as the
rules see it, and `names` lead there from the scanned folder. -/
def entryFiles (base : RawPath) (names : List RawName) (name : RawName) :
    FileTree → List FileRecord
  | .file content =>
    if ignored (FilePath.join base name) false || (Language.ofFileName? name).isNone then []
    else [.bare (FilePath.joinNames (names ++ [name])) (checksum content)]
  | .link _ => []
  | .folder entries =>
    if isHidden name || ignored (FilePath.join base name) true then []
    else files (FilePath.join base name) (names ++ [name]) entries

/-- The files of several entries of one folder. -/
def files (base : RawPath) (names : List RawName) : List (RawName × FileTree) → List FileRecord
  | [] => []
  | (name, t) :: rest => entryFiles base names name t ++ files base names rest

end

/-- Records in the order of their paths. -/
def sorted (records : List FileRecord) : List FileRecord :=
  records.mergeSort fun a b => decide (a.filepath ≤ b.filepath)

/-- The files below a folder with these entries, in the order of their paths. -/
def ofEntries (base : RawPath) (entries : List (RawName × FileTree)) : List FileRecord :=
  sorted (files ignored checksum base [] entries)

/-- The files below the folder at `root`; `base` is its path as the rules see it. -/
def ofFolder (top : FileTree) (root base : RawPath) : Except IndexError (List FileRecord) :=
  match top.find root with
  | .ok (.folder entries) => .ok (ofEntries ignored checksum base entries)
  | _ => .error (.io ("not a directory: " ++ Text.decodeLossy root))

end Scan

end CodeIndex
