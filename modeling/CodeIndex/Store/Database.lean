import CodeIndex.Text.Utf8

/-!
# Databases

A database is a list of tables, a table a list of rows in the order of their insertion, and a row a
list of cells, one for each column.  A column's declared type gives it an *affinity*, by which a
cell may change when it is stored.
-/

namespace CodeIndex

/-- What one cell holds. -/
inductive Cell where
  | null
  | integer (n : Int)
  /-- A floating-point number; nothing here depends on which. -/
  | real
  | text (s : String)
  | blob (bytes : Text.Octets)
  deriving DecidableEq, Inhabited, Repr

/-- How a column compares texts. -/
inductive Collation where
  | binary
  /-- ASCII letters in either case are equal. -/
  | noCase
  /-- Spaces at the end do not count. -/
  | rTrim
  /-- One that only the program knows that made the database. -/
  | foreign
  deriving DecidableEq, Inhabited, Repr

/-- A column with its declared type. -/
structure Column where
  name : String
  declaredType : String
  collation : Collation := .binary
  /-- Its cells are computed from others; such a column is not listed among those of its table. -/
  generated : Bool := false
  deriving DecidableEq, Inhabited, Repr

/-- A table with its rows in the order of `rowid`: that of their insertion, unless a column has this
name.  Indexes are left out: they say nothing about what is stored, though a query that uses one may
meet the rows in another order. -/
structure Table where
  name : String
  columns : List Column
  rows : List (List Cell)
  /-- Whether there is a `rowid`; a table can be made without. -/
  numbered : Bool := true
  deriving DecidableEq, Inhabited, Repr

/-- A database. -/
abbrev Database := List Table

/-- A column that is neither computed nor compared in a way of its own. -/
def Column.plain (name declaredType : String) : Column := { name, declaredType }

/-- A table without rows. -/
def Table.empty (name : String) (columns : List Column) : Table := { name, columns, rows := [] }

/-! ## §1 Affinity -/

/-- How a column treats what is put into it. -/
inductive Affinity where
  | text
  | integer
  | real
  | numeric
  /-- Cells stay as they are. -/
  | blob
  deriving DecidableEq, Repr

namespace Affinity

/-- Whether `word` occurs in `s`. -/
def occurs (word : List Char) : List Char → Bool
  | [] => word.isEmpty
  | c :: rest => word.isPrefixOf (c :: rest) || occurs word rest

/-- The affinity that a declared type stands for; the first matching rule decides. -/
def ofDeclaredType (declared : String) : Affinity :=
  let s := declared.toList.map Char.toUpper
  let has := fun word : String => occurs word.toList s
  if has "INT" then .integer
  else if has "CHAR" || has "CLOB" || has "TEXT" then .text
  else if s.isEmpty || has "BLOB" then .blob
  else if has "REAL" || has "FLOA" || has "DOUB" then .real
  else .numeric

/-- What a text spells as a number: an integer, or another number. -/
inductive Spelled where
  | integer (n : Int)
  | other

/-- The digits at the start of a text, and the rest. -/
def splitDigits (s : List Char) : List Char × List Char :=
  (s.takeWhile Char.isDigit, s.dropWhile Char.isDigit)

/-- The integer with these digits. -/
def digitsValue (ds : List Char) : Nat := ds.foldl (fun n c => n * 10 + (c.toNat - '0'.toNat)) 0

/-- Whether a text is an exponent or empty. -/
def isExponentOrEmpty : List Char → Bool
  | [] => true
  | c :: rest =>
    let digits := match rest with
      | '+' :: more => more
      | '-' :: more => more
      | more => more
    (c == 'e' || c == 'E') && !digits.isEmpty && digits.all Char.isDigit

/-- The number that a text spells, spaces around it aside. -/
def spelled? (s : String) : Option Spelled :=
  let blank := fun c : Char => c == ' ' || ('\t' ≤ c && c ≤ '\r')
  let body := ((s.toList.dropWhile blank).reverse.dropWhile blank).reverse
  let (negative, unsigned) := match body with
    | '-' :: rest => (true, rest)
    | '+' :: rest => (false, rest)
    | rest => (false, rest)
  let (whole, rest) := splitDigits unsigned
  if rest = [] ∧ whole ≠ [] then
    let n := (digitsValue whole : Int)
    let n := if negative then -n else n
    if -0x8000000000000000 ≤ n ∧ n < 0x8000000000000000 then some (.integer n) else some .other
  else
    match rest with
    | '.' :: rest =>
      let (fraction, rest) := splitDigits rest
      if (whole ≠ [] ∨ fraction ≠ []) ∧ isExponentOrEmpty rest then some .other else none
    | rest => if whole ≠ [] ∧ isExponentOrEmpty rest then some .other else none

/-- The cell that a column of this affinity holds after `c` was put into it. -/
def store (a : Affinity) (c : Cell) : Cell :=
  match a, c with
  | .text, .integer n => .text (toString n)
  | .real, .integer _ => .real
  | .real, .text s =>
    match spelled? s with
    | some _ => .real
    | none => .text s
  | .integer, .text s | .numeric, .text s =>
    match spelled? s with
    | some (.integer n) => .integer n
    | some .other => .real
    | none => .text s
  | _, c => c

end Affinity

/-! ## §2 Collations -/

namespace Collation

/-- An octet, an ASCII capital as its small letter. -/
def lowerOctet (b : UInt8) : UInt8 := if 0x41 ≤ b ∧ b ≤ 0x5A then b + 0x20 else b

/-- What a text is compared by where case does not count; behind a zero only the length does. -/
def noCaseKey (s : String) : Nat × Text.Octets :=
  ((Text.octets s).length, ((Text.octets s).takeWhile (· ≠ 0)).map lowerOctet)

/-- A text without the spaces at its end. -/
def rTrimKey (s : String) : Text.Octets :=
  ((Text.octets s).reverse.dropWhile (· = 0x20)).reverse

/-- Whether two texts are equal under a collation. -/
def same : Collation → String → String → Bool
  | binary, s, t => s == t
  | noCase, s, t => noCaseKey s == noCaseKey t
  | rTrim, s, t => rTrimKey s == rTrimKey t
  | foreign, s, t => s == t

end Collation

/-- Whether two cells are equal in a column with this collation, which only matters for texts. -/
def Cell.same (collation : Collation) : Cell → Cell → Bool
  | .text s, .text t => collation.same s t
  | c, d => c == d

/-! ## §3 Tables -/

namespace Table

/-- The table with a row put in at its end. -/
def insert (t : Table) (row : List Cell) : Table :=
  { t with rows := t.rows ++
      [(t.columns.zip row).map fun (c, cell) =>
        (Affinity.ofDeclaredType c.declaredType).store cell] }

/-- The names of the columns. -/
def columnNames (t : Table) : List String := t.columns.map Column.name

/-- The names of the columns that the table lists. -/
def listedNames (t : Table) : List String :=
  (t.columns.filter fun c => !c.generated).map Column.name

/-- The collation of a column, by exact name. -/
def collationOf (t : Table) (column : String) : Collation :=
  ((t.columns.map fun c => (c.name, c.collation)).lookup column).getD .binary

/-- The cells of one column, by exact name, row by row. -/
def cell? (t : Table) (row : List Cell) (column : String) : Option Cell :=
  (t.columnNames.zip row).lookup column

end Table

/-- Whether two names differ in the case of ASCII letters at most. -/
def sameIgnoringCase (a b : String) : Bool :=
  a.toList.map Char.toLower == b.toList.map Char.toLower

namespace Database

/-- The table of a name, whatever the case of its letters. -/
def table? (db : Database) (name : String) : Option Table :=
  db.find? fun t => sameIgnoringCase t.name name

end Database

end CodeIndex
