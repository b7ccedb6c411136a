import CodeIndex.Text.Utf8

/-!
# Database files as octets

A database file begins with a page that says, at fixed places, how large pages are, how often the
file has changed, and whether a log of changes to come may lie beside it.  Of the files that are
looked at as octets only those of a single page without tables are told from other octets here:
whoever connects to one of them in write-ahead mode changes it.
-/

namespace CodeIndex

/-- How changes of a database file are guarded. -/
inductive JournalMode where
  /-- What was there before a change is kept beside the file until the change is over. -/
  | rollback
  /-- Changes are collected in a log beside the file. -/
  | writeAhead
  deriving DecidableEq, Inhabited, Repr

namespace DatabaseHeader

variable (file : Text.Octets)

/-- The octet at a place; zero behind the end. -/
def octetAt (i : Nat) : UInt8 := file.getD i 0

/-- The number that `n` octets spell from a place on, the highest first. -/
def numberAt (i : Nat) : (n : Nat) → Nat
  | 0 => 0
  | n + 1 => numberAt i n * 256 + (octetAt file (i + n)).toNat

/-- Octet `k` of a number, counted from the lowest. -/
def octetOf (n k : Nat) : UInt8 := (n / Nat.pow 256 k).toUInt8

/-- What every database file begins with. -/
def magic : Text.Octets := Text.octets "SQLite format 3\u0000"

/-- The version of the engine, as it signs the files that it changes. -/
def engineVersion : Nat := 3046000

/-- The size of a page; a size that two octets cannot hold is written as 1. -/
def pageSize : Nat := if numberAt file 16 2 = 1 then 65536 else numberAt file 16 2

/-- Whether these octets are a database file of one page that holds no table. -/
def isBlank : Bool :=
  file.length == pageSize file
    && [512, 1024, 2048, 4096, 8192, 16384, 32768, 65536].contains (pageSize file)
    && (List.range 16).all (fun i => octetAt file i == octetAt magic i)
    && (octetAt file 18 == 1 || octetAt file 18 == 2) && octetAt file 19 == octetAt file 18
    && octetAt file 21 == 64 && octetAt file 22 == 32 && octetAt file 23 == 32
    && numberAt file 28 4 == 1 && decide (numberAt file 44 4 ≤ 4)
    -- the page is a leaf of the table of tables, with no entry
    && octetAt file 100 == 13 && numberAt file 103 2 == 0

/-- The mode of such a file. -/
def mode : JournalMode := if octetAt file 18 = 2 then .writeAhead else .rollback

/-- An octet of such a file after it was put into rollback mode: the change counts, twice, and is
signed. -/
def rollbackOctet (i : Nat) (b : UInt8) : UInt8 :=
  let counter := numberAt file 24 4 + 1
  if i = 18 ∨ i = 19 then 1
  else if 24 ≤ i ∧ i < 28 then octetOf counter (27 - i)
  else if 92 ≤ i ∧ i < 96 then octetOf counter (95 - i)
  else if 96 ≤ i ∧ i < 100 then octetOf engineVersion (99 - i)
  else b

/-- The file after a connection that wants rollback mode. -/
def inRollbackMode : Text.Octets :=
  if isBlank file ∧ mode file = .writeAhead then file.mapIdx (rollbackOctet file) else file

end DatabaseHeader

end CodeIndex
