import CodeIndex.Store.Database
import CodeIndex.Store.Header

/-!
# Images of databases

The image of a database is the octets that stand for it in a file.  Texts and blobs stand behind
their lengths and lists behind their numbers of items, so that an image is read from left to right
without looking ahead.  Its first octet starts no text.
-/

namespace CodeIndex.Image

/-! ## §1 Writing -/

/-- A number behind which `mark` stands. -/
def countImage (n : Nat) (mark : Char) : Text.Octets :=
  Text.octets (String.ofList (Nat.toDigits 10 n ++ [mark]))

/-- Octets behind their number. -/
def octetsImage (bytes : Text.Octets) : Text.Octets := countImage bytes.length ':' ++ bytes

/-- A text. -/
def textImage (s : String) : Text.Octets := octetsImage (Text.octets s)

/-- Items behind their number. -/
def listImage {α : Type} (itemImage : α → Text.Octets) (items : List α) : Text.Octets :=
  countImage items.length '*' ++ items.flatMap itemImage

/-- The octet that tells what a cell holds. -/
def tag (c : Char) : UInt8 := c.toNat.toUInt8

/-- A cell. -/
def cellImage : Cell → Text.Octets
  | .null => [tag 'n']
  | .integer n => tag (if n < 0 then 'm' else 'i') :: countImage n.natAbs ';'
  | .real => [tag 'r']
  | .text s => tag 't' :: textImage s
  | .blob bytes => tag 'b' :: octetsImage bytes

/-- The octet that stands for yes or no. -/
def flagImage (flag : Bool) : UInt8 := if flag then tag 'y' else tag 'n'

/-- The octet that stands for a collation. -/
def collationImage : Collation → UInt8
  | .binary => tag 'b'
  | .noCase => tag 'c'
  | .rTrim => tag 't'
  | .foreign => tag 'f'

/-- A column. -/
def columnImage (c : Column) : Text.Octets :=
  textImage c.name ++ textImage c.declaredType ++
    [collationImage c.collation, flagImage c.generated]

/-- A table. -/
def tableImage (t : Table) : Text.Octets :=
  textImage t.name ++ listImage columnImage t.columns ++ listImage (listImage cellImage) t.rows
    ++ [flagImage t.numbered]

/-- The first octet of an image. -/
def signature : JournalMode → UInt8
  | .rollback => 0xFF
  | .writeAhead => 0xFE

/-- The image of a database. -/
def ofDatabase (db : Database) (mode : JournalMode) : Text.Octets :=
  signature mode :: listImage tableImage db

/-! ## §2 Reading -/

/-- A number behind which `mark` stands, and what follows it; `n` has been read before. -/
def readCount? (mark : Char) (n : Nat) : Text.Octets → Option (Nat × Text.Octets)
  | [] => none
  | b :: rest =>
    if b = tag mark then some (n, rest)
    else if 0x30 ≤ b ∧ b ≤ 0x39 then readCount? mark (n * 10 + (b.toNat - 0x30)) rest
    else none

/-- Octets behind their number, and what follows them. -/
def readOctets? (s : Text.Octets) : Option (Text.Octets × Text.Octets) := do
  let (n, rest) ← readCount? ':' 0 s
  if rest.length < n then none else some (rest.take n, rest.drop n)

/-- A text, and what follows it. -/
def readText? (s : Text.Octets) : Option (String × Text.Octets) := do
  let (bytes, rest) ← readOctets? s
  let text ← Text.decode? bytes
  return (text, rest)

/-- As many items as are asked for, and what follows them. -/
def readItems? {α : Type} (item? : Text.Octets → Option (α × Text.Octets)) :
    Nat → Text.Octets → Option (List α × Text.Octets)
  | 0, s => some ([], s)
  | n + 1, s => do
    let (item, rest) ← item? s
    let (items, rest) ← readItems? item? n rest
    return (item :: items, rest)

/-- Items behind their number, and what follows them. -/
def readList? {α : Type} (item? : Text.Octets → Option (α × Text.Octets)) (s : Text.Octets) :
    Option (List α × Text.Octets) := do
  let (n, rest) ← readCount? '*' 0 s
  readItems? item? n rest

/-- A cell, and what follows it. -/
def readCell? : Text.Octets → Option (Cell × Text.Octets)
  | [] => none
  | b :: rest =>
    if b = tag 'n' then some (.null, rest)
    else if b = tag 'r' then some (.real, rest)
    else if b = tag 'i' then (readCount? ';' 0 rest).map fun (n, rest) => (.integer n, rest)
    else if b = tag 'm' then (readCount? ';' 0 rest).map fun (n, rest) => (.integer (-n), rest)
    else if b = tag 't' then (readText? rest).map fun (s, rest) => (.text s, rest)
    else if b = tag 'b' then (readOctets? rest).map fun (bytes, rest) => (.blob bytes, rest)
    else none

/-- One of these values by the octet that stands for it, and what follows it. -/
def readOctet? {α : Type} (image : α → UInt8) (values : List α) :
    Text.Octets → Option (α × Text.Octets)
  | [] => none
  | b :: rest => (values.find? fun value => image value == b).map fun value => (value, rest)

/-- A column, and what follows it. -/
def readColumn? (s : Text.Octets) : Option (Column × Text.Octets) := do
  let (name, rest) ← readText? s
  let (type, rest) ← readText? rest
  let (collation, rest) ← readOctet? collationImage [.binary, .noCase, .rTrim, .foreign] rest
  let (generated, rest) ← readOctet? flagImage [true, false] rest
  return (⟨name, type, collation, generated⟩, rest)

/-- A table, and what follows it. -/
def readTable? (s : Text.Octets) : Option (Table × Text.Octets) := do
  let (name, rest) ← readText? s
  let (columns, rest) ← readList? readColumn? rest
  let (rows, rest) ← readList? (readList? readCell?) rest
  let (numbered, rest) ← readOctet? flagImage [true, false] rest
  return (⟨name, columns, rows, numbered⟩, rest)

/-- The mode of the database whose image begins with this octet. -/
def modeOf? (b : UInt8) : Option JournalMode :=
  [.rollback, .writeAhead].find? fun mode => signature mode == b

/-- The database of an image, behind its first octet. -/
def toDatabase? : Text.Octets → Option Database
  | [] => none
  | _ :: rest =>
    match readList? readTable? rest with
    | some (db, []) => some db
    | _ => none

end CodeIndex.Image
