import CodeIndex.Checksum
import CodeIndex.Error
import CodeIndex.Store.Header
import CodeIndex.Store.Image

/-!
# File contents

A file holds octets, except that a database file holds a database.  Where a database is looked at as
octets its image stands for it.  Octets can be a database as well, one without tables.
-/

namespace CodeIndex

/-- What a file holds. -/
inductive FileContent where
  | octets (bytes : ByteArray)
  | database (db : Database) (mode : JournalMode := .rollback)
  deriving Inhabited

namespace FileContent

/-- The content that these octets are: a database if they are the image of one. -/
def ofOctets (bytes : ByteArray) : FileContent :=
  match bytes.data[0]? with
  | some b =>
    match Image.modeOf? b with
    | some mode =>
      match Image.toDatabase? bytes.toList with
      | some db => database db mode
      | none => octets bytes
    | none => octets bytes
  | none => octets bytes

/-- The content as octets. -/
def bytes : FileContent → ByteArray
  | octets bytes => bytes
  | database db mode => ByteArray.mk (Image.ofDatabase db mode).toArray

/-- The checksum of the content. -/
def checksum (c : FileContent) : String := Checksum.ofContent c.bytes

/-- The content as a text. -/
def text (c : FileContent) : Except IndexError String :=
  match String.fromUTF8? c.bytes with
  | some s => .ok s
  | none => .error (.io "stream did not contain valid UTF-8")

/-- The database that the content is, if it is one.  A file of at most one octet is a database
without tables. -/
def database? : FileContent → Option Database
  | octets bytes =>
    if bytes.size ≤ 1 ∨ DatabaseHeader.isBlank bytes.data.toList then some [] else none
  | database db _ => some db

/-- Whether the content is a database in write-ahead mode. -/
def isWriteAhead : FileContent → Bool
  | octets bytes =>
    DatabaseHeader.isBlank bytes.data.toList && DatabaseHeader.mode bytes.data.toList == .writeAhead
  | database _ mode => mode == .writeAhead

/-- The content after a connection, which puts a database into rollback mode. -/
def inRollbackMode : FileContent → FileContent
  | octets bytes => octets (ByteArray.mk (DatabaseHeader.inRollbackMode bytes.data.toList).toArray)
  | database db _ => database db .rollback

end FileContent

end CodeIndex
