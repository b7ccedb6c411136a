import CodeIndex.SyntaxTree
import CodeIndex.Text.Utf8

/-!
# Positions in a source text

Offsets count octets.  The row of an offset is the number of line feeds before it and its column the
number of octets since the last of them; both start at zero.
-/

namespace CodeIndex

/-- A place in a source text. -/
structure Position where
  row : Nat
  column : Nat
  deriving DecidableEq, Inhabited, Repr

namespace Position

/-- The octet of a line feed. -/
def lineFeed : UInt8 := 0x0A

/-- The place of an offset. -/
def ofOffset (source : Text.Octets) (offset : Nat) : Position where
  row := (source.take offset).count lineFeed
  column := ((source.take offset).reverse.takeWhile (· != lineFeed)).length

end Position

/-- The text between two offsets; empty if they do not fall on characters. -/
def sliceText (source : Text.Octets) (start stop : Nat) : String :=
  (Text.decode? ((source.drop start).take (stop - start))).getD ""

/-- The source text of a node. -/
def NodeInfo.text (i : NodeInfo) (source : Text.Octets) : String :=
  sliceText source i.start i.stop

/-- The rows that a node takes, first and last.  A node that ends with a line feed does not take the
row after it. -/
def NodeInfo.rowSpan (i : NodeInfo) (source : Text.Octets) : Nat × Nat :=
  let first := (Position.ofOffset source i.start).row
  let last := Position.ofOffset source i.stop
  (first, if last.column = 0 ∧ first < last.row then last.row - 1 else last.row)

end CodeIndex
