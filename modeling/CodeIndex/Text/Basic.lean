/-!
# Texts

What is read from texts and written into them everywhere: which characters are blank, where a line
ends, and how numbers are spelled.
-/

namespace CodeIndex.Text

/-! ## §1 Blank characters

A character is *blank* when it has the Unicode property `White_Space`; a text is blank when all its
characters are.  Lines of source code, configuration values and ignore patterns are all judged by
this one class. -/

/-- The characters with the Unicode property `White_Space`. -/
def isBlank (c : Char) : Bool :=
  let n := c.toNat
  (0x09 ≤ n && n ≤ 0x0D) || n == 0x20 || n == 0x85 || n == 0xA0 || n == 0x1680
    || (0x2000 ≤ n && n ≤ 0x200A) || n == 0x2028 || n == 0x2029 || n == 0x202F
    || n == 0x205F || n == 0x3000

/-- A text with no character outside the blank class. -/
def allBlank (s : String) : Bool := s.toList.all isBlank

/-- A text without the blank characters at its end. -/
def trimEnd (s : List Char) : List Char := (s.reverse.dropWhile isBlank).reverse

@[simp] theorem allBlank_empty : allBlank "" = true := rfl

example : isBlank ' ' ∧ isBlank '\t' ∧ isBlank '\n' ∧ isBlank '\u00a0' ∧ isBlank '\u3000' := by
  decide
example : isBlank 'x' = false ∧ isBlank '\u200b' = false ∧ isBlank '\ufeff' = false := by decide

/-! ## §2 Lines

A text is cut into lines at every line feed, so a text with `n` line feeds has `n + 1` lines and the
last line is empty when the text ends in a line feed.  Joining the lines gives the text back. -/

/-- The pieces of `s` between its line feeds. -/
def lines (s : String) : List String :=
  (s.toList.splitOn '\n').map String.ofList

/-- The text whose lines are `ls`. -/
def joinLines (ls : List String) : String := "\n".intercalate ls

/-! ## §3 Numbers in settings

A natural number is written in decimal digits, perhaps behind a plus sign and with zeros in front.
-/

/-- The number that a text spells, if it spells one of at most so many bits. -/
def natOfBits? (bits : Nat) (s : List Char) : Option Nat :=
  let digits := match s with
    | '+' :: rest => rest
    | rest => rest
  if digits.isEmpty || !digits.all Char.isDigit then none
  else
    let n := digits.foldl (fun n d => n * 10 + (d.toNat - '0'.toNat)) 0
    if n < Nat.pow 2 bits then some n else none

/-! ## §4 Hexadecimal digits -/

/-- The two lower-case hexadecimal digits of an octet. -/
def hexOctet (b : UInt8) : List Char :=
  [Nat.digitChar (b.toNat / 16), Nat.digitChar (b.toNat % 16)]

/-- The octets in order, each as two lower-case hexadecimal digits. -/
def hexText (bytes : List UInt8) : String :=
  String.ofList (bytes.flatMap hexOctet)

/-- The value of a hexadecimal digit of either case. -/
def hexDigit? (c : Char) : Option Nat :=
  if '0' ≤ c ∧ c ≤ '9' then some (c.toNat - '0'.toNat)
  else if 'a' ≤ c ∧ c ≤ 'f' then some (c.toNat - 'a'.toNat + 10)
  else if 'A' ≤ c ∧ c ≤ 'F' then some (c.toNat - 'A'.toNat + 10)
  else none

end CodeIndex.Text
