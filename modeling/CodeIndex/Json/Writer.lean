import CodeIndex.Text.Basic

/-!
# Writing JSON

Compact text: no white space, object members in the order given.  In a string the quote, the
backslash and the control characters are escaped and everything else stands for itself.
-/

namespace CodeIndex.Json

/-- How a character stands inside a string. -/
def escapeChar (c : Char) : List Char :=
  if c = '"' then ['\\', '"']
  else if c = '\\' then ['\\', '\\']
  else if c = '\x08' then ['\\', 'b']
  else if c = '\x0c' then ['\\', 'f']
  else if c = '\n' then ['\\', 'n']
  else if c = '\r' then ['\\', 'r']
  else if c = '\t' then ['\\', 't']
  else if c.toNat < 0x20 then ['\\', 'u', '0', '0'] ++ Text.hexOctet c.toNat.toUInt8
  else [c]

/-- A string in quotes. -/
def writeString (s : String) : List Char :=
  '"' :: s.toList.flatMap escapeChar ++ ['"']

/-- Texts with a comma between neighbours. -/
def commaSeparated : List (List Char) → List Char
  | [] => []
  | [x] => x
  | x :: xs => x ++ ',' :: commaSeparated xs

/-- An array of written items. -/
def writeArray (items : List (List Char)) : List Char :=
  '[' :: commaSeparated items ++ [']']

/-- An object of names and written values. -/
def writeObject (members : List (String × List Char)) : List Char :=
  '\x7b' :: commaSeparated (members.map fun (k, v) => writeString k ++ ':' :: v) ++ ['\x7d']

/-- The missing value. -/
def writeNull : List Char := ['n', 'u', 'l', 'l']

/-- A value that may be missing. -/
def writeOption {α : Type} (write : α → List Char) : Option α → List Char
  | none => writeNull
  | some x => write x

/-- An array of strings. -/
def writeStrings (items : List String) : List Char := writeArray (items.map writeString)

end CodeIndex.Json
