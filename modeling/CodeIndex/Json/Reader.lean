import CodeIndex.Json.Value
import CodeIndex.Text.Basic

/-!
# Reading JSON

A recursive-descent reader on lists of characters.  Every function answers what it read and the
characters that follow, or `none` when the text is not JSON.
-/

namespace CodeIndex.Json

/-- The characters that may stand between tokens. -/
def isSpace (c : Char) : Bool := c == ' ' || c == '\n' || c == '\t' || c == '\r'

/-- The text after the white space at its start. -/
def skipSpace (s : List Char) : List Char := s.dropWhile isSpace

/-- The value of a decimal digit. -/
def digit? (c : Char) : Option Nat :=
  if c.isDigit then some (c.toNat - '0'.toNat) else none

/-- The digits at the start of a text, and the rest. -/
def takeDigits : List Char → List Nat × List Char
  | [] => ([], [])
  | c :: rest =>
    match digit? c with
    | some d => (d :: (takeDigits rest).1, (takeDigits rest).2)
    | none => ([], c :: rest)

/-! ## §1 Strings -/

/-- The code unit spelled by four hexadecimal digits. -/
def hex4? : List Char → Option (Nat × List Char)
  | a :: b :: c :: d :: rest =>
    match Text.hexDigit? a, Text.hexDigit? b, Text.hexDigit? c, Text.hexDigit? d with
    | some w, some x, some y, some z => some (((w * 16 + x) * 16 + y) * 16 + z, rest)
    | _, _, _, _ => none
  | _ => none

/-- What a one-letter escape stands for. -/
def simpleEscape? : Char → Option Char
  | '"' => some '"'
  | '\\' => some '\\'
  | '/' => some '/'
  | 'b' => some '\x08'
  | 'f' => some '\x0c'
  | 'n' => some '\n'
  | 'r' => some '\r'
  | 't' => some '\t'
  | _ => none

/-- Half of a surrogate pair that opens one. -/
def isHighSurrogate (n : Nat) : Bool := 0xD800 ≤ n && n ≤ 0xDBFF

/-- Half of a surrogate pair that closes one. -/
def isLowSurrogate (n : Nat) : Bool := 0xDC00 ≤ n && n ≤ 0xDFFF

/-- One character of a string: the character, `none` inside if it is an unpaired surrogate, and the
rest.  `none` outside when the string ends, breaks off or has a bare control character here. -/
def stringChar? : List Char → Option (Option Char × List Char)
  | [] => none
  | '"' :: _ => none
  | '\\' :: 'u' :: rest =>
    match hex4? rest with
    | none => none
    | some (n, rest) =>
      if isHighSurrogate n then
        match rest with
        | '\\' :: 'u' :: more =>
          match hex4? more with
          | some (m, after) =>
            if isLowSurrogate m then
              some (some (Char.ofNat (0x10000 + (n - 0xD800) * 0x400 + (m - 0xDC00))), after)
            else some (none, rest)
          | none => some (none, rest)
        | _ => some (none, rest)
      else if isLowSurrogate n then some (none, rest)
      else some (some (Char.ofNat n), rest)
  | '\\' :: c :: rest => (simpleEscape? c).map fun c => (some c, rest)
  | '\\' :: [] => none
  | c :: rest => if c.toNat < 0x20 then none else some (some c, rest)

/-- The characters of a string up to its closing quote, which is taken too. -/
def stringBody? : Nat → List Char → Option (Option (List Char) × List Char)
  | 0, _ => none
  | fuel + 1, s =>
    match s with
    | '"' :: rest => some (some [], rest)
    | _ =>
      match stringChar? s with
      | none => none
      | some (c, rest) =>
        match stringBody? fuel rest with
        | none => none
        | some (cs, rest) =>
          match c, cs with
          | some c, some cs => some (some (c :: cs), rest)
          | _, _ => some (none, rest)

/-- A string whose opening quote has been taken. -/
def string? (s : List Char) : Option (Option String × List Char) :=
  (stringBody? (s.length + 1) s).map fun (cs, rest) => (cs.map String.ofList, rest)

/-! ## §2 Numbers -/

/-- The fraction of a number: none, or a point and at least one digit. -/
def fraction? : List Char → Option (Option (List Nat) × List Char)
  | '.' :: rest =>
    match takeDigits rest with
    | ([], _) => none
    | (ds, rest) => some (some ds, rest)
  | s => some (none, s)

/-- The digits of an exponent after its mark and sign. -/
def exponentDigits? (negative : Bool) (s : List Char) :
    Option (Option (Bool × List Nat) × List Char) :=
  match takeDigits s with
  | ([], _) => none
  | (ds, rest) => some (some (negative, ds), rest)

/-- The exponent of a number: none, or a mark, an optional sign and at least one digit. -/
def exponent? : List Char → Option (Option (Bool × List Nat) × List Char)
  | c :: rest =>
    if c = 'e' ∨ c = 'E' then
      match rest with
      | '+' :: rest => exponentDigits? false rest
      | '-' :: rest => exponentDigits? true rest
      | rest => exponentDigits? false rest
    else some (none, c :: rest)
  | [] => some (none, [])

/-- A number: an optional minus, digits without a superfluous zero, fraction and exponent. -/
def number? (s : List Char) : Option (NumberText × List Char) :=
  let (negative, s) := match s with
    | '-' :: rest => (true, rest)
    | s => (false, s)
  match takeDigits s with
  | ([], _) => none
  | (0 :: _ :: _, _) => none
  | (whole, rest) =>
    match fraction? rest with
    | none => none
    | some (fraction, rest) =>
      match exponent? rest with
      | none => none
      | some (exponent, rest) => some (⟨negative, whole, fraction, exponent⟩, rest)

/-! ## §3 Values -/

/-- The rest of `s` after `word`. -/
def keyword? (word s : List Char) : Option (List Char) :=
  if word.isPrefixOf s then some (s.drop word.length) else none

mutual

/-- A value, after white space. -/
def value? : Nat → List Char → Option (Json × List Char)
  | 0, _ => none
  | fuel + 1, s =>
    match skipSpace s with
    | [] => none
    | '"' :: rest => (string? rest).map fun (str, rest) => (.string str, rest)
    | '[' :: rest =>
      match skipSpace rest with
      | ']' :: rest => some (.array [], rest)
      | rest => (items? fuel rest).map fun (items, rest) => (.array items, rest)
    | '{' :: rest =>
      match skipSpace rest with
      | '}' :: rest => some (.object [], rest)
      | rest => (members? fuel rest).map fun (members, rest) => (.object members, rest)
    | 'n' :: rest => (keyword? ['u', 'l', 'l'] rest).map fun rest => (.null, rest)
    | 't' :: rest => (keyword? ['r', 'u', 'e'] rest).map fun rest => (.bool true, rest)
    | 'f' :: rest => (keyword? ['a', 'l', 's', 'e'] rest).map fun rest => (.bool false, rest)
    | s => (number? s).map fun (n, rest) => (.number n, rest)

/-- The items of an array up to its closing bracket, at least one. -/
def items? : Nat → List Char → Option (List Json × List Char)
  | 0, _ => none
  | fuel + 1, s =>
    match value? fuel s with
    | none => none
    | some (item, rest) =>
      match skipSpace rest with
      | ',' :: rest => (items? fuel rest).map fun (items, rest) => (item :: items, rest)
      | ']' :: rest => some ([item], rest)
      | _ => none

/-- The members of an object up to its closing brace, at least one. -/
def members? : Nat → List Char → Option (List (Option String × Json) × List Char)
  | 0, _ => none
  | fuel + 1, s =>
    match skipSpace s with
    | '"' :: rest =>
      match string? rest with
      | none => none
      | some (name, rest) =>
        match skipSpace rest with
        | ':' :: rest =>
          match value? fuel rest with
          | none => none
          | some (v, rest) =>
            match skipSpace rest with
            | ',' :: rest =>
              (members? fuel rest).map fun (members, rest) => ((name, v) :: members, rest)
            | '}' :: rest => some ([(name, v)], rest)
            | _ => none
        | _ => none
    | _ => none

end

/-- The document that a text spells, white space around it aside. -/
def ofChars? (s : List Char) : Option Json :=
  match value? (2 * s.length + 2) s with
  | some (v, rest) => if (skipSpace rest).isEmpty then some v else none
  | none => none

/-- The document that a text spells. -/
def ofText? (s : String) : Option Json := ofChars? s.toList

end CodeIndex.Json
