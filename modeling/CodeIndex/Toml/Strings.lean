import CodeIndex.Text.Basic

/-!
# Strings and keys of TOML

Readers of the four kinds of strings and of keys.  Each takes the characters behind the opening
quotes and answers the content along with the characters behind the closing ones.
-/

namespace CodeIndex.Toml

/-- White space within a line. -/
def isBlank (c : Char) : Bool := c == ' ' || c == '\t'

/-- Passes over white space within a line. -/
def skipBlanks (s : List Char) : List Char := s.dropWhile isBlank

/-- A line break at the start of a text, and what follows it. -/
def newline? : List Char → Option (List Char)
  | '\n' :: rest => some rest
  | '\r' :: '\n' :: rest => some rest
  | _ => none

/-- Control characters, which only a tab may stand for itself of. -/
def isControl (c : Char) : Bool := (c.toNat < 0x20 && c != '\t') || c.toNat = 0x7F

/-- The character with a code point. -/
def charOf? (n : Nat) : Option Char :=
  if n < 0xD800 ∨ (0xDFFF < n ∧ n < 0x110000) then some (Char.ofNat n) else none

/-- A character given by `n` hexadecimal digits, and what follows them. -/
def hexChar? (n : Nat) (s : List Char) : Option (Char × List Char) := do
  let digits ← (s.take n).mapM Text.hexDigit?
  if digits.length < n then none
  else
    let c ← charOf? (digits.foldl (fun acc d => acc * 16 + d) 0)
    return (c, s.drop n)

/-- The character that an escape stands for; `s` follows the backslash. -/
def escape? : List Char → Option (Char × List Char)
  | 'b' :: rest => some ('\x08', rest)
  | 't' :: rest => some ('\t', rest)
  | 'n' :: rest => some ('\n', rest)
  | 'f' :: rest => some ('\x0c', rest)
  | 'r' :: rest => some ('\r', rest)
  | 'e' :: rest => some ('\x1b', rest)
  | '"' :: rest => some ('"', rest)
  | '\\' :: rest => some ('\\', rest)
  | 'x' :: rest => hexChar? 2 rest
  | 'u' :: rest => hexChar? 4 rest
  | 'U' :: rest => hexChar? 8 rest
  | _ => none

/-! ## §1 Strings on one line -/

/-- A string in double quotes. -/
def basicString? : Nat → List Char → Option (List Char × List Char)
  | 0, _ => none
  | _ + 1, [] => none
  | fuel + 1, c :: rest =>
    if c = '"' then some ([], rest)
    else if c = '\\' then
      match escape? rest with
      | none => none
      | some (c, rest) => (basicString? fuel rest).map fun (cs, rest) => (c :: cs, rest)
    else if isControl c then none
    else (basicString? fuel rest).map fun (cs, rest) => (c :: cs, rest)

/-- A string in single quotes. -/
def literalString? : List Char → Option (List Char × List Char)
  | [] => none
  | c :: rest =>
    if c = '\'' then some ([], rest)
    else if isControl c then none
    else (literalString? rest).map fun (cs, rest) => (c :: cs, rest)

/-! ## §2 Strings over several lines -/

/-- Quotes at the start of a text: three close a string, and up to two before them belong to it.
Answers the quotes that belong to the string, whether it ends, and what follows. -/
def quoteRun (quote : Char) (s : List Char) : List Char × Bool × List Char :=
  let n := min 5 (s.takeWhile (· == quote)).length
  if n < 3 then (List.replicate n quote, false, s.drop n)
  else (List.replicate (n - 3) quote, true, s.drop n)

/-- What follows a backslash at the end of a line: the white space and line breaks after it are
passed over. -/
def joinedLine? (s : List Char) : Option (List Char) :=
  (newline? (skipBlanks s)).map fun rest =>
    rest.dropWhile fun c => isBlank c || c == '\n' || c == '\r'

/-- A string over several lines; `escapes` when a backslash has a meaning.  A line break reads as a
line feed. -/
def longString? (quote : Char) (escapes : Bool) : Nat → List Char → Option (List Char × List Char)
  | 0, _ => none
  | _ + 1, [] => none
  | fuel + 1, c :: rest =>
    if c = quote then
      match quoteRun quote (c :: rest) with
      | (own, true, rest) => some (own, rest)
      | (own, false, rest) =>
        (longString? quote escapes fuel rest).map fun (cs, rest) => (own ++ cs, rest)
    else if escapes ∧ c = '\\' then
      match joinedLine? rest with
      | some rest => longString? quote escapes fuel rest
      | none =>
        match escape? rest with
        | none => none
        | some (c, rest) => (longString? quote escapes fuel rest).map fun (cs, rest) =>
          (c :: cs, rest)
    else
      match newline? (c :: rest) with
      | some rest => (longString? quote escapes fuel rest).map fun (cs, rest) => ('\n' :: cs, rest)
      | none =>
        if isControl c then none
        else (longString? quote escapes fuel rest).map fun (cs, rest) => (c :: cs, rest)

/-- A string over several lines without the line break at its start. -/
def longStringBody? (quote : Char) (escapes : Bool) (s : List Char) :
    Option (List Char × List Char) :=
  let s := (newline? s).getD s
  longString? quote escapes (s.length + 1) s

/-- A string of any kind, from its opening quotes on. -/
def string? : List Char → Option (List Char × List Char)
  | '"' :: '"' :: '"' :: rest => longStringBody? '"' true rest
  | '\'' :: '\'' :: '\'' :: rest => longStringBody? '\'' false rest
  | '"' :: rest => basicString? (rest.length + 1) rest
  | '\'' :: rest => literalString? rest
  | _ => none

/-! ## §3 Keys -/

/-- Characters of a key without quotes. -/
def isBareKey (c : Char) : Bool := c.isAlphanum || c == '-' || c == '_'

/-- A key that no dot parts. -/
def simpleKey? : List Char → Option (String × List Char)
  | '"' :: rest =>
    (basicString? (rest.length + 1) rest).map fun (cs, rest) => (String.ofList cs, rest)
  | '\'' :: rest => (literalString? rest).map fun (cs, rest) => (String.ofList cs, rest)
  | s =>
    match s.takeWhile isBareKey with
    | [] => none
    | cs => some (String.ofList cs, s.dropWhile isBareKey)

/-- Keys with dots between them, and what follows them and the white space after them. -/
def key? : Nat → List Char → Option (List String × List Char)
  | 0, _ => none
  | fuel + 1, s =>
    match simpleKey? (skipBlanks s) with
    | none => none
    | some (key, rest) =>
      match skipBlanks rest with
      | '.' :: rest => (key? fuel rest).map fun (keys, rest) => (key :: keys, rest)
      | rest => some ([key], rest)

end CodeIndex.Toml
