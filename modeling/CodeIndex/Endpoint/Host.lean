import CodeIndex.Endpoint.Punycode
import CodeIndex.Text.Basic
import CodeIndex.Text.Utf8

/-!
# Hosts of URLs

A host is a domain name or an address of four or of sixteen octets.  Names are folded to lower case
and to ASCII before they are judged, and a name whose last label is a number has to be an address.

The mapping of names is that of the common scripts, not all of UTS 46: `UrlHost.foldChar` and
`UrlHost.asciiName?` say what is left out.
-/

namespace CodeIndex

/-- The host of a URL. -/
inductive UrlHost where
  | domain (name : String)
  /-- An address of four octets, as one number. -/
  | v4 (address : Nat)
  /-- An address of eight pieces of 16 bits each. -/
  | v6 (pieces : List Nat)
  deriving DecidableEq, Inhabited, Repr

namespace UrlHost

/-! ## §1 Addresses of four octets -/

/-- The number that digits to a base stand for. -/
def numberOf? (base : Nat) (cs : List Char) : Option Nat := do
  let ds ← cs.mapM Text.hexDigit?
  if ds.all (· < base) then some (ds.foldl (fun n d => n * base + d) 0) else none

/-- A part of an address: decimal, octal behind a zero, or hexadecimal behind `0x`. -/
def addressPart? : List Char → Option Nat
  | [] => none
  | '0' :: 'x' :: rest => numberOf? 16 rest
  | '0' :: 'X' :: rest => numberOf? 16 rest
  | '0' :: rest => numberOf? 8 rest
  | cs => numberOf? 10 cs

/-- The labels of a name, the empty one behind a dot at the end aside. -/
def labels (name : List Char) : List (List Char) :=
  let parts := name.splitOn '.'
  if 1 < parts.length ∧ parts.getLast? = some [] then parts.dropLast else parts

/-- Whether the last label of a name is a number. -/
def endsInNumber (name : List Char) : Bool :=
  match (labels name).getLast? with
  | some last =>
    (!last.isEmpty && last.all Char.isDigit) ||
      (last.head? == some '0' && (addressPart? last).isSome)
  | none => false

/-- The address that the parts of a name stand for: the last part fills up all octets that the parts
before it leave. -/
def v4OfParts? (parts : List Nat) : Option Nat :=
  match parts.getLast? with
  | none => none
  | some last =>
    let front := parts.dropLast
    if 4 < parts.length ∨ front.any (255 < ·) ∨ Nat.pow 256 (5 - parts.length) ≤ last then none
    else some (front.zipIdx.foldl (fun n (part, i) => n + part * Nat.pow 256 (3 - i)) last)

/-- The address that a name stands for. -/
def v4? (name : List Char) : Option Nat :=
  ((labels name).mapM addressPart?).bind v4OfParts?

/-- The text of an address of four octets. -/
def v4Text (address : Nat) : String :=
  ".".intercalate ((List.range 4).map fun i => toString (address / Nat.pow 256 (3 - i) % 256))

/-! ## §2 Addresses of sixteen octets -/

/-- The pieces of a part of an address without a double colon; four octets may stand at its end. -/
def pieces? (atEnd : Bool) (cs : List Char) : Option (List Nat) :=
  if cs.isEmpty then some []
  else
    let parts := cs.splitOn ':'
    let piece? := fun part : List Char =>
      if part.isEmpty ∨ 4 < part.length then none else numberOf? 16 part
    match parts.getLast? with
    | none => none
    | some last =>
      if last.contains '.' then
        let octets := (last.splitOn '.').map fun part =>
          if part.length = 1 ∨ part.head? ≠ some '0' then
            if part.all Char.isDigit ∧ part ≠ [] then numberOf? 10 part else none
          else none
        match atEnd, parts.dropLast.mapM piece?, octets with
        | true, some front, [some a, some b, some c, some d] =>
          if a < 256 ∧ b < 256 ∧ c < 256 ∧ d < 256 then
            some (front ++ [a * 256 + b, c * 256 + d])
          else none
        | _, _, _ => none
      else parts.mapM piece?

/-- What stands before the first double colon and what behind it. -/
def splitDoubleColon : List Char → List Char × Option (List Char)
  | [] => ([], none)
  | ':' :: ':' :: rest => ([], some rest)
  | c :: rest =>
    let (before, behind) := splitDoubleColon rest
    (c :: before, behind)

/-- The address of sixteen octets that a text stands for. -/
def v6? (cs : List Char) : Option (List Nat) := do
  match splitDoubleColon cs with
  | (all, none) =>
    let pieces ← pieces? true all
    if pieces.length = 8 then some pieces else none
  | (before, some behind) =>
    let front ← pieces? false before
    let back ← pieces? true behind
    if front.length + back.length < 8 then
      some (front ++ List.replicate (8 - front.length - back.length) 0 ++ back)
    else none

/-- Where the longest run of zeros starts and how long it is; of several the first. -/
def longestZeros (pieces : List Nat) : Nat × Nat :=
  (List.range pieces.length).foldl (fun (start, len) i =>
    let here := ((pieces.drop i).takeWhile (· == 0)).length
    if len < here then (i, here) else (start, len)) (0, 0)

/-- A number to base 16. -/
def hexText (n : Nat) : String := String.ofList (Nat.toDigits 16 n)

/-- The text of an address of sixteen octets: the longest run of at least two zeros is left out, and
an address that stands for one of four octets ends in the text of that. -/
def v6Text (pieces : List Nat) : String :=
  match pieces with
  | [0, 0, 0, 0, 0, 0xFFFF, hi, lo] => "::ffff:" ++ v4Text (hi * 65536 + lo)
  | pieces =>
    let (start, len) := longestZeros pieces
    let join := fun ps : List Nat => ":".intercalate (ps.map hexText)
    if len < 2 then join pieces
    else join (pieces.take start) ++ "::" ++ join (pieces.drop (start + len))

/-! ## §3 Names -/

/-- The text with each percent sign and the two digits behind it read as an octet. -/
def percentDecode : List Char → Text.Octets
  | '%' :: a :: b :: rest =>
    match Text.hexDigit? a, Text.hexDigit? b with
    | some x, some y => (x * 16 + y).toUInt8 :: percentDecode rest
    | _, _ => Text.octets "%" ++ percentDecode (a :: b :: rest)
  | c :: rest => Text.octets (String.singleton c) ++ percentDecode rest
  | [] => []

/-- A character of a name as it is compared: capital letters become small ones, full stops of other
scripts become dots, wide forms become narrow, and invisible characters vanish.  Capital letters are
those of the Latin, Greek and Cyrillic blocks.  Compatibility characters other than wide forms, such
as ligatures, are kept as they are, and so is what no name may have. -/
def foldChar (c : Char) : List Char :=
  let n := c.toNat
  if n = 0xAD ∨ n = 0x200B ∨ n = 0x2060 ∨ n = 0xFEFF then []
  else if n = 0x3002 ∨ n = 0xFF61 then ['.']
  else if n = 0xA0 ∨ n = 0x3000 then [' ']
  else if 0xFF01 ≤ n ∧ n ≤ 0xFF5E then [(Char.ofNat (n - 0xFEE0)).toLower]
  else if (0xC0 ≤ n ∧ n ≤ 0xDE ∧ n ≠ 0xD7) ∨ (0x391 ≤ n ∧ n ≤ 0x3A9) ∨ (0x410 ≤ n ∧ n ≤ 0x42F) then
    [Char.ofNat (n + 32)]
  else if 0x400 ≤ n ∧ n ≤ 0x40F then [Char.ofNat (n + 80)]
  else [c.toLower]

/-- A label in ASCII. -/
def asciiLabel (label : List Char) : List Char :=
  if label.all fun c => c.toNat < 128 then label else ['x', 'n', '-', '-'] ++ Punycode.encode label

/-- Characters that no host has. -/
def isForbidden (c : Char) : Bool :=
  ['\x00', '\t', '\n', '\r', ' ', '#', '/', ':', '<', '>', '?', '@', '[', '\\', ']', '^',
    '|'].contains c

/-- Characters that no host name has. -/
def isForbiddenInName (c : Char) : Bool :=
  isForbidden c || c.toNat < 0x20 || c == '%' || c.toNat = 0x7F

/-- A host name in ASCII.  It is only checked for characters that no name has.  What stands behind
`xn--` is not decoded, so a name such as `xn--a` is accepted here, although it encodes nothing and a
URL with it is refused elsewhere; nor are lengths of labels and directions of scripts looked at. -/
def asciiName? (cs : List Char) : Option (List Char) := do
  let text ← Text.decode? (percentDecode cs)
  let folded := text.toList.flatMap foldChar
  let name := ['.'].intercalate ((folded.splitOn '.').map asciiLabel)
  if name.isEmpty ∨ name.any isForbiddenInName ∨ folded.contains '\uFFFD' then none
  else some name

/-- An address of sixteen octets in brackets. -/
def bracketed? (cs : List Char) : Option UrlHost :=
  match cs.reverse with
  | ']' :: inside => (v6? inside.reverse).map .v6
  | _ => none

/-- The host of a URL whose scheme has a registry of names. -/
def ofText? (cs : List Char) : Option UrlHost :=
  match cs with
  | '[' :: rest => bracketed? rest
  | cs => do
    let name ← asciiName? cs
    if endsInNumber name then (v4? name).map .v4 else some (.domain (String.ofList name))

/-- The text of control characters and characters beyond ASCII by their octets. -/
def percentEncode (c : Char) : List Char :=
  if c.toNat ≤ 0x1F ∨ 0x7F ≤ c.toNat then
    (Text.octets (String.singleton c)).flatMap fun b =>
      ['%', (Nat.digitChar (b.toNat / 16)).toUpper, (Nat.digitChar (b.toNat % 16)).toUpper]
  else [c]

/-- The host of a URL of any other scheme, which is taken as it is. -/
def verbatim? (cs : List Char) : Option UrlHost :=
  match cs with
  | '[' :: rest => bracketed? rest
  | cs =>
    if cs.isEmpty ∨ cs.any isForbidden then none
    else some (.domain (String.ofList (cs.flatMap percentEncode)))

/-- The text of a host, without brackets. -/
def text : UrlHost → String
  | domain name => name
  | v4 address => v4Text address
  | v6 pieces => v6Text pieces

end UrlHost

end CodeIndex
