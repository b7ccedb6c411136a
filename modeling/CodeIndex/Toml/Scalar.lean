import CodeIndex.Toml.Value

/-!
# Plain values of TOML

Booleans, integers, floating-point numbers, dates and times: everything that is written without
quotes or brackets.  `scalar?` takes the characters of one such value.
-/

namespace CodeIndex.Toml

/-! ## §1 Digits -/

/-- Whether digits have underscores only between two of them; `isDigit` says which digits. -/
def wellGrouped (isDigit : Char → Bool) : List Char → Bool
  | [] => false
  | [c] => isDigit c
  | c :: '_' :: rest => isDigit c && wellGrouped isDigit rest
  | c :: rest => isDigit c && wellGrouped isDigit rest

/-- The value of a digit, letters included. -/
def digitValue (c : Char) : Nat :=
  if c.isDigit then c.toNat - '0'.toNat
  else if 'a' ≤ c then c.toNat - 'a'.toNat + 10
  else c.toNat - 'A'.toNat + 10

/-- Whether a character is a digit to this base. -/
def isDigitOf (base : Nat) (c : Char) : Bool := c.isAlphanum && decide (digitValue c < base)

/-- The value of digits to a base, underscores aside. -/
def digitsValue (base : Nat) (cs : List Char) : Nat :=
  (cs.filter (· != '_')).foldl (fun n c => n * base + digitValue c) 0

/-- The number of grouped digits to a base. -/
def grouped? (base : Nat) (cs : List Char) : Option Nat :=
  if wellGrouped (isDigitOf base) cs then some (digitsValue base cs) else none

/-- Decimal digits without a superfluous zero at the start. -/
def isPlainDecimal (cs : List Char) : Bool :=
  wellGrouped Char.isDigit cs && (cs.head? != some '0' || cs.length == 1)

/-- A sign and what follows it. -/
def splitSign : List Char → Bool × List Char
  | '-' :: rest => (true, rest)
  | '+' :: rest => (false, rest)
  | rest => (false, rest)

/-! ## §2 Numbers -/

/-- An integer; it has at most 128 bits. -/
def integer? (cs : List Char) : Option Toml :=
  let bounded := fun n : Int => 
    if -0x80000000000000000000000000000000 ≤ n ∧ n < 0x100000000000000000000000000000000 then
      some (Toml.integer n)
    else none
  match cs with
  | '0' :: 'x' :: rest => (grouped? 16 rest).bind fun n => bounded n
  | '0' :: 'o' :: rest => (grouped? 8 rest).bind fun n => bounded n
  | '0' :: 'b' :: rest => (grouped? 2 rest).bind fun n => bounded n
  | cs =>
    let (negative, digits) := splitSign cs
    if isPlainDecimal digits then
      let n : Int := digitsValue 10 digits
      bounded (if negative then -n else n)
    else none

/-- The exponent of a number, if it has one: the part behind the letter. -/
def splitExponent (cs : List Char) : List Char × Option (List Char) :=
  let isMark := fun c => c == 'e' || c == 'E'
  match cs.dropWhile fun c => !isMark c with
  | [] => (cs, none)
  | _ :: rest => (cs.takeWhile fun c => !isMark c, some rest)

/-- Whether a decimal number, given by its digits and its power of ten, is finite in double
precision. -/
def isFiniteDecimal (digits : Nat) (power : Int) : Bool :=
  if digits = 0 ∨ power ≤ 0 then
    decide (digits < Nat.pow 10 (400 + power.natAbs))
      || !(Float.ofScientific digits true power.natAbs).isInf
  else if 400 < power then false
  else !(Float.ofScientific digits false power.natAbs).isInf

/-- A number with a fraction, an exponent or both. -/
def decimal? (cs : List Char) : Option Toml :=
  let (_, body) := splitSign cs
  let (mantissa, exponent) := splitExponent body
  let whole := mantissa.takeWhile (· != '.')
  let fraction := mantissa.dropWhile (· != '.')
  let fractionOk := match fraction with
    | [] => exponent.isSome
    | _ :: ds => wellGrouped Char.isDigit ds
  let exponentOk := match exponent with
    | none => true
    | some e => wellGrouped Char.isDigit (splitSign e).2
  if isPlainDecimal whole && fractionOk && exponentOk then
    let places := (fraction.filter Char.isDigit).length
    let power : Int := match exponent with
      | none => 0
      | some e =>
        let (negative, ds) := splitSign e
        if negative then -(digitsValue 10 ds : Int) else digitsValue 10 ds
    let digits := digitsValue 10 (whole ++ fraction.filter (· != '.'))
    if isFiniteDecimal digits (power - places) then some .float else none
  else none

/-- The numbers that have names. -/
def namedNumber? (cs : List Char) : Option Toml :=
  let (_, body) := splitSign cs
  if body = ['i', 'n', 'f'] ∨ body = ['n', 'a', 'n'] then some .float else none

/-! ## §3 Dates and times -/

/-- Exactly `n` decimal digits, and what follows them. -/
def fixedDigits? (n : Nat) (s : List Char) : Option (Nat × List Char) :=
  let ds := s.take n
  if ds.length = n ∧ ds.all Char.isDigit then some (digitsValue 10 ds, s.drop n) else none

/-- A character that has to stand at the start of a text, and what follows it. -/
def expect? (c : Char) : List Char → Option (List Char)
  | [] => none
  | d :: rest => if d = c then some rest else none

/-- The number of days of a month. -/
def daysIn (year month : Nat) : Nat :=
  if month = 2 then
    if year % 4 = 0 ∧ (year % 100 ≠ 0 ∨ year % 400 = 0) then 29 else 28
  else if month = 4 ∨ month = 6 ∨ month = 9 ∨ month = 11 then 30
  else 31

/-- What follows a date. -/
def date? (s : List Char) : Option (List Char) := do
  let (year, s) ← fixedDigits? 4 s
  let (month, s) ← fixedDigits? 2 (← expect? '-' s)
  let (day, s) ← fixedDigits? 2 (← expect? '-' s)
  if 1 ≤ month ∧ month ≤ 12 ∧ 1 ≤ day ∧ day ≤ daysIn year month then some s else none

/-- What follows a fraction of a second, if there is one. -/
def subsecond? : List Char → Option (List Char)
  | '.' :: rest =>
    if (rest.takeWhile Char.isDigit).isEmpty then none else some (rest.dropWhile Char.isDigit)
  | rest => some rest

/-- What follows a time; its seconds may be left out. -/
def time? (s : List Char) : Option (List Char) := do
  let (hour, s) ← fixedDigits? 2 s
  let (minute, s) ← fixedDigits? 2 (← expect? ':' s)
  if 23 < hour ∨ 59 < minute then none
  else
    match s with
    | ':' :: s =>
      let (second, s) ← fixedDigits? 2 s
      if 60 < second then none else subsecond? s
    | s => some s

/-- Whether a text is an offset from universal time, or empty. -/
def isOffset : List Char → Bool
  | [] => true
  | ['Z'] => true
  | ['z'] => true
  | sign :: s =>
    (sign == '+' || sign == '-') &&
      match (do
        let (hours, s) ← fixedDigits? 2 s
        let (minutes, s) ← fixedDigits? 2 (← expect? ':' s)
        return (hours, minutes, s)) with
      | some (hours, minutes, s) => decide (hours ≤ 23 ∧ minutes ≤ 59) && s.isEmpty
      | none => false

/-- Whether a text is a date, a time, or both with the offset that may follow them. -/
def isMoment (s : List Char) : Bool :=
  match date? s with
  | none => time? s == some []
  | some [] => true
  | some (sep :: s) =>
    (sep == 'T' || sep == 't' || sep == ' ') &&
      match time? s with
      | some rest => isOffset rest
      | none => false

/-! ## §4 Values -/

/-- The value that the characters of a plain value stand for. -/
def scalar? (cs : List Char) : Option Toml :=
  if cs = ['t', 'r', 'u', 'e'] then some (.boolean true)
  else if cs = ['f', 'a', 'l', 's', 'e'] then some (.boolean false)
  else
    match integer? cs with
    | some v => some v
    | none =>
      match namedNumber? cs with
      | some v => some v
      | none =>
        match decimal? cs with
        | some v => some v
        | none => if isMoment cs then some .moment else none

/-- Characters of a plain value. -/
def isScalarChar (c : Char) : Bool :=
  c.isAlphanum || c == '_' || c == '+' || c == '-' || c == '.' || c == ':'

/-- The characters of a plain value at the start of a text, and what follows them.  A single space
may part a date from a time. -/
def takeScalar (s : List Char) : List Char × List Char :=
  let first := s.takeWhile isScalarChar
  let rest := s.dropWhile isScalarChar
  match date? first, rest with
  | some [], ' ' :: d :: more =>
    if d.isDigit then
      (first ++ ' ' :: (d :: more).takeWhile isScalarChar, (d :: more).dropWhile isScalarChar)
    else (first, rest)
  | _, _ => (first, rest)

end CodeIndex.Toml
