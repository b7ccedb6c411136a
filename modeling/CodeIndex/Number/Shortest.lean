import CodeIndex.Number.Single

/-!
# Shortest decimals

Every finite positive binary32 value `m · 2 ^ q` is the only one in an interval of reals around it.
`shortest` finds the fewest decimal digits whose number lies in that interval, nearest to the value
among those, and `Single.text` writes them: positionally for decimal exponents from -6 to 12, with a
marked exponent otherwise.
-/

namespace CodeIndex.Shortest

/-- A positive binary number `mantissa · 2 ^ exponent` and the interval that rounds to it: `below`
and `above` are its distances to the ends, in quarters of `2 ^ exponent`, and `closed` says whether
the ends belong to it. -/
structure Interval where
  mantissa : Nat
  exponent : Int
  below : Nat
  above : Nat
  closed : Bool

/-- A decimal number `digits · 10 ^ exponent`. -/
structure Decimal where
  digits : Nat
  exponent : Int
  deriving DecidableEq, Repr

/-- Numerator and denominator of the quotient of `quarters · 2 ^ (e - 2)` by `10 ^ k`. -/
def ratio (quarters : Nat) (e k : Int) : Nat × Nat :=
  (quarters * Nat.pow 2 (e - 2).toNat * Nat.pow 10 (-k).toNat,
    Nat.pow 2 (2 - e).toNat * Nat.pow 10 k.toNat)

/-- Whether `d · 10 ^ k` lies in the interval. -/
def Interval.contains (v : Interval) (k : Int) (d : Nat) : Bool :=
  let (loNum, den) := ratio (4 * v.mantissa - v.below) v.exponent k
  let (hiNum, _) := ratio (4 * v.mantissa + v.above) v.exponent k
  if v.closed then loNum ≤ d * den && d * den ≤ hiNum
  else loNum < d * den && d * den < hiNum

/-- The multiple of `10 ^ k` in the interval that is nearest to the value, if there is one.  Only
the two neighbours of the value on that grid need a look; a tie goes to the even one. -/
def Interval.onGrid? (v : Interval) (k : Int) : Option Nat :=
  let (num, den) := ratio (4 * v.mantissa) v.exponent k
  let lo := num / den
  let rest := num % den
  let loIn := v.contains k lo && lo != 0
  let hiIn := rest != 0 && v.contains k (lo + 1)
  if loIn && hiIn then
    if 2 * rest < den || (2 * rest == den && lo % 2 == 0) then some lo else some (lo + 1)
  else if loIn then some lo
  else if hiIn then some (lo + 1)
  else none

/-- The first hit on the grids `10 ^ k`, `10 ^ (k - 1)`, …, at most `fuel` of them. -/
def Interval.search (v : Interval) (k : Int) : Nat → Decimal
  | 0 => ⟨0, 0⟩
  | fuel + 1 =>
    match v.onGrid? k with
    | some d => ⟨d, k⟩
    | none => v.search (k - 1) fuel

/-- A decimal with no zero at the end of its digits. -/
def Decimal.strip (d : Decimal) : Nat → Decimal
  | 0 => d
  | fuel + 1 =>
    if d.digits % 10 = 0 ∧ d.digits ≠ 0 then
      (Decimal.mk (d.digits / 10) (d.exponent + 1)).strip fuel
    else d

/-- The interval of a positive finite value. -/
def intervalOf (x : Single) : Interval :=
  if x.exponentBits = 0 then
    ⟨x.fractionBits, -149, 2, 2, x.fractionBits % 2 == 0⟩
  else
    let below := if x.fractionBits = 0 ∧ 1 < x.exponentBits then 1 else 2
    ⟨0x800000 + x.fractionBits, (x.exponentBits : Int) - 150, below, 2, x.fractionBits % 2 == 0⟩

/-- The shortest decimal that reads back as `x`, for positive finite `x`. -/
def shortest (x : Single) : Decimal :=
  ((intervalOf x).search 39 90).strip 60

/-- `n` zeros. -/
def zeros (n : Nat) : List Char := List.replicate n '0'

/-- The text of `d`: with a point and at least one digit after it when the decimal exponent of the
first digit is from -6 to 12, otherwise with an exponent mark. -/
def Decimal.text (d : Decimal) : List Char :=
  let ds := Nat.toDigits 10 d.digits
  let point : Int := ds.length + d.exponent
  if 0 ≤ d.exponent ∧ point ≤ 13 then
    ds ++ zeros d.exponent.toNat ++ ['.', '0']
  else if 0 < point ∧ point ≤ 13 then
    ds.take point.toNat ++ '.' :: ds.drop point.toNat
  else if -6 < point ∧ point ≤ 0 then
    ['0', '.'] ++ zeros (-point).toNat ++ ds
  else
    let e := point - 1
    let mark := if e < 0 then ['e', '-'] else ['e', '+']
    let tail := match ds.drop 1 with
      | [] => []
      | more => '.' :: more
    ds.take 1 ++ tail ++ mark ++ Nat.toDigits 10 e.natAbs

end CodeIndex.Shortest

namespace CodeIndex.Single

/-- The shortest text that reads back as `x`; the two infinities and NaN have none. -/
def text? (x : Single) : Option (List Char) :=
  if x.isFinite then
    let sign := if x.isNegative then ['-'] else []
    let body := if x.isZero then ['0', '.', '0'] else (Shortest.shortest x).text
    some (sign ++ body)
  else none

end CodeIndex.Single
