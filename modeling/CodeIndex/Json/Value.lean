import CodeIndex.Number.Single

/-!
# JSON values

A parsed document keeps what later readers need to judge it: object members in order with repeated
names, numbers as written, and for a string only the fact that it spells no text when one of its
escapes is half of a surrogate pair.

A number without fraction and exponent that fits 64 bits is an integer and is rounded to a single
once.  Any other number is first put together as a double: its leading digits as a 64-bit integer,
scaled by one power of ten (more when the exponent is very low), and then rounded to a single.
-/

namespace CodeIndex

/-- A number as written. -/
structure NumberText where
  negative : Bool
  /-- Digits before the point, most significant first. -/
  whole : List Nat
  /-- Digits after the point, if there is one. -/
  fraction : Option (List Nat)
  /-- Whether the exponent is negative, and its digits. -/
  exponent : Option (Bool × List Nat)
  deriving DecidableEq, Inhabited, Repr

/-- A JSON document. -/
inductive Json where
  | null
  | bool (b : Bool)
  | number (n : NumberText)
  /-- `none` when an escape stands for half of a surrogate pair. -/
  | string (s : Option String)
  | array (items : List Json)
  | object (members : List (Option String × Json))
  deriving Inhabited

end CodeIndex

namespace CodeIndex.NumberText

/-- One more than the largest 64-bit integer. -/
def limit64 : Nat := 0x10000000000000000

/-- The longest run of leading digits whose integer value, appended to `acc`, stays below `2 ^ 64`:
that integer, how many digits it took, and the digits left over. -/
def leading (acc : Nat) : List Nat → Nat × Nat × List Nat
  | [] => (acc, 0, [])
  | d :: ds =>
    if acc * 10 + d < limit64 then
      let (n, k, rest) := leading (acc * 10 + d) ds
      (n, k + 1, rest)
    else (acc, 0, d :: ds)

/-- A power of ten as a double, for exponents up to 308. -/
def powerOfTen (n : Nat) : Float := Float.ofScientific 1 false n

/-- `f · 10 ^ e`: one multiplication or division, after divisions by `10 ^ 308` while `e` is lower
than -308.  `none` when the result is infinite. -/
def scale (f : Float) (e : Int) : Nat → Option Float
  | 0 => some f
  | fuel + 1 =>
    if e.natAbs ≤ 308 then
      if 0 ≤ e then
        let g := f * powerOfTen e.natAbs
        if g.isInf then none else some g
      else some (f / powerOfTen e.natAbs)
    else if f == 0.0 then some f
    else if 0 ≤ e then none
    else scale (f / powerOfTen 308) (e + 308) fuel

/-- An exponent's digits as an integer, `none` from `2 ^ 31` on. -/
def exponentValue? (ds : List Nat) : Option Nat :=
  let n := ds.foldl (fun n d => n * 10 + d) 0
  if n < 0x80000000 then some n else none

/-- Keeps an exponent within 32 bits. -/
def clamp32 (e : Int) : Int := max (-0x80000000) (min 0x7FFFFFFF e)

/-- The number as a double without its sign, `none` when it is too large. -/
def magnitude? (n : NumberText) : Option Float :=
  let (significand, _, beyond) := leading 0 n.whole
  let (significand, shift) := match n.fraction with
    | none => (significand, (beyond.length : Int))
    | some ds =>
      let (s, k, _) := leading significand ds
      (s, (beyond.length : Int) - k)
  let f := (UInt64.ofNat significand).toFloat
  match n.exponent with
  | none => scale f shift 100
  | some (down, ds) =>
    match exponentValue? ds with
    | none => if significand ≠ 0 ∧ ¬ down then none else some 0.0
    | some e => scale f (clamp32 (if down then shift - e else shift + e)) 10000000

/-- The number as a single, `none` when it is too large for a double. -/
def toSingle? (n : NumberText) : Option Single :=
  let whole := n.whole.foldl (fun n d => n * 10 + d) 0
  if n.fraction = none ∧ n.exponent = none ∧ whole < limit64 ∧
    (n.negative → 0 < whole ∧ whole ≤ 0x8000000000000000) then
    if n.negative then
      some (Single.ofFloat32 (-(UInt64.ofNat whole).toFloat32))
    else some (Single.ofNat whole)
  else
    n.magnitude?.map fun f =>
      Single.ofFloat32 (if n.negative then (-f).toFloat32 else f.toFloat32)

end CodeIndex.NumberText
