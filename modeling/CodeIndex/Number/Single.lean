/-!
# Single-precision numbers

A `Single` is an IEEE 754 binary32 value, given by its 32 bits.  Storing and comparing bits keeps
every value apart (both zeros, every NaN); arithmetic and numeric comparison are the IEEE operations
with rounding to nearest, ties to even.
-/

namespace CodeIndex

/-- An IEEE 754 binary32 value by its bit pattern. -/
structure Single where
  /-- Sign, eight exponent bits and 23 fraction bits, from the highest bit down. -/
  bits : UInt32
  deriving DecidableEq, Inhabited, Repr

/-- An embedding vector. -/
abbrev Embedding := List Single

namespace Single

/-- The machine number with these bits. -/
def toFloat32 (x : Single) : Float32 := Float32.ofBits x.bits

/-- The bits of a machine number. -/
def ofFloat32 (x : Float32) : Single := ⟨x.toBits⟩

/-- Positive zero. -/
def zero : Single := ⟨0⟩

/-- The number one. -/
def one : Single := ⟨0x3F800000⟩

/-- The nearest single to a count below `2 ^ 64`. -/
def ofNat (n : Nat) : Single := ofFloat32 (UInt64.ofNat n).toFloat32

/-- The rounded sum. -/
protected def add (x y : Single) : Single := ofFloat32 (x.toFloat32 + y.toFloat32)

/-- The rounded product. -/
protected def mul (x y : Single) : Single := ofFloat32 (x.toFloat32 * y.toFloat32)

/-- The rounded quotient. -/
protected def div (x y : Single) : Single := ofFloat32 (x.toFloat32 / y.toFloat32)

/-- The rounded square root. -/
def sqrt (x : Single) : Single := ofFloat32 x.toFloat32.sqrt

instance : Add Single := ⟨Single.add⟩
instance : Mul Single := ⟨Single.mul⟩
instance : Div Single := ⟨Single.div⟩

/-- The biased exponent. -/
def exponentBits (x : Single) : Nat := x.bits.toNat / 0x800000 % 256

/-- The fraction bits. -/
def fractionBits (x : Single) : Nat := x.bits.toNat % 0x800000

/-- Whether the sign bit is set. -/
def isNegative (x : Single) : Bool := 0x80000000 ≤ x.bits.toNat

/-- Neither infinite nor NaN. -/
def isFinite (x : Single) : Bool := x.exponentBits != 255

/-- Not a number. -/
def isNaN (x : Single) : Bool := x.exponentBits == 255 && x.fractionBits != 0

/-- One of the two zeros. -/
def isZero (x : Single) : Bool := x.exponentBits == 0 && x.fractionBits == 0

/-- Numeric equality: the zeros are equal, and a NaN equals nothing. -/
def sameNumber (x y : Single) : Bool :=
  if x.isNaN || y.isNaN then false
  else x.bits == y.bits || (x.isZero && y.isZero)

/-- The four octets of the bit pattern, lowest first. -/
def toOctets (x : Single) : List UInt8 :=
  [x.bits.toUInt8, (x.bits >>> 8).toUInt8, (x.bits >>> 16).toUInt8, (x.bits >>> 24).toUInt8]

/-- The value whose octets, lowest first, are these. -/
def ofOctets (b₀ b₁ b₂ b₃ : UInt8) : Single :=
  ⟨b₀.toUInt32 ||| (b₁.toUInt32 <<< 8) ||| (b₂.toUInt32 <<< 16) ||| (b₃.toUInt32 <<< 24)⟩

end Single

namespace Embedding

/-- The octets of a vector, four to a component. -/
def toOctets (v : Embedding) : List UInt8 := v.flatMap Single.toOctets

/-- The vector stored in a run of octets; up to three octets left over at the end are dropped. -/
def ofOctets : List UInt8 → Embedding
  | b₀ :: b₁ :: b₂ :: b₃ :: rest => Single.ofOctets b₀ b₁ b₂ b₃ :: ofOctets rest
  | _ => []

/-- Numeric equality, component by component. -/
def sameNumbers : Embedding → Embedding → Bool
  | [], [] => true
  | x :: v, y :: w => x.sameNumber y && sameNumbers v w
  | _, _ => false

end Embedding

end CodeIndex
