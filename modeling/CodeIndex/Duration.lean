/-!
# Durations

A span of time in whole nanoseconds, at most `2 ^ 64` seconds less a nanosecond; arithmetic stops at
that limit.  Its text has the largest unit in which the whole part is not zero.
-/

namespace CodeIndex

/-- A span of time. -/
structure Duration where
  /-- Whole nanoseconds. -/
  nanos : Nat
  deriving DecidableEq, Inhabited, Repr

namespace Duration

/-- Nanoseconds in a second. -/
def perSecond : Nat := 1000000000

/-- Nanoseconds in a millisecond. -/
def perMilli : Nat := 1000000

/-- The longest span. -/
def longest : Duration := ⟨0x10000000000000000 * perSecond - 1⟩

/-- A number of seconds. -/
def ofSeconds (s : Nat) : Duration := ⟨s * perSecond⟩

/-- A number of milliseconds. -/
def ofMillis (ms : Nat) : Duration := ⟨ms * perMilli⟩

/-- Whole seconds. -/
def seconds (d : Duration) : Nat := d.nanos / perSecond

/-- Nanoseconds beyond the whole seconds. -/
def subsecNanos (d : Duration) : Nat := d.nanos % perSecond

/-- The shorter of two spans. -/
def min (a b : Duration) : Duration := ⟨Nat.min a.nanos b.nanos⟩

/-- `d` taken `k` times, or the longest span when that is too long. -/
def saturatingMul (d : Duration) (k : Nat) : Duration :=
  ⟨Nat.min (d.nanos * k) longest.nanos⟩

/-- The digits of `rest / unit` after the point, `unit` a power of ten, without zeros at the end. -/
def fractionDigits (rest unit : Nat) : List Char :=
  let width := (Nat.toDigits 10 unit).length - 1
  let ds := Nat.toDigits 10 rest
  let padded := List.replicate (width - ds.length) '0' ++ ds
  (padded.reverse.dropWhile (· == '0')).reverse

/-- `n / unit` with a point only if there is a fraction, followed by the unit's sign. -/
def textIn (n unit : Nat) (sign : String) : String :=
  let fraction := if n % unit = 0 then [] else '.' :: fractionDigits (n % unit) unit
  String.ofList (Nat.toDigits 10 (n / unit) ++ fraction) ++ sign

/-- The text in seconds, milliseconds, microseconds or nanoseconds. -/
def text (d : Duration) : String :=
  if perSecond ≤ d.nanos then textIn d.nanos perSecond "s"
  else if perMilli ≤ d.nanos then textIn d.nanos perMilli "ms"
  else if 1000 ≤ d.nanos then textIn d.nanos 1000 "µs"
  else textIn d.nanos 1 "ns"

end Duration

end CodeIndex
