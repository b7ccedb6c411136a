/-!
# Punycode

A label of a host name that is not ASCII is written as the ASCII characters it has, a hyphen if
there are any, and then one number for each other character, in the order of their code points: how
far it is from the one before.  Numbers have variable length, to base 36 and with thresholds that
adapt.
-/

namespace CodeIndex.Punycode

/-- The character of a digit to base 36. -/
def digitChar (d : Nat) : Char :=
  if d < 26 then Char.ofNat ('a'.toNat + d) else Char.ofNat ('0'.toNat + (d - 26))

/-- The threshold of the digit at place `k`, a multiple of 36: at least 1 and at most 26. -/
def threshold (k bias : Nat) : Nat := max 1 (min 26 (k - bias))

private theorem threshold_bounds (k bias : Nat) : 1 ≤ threshold k bias ∧ threshold k bias ≤ 26 := by
  simp only [threshold]
  omega

/-- The digits of a number from place `k` on. -/
def digitsFrom (k bias q : Nat) : List Char :=
  let t := threshold k bias
  if q < t then [digitChar q]
  else digitChar (t + (q - t) % (36 - t)) :: digitsFrom (k + 36) bias ((q - t) / (36 - t))
  termination_by q
  decreasing_by
    have h := threshold_bounds k bias
    have hle := Nat.div_le_self (q - threshold k bias) (36 - threshold k bias)
    omega

/-- The part of the new bias that depends on a reduced distance, after `k` steps. -/
def adaptFrom (k delta : Nat) : Nat :=
  if delta ≤ 455 then k + 36 * delta / (delta + 38) else adaptFrom (k + 36) (delta / 35)
  termination_by delta
  decreasing_by exact Nat.div_lt_self (by omega) (by omega)

/-- The bias after a distance, with `count` characters written. -/
def adapt (delta count : Nat) (first : Bool) : Nat :=
  let scaled := if first then delta / 700 else delta / 2
  adaptFrom 0 (scaled + scaled / count)

/-- The state of writing a label. -/
structure State where
  /-- The distance so far. -/
  delta : Nat
  bias : Nat
  /-- How many characters are written. -/
  count : Nat
  /-- No number has been written yet. -/
  first : Bool
  output : List Char

/-- Passes one character of the label while those of code point `m` are written. -/
def passChar (m : Nat) (s : State) (c : Char) : State :=
  if c.toNat < m then { s with delta := s.delta + 1 }
  else if c.toNat = m then
    { delta := 0
      bias := adapt s.delta (s.count + 1) s.first
      count := s.count + 1
      first := false
      output := s.output ++ digitsFrom 36 s.bias s.delta }
  else s

/-- Writes the characters of code point `m`, the next one after `n`. -/
def passPoint (label : List Char) (s : State × Nat) (m : Nat) : State × Nat :=
  let (s, n) := s
  let s := label.foldl (passChar m) { s with delta := s.delta + (m - n) * (s.count + 1) }
  ({ s with delta := s.delta + 1 }, m + 1)

/-- The ASCII text of a label. -/
def encode (label : List Char) : List Char :=
  let basic := label.filter fun c => c.toNat < 128
  let points := ((label.map Char.toNat).filter (128 ≤ ·)).eraseDups.mergeSort fun a b =>
    decide (a ≤ b)
  let start : State := ⟨0, 72, basic.length, true, []⟩
  let s := (points.foldl (passPoint label) (start, 128)).1
  basic ++ (if basic.isEmpty then [] else ['-']) ++ s.output

end CodeIndex.Punycode
