/-!
# Octets as text

File names and file contents are octet sequences.  `decode?` accepts exactly the well-formed UTF-8
sequences; `decodeLossy` reads any sequence and puts U+FFFD in place of each maximal ill-formed
part.
-/

namespace CodeIndex.Text

/-- A sequence of octets, such as a file name. -/
abbrev Octets := List UInt8

/-- The UTF-8 octets of a text. -/
def octets (s : String) : Octets := s.toUTF8.toList

/-- The text that the octets spell, if they are well-formed UTF-8. -/
def decode? (bytes : Octets) : Option String :=
  String.fromUTF8? (ByteArray.mk bytes.toArray)

/-- How a sequence that starts with `lead` goes on: the number of further octets and the range of
the first of them.  `none` for octets that start no sequence. -/
def leadShape (lead : UInt8) : Option (Nat × UInt8 × UInt8) :=
  if lead < 0x80 then some (0, 0x80, 0xBF)
  else if lead < 0xC2 then none
  else if lead ≤ 0xDF then some (1, 0x80, 0xBF)
  else if lead = 0xE0 then some (2, 0xA0, 0xBF)
  else if lead = 0xED then some (2, 0x80, 0x9F)
  else if lead ≤ 0xEF then some (2, 0x80, 0xBF)
  else if lead = 0xF0 then some (3, 0x90, 0xBF)
  else if lead ≤ 0xF3 then some (3, 0x80, 0xBF)
  else if lead = 0xF4 then some (3, 0x80, 0x8F)
  else none

/-- Reads up to `n` continuation octets, the first of them between `lo` and `hi`, onto the code
point `acc`.  Answers the character, if all were there, and the octets that follow. -/
def takeTails (n : Nat) (lo hi : UInt8) (acc : Nat) (rest : Octets) : Option Char × Octets :=
  match n, rest with
  | 0, rest => (some (Char.ofNat acc), rest)
  | _ + 1, [] => (none, [])
  | n + 1, b :: rest =>
    if lo ≤ b ∧ b ≤ hi then takeTails n 0x80 0xBF (acc * 64 + b.toNat % 64) rest
    else (none, b :: rest)

private theorem takeTails_length_le (n : Nat) (lo hi : UInt8) (acc : Nat) (rest : Octets) :
    (takeTails n lo hi acc rest).2.length ≤ rest.length := by
  induction n generalizing lo hi acc rest with
  | zero => cases rest <;> simp [takeTails]
  | succ n ih =>
    cases rest with
    | nil => simp [takeTails]
    | cons b rest =>
      simp only [takeTails]
      split
      · exact Nat.le_succ_of_le (ih ..)
      · simp

/-- The payload bits of a lead octet that announces `n` further octets. -/
def leadBits (lead : UInt8) : Nat → Nat
  | 0 => lead.toNat
  | 1 => lead.toNat % 32
  | 2 => lead.toNat % 16
  | _ => lead.toNat % 8

/-- The characters of an octet sequence, each maximal ill-formed part read as U+FFFD. -/
def decodeLossyChars : Octets → List Char
  | [] => []
  | lead :: rest =>
    match leadShape lead with
    | none => '\uFFFD' :: decodeLossyChars rest
    | some (n, lo, hi) =>
      have := takeTails_length_le n lo hi (leadBits lead n) rest
      ((takeTails n lo hi (leadBits lead n) rest).1.getD '\uFFFD')
        :: decodeLossyChars (takeTails n lo hi (leadBits lead n) rest).2
  termination_by bytes => bytes.length

/-- The text of an octet sequence, each maximal ill-formed part read as U+FFFD. -/
def decodeLossy (bytes : Octets) : String :=
  match decode? bytes with
  | some s => s
  | none => String.ofList (decodeLossyChars bytes)

end CodeIndex.Text
