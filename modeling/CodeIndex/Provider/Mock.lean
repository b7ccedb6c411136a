import CodeIndex.Provider
import CodeIndex.Text.Utf8

/-!
# The mock provider

A provider without an endpoint.  It derives the vector from the octets of the text, refuses the
texts that contain a marker, and can be told to fail a number of times before it answers a text.
-/

namespace CodeIndex

/-- What the mock provider does. -/
structure MockSettings where
  dimensions : Nat := 8
  model : String := "mock-embedding"
  /-- Texts that contain this are refused. -/
  failMarker : Option String := none
  /-- How often each text fails before it is answered. -/
  transientFailures : Nat := 0
  delay : Duration := ⟨0⟩
  deriving Inhabited, Repr

/-- How often each text has failed so far. -/
abbrev FailureCounts := List (String × Nat)

namespace MockSettings

/-- The model's name for vectors of this many components. -/
def modelOfDimensions (n : Nat) : String := "mock-embedding-" ++ toString n

/-- Whether `part` occurs in a text. -/
def occursIn (part : List Char) : List Char → Bool
  | [] => part.isEmpty
  | c :: cs => part.isPrefixOf (c :: cs) || occursIn part cs

/-- Adds an octet's share to the component that its place and value choose. -/
def addOctet (v : Embedding) (place : Nat) (b : UInt8) : Embedding :=
  v.modify ((place + b.toNat) % v.length) fun x => x + Single.ofNat b.toNat / Single.ofNat 255

/-- The vector of a text: every octet adds to one component.  It is never zero. -/
def vectorFor (s : MockSettings) (text : String) : Embedding :=
  let sums := (Text.octets text).zipIdx.foldl (fun v (b, place) => addOctet v place b)
    (List.replicate (max 1 s.dimensions) Single.zero)
  if sums.all Single.isZero then sums.set 0 Single.one else sums

/-- The answer to one request. -/
def answer (s : MockSettings) (text : String) (counts : FailureCounts) :
    Except ProviderError Embedding × FailureCounts :=
  if s.failMarker.any fun marker => occursIn marker.toList text.toList then
    (.error (.rejected "mock" "mock rejection"), counts)
  else
    let seen := (counts.lookup text).getD 0
    if seen < s.transientFailures then
      (.error (.unavailable 503), (text, seen + 1) :: counts)
    else (.ok (s.vectorFor text), counts)

/-- The provider with these settings. -/
def provider (s : MockSettings) : Provider FailureCounts where
  name := "mock"
  model := s.model
  delay := s.delay
  answer := s.answer

end MockSettings

end CodeIndex
