import CodeIndex.Number.Single

/-!
# Combining vectors

The vectors of a text's chunks become one vector: their average, weighted by token counts, scaled to
unit length.  All arithmetic is in single precision and in the order of the components.
-/

namespace CodeIndex

/-- Why vectors cannot be combined. -/
inductive CombineError where
  | noVectors
  | countMismatch (vectors weights : Nat)
  | dimensionsDiffer
  | noWeight
  /-- The average has no length, or one that is not finite. -/
  | noLength
  deriving DecidableEq, Inhabited, Repr

/-- The wording of an error. -/
def CombineError.message : CombineError → String
  | noVectors => "no chunk embeddings to combine"
  | countMismatch vectors weights =>
    toString vectors ++ " vectors but " ++ toString weights ++ " weights"
  | dimensionsDiffer => "chunk dimensions differ"
  | noWeight => "chunk weights sum to zero"
  | noLength => "combined embedding has no length"

namespace Embedding

/-- `acc + w · v`, component by component. -/
def addScaled (w : Single) (acc v : Embedding) : Embedding :=
  acc.zipWith (fun a x => a + x * w) v

/-- The length of a vector. -/
def norm (v : Embedding) : Single :=
  (v.foldl (fun acc x => acc + x * x) Single.zero).sqrt

/-- The average of vectors of one dimension by weights with the given total. -/
def weightedSum (dimension total : Nat) (vectors : List Embedding) (weights : List Nat) :
    Embedding :=
  (vectors.zip weights).foldl
    (fun acc (v, weight) => addScaled (Single.ofNat weight / Single.ofNat total) acc v)
    (List.replicate dimension Single.zero)

/-- A vector scaled to unit length. -/
def normalize? (v : Embedding) : Except CombineError Embedding :=
  let n := norm v
  if n.isZero ∨ ¬ n.isFinite then .error .noLength
  else .ok (v.map (· / n))

/-- All weights together. -/
def totalOf (weights : List Nat) : Nat := weights.foldl (· + ·) 0

/-- The average of `vectors` by `weights`, scaled to unit length. -/
def combine (vectors : List Embedding) (weights : List Nat) : Except CombineError Embedding :=
  match vectors with
  | [] => .error .noVectors
  | first :: _ =>
    if vectors.length ≠ weights.length then
      .error (.countMismatch vectors.length weights.length)
    else if first.length = 0 ∨ vectors.any (fun v => v.length != first.length) then
      .error .dimensionsDiffer
    else if totalOf weights = 0 then .error .noWeight
    else normalize? (weightedSum first.length (totalOf weights) vectors weights)

end Embedding

end CodeIndex
