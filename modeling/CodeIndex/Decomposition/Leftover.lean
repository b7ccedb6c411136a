import CodeIndex.Text.Basic

/-!
# Leftover code

The lines of a source text that no declaration takes.  A line is a *gap* when it is taken or blank.
Every maximal run of gaps with a taken line in it shrinks to one empty line, or to nothing where it
touches the start or the end of the text; all other lines stay as they are.
-/

namespace CodeIndex.Leftover

/-- A line with the fact whether a declaration takes it. -/
structure MarkedLine where
  text : String
  taken : Bool
  deriving DecidableEq, Inhabited, Repr

/-- Taken or blank. -/
def MarkedLine.isGap (l : MarkedLine) : Bool := l.taken || Text.allBlank l.text

/-- Whether a row lies in one of the spans of rows, ends included. -/
def isTaken (spans : List (Nat × Nat)) (row : Nat) : Bool :=
  spans.any fun (first, last) => decide (first ≤ row ∧ row ≤ last)

/-- The lines of a text, marked by the spans of rows that declarations take. -/
def mark (spans : List (Nat × Nat)) (lines : List String) : List MarkedLine :=
  lines.mapIdx fun row text => ⟨text, isTaken spans row⟩

/-- What a maximal run of gaps leaves behind.  `atStart` and `atEnd` tell whether it touches an end
of the text. -/
def shrink (gaps : List MarkedLine) (atStart atEnd : Bool) : List String :=
  if gaps.any MarkedLine.taken then
    if atStart || atEnd then [] else [""]
  else gaps.map MarkedLine.text

/-- The lines that stay, run by run. -/
def keepLines (atStart : Bool) : List MarkedLine → List String
  | [] => []
  | l :: ls =>
    if l.isGap then
      let run := l :: ls.takeWhile MarkedLine.isGap
      let rest := ls.dropWhile MarkedLine.isGap
      shrink run atStart rest.isEmpty ++ keepLines false rest
    else l.text :: keepLines false ls
  termination_by lines => lines.length
  decreasing_by
    · have := (List.dropWhile_suffix MarkedLine.isGap (l := ls)).length_le
      simp only [List.length_cons]
      omega
    · simp

/-- The code of `source` outside the spans of rows; `none` when nothing but blank lines is left. -/
def leftoverCode (source : String) (spans : List (Nat × Nat)) : Option String :=
  let kept := keepLines true (mark spans (Text.lines source))
  if kept.all Text.allBlank then none else some (Text.joinLines kept)

end CodeIndex.Leftover
