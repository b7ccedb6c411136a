import CodeIndex.Proofs.Text.Octets
import CodeIndex.SyntaxTree.Position
import Mathlib.Algebra.GroupWithZero.Nat
import Mathlib.Data.List.TakeWhile
import Mathlib.Order.Monotone.Defs

/-!
# Rows and the octets of lines

Positions are counted in line feeds, lines are cut at them.  An offset lies in the line whose row it
has, as many octets behind the start of the line as its column says.  So the rows that a node takes
are those of the lines with which it shares an octet.
-/

namespace CodeIndex

namespace Text

/-! ## §1 Lines as ranges of octets -/

/-- The octet at which a line starts. -/
def lineStart (source : String) (row : Nat) : Nat :=
  (((lines source).take row).map fun l => (octets l).length + 1).sum

/-- The octet after a line and its line feed; the last line has none. -/
def lineStop (source : String) (row : Nat) : Nat :=
  min (lineStart source (row + 1)) (octets source).length

end Text

namespace Position

/-! ## §2 Offsets and pieces -/

/-- The offset at which a piece starts when pieces are joined by line feeds. -/
def pieceStart (pieces : List Text.Octets) (row : Nat) : Nat :=
  ((pieces.take row).map fun piece => piece.length + 1).sum

private theorem pieceStart_cons_succ (piece : Text.Octets) (pieces : List Text.Octets) (row : Nat) :
    pieceStart (piece :: pieces) (row + 1) = piece.length + 1 + pieceStart pieces row := by
  simp [pieceStart]

private theorem pieceStart_mono (pieces : List Text.Octets) {row row' : Nat} (h : row ≤ row') :
    pieceStart pieces row ≤ pieceStart pieces row' := by
  have hprefix : pieces.take row <+: pieces.take row' := List.take_prefix_take_left h
  obtain ⟨rest, hrest⟩ := hprefix
  unfold pieceStart
  rw [← hrest, List.map_append, List.sum_append]
  exact Nat.le_add_right ..

private theorem pieceStart_lt_succ {pieces : List Text.Octets} {row : Nat}
    (h : row < pieces.length) :
    pieceStart pieces row < pieceStart pieces (row + 1) := by
  unfold pieceStart
  rw [List.take_succ_eq_append_getElem h, List.map_append, List.sum_append]
  simp

private theorem ofOffset_of_le_length {piece rest : Text.Octets} (hpiece : lineFeed ∉ piece)
    {offset : Nat} (h : offset ≤ piece.length) :
    ofOffset (piece ++ rest) offset = ⟨0, offset⟩ := by
  have htake : lineFeed ∉ piece.take offset := fun hmem => hpiece (List.mem_of_mem_take hmem)
  -- without a line feed in front the column counts from the start
  have hall : (piece.take offset).reverse.takeWhile (· != lineFeed) =
      (piece.take offset).reverse := by
    rw [List.takeWhile_eq_self_iff]
    intro b hb
    have hne : b ≠ lineFeed := by
      rintro rfl
      exact htake (List.mem_reverse.1 hb)
    simpa using hne
  rw [ofOffset, List.take_append_of_le_length h, List.count_eq_zero.2 htake, hall]
  simp [h]

/-- A line feed begins a new row. -/
theorem ofOffset_append_cons {piece rest : Text.Octets} (hpiece : lineFeed ∉ piece) (offset : Nat) :
    ofOffset (piece ++ lineFeed :: rest) (piece.length + 1 + offset) =
      ⟨(ofOffset rest offset).row + 1, (ofOffset rest offset).column⟩ := by
  have htake : (piece ++ lineFeed :: rest).take (piece.length + 1 + offset) =
      piece ++ lineFeed :: rest.take offset := by
    rw [List.take_append, List.take_of_length_le (by omega)]
    congr 1
    rw [show piece.length + 1 + offset - piece.length = offset + 1 by omega, List.take_succ_cons]
  have hcount : piece.count lineFeed = 0 := List.count_eq_zero.2 hpiece
  simp only [ofOffset, htake]
  congr 1
  · simp [hcount]
  · -- counting back from the offset stops at the line feed at the latest
    simp only [List.reverse_append, List.reverse_cons, List.append_assoc, List.singleton_append]
    rw [List.takeWhile_append]
    split <;> simp_all

/-- The place of an offset among pieces joined by line feeds: it is in the piece of its row, at its
column. -/
theorem place_of_offset {pieces : List Text.Octets} (hpieces : ∀ p ∈ pieces, lineFeed ∉ p)
    (hne : pieces ≠ []) {offset : Nat} (h : offset ≤ ([lineFeed].intercalate pieces).length) :
    let place := ofOffset ([lineFeed].intercalate pieces) offset
    place.row < pieces.length ∧ pieceStart pieces place.row + place.column = offset ∧
      offset < pieceStart pieces (place.row + 1) := by
  induction pieces generalizing offset with
  | nil => exact absurd rfl hne
  | cons piece rest ih =>
    have hpiece : lineFeed ∉ piece := hpieces piece List.mem_cons_self
    by_cases hfirst : offset ≤ piece.length
    · -- no line feed comes before the offset
      obtain ⟨after, hafter⟩ : ∃ after,
          [lineFeed].intercalate (piece :: rest) = piece ++ after := by
        cases rest with
        | nil => exact ⟨[], by simp⟩
        | cons second rest => exact ⟨lineFeed :: [lineFeed].intercalate (second :: rest), by simp⟩
      rw [hafter, ofOffset_of_le_length hpiece hfirst]
      simp [pieceStart]
      omega
    · cases rest with
      | nil => simp at h; omega
      | cons second rest =>
        have hjoined : [lineFeed].intercalate (piece :: second :: rest) =
            piece ++ lineFeed :: [lineFeed].intercalate (second :: rest) := by simp
        obtain ⟨offset, rfl⟩ : ∃ behind, offset = piece.length + 1 + behind :=
          ⟨offset - (piece.length + 1), by omega⟩
        rw [hjoined, List.length_append, List.length_cons] at h
        have hplace := ih (fun p hp => hpieces p (List.mem_cons_of_mem piece hp)) (by simp)
          (show offset ≤ ([lineFeed].intercalate (second :: rest)).length by omega)
        rw [hjoined, ofOffset_append_cons hpiece]
        simp only [pieceStart_cons_succ, List.length_cons] at hplace ⊢
        omega

end Position

/-! ## §3 Offsets and lines -/

namespace Text

private theorem octets_eq_intercalate_lines (source : String) :
    octets source = [Position.lineFeed].intercalate ((lines source).map octets) := by
  have hfeed : octets "\n" = [Position.lineFeed] := by simp [octets_eq]; rfl
  conv_lhs => rw [← joinLines_lines source, joinLines, octets_intercalate, hfeed]

private theorem lineFeed_not_mem_octets {source l : String} (h : l ∈ lines source) :
    Position.lineFeed ∉ octets l := by
  rw [mem_octets (by decide) (c := '\n') (by decide)]
  exact not_mem_of_mem_lines h

private theorem lineStart_eq (source : String) (row : Nat) :
    lineStart source row = Position.pieceStart ((lines source).map octets) row := by
  simp [lineStart, Position.pieceStart, List.map_take, Function.comp_def]

private theorem lineStart_mono (source : String) : Monotone (lineStart source) := by
  intro row row' h
  simpa [lineStart_eq] using Position.pieceStart_mono _ h

private theorem lineStart_lt_succ {source : String} {row : Nat} (h : row < (lines source).length) :
    lineStart source row < lineStart source (row + 1) := by
  simpa [lineStart_eq] using Position.pieceStart_lt_succ (by simpa using h)

end Text

open Text

/-- An offset is in the line of its row, at its column. -/
theorem Position.line_of_offset {source : String} {offset : Nat}
    (h : offset ≤ (octets source).length) :
    let place := ofOffset (octets source) offset
    place.row < (lines source).length ∧ lineStart source place.row + place.column = offset ∧
      offset < lineStart source (place.row + 1) := by
  have hpieces : ∀ p ∈ (lines source).map octets, lineFeed ∉ p := by
    simpa using fun l hl => lineFeed_not_mem_octets hl
  have hne : (lines source).map octets ≠ [] := by simp [lines, List.splitOn_ne_nil]
  rw [octets_eq_intercalate_lines] at h ⊢
  simpa only [lineStart_eq, List.length_map] using place_of_offset hpieces hne h

/-! ## §4 Nodes and lines -/

namespace NodeInfo

/-- The node has an octet of the line, or of the line feed after it. -/
def Touches (i : NodeInfo) (source : String) (row : Nat) : Prop :=
  ∃ octet < i.stop, i.start ≤ octet ∧ lineStart source row ≤ octet ∧ octet < lineStop source row

instance (i : NodeInfo) (source : String) (row : Nat) : Decidable (i.Touches source row) :=
  inferInstanceAs (Decidable (∃ octet < i.stop, i.start ≤ octet ∧ lineStart source row ≤ octet ∧
    octet < lineStop source row))

section Span

variable {i : NodeInfo} {source : String} (hrange : i.start < i.stop)
  (hstop : i.stop ≤ (octets source).length)
include hrange hstop

/-- The rows of a node that is not empty go from the line of its first octet to the line of its last
octet. -/
theorem rowSpan_spec :
    let span := i.rowSpan (octets source)
    span.2 < (lines source).length ∧
      lineStart source span.1 ≤ i.start ∧ i.start < lineStart source (span.1 + 1) ∧
      lineStart source span.2 < i.stop ∧ i.stop ≤ lineStart source (span.2 + 1) := by
  have hfirst := Position.line_of_offset (show i.start ≤ (octets source).length by omega)
  have hlast := Position.line_of_offset hstop
  simp only [rowSpan]
  generalize Position.ofOffset (octets source) i.start = first at hfirst ⊢
  generalize Position.ofOffset (octets source) i.stop = last at hlast ⊢
  obtain ⟨_, hstart, hstart'⟩ := hfirst
  obtain ⟨hlines, hend, hend'⟩ := hlast
  split
  · -- the node ends with the line feed before the line of its end
    next hcolumn =>
    obtain ⟨row, hrow⟩ : ∃ row, last.row = row + 1 := ⟨last.row - 1, by omega⟩
    have hbefore : lineStart source row < lineStart source (row + 1) :=
      lineStart_lt_succ (by omega)
    rw [hrow] at hend hlines ⊢
    simp only [Nat.add_sub_cancel]
    omega
  · next hcolumn =>
    have hbelow : lineStart source last.row < i.stop := by
      by_contra hnot
      -- a node that ends at the start of its first line would be empty
      have hrows : lineStart source last.row ≤ lineStart source first.row :=
        lineStart_mono source (by omega)
      omega
    omega

/-- A node that is not empty takes the rows of the lines that it touches. -/
theorem mem_rowSpan_iff (row : Nat) :
    (i.rowSpan (octets source)).1 ≤ row ∧ row ≤ (i.rowSpan (octets source)).2 ↔
      i.Touches source row := by
  obtain ⟨hlines, hstart, hstart', hlast, hlast'⟩ := rowSpan_spec hrange hstop
  generalize i.rowSpan (octets source) = span at *
  constructor
  · rintro ⟨hfrom, hto⟩
    have hline : lineStart source row < lineStart source (row + 1) := lineStart_lt_succ (by omega)
    have hbegin : lineStart source row ≤ lineStart source span.2 := lineStart_mono source hto
    have hend : lineStart source (span.1 + 1) ≤ lineStart source (row + 1) :=
      lineStart_mono source (by omega)
    -- the first octet of the node that is not before the line
    refine ⟨max i.start (lineStart source row), ?_, Nat.le_max_left .., Nat.le_max_right .., ?_⟩
    · omega
    · rw [lineStop]
      omega
  · rintro ⟨octet, hoctet, hinside, hline, hline'⟩
    rw [lineStop] at hline'
    constructor
    · by_contra hbefore
      have hnext : lineStart source (row + 1) ≤ lineStart source span.1 :=
        lineStart_mono source (by omega)
      omega
    · by_contra hafter
      have hnext : lineStart source (span.2 + 1) ≤ lineStart source row :=
        lineStart_mono source (by omega)
      omega

end Span

end NodeInfo

end CodeIndex
