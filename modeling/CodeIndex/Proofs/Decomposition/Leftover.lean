import CodeIndex.Decomposition.Leftover
import CodeIndex.Proofs.Text.Octets
import Mathlib.Data.List.TakeWhile

/-!
# What is left over

Collapsing runs of gaps touches no line of code: the lines of the leftover text that are not blank
are the lines of the source that are neither blank nor taken, in the same order.
-/

namespace CodeIndex.Leftover

open Text

/-! ## §1 The lines that are kept -/

/-- A line with something on it. -/
def isCode (l : String) : Bool := !allBlank l

/-- The lines of code outside the spans of rows, in order. -/
def codeOutside (source : String) (spans : List (Nat × Nat)) : List String :=
  ((lines source).zipIdx.filter fun (l, row) => isCode l && !isTaken spans row).map Prod.fst

/-- The texts of the lines that are no gaps, in order. -/
def codeTexts (ls : List MarkedLine) : List String :=
  (ls.filter fun l => !l.isGap).map MarkedLine.text

@[simp] theorem codeTexts_append (ls more : List MarkedLine) :
    codeTexts (ls ++ more) = codeTexts ls ++ codeTexts more := by
  simp [codeTexts]

/-- Gaps have no code. -/
theorem codeTexts_of_gaps {gaps : List MarkedLine} (hgaps : ∀ l ∈ gaps, l.isGap = true) :
    codeTexts gaps = [] := by
  simpa [codeTexts] using hgaps

/-- A line that is no gap comes with its text. -/
theorem codeTexts_cons_of_code {l : MarkedLine} (hcode : l.isGap = false) (ls : List MarkedLine) :
    codeTexts (l :: ls) = l.text :: codeTexts ls := by
  simp [codeTexts, hcode]

/-- Between all spans there is the code that lies outside of them. -/
theorem codeTexts_mark (source : String) (spans : List (Nat × Nat)) :
    codeTexts (mark spans (lines source)) = codeOutside source spans := by
  rw [codeTexts, mark, List.mapIdx_eq_zipIdx_map, List.filter_map, List.map_map, codeOutside]
  congr 1
  refine List.filter_congr fun l _ => ?_
  simp [MarkedLine.isGap, isCode, Bool.and_comm]

/-- However gaps shrink, no code comes out of them. -/
theorem filter_isCode_shrink {gaps : List MarkedLine} (hgaps : ∀ l ∈ gaps, l.isGap = true)
    (atStart atEnd : Bool) : (shrink gaps atStart atEnd).filter isCode = [] := by
  unfold shrink
  split
  · cases atStart || atEnd <;> simp [isCode]
  · next htaken =>
    -- a gap that is not taken is blank
    rw [List.filter_eq_nil_iff]
    rintro text htext
    obtain ⟨l, hl, rfl⟩ := List.mem_map.1 htext
    have hgap := hgaps l hl
    have hfree : l.taken = false := by simp_all
    simpa [MarkedLine.isGap, isCode, hfree] using hgap

/-- A line that is neither taken nor blank is code. -/
theorem isCode_of_not_isGap {l : MarkedLine} (hcode : l.isGap = false) : isCode l.text = true := by
  simp_all [MarkedLine.isGap, isCode]

/-- Runs of gaps come and go, the other lines stay. -/
theorem filter_isCode_keepLines (atStart : Bool) (ls : List MarkedLine) :
    (keepLines atStart ls).filter isCode = codeTexts ls := by
  fun_induction keepLines atStart ls with
  | case1 => rfl
  | case2 atStart l ls hgap run rest ih =>
    -- the run of gaps shrinks to lines without code
    have hrun : ∀ k ∈ run, k.isGap = true := by
      intro k hk
      rcases List.mem_cons.1 hk with rfl | hk
      · exact hgap
      · exact List.mem_takeWhile_imp hk
    have hsplit : l :: ls = run ++ rest := by simp [run, rest]
    rw [List.filter_append, filter_isCode_shrink hrun, List.nil_append, ih, hsplit,
      codeTexts_append, codeTexts_of_gaps hrun, List.nil_append]
  | case3 atStart l ls hgap ih =>
    have hcode : l.isGap = false := eq_false_of_ne_true hgap
    rw [List.filter_cons_of_pos (isCode_of_not_isGap hcode), ih, codeTexts_cons_of_code hcode]

private theorem forall_shrink {P : String → Prop} (hempty : P "") {gaps : List MarkedLine}
    (h : ∀ l ∈ gaps, P l.text) (atStart atEnd : Bool) : ∀ t ∈ shrink gaps atStart atEnd, P t := by
  unfold shrink
  split
  · cases atStart || atEnd <;> simp [hempty]
  · simpa using h

/-- All that is kept is lines of the source and empty lines. -/
theorem forall_keepLines {P : String → Prop} (hempty : P "") {atStart : Bool} {ls : List MarkedLine}
    (h : ∀ l ∈ ls, P l.text) : ∀ t ∈ keepLines atStart ls, P t := by
  fun_induction keepLines atStart ls with
  | case1 => simp
  | case2 atStart l ls hgap run rest ih =>
    have hsplit : l :: ls = run ++ rest := by simp [run, rest]
    simp only [hsplit, List.forall_mem_append] at h
    rw [List.forall_mem_append]
    exact ⟨forall_shrink hempty h.1 _ _, ih h.2⟩
  | case3 atStart l ls hgap ih =>
    rw [List.forall_mem_cons] at h ⊢
    exact ⟨h.1, ih h.2⟩

/-! ## §2 The leftover text -/

section LeftoverCode

variable {source : String} {spans : List (Nat × Nat)} {code : String}

/-- The lines of the leftover text are the lines that are kept. -/
theorem lines_eq_keepLines (h : leftoverCode source spans = some code) :
    lines code = keepLines true (mark spans (lines source)) := by
  simp only [leftoverCode] at h
  split at h
  · cases h
  · next hcode =>
    have hne : keepLines true (mark spans (lines source)) ≠ [] := by
      intro hnil
      simp [hnil] at hcode
    -- joined lines come apart again, since none of them has a line feed in it
    have hfeeds : ∀ t ∈ keepLines true (mark spans (lines source)), '\n' ∉ t.toList := by
      refine forall_keepLines (by simp) fun l hl => ?_
      obtain ⟨row, hrow, rfl⟩ := List.mem_mapIdx.1 hl
      exact not_mem_of_mem_lines (List.getElem_mem hrow)
    rw [← Option.some.inj h, lines_joinLines hne hfeeds]

/-- The lines of code in the leftover text are those of the source outside the spans. -/
theorem filter_isCode_lines (h : leftoverCode source spans = some code) :
    (lines code).filter isCode = codeOutside source spans := by
  rw [lines_eq_keepLines h, filter_isCode_keepLines, codeTexts_mark]

/-- Nothing is left over exactly when all code is taken. -/
theorem leftoverCode_eq_none_iff :
    leftoverCode source spans = none ↔ codeOutside source spans = [] := by
  have hblank : (keepLines true (mark spans (lines source))).all allBlank = true ↔
      codeOutside source spans = [] := by
    rw [← codeTexts_mark, ← filter_isCode_keepLines true, List.filter_eq_nil_iff]
    simp [isCode]
  simp only [leftoverCode, ← hblank]
  split <;> simp_all

end LeftoverCode

end CodeIndex.Leftover
