import CodeIndex.Proofs.Decomposition.Leftover
import Mathlib.Data.List.SplitBy

/-!
# Runs of lines

The lines of a source fall into maximal runs of gaps and of code (`MaximalRuns`), in one way only.
`keepLines_flatten` says what becomes of the runs: those with a taken line shrink to one empty line,
or to nothing at the edges of the text, and all others stay.  The shape of the leftover text
follows, and with it that nothing is left to do for a text that is left over.
-/

namespace CodeIndex.Leftover

open Text

/-! ## §1 Maximal runs -/

/-- Runs that make up all lines: none is empty, the lines of one are all gaps or all code, and
neighbours differ in that. -/
structure MaximalRuns (ls : List MarkedLine) (runs : List (List MarkedLine)) : Prop where
  flatten_eq : runs.flatten = ls
  ne_nil : ∀ run ∈ runs, run ≠ []
  uniform : ∀ run ∈ runs, ∀ l ∈ run, ∀ k ∈ run, l.isGap = k.isGap
  alternate : runs.IsChain fun run next => ∀ l ∈ run, ∀ k ∈ next, l.isGap ≠ k.isGap

/-- Two lines of one kind. -/
def sameKind (l k : MarkedLine) : Bool := l.isGap == k.isGap

private theorem isChain_sameKind_iff {run : List MarkedLine} :
    (run.IsChain fun l k => sameKind l k = true) ↔ ∀ l ∈ run, ∀ k ∈ run, l.isGap = k.isGap := by
  have htrans : IsTrans MarkedLine fun l k => l.isGap = k.isGap := ⟨fun _ _ _ => Eq.trans⟩
  have hsymm : Std.Symm fun l k : MarkedLine => l.isGap = k.isGap := ⟨fun _ _ => Eq.symm⟩
  simp only [sameKind, beq_iff_eq, List.isChain_iff_pairwise]
  constructor
  · exact fun h l hl k hk => List.Pairwise.forall_of_forall
      (R := fun l k : MarkedLine => l.isGap = k.isGap) (fun _ _ => rfl) h hl hk
  · exact fun h => List.pairwise_of_forall_mem_list h

/-- Lines have one division into maximal runs. -/
theorem maximalRuns_iff {ls : List MarkedLine} {runs : List (List MarkedLine)} :
    MaximalRuns ls runs ↔ ls.splitBy sameKind = runs := by
  rw [List.splitBy_eq_iff]
  constructor
  · rintro ⟨hflatten, hne, huniform, halternate⟩
    refine ⟨hflatten.symm, fun hnil => hne [] hnil rfl,
      fun run hrun => isChain_sameKind_iff.2 (huniform run hrun), ?_⟩
    refine halternate.imp_of_mem_imp fun run next hrun hnext hdiffer => ?_
    refine ⟨hne run hrun, hne next hnext, ?_⟩
    simpa [sameKind] using hdiffer _ (List.getLast_mem _) _ (List.head_mem _)
  · rintro ⟨hflatten, hnil, hchain, hdiffer⟩
    have huniform : ∀ run ∈ runs, ∀ l ∈ run, ∀ k ∈ run, l.isGap = k.isGap :=
      fun run hrun => isChain_sameKind_iff.1 (hchain run hrun)
    refine ⟨hflatten.symm, fun run hrun h => hnil (h ▸ hrun), huniform, ?_⟩
    refine hdiffer.imp_of_mem_imp fun run next hrun hnext => ?_
    rintro ⟨hne, hne', hkinds⟩ l hl k hk
    -- the lines that meet stand for all lines of the two runs
    rw [huniform run hrun l hl _ (List.getLast_mem hne),
      huniform next hnext k hk _ (List.head_mem hne')]
    simpa [sameKind] using hkinds

/-! ## §2 What is kept of the runs -/

/-- What is left of a run. -/
def remains (run : List MarkedLine) (atEdge : Bool) : List String :=
  if run.any MarkedLine.taken then if atEdge then [] else [""] else run.map MarkedLine.text

private theorem shrink_eq_remains (run : List MarkedLine) (atStart atEnd : Bool) :
    shrink run atStart atEnd = remains run (atStart || atEnd) := rfl

section Runs

variable {run rest : List MarkedLine}

private theorem any_taken_of_code (hcode : ∀ l ∈ run, l.isGap = false) :
    run.any MarkedLine.taken = false := by
  rw [List.any_eq_false]
  intro l hl htaken
  have := hcode l hl
  simp [MarkedLine.isGap, htaken] at this

private theorem keepLines_code_append (atStart : Bool) (hne : run ≠ [])
    (hcode : ∀ l ∈ run, l.isGap = false) :
    keepLines atStart (run ++ rest) = run.map MarkedLine.text ++ keepLines false rest := by
  induction run generalizing atStart with
  | nil => exact absurd rfl hne
  | cons l run ih =>
    rw [List.forall_mem_cons] at hcode
    rw [List.cons_append, keepLines, if_neg (by simp [hcode.1]), List.map_cons, List.cons_append]
    cases run with
    | nil => rfl
    | cons k run => rw [ih false (by simp) hcode.2]

private theorem keepLines_gaps_append (atStart : Bool) (hne : run ≠ [])
    (hgaps : ∀ l ∈ run, l.isGap = true) (hrest : ∀ k ∈ rest.head?, k.isGap = false) :
    keepLines atStart (run ++ rest) =
      remains run (atStart || rest.isEmpty) ++ keepLines false rest := by
  obtain ⟨l, run, rfl⟩ := List.exists_cons_of_ne_nil hne
  rw [List.forall_mem_cons] at hgaps
  -- the run ends where the first line is that is no gap
  have htake : (run ++ rest).takeWhile MarkedLine.isGap = run := by
    rw [List.takeWhile_append_of_pos hgaps.2]
    cases rest with
    | nil => simp
    | cons k rest => simp [hrest k rfl]
  have hdrop : (run ++ rest).dropWhile MarkedLine.isGap = rest := by
    rw [List.dropWhile_append_of_pos hgaps.2]
    cases rest with
    | nil => rfl
    | cons k rest => simp [hrest k rfl]
  rw [List.cons_append, keepLines, if_pos hgaps.1]
  dsimp only
  rw [htake, hdrop, shrink_eq_remains]

private theorem keepLines_run_append (atStart : Bool) (hne : run ≠ [])
    (huniform : ∀ l ∈ run, ∀ k ∈ run, l.isGap = k.isGap)
    (hrest : ∀ k ∈ rest.head?, ∀ l ∈ run, l.isGap ≠ k.isGap) :
    keepLines atStart (run ++ rest) =
      remains run (atStart || rest.isEmpty) ++ keepLines false rest := by
  -- all lines of the run are of one kind, so any of them tells which
  obtain ⟨l, hl⟩ := List.exists_mem_of_ne_nil run hne
  cases hgap : l.isGap with
  | true =>
    refine keepLines_gaps_append atStart hne (fun k hk => hgap ▸ huniform k hk l hl) fun k hk => ?_
    have hdiffer := hrest k hk l hl
    simp_all
  | false =>
    have hcode : ∀ k ∈ run, k.isGap = false := fun k hk => hgap ▸ huniform k hk l hl
    rw [keepLines_code_append atStart hne hcode, remains, any_taken_of_code hcode]
    rfl

/-- Every run shrinks or stays, whatever the other runs are. -/
theorem keepLines_flatten {runs : List (List MarkedLine)} {ls : List MarkedLine}
    (h : MaximalRuns ls runs) (atStart : Bool) : keepLines atStart ls =
      (runs.mapIdx fun i run =>
        remains run (atStart && i == 0 || i + 1 == runs.length)).flatten := by
  obtain ⟨rfl, hne, huniform, halternate⟩ := h
  induction runs generalizing atStart with
  | nil => simp [keepLines]
  | cons run runs ih =>
    rw [List.forall_mem_cons] at hne huniform
    rw [List.isChain_cons] at halternate
    -- the lines behind the first run begin with the second one
    have hnext : ∀ k ∈ runs.flatten.head?, ∀ l ∈ run, l.isGap ≠ k.isGap := by
      cases runs with
      | nil => simp
      | cons next runs =>
        obtain ⟨first, more, rfl⟩ := List.exists_cons_of_ne_nil (hne.2 next List.mem_cons_self)
        intro k hk l hl
        obtain rfl := Option.some.inj hk
        exact halternate.1 _ rfl l hl _ List.mem_cons_self
    have hlast : runs.flatten.isEmpty = (1 == runs.length + 1) := by
      cases runs with
      | nil => rfl
      | cons next runs =>
        obtain ⟨first, more, rfl⟩ := List.exists_cons_of_ne_nil (hne.2 next List.mem_cons_self)
        simp
    rw [List.flatten_cons, keepLines_run_append atStart hne.1 huniform.1 hnext,
      ih false hne.2 huniform.2 halternate.2, List.mapIdx_cons, List.flatten_cons, hlast]
    simp

end Runs

/-! ## §3 Between two lines of code -/

section Between

variable {front rest between back : List MarkedLine} {a b : MarkedLine}

private theorem takeWhile_append_cons_of_code (ha : a.isGap = false) :
    (front ++ a :: rest).takeWhile MarkedLine.isGap = front.takeWhile MarkedLine.isGap := by
  induction front with
  | nil => simp [ha]
  | cons l front ih => simp only [List.cons_append, List.takeWhile_cons, ih]

private theorem dropWhile_append_cons_of_code (ha : a.isGap = false) :
    (front ++ a :: rest).dropWhile MarkedLine.isGap =
      front.dropWhile MarkedLine.isGap ++ a :: rest := by
  induction front with
  | nil => simp [ha]
  | cons l front ih =>
    simp only [List.cons_append, List.dropWhile_cons, ih]
    split <;> rfl

/-- A line of code parts the lines: no run goes over it, and what is kept behind it does not depend
on what comes before. -/
theorem exists_keepLines_append_cons (atStart : Bool) (front rest : List MarkedLine)
    (ha : a.isGap = false) : ∃ kept, kept.filter isCode = codeTexts front ∧
      keepLines atStart (front ++ a :: rest) = kept ++ a.text :: keepLines false rest := by
  fun_induction keepLines atStart front with
  | case1 atStart => exact ⟨[], rfl, by simp [keepLines, ha]⟩
  | case2 atStart l ls hgap run rest' ih =>
    obtain ⟨kept, hcode, hkept⟩ := ih
    have hrun : ∀ k ∈ run, k.isGap = true := by
      intro k hk
      rcases List.mem_cons.1 hk with rfl | hk
      · exact hgap
      · exact List.mem_takeWhile_imp hk
    have hsplit : l :: ls = run ++ rest' := by simp [run, rest']
    refine ⟨shrink run atStart false ++ kept, ?_, ?_⟩
    · rw [List.filter_append, filter_isCode_shrink hrun, hcode, hsplit, codeTexts_append,
        codeTexts_of_gaps hrun]
    · -- the run ends before the line of code, so it does not touch the end of the text
      have hempty : (rest' ++ a :: rest).isEmpty = false := by simp
      rw [List.cons_append, keepLines, if_pos hgap]
      dsimp only
      rw [takeWhile_append_cons_of_code ha, dropWhile_append_cons_of_code ha, hempty, hkept,
        List.append_assoc]
  | case3 atStart l ls hgap ih =>
    obtain ⟨kept, hcode, hkept⟩ := ih
    have hl : l.isGap = false := eq_false_of_ne_true hgap
    refine ⟨l.text :: kept, ?_, ?_⟩
    · rw [List.filter_cons_of_pos (isCode_of_not_isGap hl), hcode, codeTexts_cons_of_code hl]
    · rw [List.cons_append, keepLines, if_neg hgap, hkept, List.cons_append]

/-- Between two lines of code with gaps in between, one empty line is kept if a gap is taken, and
all gaps are otherwise. -/
theorem exists_keepLines_between (atStart : Bool) (ha : a.isGap = false)
    (hbetween : ∀ l ∈ between, l.isGap = true) (hb : b.isGap = false) :
    ∃ before behind, before.filter isCode = codeTexts front ∧
      behind.filter isCode = codeTexts back ∧
      keepLines atStart (front ++ a :: (between ++ b :: back)) =
        before ++ a.text :: (remains between false ++ b.text :: behind) := by
  obtain ⟨before, hcode, hbefore⟩ :=
    exists_keepLines_append_cons atStart front (between ++ b :: back) ha
  refine ⟨before, keepLines false back, hcode, filter_isCode_keepLines false back, ?_⟩
  have hcons : keepLines false (b :: back) = b.text :: keepLines false back := by
    rw [keepLines, if_neg (by simp [hb])]
  rw [hbefore]
  -- without lines between them the two are neighbours
  cases between with
  | nil => rw [List.nil_append, hcons]; rfl
  | cons l between =>
    rw [keepLines_gaps_append false (by simp) hbetween (by simpa using hb), hcons]
    rfl

end Between

/-! ## §4 The shape of the leftover text -/

/-- A row lies in one of the spans of rows, ends included. -/
def Taken (spans : List (Nat × Nat)) (row : Nat) : Prop :=
  ∃ span ∈ spans, span.1 ≤ row ∧ row ≤ span.2

private theorem isTaken_iff {spans : List (Nat × Nat)} {row : Nat} :
    isTaken spans row = true ↔ Taken spans row := by
  simp [isTaken, Taken]

section Shape

variable {source : String} {spans spans' : List (Nat × Nat)} {code : String}

private theorem forall_mem_mark_iff {P : MarkedLine → Prop} {ls : List String} :
    (∀ l ∈ mark spans ls, P l) ↔
      ∀ row, (h : row < ls.length) → P ⟨ls[row], isTaken spans row⟩ := by
  simp only [mark, List.mem_mapIdx]
  constructor
  · exact fun h row hrow => h _ ⟨row, hrow, rfl⟩
  · rintro h l ⟨row, hrow, rfl⟩
    exact h row hrow

private theorem leftoverCode_eq_none_iff_rows : leftoverCode source spans = none ↔
    ∀ row, (h : row < (lines source).length) →
      Taken spans row ∨ allBlank (lines source)[row] = true := by
  rw [leftoverCode_eq_none_iff, ← codeTexts_mark, codeTexts, List.map_eq_nil_iff,
    List.filter_eq_nil_iff, forall_mem_mark_iff]
  refine forall_congr' fun row => forall_congr' fun _ => ?_
  rw [← isTaken_iff]
  simp [MarkedLine.isGap, or_iff_not_imp_left]

/-- Only rows that the source has matter, and only whether they are taken. -/
theorem leftoverCode_congr
    (h : ∀ row < (lines source).length, Taken spans row ↔ Taken spans' row) :
    leftoverCode source spans' = leftoverCode source spans := by
  have hmark : mark spans' (lines source) = mark spans (lines source) := by
    refine List.mapIdx_eq_mapIdx_iff.2 fun row hrow => ?_
    rw [Bool.eq_iff_iff.2 (isTaken_iff.trans ((h row hrow).symm.trans isTaken_iff.symm))]
  rw [leftoverCode, leftoverCode, hmark]

private theorem keepLines_of_free {ls : List MarkedLine} (hfree : ∀ l ∈ ls, l.taken = false)
    (atStart : Bool) : keepLines atStart ls = ls.map MarkedLine.text := by
  fun_induction keepLines atStart ls with
  | case1 => rfl
  | case2 atStart l ls hgap run rest ih =>
    have hsplit : l :: ls = run ++ rest := by simp [run, rest]
    rw [hsplit, List.forall_mem_append] at hfree
    -- nothing is taken, so the run of blank lines is kept as it is
    have hany : run.any MarkedLine.taken = false := by simpa using hfree.1
    rw [ih hfree.2, hsplit, List.map_append, shrink, hany]
    rfl
  | case3 atStart l ls hgap ih =>
    rw [List.forall_mem_cons] at hfree
    rw [ih hfree.2, List.map_cons]

/-- Where nothing is taken all lines are kept. -/
theorem keepLines_mark_of_free (hfree : ∀ row < (lines source).length, ¬ Taken spans row)
    (atStart : Bool) : keepLines atStart (mark spans (lines source)) = lines source := by
  have hmarked : ∀ l ∈ mark spans (lines source), l.taken = false :=
    forall_mem_mark_iff.2 fun row hrow => eq_false_of_ne_true (hfree row hrow ∘ isTaken_iff.1)
  rw [keepLines_of_free hmarked, mark, List.mapIdx_eq_zipIdx_map, List.map_map]
  exact List.zipIdx_map_fst 0 _

private theorem eq_source_of_free (h : leftoverCode source spans = some code)
    (hfree : ∀ row < (lines source).length, ¬ Taken spans row) : code = source := by
  rw [← joinLines_lines code, lines_eq_keepLines h, keepLines_mark_of_free hfree, joinLines_lines]

/-- What is left over is left over again. -/
theorem leftoverCode_leftoverCode (h : leftoverCode source spans = some code) :
    leftoverCode code [] = some code := by
  have hfree : ∀ row < (lines code).length, ¬ Taken [] row := fun row _ => by simp [Taken]
  cases hagain : leftoverCode code [] with
  | some code' => rw [eq_source_of_free hagain hfree]
  | none =>
    -- the lines of code that were left over are those of the leftover text
    have hcode : codeOutside code [] = codeOutside source spans := by
      rw [← filter_isCode_lines h, ← codeTexts_mark, ← filter_isCode_keepLines true,
        keepLines_mark_of_free hfree]
    rw [leftoverCode_eq_none_iff, hcode, ← leftoverCode_eq_none_iff, h] at hagain
    cases hagain

end Shape

/-- The shape of the leftover text, for every source and all spans of rows.  There is none exactly
when every line is taken or blank; only which rows of the source are taken matters.  The lines of
the text are those of the source, with each maximal run of gaps that has a taken line replaced by
one empty line, or by nothing at an edge.  So lines of code that follow each other keep the blank
lines between them, or have one empty line there where something was taken.  Where nothing is taken
the text is the source, and nothing changes when it is taken for a source itself. -/
theorem leftoverCode_shape (source : String) (spans : List (Nat × Nat)) :
    (leftoverCode source spans = none ↔ ∀ row, (h : row < (lines source).length) →
        Taken spans row ∨ allBlank (lines source)[row] = true) ∧
      (∀ spans', (∀ row < (lines source).length, Taken spans row ↔ Taken spans' row) →
        leftoverCode source spans' = leftoverCode source spans) ∧
      ∀ code, leftoverCode source spans = some code →
        (∃ runs, MaximalRuns (mark spans (lines source)) runs ∧ lines code =
          (runs.mapIdx fun i run => remains run (i == 0 || i + 1 == runs.length)).flatten) ∧
        (∀ front a between b back, mark spans (lines source) =
          front ++ a :: (between ++ b :: back) →
          a.isGap = false → (∀ l ∈ between, l.isGap = true) → b.isGap = false →
          ∃ before behind, before.filter isCode = codeTexts front ∧
            behind.filter isCode = codeTexts back ∧
            lines code = before ++ a.text :: (remains between false ++ b.text :: behind)) ∧
        ((∀ row < (lines source).length, ¬ Taken spans row) → code = source) ∧
        leftoverCode code [] = some code := by
  refine ⟨leftoverCode_eq_none_iff_rows, fun _ => leftoverCode_congr, fun code hcode => ?_⟩
  refine ⟨⟨_, maximalRuns_iff.2 rfl, ?_⟩, ?_, eq_source_of_free hcode,
    leftoverCode_leftoverCode hcode⟩
  · -- the runs are those into which the marked lines fall
    rw [lines_eq_keepLines hcode, keepLines_flatten (maximalRuns_iff.2 rfl) true]
    rfl
  · intro front a between b back hls ha hbetween hb
    rw [lines_eq_keepLines hcode, hls]
    exact exists_keepLines_between true ha hbetween hb

example : leftoverCode "a = 1\n\nX\nX\n\nb = 2" [(2, 3)] = some "a = 1\n\nb = 2" := by
  decide +kernel

end CodeIndex.Leftover
