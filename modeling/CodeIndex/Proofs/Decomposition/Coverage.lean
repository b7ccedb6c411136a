import CodeIndex.Proofs.Decomposition.Leftover
import CodeIndex.Proofs.Decomposition.Shape
import CodeIndex.Proofs.SyntaxTree.Rows

/-!
# Every line of code has its place

A line of code is in the text of a top-level declaration, or it is left over, and never both.  Which
of the two is a question of octets, though the decomposition counts rows: a declaration that ends
with a line feed does not reach into the next line, and one that begins in the middle of a line
takes all of it.
-/

namespace CodeIndex

open Text Leftover

namespace Decomposition

/-- The lines of code of which no tree in the list has an octet, in order. -/
def untouchedLines (source : String) (declared : List SyntaxTree) : List String :=
  ((lines source).zipIdx.filter fun (l, row) =>
    isCode l && decide (∀ d ∈ declared, ¬d.info.Touches source row)).map Prod.fst

/-! ## §1 Taken rows -/

section Rows

variable {source : String} {declared : List SyntaxTree}

private theorem isTaken_rowSpans_iff
    (hranges : ∀ d ∈ declared, d.info.start < d.info.stop ∧ d.info.stop ≤ (octets source).length)
    (row : Nat) : isTaken (declared.map fun d => d.info.rowSpan (octets source)) row = true ↔
      ∃ d ∈ declared, d.info.Touches source row := by
  simp only [isTaken, List.any_map, List.any_eq_true, Function.comp_apply, decide_eq_true_eq]
  refine exists_congr fun d => and_congr_right fun hd => ?_
  obtain ⟨hrange, hstop⟩ := hranges d hd
  exact NodeInfo.mem_rowSpan_iff hrange hstop row

private theorem codeOutside_rowSpans
    (hranges : ∀ d ∈ declared, d.info.start < d.info.stop ∧ d.info.stop ≤ (octets source).length) :
    codeOutside source (declared.map fun d => d.info.rowSpan (octets source)) =
      untouchedLines source declared := by
  unfold codeOutside untouchedLines
  congr 1
  refine List.filter_congr fun ⟨l, row⟩ _ => ?_
  have htaken := isTaken_rowSpans_iff hranges row
  dsimp only
  congr 1
  rw [Bool.eq_iff_iff, decide_eq_true_eq, Bool.not_eq_true', ← Bool.not_eq_true, htaken]
  simp

end Rows

/-! ## §2 Units by kind -/

/-- Whether a unit is that of a top-level declaration. -/
def isDeclared (u : CodeUnit) : Bool := u.kind == .function || u.kind == .class

section Kinds

variable (source : Octets) (m : Mapping)

private theorem kind_of_mem_classMethods {t : SyntaxTree} {className : Option String} {u : CodeUnit}
    (h : u ∈ classMethods source m t className) : u.kind = .method := by
  rw [classMethods_eq] at h
  obtain ⟨member, _, hu⟩ := List.mem_filterMap.1 h
  obtain ⟨d, _, rfl⟩ := Option.map_eq_some_iff.1 hu
  rfl

private theorem filter_global_declarationUnits (t : SyntaxTree) :
    (declarationUnits source m t).filter (fun u => u.kind == .global) = [] := by
  rw [List.filter_eq_nil_iff]
  unfold declarationUnits
  split
  · rintro u hu
    rcases List.mem_cons.1 hu with rfl | hu
    · simp
    · simp [kind_of_mem_classMethods source m hu]
  · simp [functionUnit]

private theorem filter_isDeclared_declarationUnits (t : SyntaxTree) :
    ∃ u, (declarationUnits source m t).filter isDeclared = [u] ∧
      u.sourceText = textOf source t := by
  unfold declarationUnits
  split
  · have hmethods : (classMethods source m t (className? source m t)).filter isDeclared = [] := by
      rw [List.filter_eq_nil_iff]
      intro u hu
      simp [isDeclared, kind_of_mem_classMethods source m hu]
    rw [classUnits, List.filter_cons_of_pos (by simp [isDeclared]), hmethods]
    exact ⟨_, rfl, rfl⟩
  · exact ⟨functionUnit source m t .function none, by simp [isDeclared, functionUnit], rfl⟩

end Kinds

variable (m : Mapping) (source : String) (root : SyntaxTree)

private theorem filter_global_ofTree :
    (ofTree source root m).filter (fun u => u.kind == .global) =
      (leftoverUnit? m source root).toList := by
  have hleftover : ∀ u ∈ leftoverUnit? m source root, u.kind = .global := by
    intro u hu
    obtain ⟨code, _, rfl⟩ := Option.map_eq_some_iff.1 hu
    rfl
  rw [ofTree_eq, List.filter_append, List.filter_flatMap]
  simp only [filter_global_declarationUnits]
  cases h : leftoverUnit? m source root with
  | none => simp
  | some u => simp [hleftover u h]

private theorem forall₂_filter_isDeclared_ofTree :
    List.Forall₂ (fun d u => u.sourceText = textOf (octets source) d) (declarations m root)
      ((ofTree source root m).filter isDeclared) := by
  -- the code around the declarations is none itself
  have hleftover : (leftoverUnit? m source root).toList.filter isDeclared = [] := by
    unfold leftoverUnit?
    cases leftoverCode source _ <;> simp [isDeclared, CodeUnit.ofGlobalCode]
  rw [ofTree_eq, List.filter_append, hleftover, List.append_nil]
  -- block by block, and the block of a declaration has one such unit
  generalize declarations m root = declared
  induction declared with
  | nil => exact .nil
  | cons d declared ih =>
    obtain ⟨u, hunits, htext⟩ := filter_isDeclared_declarationUnits (octets source) m d
    rw [List.flatMap_cons, List.filter_append, hunits]
    exact .cons htext ih

/-! ## §3 No line is lost, none is indexed twice -/

/-- No line of code is lost or indexed twice, as long as the declarations of a file have ranges in
it that are not empty.  There is a function or class unit for each declaration, in order, and at
most one global unit.  Its lines of code are, verbatim and in order, those lines of the source that
no declaration has an octet of; if there is no such line, there is no global unit. -/
theorem global_lines_untouched (source : String) (root : SyntaxTree) (m : Mapping)
    (hranges : ∀ d ∈ declarations m root,
      d.info.start < d.info.stop ∧ d.info.stop ≤ (octets source).length) :
    let units := ofTree source root m
    let globals := units.filter fun u => u.kind == .global
    let untouched := untouchedLines source (declarations m root)
    List.Forall₂ (fun d u => u.sourceText = textOf (octets source) d) (declarations m root)
        (units.filter isDeclared) ∧
      globals.length ≤ 1 ∧
      (globals.flatMap fun u => (lines u.sourceText).filter isCode) = untouched ∧
      (globals = [] ↔ untouched = []) := by
  refine ⟨forall₂_filter_isDeclared_ofTree m source root, ?_⟩
  rw [filter_global_ofTree, ← codeOutside_rowSpans hranges, ← leftoverCode_eq_none_iff]
  -- no code is left over just if the leftover text is none
  unfold leftoverUnit?
  cases hcode : leftoverCode source
      ((declarations m root).map fun d => d.info.rowSpan (octets source)) with
  | none => simp [leftoverCode_eq_none_iff.1 hcode]
  | some code => simpa [CodeUnit.ofGlobalCode] using filter_isCode_lines hcode

end Decomposition

/-- The lines of the sample's class are not in its global unit, all others are. -/
theorem Decomposition.global_lines_untouched_sample :
    untouchedLines Sample.classSource (declarations .python Sample.fileTree) = ["@d", "x = 1"] ∧
      ((ofTree Sample.classSource Sample.fileTree .python).filter fun u =>
        u.kind == .global).flatMap (fun u => (lines u.sourceText).filter isCode) =
          ["@d", "x = 1"] := by
  have huntouched : untouchedLines Sample.classSource (declarations .python Sample.fileTree) =
      ["@d", "x = 1"] := by decide +kernel
  obtain ⟨_, _, hlines, _⟩ := global_lines_untouched Sample.classSource Sample.fileTree .python
    (by decide +kernel)
  exact ⟨huntouched, hlines.trans huntouched⟩

namespace Sample

/-- A grammar that finds no declarations. -/
def grammar (_ : Language) (text : String) : SyntaxTree :=
  .node ⟨0, text.utf8ByteSize, "module", none, true, false, false, false, false⟩ []

/-- So a source of one line is one unit. -/
theorem ofParse_grammar : ∀ line ∈ ["x = 1\n", "y = 2\n"],
    Decomposition.ofParse line (grammar .python line) .python = .ok [.ofGlobalCode line] := by
  decide +kernel

end Sample

end CodeIndex
