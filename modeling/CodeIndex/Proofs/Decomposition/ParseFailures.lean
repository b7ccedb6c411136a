import CodeIndex.Index.Run
import CodeIndex.Proofs.SyntaxTree.Cursor

/-!
# Parse failures

A file has no units exactly if its syntax tree has an error or missing node, and the failure points
at the first of them.  The quick check accepts every text that has units.
-/

namespace CodeIndex

namespace SyntaxTree

private theorem info_mem_preorder (t : SyntaxTree) : t.info ∈ t.preorder := by
  cases t
  exact List.mem_cons_self

private theorem info_mem_preorder_of_mem_children {t c : SyntaxTree} (h : c ∈ t.children) :
    c.info ∈ t.preorder := by
  obtain ⟨info, children⟩ := t
  rw [preorder, preorderAll_eq]
  exact List.mem_cons_of_mem info (List.mem_flatMap.2 ⟨c, h, c.info_mem_preorder⟩)

/-- The flag of the root tells whether there is a fault at all. -/
theorem FlagsExact.root {t : SyntaxTree} (h : t.FlagsExact) : t.FlagExact := by
  apply h ([], t)
  rw [placed_eq]
  exact List.mem_cons_self

end SyntaxTree

open SyntaxTree

namespace Decomposition

private theorem looksValid_of_no_fault {root : SyntaxTree}
    (h : ∀ i ∈ root.preorder, ¬i.isFault = true) : looksValid root = true := by
  -- no fault anywhere, so no error at the root or at its last child
  have hnotError : ∀ i ∈ root.preorder, i.isError = false := by
    intro i hi
    have hfault := h i hi
    simp only [NodeInfo.isFault, Bool.or_eq_true, not_or] at hfault
    exact eq_false_of_ne_true hfault.1
  unfold looksValid
  rw [hnotError _ root.info_mem_preorder, Bool.not_false, Bool.true_and]
  cases hlast : root.children.getLast? with
  | none => rfl
  | some c =>
    have hmem : c ∈ root.children := List.mem_of_getLast? hlast
    simp [hnotError _ (info_mem_preorder_of_mem_children hmem)]

end Decomposition

namespace Indexer

variable {σ : Type} {ix : Indexer σ} {language : Language} {path source : String}

private theorem unitsOf_of_no_flag (h : (ix.grammar language source).info.hasError = false) :
    ix.unitsOf language path source =
      .ok (Decomposition.ofTree source (ix.grammar language source) language.mapping) := by
  simp [unitsOf, Decomposition.ofParse, h]

private theorem unitsOf_of_first_fault {i : NodeInfo} (h : (ix.grammar language source).FlagsExact)
    (hfirst : (ix.grammar language source).preorder.find? NodeInfo.isFault = some i) :
    ix.unitsOf language path source = .error (.parse path
      (Decomposition.SyntaxFault.message ⟨Position.ofOffset (Text.octets source) i.start⟩)) := by
  have hflag : (ix.grammar language source).info.hasError = true :=
    h.root.2 ⟨i, List.mem_of_find?_eq_some hfirst, List.find?_some hfirst⟩
  simp [unitsOf, Decomposition.ofParse, hflag, firstFault?_eq h, hfirst]

/-- Parse failures are exact.  On every tree the search for a fault looks at each node at most once,
in the order of the tree.  Where the grammar's flags are exact, a file has a parse failure, under
its own path, just if some node is an error or missing node.  The search then ends at the first such
node in preorder, and the failure gives its line and its column, counted in octets, from one.
Whatever has units passes the quick check. -/
theorem parse_failures_exact (ix : Indexer σ) (language : Language) (path source : String) :
    let tree := ix.grammar language source
    let search := (Cursor.ofTree tree).search
    (search.visited.map Cursor.here).Sublist (tree.placed []) ∧
      (search.visited.map Cursor.address).Nodup ∧
      (tree.FlagsExact →
        ((∃ reason, ix.unitsOf language path source = .error (.parse path reason)) ↔
          ∃ i ∈ tree.preorder, i.isFault = true) ∧
        (∀ i, tree.preorder.find? NodeInfo.isFault = some i →
          let place := Position.ofOffset (Text.octets source) i.start
          search.found.map Cursor.info = some i ∧
          ix.unitsOf language path source = .error (.parse path
            ("syntax error at line " ++ toString (place.row + 1) ++ ", column " ++
              toString (place.column + 1)))) ∧
        ∀ units, ix.unitsOf language path source = .ok units →
          Decomposition.looksValid tree = true) := by
  intro tree search
  have hsublist : (search.visited.map Cursor.here).Sublist (tree.placed []) := by
    rw [← Cursor.after_ofTree]
    exact Cursor.visited_sublist _
  have hnodup : (search.visited.map Cursor.address).Nodup := by
    have hmap := hsublist.map Prod.fst
    rw [List.map_map] at hmap
    exact (nodup_placed tree []).sublist hmap
  refine ⟨hsublist, hnodup, fun hexact => ⟨⟨?_, ?_⟩, ?_, ?_⟩⟩
  · rintro ⟨reason, hfailure⟩
    -- a root without the flag would have units
    apply hexact.root.1
    by_contra hflag
    rw [unitsOf_of_no_flag (eq_false_of_ne_true hflag)] at hfailure
    cases hfailure
  · rintro ⟨i, hi, hfault⟩
    obtain ⟨first, hfirst⟩ := Option.isSome_iff_exists.1
      (List.find?_isSome.2 ⟨i, hi, hfault⟩)
    exact ⟨_, unitsOf_of_first_fault hexact hfirst⟩
  · intro i hfirst place
    have hfound : tree.firstFault? = some i := (firstFault?_eq hexact).trans hfirst
    exact ⟨hfound, unitsOf_of_first_fault hexact hfirst⟩
  · intro units hunits
    apply Decomposition.looksValid_of_no_fault
    intro i hi hfault
    have hflag : tree.info.hasError = true := hexact.root.2 ⟨i, hi, hfault⟩
    obtain ⟨first, hfirst⟩ := Option.isSome_iff_exists.1
      (List.find?_isSome.2 ⟨i, hi, hfault⟩)
    rw [unitsOf_of_first_fault hexact hfirst] at hunits
    cases hunits

end Indexer

/-! ## A sample -/

namespace Sample

/-- A text whose second line lacks a bracket. -/
def brokenSource : String := "a\n (b\n"

/-- Its syntax tree, with a missing node in the second statement. -/
def brokenTree : SyntaxTree :=
  .node ⟨0, 6, "module", none, true, false, false, false, true⟩ [
    named 0 1 "identifier" [],
    .node ⟨3, 5, "parenthesized", none, true, false, false, false, true⟩ [
      token 3 4 "(", named 4 5 "identifier" [],
      .node ⟨5, 5, ")", none, false, false, false, true, true⟩ []]]

/-- An indexer whose grammar reads every text like that. -/
def brokenIndexer : Indexer Unit where
  embedder := ⟨"mock", fun _ => [], 1, fun _ state => ⟨[], [], ⟨0⟩, state⟩⟩
  grammar := fun _ _ => brokenTree
  extraIgnore := []
  snapshotPath := "index.db"

end Sample

/-- The failure of the sample points behind the last octet of its second line. -/
theorem Indexer.parse_failures_exact_sample :
    Sample.brokenTree.FlagsExact ∧
      Sample.brokenIndexer.unitsOf .python "a.py" Sample.brokenSource =
        .error (.parse "a.py" "syntax error at line 2, column 4") := by
  have hexact : Sample.brokenTree.FlagsExact := by decide
  obtain ⟨_, _, hfailures⟩ :=
    Indexer.parse_failures_exact Sample.brokenIndexer .python "a.py" Sample.brokenSource
  obtain ⟨_, hfirst, _⟩ := hfailures hexact
  have hplace : Position.ofOffset (Text.octets Sample.brokenSource) 5 = ⟨1, 3⟩ := by
    decide +kernel
  have hfailure := (hfirst _ rfl).2
  simp only [hplace] at hfailure
  exact ⟨hexact, hfailure⟩

end CodeIndex
