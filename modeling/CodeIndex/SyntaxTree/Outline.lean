import CodeIndex.SyntaxTree

/-!
# Outlines of syntax trees

An outline lists the nodes of a tree in preorder, each with its depth: the root has depth zero and
the children of a node are the nodes after it that are one deeper, up to the next one that is not
deeper.
-/

namespace CodeIndex.SyntaxTree

/-- A node with its depth. -/
structure OutlineEntry where
  depth : Nat
  info : NodeInfo
  deriving DecidableEq, Inhabited, Repr

namespace OutlineEntry

/-- The flags of a node by their letters. -/
def withFlags (depth start stop : Nat) (flags : String) (field : Option String) (kind : String) :
    OutlineEntry :=
  let has := fun c => flags.toList.contains c
  ⟨depth, {
    start := start
    stop := stop
    kind := kind
    field := field
    isNamed := has 'n'
    isExtra := has 'x'
    isError := has 'e'
    isMissing := has 'm'
    hasError := has 'h' }⟩

end OutlineEntry

/-- Puts a node in front of finished trees, of which it takes the deeper ones as its children. -/
def consEntry (entry : OutlineEntry) (done : List (Nat × SyntaxTree)) : List (Nat × SyntaxTree) :=
  let isBelow := fun (d : Nat × SyntaxTree) => decide (entry.depth < d.1)
  (entry.depth, .node entry.info ((done.takeWhile isBelow).map Prod.snd)) :: done.dropWhile isBelow

/-- The tree of an outline; `none` if the outline is empty. -/
def ofOutline? (entries : List OutlineEntry) : Option SyntaxTree :=
  (entries.foldr consEntry []).head?.map Prod.snd

end CodeIndex.SyntaxTree
