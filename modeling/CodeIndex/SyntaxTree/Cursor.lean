import CodeIndex.SyntaxTree

/-!
# Cursors

A cursor stands on a node of a tree and moves to the first child of the node, to its next sibling or
to its parent.  The search for the first error or missing node is a loop of such moves: from a node
that is flagged as having a fault below it the cursor goes down, and from any other on to the next
sibling, its own or that of the nearest ancestor that has one.
-/

namespace CodeIndex.SyntaxTree

/-! ## §1 Addresses -/

/-- Where a node is: the number of siblings before it, then that of its parent, up to the root,
whose address is empty. -/
abbrev Address := List Nat

mutual

/-- The subtrees of the tree at `address` in preorder, with their addresses. -/
def placed (address : Address) : SyntaxTree → List (Address × SyntaxTree)
  | node i cs => (address, node i cs) :: placedAll address 0 cs

/-- The subtrees of siblings in preorder, with their addresses; `before` more siblings come before
the first. -/
def placedAll (parent : Address) (before : Nat) : List SyntaxTree → List (Address × SyntaxTree)
  | [] => []
  | t :: ts => t.placed (before :: parent) ++ placedAll parent (before + 1) ts

end

/-- The root stands at its own address, and below it its children do. -/
theorem placed_eq (address : Address) (t : SyntaxTree) :
    t.placed address = (address, t) :: placedAll address 0 t.children := by
  cases t
  rfl

/-! ## §2 Moves -/

/-- A step down from a node to one of its children. -/
structure Descent where
  parent : SyntaxTree
  /-- The number of siblings before the child. -/
  before : Nat
  /-- The siblings after the child. -/
  later : List SyntaxTree

/-- A node, with the steps by which it is reached from the root, the last one first. -/
structure Cursor where
  tree : SyntaxTree
  way : List Descent

/-- The subtrees in preorder that come after a child reached by these steps, and after all that is
below the child. -/
def placedAfter : List Descent → List (Address × SyntaxTree)
  | [] => []
  | d :: way => placedAll (way.map Descent.before) (d.before + 1) d.later ++ placedAfter way

namespace Cursor

/-- The cursor on the root of a tree. -/
def ofTree (t : SyntaxTree) : Cursor := ⟨t, []⟩

/-- What the node says of itself. -/
def info (c : Cursor) : NodeInfo := c.tree.info

/-- The address of the node. -/
def address (c : Cursor) : Address := c.way.map Descent.before

/-- The subtree at the node, with its address. -/
def here (c : Cursor) : Address × SyntaxTree := (c.address, c.tree)

/-- The subtrees that come after the node in preorder. -/
def after (c : Cursor) : List (Address × SyntaxTree) :=
  placedAll c.address 0 c.tree.children ++ placedAfter c.way

/-- The first child. -/
def firstChild? (c : Cursor) : Option Cursor :=
  match c.tree.children with
  | [] => none
  | t :: ts => some ⟨t, ⟨c.tree, 0, ts⟩ :: c.way⟩

/-- The next sibling; the root has none. -/
def nextSibling? (c : Cursor) : Option Cursor :=
  match c.way with
  | ⟨parent, before, t :: ts⟩ :: way => some ⟨t, ⟨parent, before + 1, ts⟩ :: way⟩
  | _ => none

/-- The parent; the root has none. -/
def parent? (c : Cursor) : Option Cursor :=
  match c.way with
  | [] => none
  | d :: way => some ⟨d.parent, way⟩

private theorem parent?_length {c parent : Cursor} (h : c.parent? = some parent) :
    parent.way.length < c.way.length := by
  unfold parent? at h
  split at h
  · cases h
  · next d way hway =>
    cases h
    simp [hway]

/-- The next sibling of the node, or of the nearest ancestor that has one. -/
def leave? (c : Cursor) : Option Cursor :=
  match c.nextSibling? with
  | some next => some next
  | none =>
    match _h : c.parent? with
    | some parent => parent.leave?
    | none => none
  termination_by c.way.length
  decreasing_by exact parent?_length _h

/-- Where the search goes on from a node: down, if the node is flagged as having a fault below it
and has children. -/
def next? (c : Cursor) : Option Cursor :=
  match (if c.info.hasError then c.firstChild? else none) with
  | some child => some child
  | none => c.leave?

/-! ## §3 What a move leaves ahead -/

private theorem after_of_firstChild? {c child : Cursor} (h : c.firstChild? = some child) :
    c.after = child.here :: child.after := by
  unfold firstChild? at h
  split at h
  · cases h
  · next t ts hchildren =>
    cases h
    simp [after, here, address, hchildren, placedAll, placed_eq, placedAfter]

private theorem placedAfter_of_nextSibling? {c next : Cursor} (h : c.nextSibling? = some next) :
    placedAfter c.way = next.here :: next.after := by
  unfold nextSibling? at h
  split at h
  · next parent before t ts way hway =>
    cases h
    simp [after, here, address, hway, placedAll, placed_eq, placedAfter]
  · cases h

/-- A node without a next sibling is the last below its parent. -/
theorem placedAfter_of_parent? {c parent : Cursor} (hlast : c.nextSibling? = none)
    (h : c.parent? = some parent) : placedAfter c.way = placedAfter parent.way := by
  obtain ⟨tree, way⟩ := c
  cases way with
  | nil => cases h
  | cons d way =>
    obtain ⟨above, before, later⟩ := d
    cases later with
    | nil =>
      cases h
      rfl
    | cons t ts => cases hlast

/-- Whoever leaves a node goes to the first node that comes after all that is below it. -/
theorem placedAfter_of_leave? {c next : Cursor} (h : c.leave? = some next) :
    placedAfter c.way = next.here :: next.after := by
  fun_induction leave? c with
  | case1 c sibling hsibling =>
    cases h
    exact placedAfter_of_nextSibling? hsibling
  | case2 c hlast parent hparent ih => rw [placedAfter_of_parent? hlast hparent, ih h]
  | case3 => cases h

/-- Where nothing is left to go to, nothing comes after. -/
theorem placedAfter_of_leave?_eq_none {c : Cursor} (h : c.leave? = none) :
    placedAfter c.way = [] := by
  fun_induction leave? c with
  | case1 => cases h
  | case2 c hlast parent hparent ih => rw [placedAfter_of_parent? hlast hparent, ih h]
  | case3 c hlast hroot =>
    obtain ⟨tree, way⟩ := c
    cases way with
    | nil => rfl
    | cons d way => cases hroot

/-- The subtrees below the node that the search steps over. -/
def passedOver (c : Cursor) : List (Address × SyntaxTree) :=
  if c.info.hasError then [] else placedAll c.address 0 c.tree.children

/-- A node has no first child just if nothing is below it. -/
theorem passedOver_eq_of_firstChild? {c : Cursor}
    (h : (if c.info.hasError then c.firstChild? else none) = none) :
    c.passedOver = placedAll c.address 0 c.tree.children := by
  unfold passedOver
  split at h
  · next hflag =>
    rw [if_pos hflag]
    unfold firstChild? at h
    split at h
    · next hchildren => simp [hchildren, placedAll]
    · cases h
  · next hflag => rw [if_neg hflag]

/-- Between a node and the next one that the search looks at is only what it steps over. -/
theorem after_of_next? {c next : Cursor} (h : c.next? = some next) :
    c.after = c.passedOver ++ next.here :: next.after := by
  unfold next? at h
  split at h
  · next child hchild =>
    cases h
    split at hchild
    · next hflag =>
      rw [after_of_firstChild? hchild]
      simp [passedOver, hflag]
    · cases hchild
  · next hdown =>
    rw [passedOver_eq_of_firstChild? hdown, ← placedAfter_of_leave? h]
    rfl

/-- Once the search has nowhere to go, it has looked at or stepped over everything. -/
theorem after_of_next?_eq_none {c : Cursor} (h : c.next? = none) : c.after = c.passedOver := by
  unfold next? at h
  split at h
  · cases h
  · next hdown =>
    rw [passedOver_eq_of_firstChild? hdown, after, placedAfter_of_leave?_eq_none h, List.append_nil]

/-! ## §4 The search -/

/-- A search for a fault. -/
structure Search where
  /-- The nodes that the cursor looked at, in order. -/
  visited : List Cursor
  /-- The fault at which it stopped. -/
  found : Option Cursor

/-- The search from a node on. -/
def search (c : Cursor) : Search :=
  if c.info.isFault then ⟨[c], some c⟩
  else
    match _h : c.next? with
    | some next =>
      let rest := search next
      ⟨c :: rest.visited, rest.found⟩
    | none => ⟨[c], none⟩
  termination_by c.after.length
  decreasing_by
    rw [after_of_next? _h, List.length_append, List.length_cons]
    omega

end Cursor

/-- The first error or missing node, looking only below nodes that are flagged as having one. -/
def firstFault? (t : SyntaxTree) : Option NodeInfo := (Cursor.ofTree t).search.found.map Cursor.info

end CodeIndex.SyntaxTree
