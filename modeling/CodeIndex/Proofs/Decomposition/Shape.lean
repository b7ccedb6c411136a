import CodeIndex.Decomposition
import Mathlib.Data.List.Forall2

/-!
# The shape of a decomposition

The units of a file come in blocks, one for each top-level node that is a declaration or leads to
one through wrappers, in the order of the source.  A block is a function, or a class with its
methods; the code left over comes last.  In a tree whose nodes nest as their ranges do, the blocks
stand one after the other and the methods of a class inside it.
-/

namespace CodeIndex

namespace SyntaxTree

/-- A property of a tree may be shown with the property of its children at hand. -/
@[elab_as_elim, induction_eliminator]
theorem inductionOn {motive : SyntaxTree → Prop}
    (node : ∀ info children, (∀ c ∈ children, motive c) → motive (.node info children))
    (t : SyntaxTree) : motive t :=
  SyntaxTree.rec (motive_1 := motive) (motive_2 := fun ts => ∀ c ∈ ts, motive c)
    node (by simp) (fun t ts ht hts => by simpa using ⟨ht, hts⟩) t

/-! ## §1 Ranges -/

/-- The range of the second tree lies inside the range of the first. -/
def Covers (t s : SyntaxTree) : Prop :=
  t.info.start ≤ s.info.start ∧ s.info.stop ≤ t.info.stop

/-- The first tree ends before the second begins. -/
def Before (s t : SyntaxTree) : Prop := s.info.stop ≤ t.info.start

/-- All through the tree, children are in order, disjoint and inside their parent. -/
inductive Nested : SyntaxTree → Prop where
  | node {info : NodeInfo} {children : List SyntaxTree}
      (range : info.start ≤ info.stop)
      (inside : ∀ c ∈ children, Covers (.node info children) c)
      (ordered : children.Pairwise Before)
      (below : ∀ c ∈ children, Nested c) : Nested (.node info children)

/-- A tree covers itself. -/
theorem Covers.refl (t : SyntaxTree) : t.Covers t := ⟨Nat.le_refl _, Nat.le_refl _⟩

/-- A range within a range within a third is within the third. -/
theorem Covers.trans {t s r : SyntaxTree} (h : t.Covers s) (h' : s.Covers r) : t.Covers r :=
  ⟨Nat.le_trans h.1 h'.1, Nat.le_trans h'.2 h.2⟩

private theorem Before.mono {s t s' t' : SyntaxTree} (h : s.Before t) (hs : s.Covers s')
    (ht : t.Covers t') : s'.Before t' :=
  Nat.le_trans (Nat.le_trans hs.2 h) ht.1

private theorem nested_node {info : NodeInfo} {children : List SyntaxTree} :
    (node info children).Nested ↔ info.start ≤ info.stop ∧
      (∀ c ∈ children, (node info children).Covers c) ∧ children.Pairwise Before ∧
      ∀ c ∈ children, c.Nested := by
  constructor
  · rintro ⟨range, inside, ordered, below⟩
    exact ⟨range, inside, ordered, below⟩
  · rintro ⟨range, inside, ordered, below⟩
    exact .node range inside ordered below

namespace Nested

variable {t c : SyntaxTree}

/-- A range does not end before it begins. -/
theorem range (h : t.Nested) : t.info.start ≤ t.info.stop := by
  cases h with
  | node range => exact range

private theorem covers (h : t.Nested) (hc : c ∈ t.namedChildren) : t.Covers c := by
  cases h with
  | node _ inside => exact inside c (List.mem_of_mem_filter hc)

/-- What is nested is so in every named child. -/
theorem child (h : t.Nested) (hc : c ∈ t.namedChildren) : c.Nested := by
  cases h with
  | node _ _ _ below => exact below c (List.mem_of_mem_filter hc)

private theorem pairwise (h : t.Nested) : t.namedChildren.Pairwise Before := by
  cases h with
  | node _ _ ordered => exact ordered.filter _

private theorem before_of_split (h : t.Nested) {earlier later : List SyntaxTree}
    (hsplit : t.namedChildren = earlier ++ c :: later) {c' : SyntaxTree} (hc' : c' ∈ later) :
    c.Before c' := by
  have hpairwise := h.pairwise
  rw [hsplit, List.pairwise_append, List.pairwise_cons] at hpairwise
  exact hpairwise.2.1.1 c' hc'

end Nested

end SyntaxTree

namespace Decomposition

open SyntaxTree

/-! ## §2 The search for declarations -/

variable {wrappers : List String} {accept : String → Bool} {t c d : SyntaxTree}

/-- A node leads to itself if its kind is accepted, and a wrapper to whatever its structural
children lead to. -/
inductive LeadsTo (wrappers : List String) (accept : String → Bool) :
    SyntaxTree → SyntaxTree → Prop where
  | here {t : SyntaxTree} : accept t.kind = true → LeadsTo wrappers accept t t
  | through {t c d : SyntaxTree} : t.kind ∈ wrappers → c ∈ t.namedChildren →
      LeadsTo wrappers accept c d → LeadsTo wrappers accept t d

/-- What a node leads to that no other starts before. -/
def LeadsFirstTo (wrappers : List String) (accept : String → Bool) (t d : SyntaxTree) : Prop :=
  LeadsTo wrappers accept t d ∧
    ∀ other, LeadsTo wrappers accept t other → d.info.start ≤ other.info.start

private theorem findAmong_eq (ts : List SyntaxTree) : findAmong wrappers accept ts =
    (ts.filter isStructural).findSome? (findDeclaration wrappers accept) := by
  induction ts with
  | nil => rfl
  | cons t ts ih =>
    cases hstructural : t.isStructural with
    | true =>
      simp only [findAmong, hstructural, if_true, ih, List.filter_cons_of_pos, List.findSome?_cons]
      cases findDeclaration wrappers accept t <;> rfl
    | false => simp [findAmong, hstructural, ih]

private theorem findDeclaration_eq (t : SyntaxTree) : findDeclaration wrappers accept t =
    if accept t.kind then some t
    else if t.kind ∈ wrappers then t.namedChildren.findSome? (findDeclaration wrappers accept)
    else none := by
  cases t with
  | node i cs =>
    simp only [findDeclaration, findAmong_eq, kind, info_node, List.contains_iff_mem]
    rfl

private theorem findDeclaration_of_accept (h : accept t.kind = true) :
    findDeclaration wrappers accept t = some t := by
  rw [findDeclaration_eq, if_pos h]

/-- What the search finds, if the node itself is not accepted. -/
theorem findDeclaration_eq_some_through (haccept : ¬accept t.kind = true)
    (h : findDeclaration wrappers accept t = some d) : t.kind ∈ wrappers ∧
      ∃ earlier c later, t.namedChildren = earlier ++ c :: later ∧
        findDeclaration wrappers accept c = some d ∧
        ∀ e ∈ earlier, findDeclaration wrappers accept e = none := by
  rw [findDeclaration_eq, if_neg haccept] at h
  by_cases hwrapper : t.kind ∈ wrappers
  · rw [if_pos hwrapper] at h
    exact ⟨hwrapper, List.findSome?_eq_some_iff.1 h⟩
  · rw [if_neg hwrapper] at h
    cases h

private theorem leadsTo_of_findDeclaration (h : findDeclaration wrappers accept t = some d) :
    LeadsTo wrappers accept t d := by
  induction t generalizing d with
  | node info children ih =>
    by_cases haccept : accept info.kind = true
    · rw [findDeclaration_of_accept haccept] at h
      cases h
      exact .here haccept
    · obtain ⟨hwrapper, earlier, c, later, hsplit, hc, _⟩ :=
        findDeclaration_eq_some_through haccept h
      have hmem : c ∈ (node info children).namedChildren := by simp [hsplit]
      exact .through hwrapper hmem (ih c (List.mem_of_mem_filter hmem) hc)

private theorem LeadsTo.findDeclaration_ne_none (h : LeadsTo wrappers accept t d) :
    findDeclaration wrappers accept t ≠ none := by
  induction h with
  | here haccept => simp [findDeclaration_of_accept haccept]
  | through hwrapper hc _ ih =>
    rw [findDeclaration_eq, if_pos hwrapper]
    split
    · simp
    · intro hnone
      exact ih (List.findSome?_eq_none_iff.1 hnone _ hc)

/-- The search ends empty-handed exactly where no declaration can be reached. -/
theorem isSome_findDeclaration_iff :
    (findDeclaration wrappers accept t).isSome = true ↔ ∃ d, LeadsTo wrappers accept t d := by
  constructor
  · intro h
    obtain ⟨d, hd⟩ := Option.isSome_iff_exists.1 h
    exact ⟨d, leadsTo_of_findDeclaration hd⟩
  · rintro ⟨d, hd⟩
    exact Option.isSome_iff_ne_none.2 hd.findDeclaration_ne_none

instance (wrappers : List String) (accept : String → Bool) (t : SyntaxTree) :
    Decidable (∃ d, LeadsTo wrappers accept t d) :=
  decidable_of_iff _ isSome_findDeclaration_iff

private theorem LeadsTo.accepted (h : LeadsTo wrappers accept t d) : accept d.kind = true := by
  induction h with
  | here haccept => exact haccept
  | through _ _ _ ih => exact ih

private theorem LeadsTo.covers (h : LeadsTo wrappers accept t d) (hnested : t.Nested) :
    t.Covers d := by
  induction h with
  | here => exact .refl _
  | through _ hc _ ih => exact (hnested.covers hc).trans (ih (hnested.child hc))

private theorem LeadsTo.nested (h : LeadsTo wrappers accept t d) (hnested : t.Nested) :
    d.Nested := by
  induction h with
  | here => exact hnested
  | through _ hc _ ih => exact ih (hnested.child hc)

/-- Declarations below different trees are in the order of the trees. -/
theorem LeadsTo.before {c' d' : SyntaxTree} (h : LeadsTo wrappers accept c d)
    (h' : LeadsTo wrappers accept c' d') (hbefore : c.Before c') (hc : c.Nested) (hc' : c'.Nested) :
    d.Before d' :=
  hbefore.mono (h.covers hc) (h'.covers hc')

/-- The search finds the first of the declarations that can be reached. -/
theorem leadsFirstTo_of_findDeclaration (h : findDeclaration wrappers accept t = some d)
    (hnested : t.Nested) : LeadsFirstTo wrappers accept t d := by
  refine ⟨leadsTo_of_findDeclaration h, ?_⟩
  induction t generalizing d with
  | node info children ih =>
    intro other hother
    by_cases haccept : accept info.kind = true
    · -- the node itself is found, and the others are inside it
      rw [findDeclaration_of_accept haccept] at h
      cases h
      exact (hother.covers hnested).1
    · obtain ⟨_, earlier, c, later, hsplit, hc, hearlier⟩ :=
        findDeclaration_eq_some_through haccept h
      have hmem : c ∈ (node info children).namedChildren := by simp [hsplit]
      cases hother with
      | here h => exact absurd h haccept
      | @through _ c' _ _ hc' hother =>
        rw [hsplit, List.mem_append, List.mem_cons] at hc'
        rcases hc' with hc' | rfl | hc'
        · exact absurd (hearlier c' hc') hother.findDeclaration_ne_none
        · exact ih c' (List.mem_of_mem_filter hmem) hc (hnested.child hmem) other hother
        · -- what a later sibling leads to begins where the found declaration has ended
          have hmem' : c' ∈ (node info children).namedChildren := by simp [hsplit, hc']
          have hfound := leadsTo_of_findDeclaration hc
          have hbefore : d.Before other :=
            hfound.before hother (hnested.before_of_split hsplit hc') (hnested.child hmem)
              (hnested.child hmem')
          exact Nat.le_trans (hfound.nested (hnested.child hmem)).range hbefore

/-- A partial function picks its results from the elements that have one, in their order. -/
theorem forall₂_filterMap {α β : Type} {f : α → Option β} {p : α → Prop} [DecidablePred p]
    {R : α → β → Prop} {as : List α} (hp : ∀ a ∈ as, (f a).isSome = true ↔ p a)
    (hR : ∀ a ∈ as, ∀ b, f a = some b → R a b) :
    List.Forall₂ R (as.filter p) (as.filterMap f) := by
  induction as with
  | nil => exact .nil
  | cons a as ih =>
    have hrest := ih (fun b hb => hp b (List.mem_cons_of_mem a hb))
      (fun b hb => hR b (List.mem_cons_of_mem a hb))
    have ha := hp a List.mem_cons_self
    -- an element is in both lists or in neither
    cases hfa : f a with
    | none =>
      have hnot : ¬p a := by simpa [hfa] using ha
      simpa [hfa, hnot] using hrest
    | some b =>
      have hyes : p a := by simpa [hfa] using ha
      simpa [hfa, hyes] using ⟨hR a List.mem_cons_self b hfa, hrest⟩

/-! ## §3 Blocks of units -/

variable (source : Text.Octets) (m : Mapping)

/-- The node that holds the members of a class. -/
def classBody? (t : SyntaxTree) : Option SyntaxTree :=
  m.classBody?.bind fun bodyKind => t.namedChildren.find? fun c => c.kind == bodyKind

/-- The members of a class; none without a body. -/
def classMembers (t : SyntaxTree) : List SyntaxTree := ((classBody? m t).map namedChildren).getD []

/-- Whether a node kind is that of methods. -/
def isMethodKind (k : String) : Bool := m.method? == some k

/-- A unit is the method that a member of a class leads to.  Its node is inside the class. -/
structure IsMethodOf (owner : SyntaxTree) (ownerUnit : CodeUnit) (member : SyntaxTree)
    (u : CodeUnit) : Prop where
  kind : u.kind = .method
  enclosingClass : u.enclosingClass = ownerUnit.name
  slice : ∃ t, LeadsFirstTo m.wrappers (isMethodKind m) member t ∧ owner.Covers t ∧
    u.sourceText = textOf source t

/-- The units of a declaration: a function, or a class with one method for each member that leads to
one. -/
inductive Block (t : SyntaxTree) : List CodeUnit → Prop where
  | function {u : CodeUnit} (node : m.class? ≠ some t.kind) (kind : u.kind = .function)
      (enclosingClass : u.enclosingClass = none) (slice : u.sourceText = textOf source t) :
      Block t [u]
  | class {u : CodeUnit} {methods : List CodeUnit} (node : m.class? = some t.kind)
      (kind : u.kind = .class) (enclosingClass : u.enclosingClass = none)
      (slice : u.sourceText = textOf source t)
      (members : List.Forall₂ (IsMethodOf source m t u)
        ((classMembers m t).filter fun c => ∃ d, LeadsTo m.wrappers (isMethodKind m) c d) methods) :
      Block t (u :: methods)

/-- The methods of a class are the units of the members that lead to one. -/
theorem classMethods_eq (t : SyntaxTree) (className : Option String) :
    classMethods source m t className = (classMembers m t).filterMap fun member =>
      (findDeclaration m.wrappers (isMethodKind m) member).map fun d =>
        functionUnit source m d .method className := by
  unfold classMethods classMembers classBody? isMethodKind
  cases m.classBody? with
  | none => rfl
  | some bodyKind =>
    cases hmethod : m.method? with
    | none =>
      -- nothing is a method, so no search finds one
      refine (List.filterMap_eq_nil_iff.2 fun member _ => ?_).symm
      rw [Option.map_eq_none_iff, Option.eq_none_iff_forall_ne_some]
      intro d hd
      simpa using (leadsTo_of_findDeclaration hd).accepted
    | some methodKind =>
      simp only [Option.bind_some]
      cases t.namedChildren.find? fun c => c.kind == bodyKind with
      | none => rfl
      | some body =>
        have hkinds : (fun k : String => k == methodKind) = fun k => some methodKind == some k := by
          funext k
          rw [Bool.eq_iff_iff, beq_iff_eq, beq_iff_eq, Option.some.injEq, eq_comm]
        simp [methodsOf, hkinds]

private theorem covers_of_mem_classMembers {t c : SyntaxTree} (hnested : t.Nested)
    (hc : c ∈ classMembers m t) : t.Covers c ∧ c.Nested := by
  unfold classMembers classBody? at hc
  obtain ⟨body, hbody, hc⟩ : ∃ body ∈ t.namedChildren, c ∈ body.namedChildren := by
    cases hfind : m.classBody?.bind fun k => t.namedChildren.find? fun c => c.kind == k with
    | none => simp [hfind] at hc
    | some body =>
      rw [hfind] at hc
      obtain ⟨k, _, hbody⟩ := Option.bind_eq_some_iff.1 hfind
      exact ⟨body, List.mem_of_find?_eq_some hbody, hc⟩
  have hnestedbody := hnested.child hbody
  exact ⟨(hnested.covers hbody).trans (hnestedbody.covers hc), hnestedbody.child hc⟩

/-- The units of a declaration form a block. -/
theorem block_declarationUnits {t : SyntaxTree} (hnested : t.Nested) :
    Block source m t (declarationUnits source m t) := by
  unfold declarationUnits
  split
  · next hclass =>
    refine .class hclass rfl rfl rfl ?_
    -- a member has a unit just if it leads to a method
    rw [classMethods_eq]
    refine forall₂_filterMap (fun member _ => ?_) fun member hmember u hu => ?_
    · rw [Option.isSome_map, isSome_findDeclaration_iff]
    · obtain ⟨hcovers, hnestedmember⟩ := covers_of_mem_classMembers m hnested hmember
      obtain ⟨d, hd, rfl⟩ := Option.map_eq_some_iff.1 hu
      have hleads := leadsFirstTo_of_findDeclaration hd hnestedmember
      exact ⟨rfl, rfl, d, hleads, hcovers.trans (hleads.1.covers hnestedmember), rfl⟩
  · next hclass => exact .function hclass rfl rfl rfl

/-! ## §4 Whole files -/

/-- The unit of the code that no declaration takes, if there is such code. -/
def leftoverUnit? (source : String) (root : SyntaxTree) : Option CodeUnit :=
  (Leftover.leftoverCode source
    ((declarations m root).map fun t => t.info.rowSpan (Text.octets source))).map
      CodeUnit.ofGlobalCode

/-- The units of a file are those of its declarations, and then the code around them. -/
theorem ofTree_eq (source : String) (root : SyntaxTree) :
    ofTree source root m =
      (declarations m root).flatMap (declarationUnits (Text.octets source) m) ++
        (leftoverUnit? m source root).toList := rfl

private theorem pairwise_before_declarations {root : SyntaxTree} (hnested : root.Nested) :
    (declarations m root).Pairwise Before := by
  have hpairs : root.namedChildren.Pairwise fun a b => a.Before b ∧ a.Nested ∧ b.Nested :=
    hnested.pairwise.imp_of_mem fun ha hb h => ⟨h, hnested.child ha, hnested.child hb⟩
  refine hpairs.filterMap _ fun a b h d hd e he => ?_
  obtain ⟨hbefore, ha, hb⟩ := h
  exact (leadsTo_of_findDeclaration hd).before (leadsTo_of_findDeclaration he) hbefore ha hb

/-- The units of a file come in blocks, and after them the code left over, if there is any.  The
blocks belong to the structural nodes at the top of the tree that are declarations or lead to one,
one block to each in the order of the source.  Each is a function, or a class followed by one method
for each member of its body that is a method or leads to one.  The ranges of the declarations follow
one another without overlap, those of methods lie inside their class, and only methods have an
enclosing class: it is the name of the class before them. -/
theorem ofTree_wellShaped (source : String) (root : SyntaxTree) (m : Mapping)
    (hnested : root.Nested) :
    ∃ (declared : List SyntaxTree) (blocks : List (List CodeUnit)) (leftover : Option CodeUnit),
      ofTree source root m = blocks.flatten ++ leftover.toList ∧
      List.Forall₂ (LeadsFirstTo m.wrappers m.isTopLevel)
        (root.namedChildren.filter fun c => ∃ d, LeadsTo m.wrappers m.isTopLevel c d) declared ∧
      List.Forall₂ (Block (Text.octets source) m) declared blocks ∧
      declared.Pairwise Before ∧
      ∀ u ∈ leftover, u.kind = .global ∧ u.enclosingClass = none := by
  have hdeclared : List.Forall₂ (LeadsFirstTo m.wrappers m.isTopLevel)
      (root.namedChildren.filter fun c => ∃ d, LeadsTo m.wrappers m.isTopLevel c d)
      (declarations m root) :=
    forall₂_filterMap (fun _ _ => isSome_findDeclaration_iff) fun c hc d hd =>
      leadsFirstTo_of_findDeclaration hd (hnested.child hc)
  -- each declaration has a block of its own
  have hblocks : List.Forall₂ (Block (Text.octets source) m) (declarations m root)
      ((declarations m root).map (declarationUnits (Text.octets source) m)) := by
    rw [List.forall₂_map_right_iff, List.forall₂_same]
    intro d hd
    obtain ⟨c, hc, hfound⟩ := List.mem_filterMap.1 hd
    exact block_declarationUnits _ m
      ((leadsTo_of_findDeclaration hfound).nested (hnested.child hc))
  refine ⟨declarations m root, _, leftoverUnit? m source root, ?_, hdeclared, hblocks,
    pairwise_before_declarations m hnested, ?_⟩
  · rw [ofTree_eq, List.flatMap_def]
  · intro u hu
    obtain ⟨code, _, rfl⟩ := Option.map_eq_some_iff.1 hu
    exact ⟨rfl, rfl⟩

end Decomposition

/-! ## §5 A sample -/

open SyntaxTree

namespace Sample

/-- A file with a decorated class of one method. -/
def classSource : String := "@d\nclass A:  # a\n    def f(self): pass\n\nx = 1\n"

/-- A named node. -/
def named (start stop : Nat) (kind : String) (children : List SyntaxTree) : SyntaxTree :=
  .node ⟨start, stop, kind, none, true, false, false, false, false⟩ children

/-- A token, whose kind is its text. -/
def token (start stop : Nat) (kind : String) : SyntaxTree :=
  .node ⟨start, stop, kind, none, false, false, false, false, false⟩ []

/-- A comment. -/
def comment (start stop : Nat) : SyntaxTree :=
  .node ⟨start, stop, "comment", none, true, true, false, false, false⟩ []

/-- The method of the sample file. -/
def methodTree : SyntaxTree :=
  named 21 38 "function_definition" [
    token 21 24 "def", named 25 26 "identifier" [],
    named 26 32 "parameters" [token 26 27 "(", named 27 31 "identifier" [], token 31 32 ")"],
    token 32 33 ":", named 34 38 "block" []]

/-- The class of the sample file. -/
def classTree : SyntaxTree :=
  named 3 38 "class_definition" [
    token 3 8 "class", named 9 10 "identifier" [], token 10 11 ":", comment 13 16,
    named 21 38 "block" [methodTree]]

/-- The syntax tree of the sample file. -/
def fileTree : SyntaxTree :=
  named 0 46 "module" [
    named 0 38 "decorated_definition" [named 0 2 "decorator" [], classTree],
    named 40 45 "expression_statement" []]

/-- The sample's ranges are nested and in order. -/
theorem nested_fileTree : fileTree.Nested := by
  simp [fileTree, classTree, methodTree, named, token, comment, nested_node, Covers, Before]

end Sample

/-- The sample has a class with its method, and the lines around it are left over. -/
theorem Decomposition.ofTree_wellShaped_sample :
    Sample.fileTree.Nested ∧
      (ofTree Sample.classSource Sample.fileTree .python).map CodeUnit.kind =
        [.class, .method, .global] ∧
      ∃ declared blocks leftover,
        ofTree Sample.classSource Sample.fileTree .python =
          blocks.flatten ++ Option.toList leftover ∧
        List.Forall₂ (Block (Text.octets Sample.classSource) .python) declared blocks ∧
        declared.Pairwise Before := by
  obtain ⟨declared, blocks, leftover, hunits, _, hblocks, hordered, _⟩ :=
    ofTree_wellShaped Sample.classSource Sample.fileTree .python Sample.nested_fileTree
  exact ⟨Sample.nested_fileTree, by decide +kernel, declared, blocks, leftover, hunits, hblocks,
    hordered⟩

end CodeIndex
