import CodeIndex.Proofs.Decomposition.Shape

/-!
# Comments and punctuation

Extras and mere tokens carry no structure unless a field name points at them.  Subtrees of this kind
can be deleted anywhere below the root of a syntax tree without a change in the units of the file.

All trees that differ by such deletions have the same core, in which no such subtree is left.  A
tree is then compared with its core, lookup by lookup.
-/

namespace CodeIndex

namespace SyntaxTree

/-! ## §1 Deleting incidental subtrees -/

/-- The root is an extra or a mere token, and no field name leads to it. -/
def isIncidental (t : SyntaxTree) : Bool :=
  (t.info.isExtra || !t.info.isNamed) && t.info.field.isNone

mutual

/-- The second tree is what is left of the first when some incidental subtrees below the root are
deleted. -/
inductive PrunesTo : SyntaxTree → SyntaxTree → Prop where
  | node (info : NodeInfo) {children rest : List SyntaxTree} :
      PrunesAllTo children rest → PrunesTo (.node info children) (.node info rest)

/-- Of the trees in the first list some incidental ones are gone, and in the others some incidental
subtrees are. -/
inductive PrunesAllTo : List SyntaxTree → List SyntaxTree → Prop where
  | nil : PrunesAllTo [] []
  | keep {t t' : SyntaxTree} {ts ts' : List SyntaxTree} :
      PrunesTo t t' → PrunesAllTo ts ts' → PrunesAllTo (t :: ts) (t' :: ts')
  | delete {t : SyntaxTree} {ts ts' : List SyntaxTree} :
      t.isIncidental = true → PrunesAllTo ts ts' → PrunesAllTo (t :: ts) ts'

end

/-! ## §2 The core of a tree -/

mutual

/-- The tree without any incidental subtree below its root. -/
def core : SyntaxTree → SyntaxTree
  | node i cs => node i (coreAll cs)

/-- The cores of the trees that are not incidental. -/
def coreAll : List SyntaxTree → List SyntaxTree
  | [] => []
  | t :: ts => if t.isIncidental then coreAll ts else core t :: coreAll ts

end

private theorem coreAll_eq (ts : List SyntaxTree) :
    coreAll ts = (ts.filter fun t => !t.isIncidental).map core := by
  induction ts with
  | nil => rfl
  | cons t ts ih => cases h : t.isIncidental <;> simp [coreAll, h, ih]

/-- A core keeps what its root says of itself. -/
@[simp] theorem info_core (t : SyntaxTree) : t.core.info = t.info := by
  cases t
  rfl

@[simp] theorem kind_core (t : SyntaxTree) : t.core.kind = t.kind := by simp [kind]

@[simp] theorem isStructural_core (t : SyntaxTree) : t.core.isStructural = t.isStructural := by
  simp [isStructural]

/-- A core is incidental just if the tree is. -/
@[simp] theorem isIncidental_core (t : SyntaxTree) : t.core.isIncidental = t.isIncidental := by
  simp [isIncidental]

private theorem children_core (t : SyntaxTree) :
    t.core.children = (t.children.filter fun c => !c.isIncidental).map core := by
  cases t
  exact coreAll_eq _

mutual

private theorem core_eq_of_prunesTo {t t' : SyntaxTree} (h : PrunesTo t t') : t.core = t'.core := by
  cases h with
  | node info h => rw [core, core, coreAll_eq_of_prunesAllTo h]

private theorem coreAll_eq_of_prunesAllTo {ts ts' : List SyntaxTree} (h : PrunesAllTo ts ts') :
    coreAll ts = coreAll ts' := by
  cases h with
  | nil => rfl
  | @keep t t' ts ts' ht hts =>
    have hcore := core_eq_of_prunesTo ht
    -- a root keeps its info, so it is incidental before and after
    have hincidental : t.isIncidental = t'.isIncidental := by
      rw [← isIncidental_core, hcore, isIncidental_core]
    rw [coreAll, coreAll, hincidental, hcore, coreAll_eq_of_prunesAllTo hts]
  | delete hincidental hts => simp [coreAll, hincidental, coreAll_eq_of_prunesAllTo hts]

end

mutual

/-- The core is what is left when everything incidental is deleted. -/
theorem prunesTo_core : ∀ t : SyntaxTree, t.PrunesTo t.core
  | .node i cs => .node i (prunesAllTo_coreAll cs)

private theorem prunesAllTo_coreAll : ∀ ts : List SyntaxTree, PrunesAllTo ts (coreAll ts)
  | [] => .nil
  | t :: ts => by
    rw [coreAll]
    split
    · next hincidental => exact .delete hincidental (prunesAllTo_coreAll ts)
    · exact .keep (prunesTo_core t) (prunesAllTo_coreAll ts)

end

/-! ## §3 Lookups do not see incidental subtrees -/

private theorem not_isIncidental_of_isStructural {t : SyntaxTree} (h : t.isStructural = true) :
    t.isIncidental = false := by
  simp only [isStructural, Bool.and_eq_true, Bool.not_eq_true'] at h
  simp [isIncidental, h.1, h.2]

private theorem not_isIncidental_of_field {t : SyntaxTree} {field : String}
    (h : t.info.field = some field) : t.isIncidental = false := by
  simp [isIncidental, h]

/-- Named children carry structure, so all of them are still there. -/
@[simp] theorem namedChildren_core (t : SyntaxTree) :
    t.core.namedChildren = t.namedChildren.map core := by
  unfold namedChildren
  rw [children_core, List.filter_map, List.filter_filter]
  congr 1
  refine List.filter_congr fun c _ => ?_
  cases h : c.isStructural with
  | false => simp [h]
  | true => simp [h, not_isIncidental_of_isStructural h]

private theorem find?_namedChildren_core (t : SyntaxTree) (p : NodeInfo → Bool) :
    (t.core.namedChildren.find? fun c => p c.info) =
      (t.namedChildren.find? fun c => p c.info).map core := by
  rw [namedChildren_core, List.find?_map]
  congr 2
  funext c
  simp

/-- A child with a field name carries structure too. -/
@[simp] theorem childByField?_core (t : SyntaxTree) (field : String) :
    t.core.childByField? field = (t.childByField? field).map core := by
  unfold childByField?
  rw [children_core, List.find?_map, List.find?_filter]
  congr 2
  funext c
  by_cases h : c.info.field = some field
  · simp [h, not_isIncidental_of_field h]
  · simp [h]

end SyntaxTree

/-! ## §4 Units do not see incidental subtrees -/

namespace Decomposition

open SyntaxTree

variable (source : Text.Octets) (m : Mapping)

mutual

private theorem findDeclaration_core (wrappers : List String) (accept : String → Bool) :
    ∀ t : SyntaxTree, findDeclaration wrappers accept t.core =
      (findDeclaration wrappers accept t).map core
  | .node i cs => by
    simp only [core, findDeclaration]
    split
    · simp [core]
    · split
      · exact findAmong_coreAll wrappers accept cs
      · rfl

private theorem findAmong_coreAll (wrappers : List String) (accept : String → Bool) :
    ∀ ts : List SyntaxTree, findAmong wrappers accept (coreAll ts) =
      (findAmong wrappers accept ts).map core
  | [] => rfl
  | t :: ts => by
    have ht := findDeclaration_core wrappers accept t
    have hts := findAmong_coreAll wrappers accept ts
    cases hstructural : t.isStructural with
    | true =>
      have hincidental := not_isIncidental_of_isStructural hstructural
      rw [coreAll, if_neg (by simp [hincidental])]
      simp only [findAmong, isStructural_core, hstructural, ht, hts]
      cases findDeclaration wrappers accept t <;> simp
    | false =>
      -- the search skips such a tree, whether it is still there or not
      cases hincidental : t.isIncidental <;>
        simp [coreAll, hincidental, findAmong, hstructural, hts]

end

/-- The text is that of the range, and the range is kept. -/
@[simp] theorem textOf_core (t : SyntaxTree) : textOf source t.core = textOf source t := by
  simp [textOf]

@[simp] theorem childTexts_core (t : SyntaxTree) :
    childTexts source t.core = childTexts source t := by
  simp [childTexts]

@[simp] theorem functionName?_core (t : SyntaxTree) :
    functionName? source m t.core = functionName? source m t := by
  unfold functionName?
  have hfind := find?_namedChildren_core t fun i => i.kind == m.name || m.methodName? == some i.kind
  simp only [kind]
  rw [hfind, Option.map_map]
  congr 1
  funext c
  simp

private theorem find?_kind_core (t : SyntaxTree) (k : String) :
    (t.core.namedChildren.find? fun c => c.kind == k) =
      (t.namedChildren.find? fun c => c.kind == k).map core :=
  find?_namedChildren_core t fun i => i.kind == k

@[simp] theorem parameterList?_core (t : SyntaxTree) (k : String) :
    parameterList? t.core k = (parameterList? t k).map core := by
  unfold parameterList?
  rw [childByField?_core, find?_kind_core]
  cases hfield : t.childByField? "parameters" with
  | none => rfl
  | some p =>
    by_cases hkind : p.kind = k
    · simp [Option.filter, hkind]
    · simp [Option.filter, hkind]

@[simp] theorem outputNode?_core (t : SyntaxTree) :
    outputNode? m t.core = (outputNode? m t).map core := by
  have hfield : (m.outputField?.bind t.core.childByField?) =
      (m.outputField?.bind t.childByField?).map core := by
    cases m.outputField? <;> simp
  unfold outputNode?
  simp only [find?_kind_core, hfield]
  cases m.output? with
  | none => rfl
  | some k =>
    simp only [Option.bind_some]
    cases t.namedChildren.find? fun c => c.kind == k <;> rfl

@[simp] theorem outputTexts_core (t : SyntaxTree) :
    outputTexts source t.core = outputTexts source t := by
  simp [outputTexts]

@[simp] theorem functionUnit_core (t : SyntaxTree) (k : UnitKind) (enclosingClass : Option String) :
    functionUnit source m t.core k enclosingClass = functionUnit source m t k enclosingClass := by
  simp [functionUnit, Function.comp_def]

@[simp] theorem parentName?_core (t : SyntaxTree) :
    parentName? source m t.core = parentName? source m t := by
  simp [parentName?]

@[simp] theorem parentsOfEntry_core (t : SyntaxTree) :
    parentsOfEntry source m t.core = parentsOfEntry source m t := by
  simp [parentsOfEntry, List.filterMap_map]

@[simp] theorem parentNames_core (t : SyntaxTree) :
    parentNames source m t.core = parentNames source m t := by
  unfold parentNames
  congr 1
  funext clauseKind
  rw [find?_kind_core, Option.bind_map]
  congr 1
  funext clause
  simp [List.flatMap_map]

@[simp] theorem className?_core (t : SyntaxTree) :
    className? source m t.core = className? source m t := by
  simp [className?, Function.comp_def]

/-- Members of a body are looked up among named children. -/
@[simp] theorem methodsOf_core (body : SyntaxTree) (methodKind : String)
    (className : Option String) :
    methodsOf source m body.core methodKind className =
      methodsOf source m body methodKind className := by
  simp [methodsOf, List.filterMap_map, findDeclaration_core, Function.comp_def]

@[simp] theorem classMethods_core (t : SyntaxTree) (className : Option String) :
    classMethods source m t.core className = classMethods source m t className := by
  unfold classMethods
  cases m.classBody? with
  | none => rfl
  | some bodyKind =>
    cases m.method? with
    | none => rfl
    | some methodKind =>
      simp only [find?_kind_core]
      cases t.namedChildren.find? fun c => c.kind == bodyKind <;> simp

@[simp] theorem declarationUnits_core (t : SyntaxTree) :
    declarationUnits source m t.core = declarationUnits source m t := by
  simp [declarationUnits, classUnits]

private theorem declarations_core (root : SyntaxTree) :
    declarations m root.core = (declarations m root).map core := by
  simp [declarations, List.filterMap_map, findDeclaration_core, List.map_filterMap]

private theorem ofTree_core (source : String) (root : SyntaxTree) (m : Mapping) :
    ofTree source root.core m = ofTree source root m := by
  simp [ofTree, declarations_core, List.flatMap_map, Function.comp_def]

/-- Comments and punctuation carry no structure: whatever extras and mere tokens without a field
name are deleted below the root of a syntax tree, with all that is below them, the units of the file
stay the same to the last text, and so does their order. -/
theorem ofTree_eq_of_prunesTo (source : String) (m : Mapping) (root pruned : SyntaxTree)
    (h : root.PrunesTo pruned) : ofTree source pruned m = ofTree source root m := by
  rw [← ofTree_core source pruned, ← core_eq_of_prunesTo h, ofTree_core]

/-- The sample loses a comment and six tokens, and its units are the same. -/
theorem ofTree_eq_of_prunesTo_sample :
    Sample.fileTree.PrunesTo Sample.fileTree.core ∧
      Sample.fileTree.preorder.length = 19 ∧ Sample.fileTree.core.preorder.length = 12 ∧
      ofTree Sample.classSource Sample.fileTree.core .python =
        ofTree Sample.classSource Sample.fileTree .python :=
  ⟨prunesTo_core _, rfl, rfl, ofTree_eq_of_prunesTo _ _ _ _ (prunesTo_core _)⟩

end Decomposition

end CodeIndex
