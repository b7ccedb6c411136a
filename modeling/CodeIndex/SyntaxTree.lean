/-!
# Syntax trees

A concrete syntax tree over the octets of a source text, as a grammar's parser gives it: every node
has a half-open octet range, a kind, perhaps a field name in its parent, and a few flags.
-/

namespace CodeIndex

/-- What a node says of itself. -/
structure NodeInfo where
  /-- The octet at which the node starts. -/
  start : Nat
  /-- The octet after the node. -/
  stop : Nat
  kind : String
  /-- The node's field name in its parent. -/
  field : Option String
  /-- Not a mere token of the grammar. -/
  isNamed : Bool
  /-- May stand anywhere, as comments do. -/
  isExtra : Bool
  /-- Stands for text that the grammar could not read. -/
  isError : Bool
  /-- Stands for a token that the text lacks. -/
  isMissing : Bool
  /-- Whether the node or one below it is an error or missing node. -/
  hasError : Bool
  deriving DecidableEq, Inhabited, Repr

/-- Whether a node is itself an error or missing node. -/
def NodeInfo.isFault (i : NodeInfo) : Bool := i.isError || i.isMissing

/-- A node with the nodes directly below it, in source order. -/
inductive SyntaxTree where
  | node (info : NodeInfo) (children : List SyntaxTree)
  deriving Inhabited

namespace SyntaxTree

/-- What the root node says of itself. -/
def info : SyntaxTree → NodeInfo
  | node i _ => i

/-- The nodes directly below the root node. -/
def children : SyntaxTree → List SyntaxTree
  | node _ cs => cs

@[simp] theorem info_node (i : NodeInfo) (cs : List SyntaxTree) : (node i cs).info = i := rfl
@[simp] theorem children_node (i : NodeInfo) (cs : List SyntaxTree) :
    (node i cs).children = cs := rfl

/-- The node's kind. -/
def kind (t : SyntaxTree) : String := t.info.kind

/-- A node that carries structure: named, and not an extra. -/
def isStructural (t : SyntaxTree) : Bool := t.info.isNamed && !t.info.isExtra

/-- The children that carry structure. -/
def namedChildren (t : SyntaxTree) : List SyntaxTree := t.children.filter isStructural

/-- The first child with this field name. -/
def childByField? (t : SyntaxTree) (field : String) : Option SyntaxTree :=
  t.children.find? fun c => c.info.field == some field

mutual

/-- The nodes of a tree, each before the nodes below it. -/
def preorder : SyntaxTree → List NodeInfo
  | node i cs => i :: preorderAll cs

/-- The nodes of several trees in order. -/
def preorderAll : List SyntaxTree → List NodeInfo
  | [] => []
  | t :: ts => t.preorder ++ preorderAll ts

end

end SyntaxTree

end CodeIndex
