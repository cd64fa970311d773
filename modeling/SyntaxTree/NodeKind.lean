/-!
# Node names and kinds

A node is named by its position in allocation order, and its kind says which capabilities it has:
whether it is a leaf or a composite, hidden or visible, able to hold a semantic element, and marked
with a syntax error or clean.
-/

namespace SyntaxTree

/-- A node's position in allocation order. The root is node 0. -/
abbrev NodeId := Nat

/-- A semantic element that a composite can be bound to, named by a number. -/
abbrev Element := Nat

/-- How messages write a node. -/
def NodeId.label (id : NodeId) : String :=
  "#" ++ toString id

/-- How messages write a node that may be missing. -/
def NodeId.optionLabel : Option NodeId → String
  | none => "None"
  | some id => "Some(" ++ NodeId.label id ++ ")"

/-- The kinds of node. -/
inductive NodeKind where
  | leaf
  | hiddenLeaf
  | leafWithSyntaxError
  | hiddenLeafWithSyntaxError
  | root
  | composite
  | compositeWithSyntaxError
  | compositeWithSemanticElement
  | compositeWithSemanticElementAndSyntaxError
deriving DecidableEq, Repr

namespace NodeKind

/-- The name of a kind in dumps and messages. -/
def name : NodeKind → String
  | leaf => "Leaf"
  | hiddenLeaf => "HiddenLeaf"
  | leafWithSyntaxError => "LeafWithSyntaxError"
  | hiddenLeafWithSyntaxError => "HiddenLeafWithSyntaxError"
  | root => "Root"
  | composite => "Composite"
  | compositeWithSyntaxError => "CompositeWithSyntaxError"
  | compositeWithSemanticElement => "CompositeWithSemanticElement"
  | compositeWithSemanticElementAndSyntaxError => "CompositeWithSemanticElementAndSyntaxError"

/-- Leaves stand for tokens and have no children. -/
def isLeaf : NodeKind → Bool
  | leaf | hiddenLeaf | leafWithSyntaxError | hiddenLeafWithSyntaxError => true
  | _ => false

/-- Everything that is not a leaf is a composite, the root included. -/
def isComposite (kind : NodeKind) : Bool :=
  !kind.isLeaf

/-- Hidden leaves stand for text that the grammar skips. -/
def isHidden : NodeKind → Bool
  | hiddenLeaf | hiddenLeafWithSyntaxError => true
  | _ => false

/-- Whether nodes of this kind carry a syntax error. -/
def hasSyntaxError : NodeKind → Bool
  | leafWithSyntaxError | hiddenLeafWithSyntaxError | compositeWithSyntaxError
  | compositeWithSemanticElementAndSyntaxError => true
  | _ => false

/-- Whether nodes of this kind have a slot for a semantic element. -/
def isBindable : NodeKind → Bool
  | root | compositeWithSemanticElement | compositeWithSemanticElementAndSyntaxError => true
  | _ => false

end NodeKind

end SyntaxTree
