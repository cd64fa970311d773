import SyntaxTree.Diagnostic

/-!
# Nodes

A node is its content (what it is) and its links (where it stands). The children of a composite form
a ring: the composite knows its first child, each child knows its two neighbours, and the first
child's previous neighbour is the last one. A node that was replaced stays in the store, without
links, and names its successor.
-/

namespace SyntaxTree

/-- The part that all composites share: the first child, if any, and the number of tokens that the
parser looked ahead. -/
structure Branch where
  firstChild : Option NodeId
  lookahead : Nat
deriving DecidableEq, Repr

/-- What a node is. The slot of the root and of a bindable composite holds the semantic element bound
to it; the root has no error. -/
inductive Content where
  | leaf (range : TextRange) (hidden : Bool) (error : Option SyntaxError)
  | root (branch : Branch) (slot : Option Element)
  | composite (branch : Branch) (error : Option SyntaxError)
  | bindable (branch : Branch) (slot : Option Element) (error : Option SyntaxError)
deriving DecidableEq, Repr

namespace Content

/-- The kind of a node with this content. -/
def kind : Content → NodeKind
  | leaf _ false none => .leaf
  | leaf _ true none => .hiddenLeaf
  | leaf _ false (some _) => .leafWithSyntaxError
  | leaf _ true (some _) => .hiddenLeafWithSyntaxError
  | root _ _ => .root
  | composite _ none => .composite
  | composite _ (some _) => .compositeWithSyntaxError
  | bindable _ _ none => .compositeWithSemanticElement
  | bindable _ _ (some _) => .compositeWithSemanticElementAndSyntaxError

/-- The range of a leaf. -/
def leafRange? : Content → Option TextRange
  | leaf range _ _ => some range
  | _ => none

/-- The branch of a composite. -/
def branch? : Content → Option Branch
  | leaf _ _ _ => none
  | root branch _ | composite branch _ | bindable branch _ _ => some branch

/-- The first child of a composite. -/
def firstChild? (content : Content) : Option NodeId :=
  content.branch?.bind (·.firstChild)

/-- The content with another first child. A leaf stays as it is. -/
def withFirstChild (child : Option NodeId) : Content → Content
  | leaf range hidden error => leaf range hidden error
  | root branch slot => root { branch with firstChild := child } slot
  | composite branch error => composite { branch with firstChild := child } error
  | bindable branch slot error => bindable { branch with firstChild := child } slot error

/-- The syntax error of a marked node. -/
def syntaxError? : Content → Option SyntaxError
  | leaf _ _ error | composite _ error | bindable _ _ error => error
  | root _ _ => none

/-- The semantic element bound to the node. -/
def element? : Content → Option Element
  | root _ slot | bindable _ slot _ => slot
  | _ => none

/-- The content with another filling of its slot. Content without a slot stays as it is. -/
def withSlot (slot : Option Element) : Content → Content
  | root branch _ => root branch slot
  | bindable branch _ error => bindable branch slot error
  | content => content

/-- A composite without children that can be bound to a semantic element. -/
def freshComposite (lookahead : Nat) : Content :=
  bindable ⟨none, lookahead⟩ none none

/-- What takes the place of a marked node: the same content without children, carrying the error. The
root cannot be marked. -/
def marked? (error : SyntaxError) : Content → Option Content
  | leaf range hidden _ => some (leaf range hidden (some error))
  | root _ _ => none
  | composite branch _ => some (composite ⟨none, branch.lookahead⟩ (some error))
  | bindable branch slot _ => some (bindable ⟨none, branch.lookahead⟩ slot (some error))

/-- What takes the place of a composite that turned out to need no slot: the same content without
slot and children. A filled slot is kept, and other content has nothing to give up. -/
def compressed? : Content → Option Content
  | bindable branch none error => some (composite ⟨none, branch.lookahead⟩ error)
  | _ => none

/-- A node is a leaf exactly if it has no branch. -/
theorem isLeaf_kind (content : Content) : content.kind.isLeaf = content.branch?.isNone := by
  rcases content with ⟨_, _ | _, _ | _⟩ | ⟨_, _⟩ | ⟨_, _ | _⟩ | ⟨_, _, _ | _⟩ <;> rfl

@[simp] theorem kind_withFirstChild (child : Option NodeId) (content : Content) :
    (content.withFirstChild child).kind = content.kind := by
  rcases content with ⟨_, _ | _, _ | _⟩ | ⟨_, _⟩ | ⟨_, _ | _⟩ | ⟨_, _, _ | _⟩ <;> rfl

@[simp] theorem kind_withSlot (slot : Option Element) (content : Content) :
    (content.withSlot slot).kind = content.kind := by
  rcases content with ⟨_, _ | _, _ | _⟩ | ⟨_, _⟩ | ⟨_, _ | _⟩ | ⟨_, _, _ | _⟩ <;> rfl

end Content

/-- One entry of the store. -/
structure Node where
  content : Content
  grammar : Option String
  parent : Option NodeId
  next : Option NodeId
  previous : Option NodeId
  replacedBy : Option NodeId
deriving DecidableEq, Repr

namespace Node

/-- A live node without a place in the tree. -/
def unlinked (content : Content) (grammar : Option String) : Node :=
  ⟨content, grammar, none, none, none, none⟩

/-- The node's kind. -/
def kind (node : Node) : NodeKind :=
  node.content.kind

/-- Whether the node has no place in the tree. -/
def isUnlinked (node : Node) : Bool :=
  node.next.isNone && node.previous.isNone && node.parent.isNone

/-- The node put under a parent, between two neighbours. -/
def linkedAt (node : Node) (parent previous next : NodeId) : Node :=
  { node with parent := some parent, previous := some previous, next := some next }

/-- The node taken out of the tree. -/
def detached (node : Node) : Node :=
  { node with parent := none, next := none, previous := none }

end Node

end SyntaxTree
