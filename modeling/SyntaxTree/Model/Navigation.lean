import SyntaxTree.Model.Basic

/-!
# Navigation

Reading the links of a model. Going up follows `parent`; going sideways follows the sibling ring and
stops where it closes; going down starts at the first child. A name without a node has no links.

Chains of links are followed for at most as many steps as there are nodes, which is enough whenever
the links form trees.
-/

namespace SyntaxTree.Model

/-- What the node is. -/
def content? (m : Model) (id : NodeId) : Option Content :=
  (m.get? id).map (·.content)

/-- The node's kind. -/
def kind? (m : Model) (id : NodeId) : Option NodeKind :=
  (m.get? id).map Node.kind

/-- Whether the node is a leaf. -/
def isLeaf (m : Model) (id : NodeId) : Bool :=
  (m.kind? id).any NodeKind.isLeaf

/-- Whether the node is a hidden leaf. -/
def isHidden (m : Model) (id : NodeId) : Bool :=
  (m.kind? id).any NodeKind.isHidden

/-- Whether the node is the root. -/
def isRoot (m : Model) (id : NodeId) : Bool :=
  m.kind? id == some .root

/-- Whether another node took this node's place. -/
def isStale (m : Model) (id : NodeId) : Bool :=
  (m.get? id).any (·.replacedBy.isSome)

/-- The node's parent. -/
def parent? (m : Model) (id : NodeId) : Option NodeId :=
  (m.get? id).bind (·.parent)

/-- The node's next neighbour in its ring; the last child's is the first. -/
def nextInRing? (m : Model) (id : NodeId) : Option NodeId :=
  (m.get? id).bind (·.next)

/-- The node's previous neighbour in its ring; the first child's is the last. -/
def previousInRing? (m : Model) (id : NodeId) : Option NodeId :=
  (m.get? id).bind (·.previous)

/-- The node's first child. -/
def firstChild? (m : Model) (id : NodeId) : Option NodeId :=
  (m.get? id).bind (·.content.firstChild?)

/-- The node's last child, which is the previous neighbour of the first. -/
def lastChild? (m : Model) (id : NodeId) : Option NodeId :=
  (m.firstChild? id).bind m.previousInRing?

/-- The sibling after the node, none for a last child. -/
def nextSibling? (m : Model) (id : NodeId) : Option NodeId := do
  let next ← m.nextInRing? id
  let first ← m.firstChild? (← m.parent? id)
  if next = first then none else some next

/-- The sibling before the node, none for a first child. -/
def previousSibling? (m : Model) (id : NodeId) : Option NodeId := do
  let first ← m.firstChild? (← m.parent? id)
  if id = first then none else m.previousInRing? id

/-- Whether the node's ring holds another node. -/
def hasSiblings (m : Model) (id : NodeId) : Bool :=
  (m.nextInRing? id).any (· != id)

/-- The parent, its parent and so on, for at most `steps` steps. -/
def ancestorsWithin (m : Model) : Nat → NodeId → List NodeId
  | 0, _ => []
  | steps + 1, id =>
    match m.parent? id with
    | none => []
    | some parent => parent :: m.ancestorsWithin steps parent

/-- The node's ancestors, its parent first. -/
def ancestors (m : Model) (id : NodeId) : List NodeId :=
  m.ancestorsWithin m.size id

/-- The node's successor, that node's successor and so on, for at most `steps` steps. -/
def resolveWithin (m : Model) : Nat → NodeId → NodeId
  | 0, id => id
  | steps + 1, id =>
    match (m.get? id).bind (·.replacedBy) with
    | none => id
    | some successor => m.resolveWithin steps successor

/-- The live node that stands where the node once stood. -/
def resolve (m : Model) (id : NodeId) : NodeId :=
  m.resolveWithin m.size id

/-- The semantic element bound to the node itself. -/
def element? (m : Model) (id : NodeId) : Option Element :=
  (m.get? id).bind (·.content.element?)

/-- The semantic element of the node or of its nearest bound ancestor. -/
def nearestElement? (m : Model) (id : NodeId) : Option Element :=
  (id :: m.ancestors id).findSome? m.element?

/-- The node that a semantic element is bound to. -/
def nodeOfElement? (m : Model) (element : Element) : Option NodeId :=
  m.index.find? element

/-- The node's syntax error. -/
def syntaxError? (m : Model) (id : NodeId) : Option SyntaxError :=
  (m.get? id).bind (·.content.syntaxError?)

/-- The look-ahead of a composite. -/
def lookahead? (m : Model) (id : NodeId) : Option Nat :=
  ((m.get? id).bind (·.content.branch?)).map (·.lookahead)

/-- The grammar element that the node was created for. -/
def grammar? (m : Model) (id : NodeId) : Option String :=
  (m.get? id).bind (·.grammar)

/-- Whether the root has no children. -/
def isEmpty (m : Model) : Bool :=
  (m.firstChild? rootId).isNone

end SyntaxTree.Model
