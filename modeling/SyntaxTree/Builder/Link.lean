import SyntaxTree.Model.Children

/-!
# Linking nodes

A child is always added at the end of its parent's ring. Since the ring is closed, the place before
the first child is the place after the last one, so a ring of any size grows by the same step.
-/

namespace SyntaxTree.Model

/-- Makes `child` the first child of a composite. -/
def setFirstChild (m : Model) (parent : NodeId) (child : Option NodeId) : Except Fault Model := do
  let node ← m.lookup parent
  match node.content.branch? with
  | none => throw .parentIsLeaf
  | some _ =>
    return m.modify parent fun node => { node with content := node.content.withFirstChild child }

/-- A live node that has no place in the tree yet. -/
def lookupUnlinked (m : Model) (child : NodeId) : Except Fault Node := do
  let node ← m.lookupLive child
  if node.isUnlinked then
    return node
  else
    throw (.alreadyLinked child node.next node.previous)

/-- Puts a new node right before `node` in its ring. The parent's first child stays, so before the
first child is the end of the list. -/
def insertBefore (m : Model) (node newNode : NodeId) : Except Fault Model := do
  let _ ← m.lookupUnlinked newNode
  let place ← m.lookup node
  match place.parent, place.previous with
  | some parent, some previous =>
    let m := m.modify newNode (·.linkedAt parent previous node)
    let m := m.modify previous fun n => { n with next := some newNode }
    return m.modify node fun n => { n with previous := some newNode }
  | _, _ => throw (.notInSiblingRing node)

/-- Adds `child` after the last child of `parent`. An only child is its own neighbour. -/
def appendChild (m : Model) (parent child : NodeId) : Except Fault Model := do
  let node ← m.lookupUnlinked child
  if node.kind = .root then
    throw .rootAsChild
  match (← m.lookup parent).content.branch? with
  | none => throw (.leafAsParent parent)
  | some branch =>
    match branch.firstChild with
    | none => (m.modify child (·.linkedAt parent child child)).setFirstChild parent (some child)
    | some first => m.insertBefore first child

/-- Adds `child` after the last child of a live parent. -/
def link (m : Model) (parent child : NodeId) : Except Fault Model := do
  let _ ← m.lookupLive parent
  m.appendChild parent child

end SyntaxTree.Model
