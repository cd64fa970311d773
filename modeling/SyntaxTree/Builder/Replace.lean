import SyntaxTree.Builder.Link

/-!
# Replacing nodes

A node never changes its kind in place. The new content is allocated as a fresh node that takes over
the old node's place and children; the old one is left without links and remembers its successor.
-/

namespace SyntaxTree.Model

/-- Moves `new` into the place of `old` under its parent and among its siblings, and takes `old` out
of the tree. -/
def takePlace (m : Model) (old new : NodeId) : Except Fault Model := do
  let place ← m.lookup old
  match place.parent with
  | none => throw (.noParent old)
  | some parent =>
    match place.next, place.previous with
    | some next, some previous =>
      let m ←
        if m.firstChild? parent = some old then m.setFirstChild parent (some new) else pure m
      let m :=
        if next = old then
          m.modify new (·.linkedAt parent new new)
        else
          let m := m.modify new (·.linkedAt parent previous next)
          let m := m.modify next fun n => { n with previous := some new }
          m.modify previous fun n => { n with next := some new }
      return m.modify old Node.detached
    | _, _ => throw (.notInSiblingRing old)

/-- Makes `parent` the parent of `child` and of the nodes after it, until the ring is back at
`first`. -/
def reparent (m : Model) (parent first : NodeId) : Nat → NodeId → Except Fault Model
  | 0, _ => return m
  | steps + 1, child => do
    let node ← m.lookup child
    let m := m.modify child fun n => { n with parent := some parent }
    match node.next with
    | none => throw .noNextSibling
    | some next => if next = first then return m else m.reparent parent first steps next

/-- Hands the children of `old` over to `new`. -/
def moveChildren (m : Model) (old new : NodeId) : Except Fault Model :=
  match m.firstChild? old with
  | none => return m
  | some first => do
    let m ← m.setFirstChild old none
    let m ← m.setFirstChild new (some first)
    m.reparent new first m.size first

/-- Puts a fresh node with the given content into the place of `old`, above its children and with its
grammar element. -/
def replace (m : Model) (old : NodeId) (content : Content) : Except Fault (Model × NodeId) := do
  let node ← m.lookup old
  let new := m.size
  let m := m.modify old fun n => { n with grammar := none }
  let m := m.push (.unlinked content node.grammar)
  let m ← m.takePlace old new
  let m ← m.moveChildren old new
  return (m.modify old fun n => { n with replacedBy := some new }, new)

/-- Replaces a composite with an empty slot by one without a slot, keeping its syntax error. Other
nodes stay as they are. The answer is the parent of the node that then stands there. -/
def compress (m : Model) (id : NodeId) : Except Fault (Model × Option NodeId) := do
  let node ← m.lookupLive id
  match node.content.compressed? with
  | none => return (m, node.parent)
  | some content =>
    let (m, new) ← m.replace id content
    return (m, m.parent? new)

/-- Puts a new composite between a node and its parent, and compresses the node. The answer is the
node's parent afterwards, which is the new composite. -/
def wrap (m : Model) (grammar : Option String) (lookahead : Nat) (id : NodeId) :
    Except Fault (Model × NodeId) := do
  let _ ← m.lookupLive id
  let wrapper := m.size
  let m := m.push (.unlinked (.freshComposite lookahead) grammar)
  let m ← m.takePlace id wrapper
  let m ← m.appendChild wrapper id
  match ← m.compress id with
  | (m, some parent) => return (m, parent)
  | (_, none) => throw .wrappedWithoutParent

/-- Replaces a node by one that carries the error, in place of any error it had. A bound composite
stays bound: its element moves on to the new node. -/
def setSyntaxError (m : Model) (id : NodeId) (error : SyntaxError) :
    Except Fault (Model × NodeId) := do
  let node ← m.lookupLive id
  match node.content.marked? error with
  | none => throw .rootWithSyntaxError
  | some content =>
    let m := m.modify id fun n => { n with content := n.content.withSlot none }
    let (m, new) ← m.replace id content
    match content.element? with
    | none => return (m, new)
    | some element => return ({ m with index := m.index.insert element new }, new)

end SyntaxTree.Model
