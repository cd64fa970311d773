import SyntaxTree.Model.Navigation

/-!
# Binding semantic elements

One element, one node: binding an element empties the slot that held it before, and an element that
was in the node's slot leaves the index.
-/

namespace SyntaxTree.Model

/-- Fills or empties the slot of a node. -/
def setSlot (m : Model) (id : NodeId) (slot : Option Element) : Model :=
  m.modify id fun node => { node with content := node.content.withSlot slot }

/-- Binds `element` to a composite that has a slot. -/
def associate (m : Model) (id : NodeId) (element : Element) : Except Fault Model := do
  let node ← m.lookupLive id
  if !node.kind.isBindable then
    throw (.notBindable id node.kind)
  let released :=
    match m.index.find? element with
    | some holder => if holder = id then m else m.setSlot holder none
    | none => m
  let index :=
    match node.content.element? with
    | some previous => if previous = element then m.index else m.index.erase previous
    | none => m.index
  return { released.setSlot id (some element) with index := index.insert element id }

end SyntaxTree.Model
