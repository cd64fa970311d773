import SyntaxTree.Model.Span

/-!
# The consistency check

The check goes through the tree below the root and reports the first rule that it finds broken: rings
are closed, every child knows its parent and is met once, siblings follow each other in the text,
leaves lie inside it, and slots and index agree. Composites wait on a stack, so the children of the
last child are looked at before those of the first.
-/

namespace SyntaxTree

/-- A rule that a model breaks. -/
inductive Violation where
  /-- Only one of the two neighbours is known. -/
  | halfLinked (node : NodeId)
  /-- The children do not form a ring. -/
  | brokenCycle (parent : NodeId)
  /-- A child has another parent, or none. -/
  | foreignChild (parent child : NodeId) (actual : Option NodeId)
  /-- A node is met twice. -/
  | sharedNode (node : NodeId)
  /-- A replaced node is still in the tree. -/
  | staleNodeLinked (node : NodeId)
  /-- A node starts before the sibling before it ends. -/
  | unorderedSiblings (node : NodeId) (start previousEnd : Nat)
  /-- A leaf reaches past the end of the text. -/
  | outOfBounds (node : NodeId) (stop textLength : Nat)
  /-- The index names a node that does not hold the element. -/
  | staleSemanticIndex (node : NodeId)
  /-- A node holds an element that the index does not know it by. -/
  | unindexedElement (node : NodeId)
deriving DecidableEq, Repr

/-- The wording of each violation. -/
def Violation.message : Violation → String
  | halfLinked node => NodeId.label node ++ " has exactly one of its sibling pointers set"
  | brokenCycle parent =>
    "the children of " ++ NodeId.label parent ++ " do not form a closed circular list"
  | foreignChild parent child actual =>
    NodeId.label child ++ " is listed under " ++ NodeId.label parent ++ " but its parent is "
      ++ NodeId.optionLabel actual
  | sharedNode node => NodeId.label node ++ " is reachable more than once"
  | staleNodeLinked node => NodeId.label node ++ " is stale but still linked into the tree"
  | unorderedSiblings node start previousEnd =>
    NodeId.label node ++ " starts at " ++ toString start ++ ", before its previous sibling ends at "
      ++ toString previousEnd
  | outOfBounds node stop textLength =>
    NodeId.label node ++ " ends at " ++ toString stop ++ ", past the end of the text at "
      ++ toString textLength
  | staleSemanticIndex node =>
    "the semantic index points at " ++ NodeId.label node
      ++ ", which is not bound to that element"
  | unindexedElement node =>
    NodeId.label node ++ " is bound to a semantic element missing from the index"

/-- Why a check did not pass: it found a broken rule, or a question that it asked is at fault. -/
inductive CheckFailure where
  | violation (violation : Violation)
  | fault (fault : Fault)
deriving DecidableEq, Repr

namespace Model

/-- A question whose fault ends the check. -/
def asking {α : Type} : Except Fault α → Except CheckFailure α
  | .ok answer => .ok answer
  | .error fault => .error (.fault fault)

/-- Checks a node on its own: its neighbours are both known or both unknown, it is live, a leaf ends
inside the text, and the index knows the node by its element. -/
def checkNode (m : Model) (id : NodeId) : Except CheckFailure Unit := do
  let node ← asking (m.lookup id)
  if node.next.isSome != node.previous.isSome then
    throw (.violation (.halfLinked id))
  if node.replacedBy.isSome then
    throw (.violation (.staleNodeLinked id))
  match node.content.leafRange? with
  | some range =>
    if m.textLength < range.stop then
      throw (.violation (.outOfBounds id range.stop m.textLength))
  | none => pure ()
  match node.content.element? with
  | some element =>
    if m.index.find? element ≠ some id then
      throw (.violation (.unindexedElement id))
  | none => pure ()

/-- Checks that `child` is where its parent and its neighbours say, and that it has not been met
before. The answer is the node after it in the ring. -/
def checkLinks (m : Model) (parent child : NodeId) (seen : List NodeId) :
    Except CheckFailure NodeId := do
  if child ∈ seen then
    throw (.violation (.sharedNode child))
  let node ← asking (m.lookup child)
  if node.parent ≠ some parent then
    throw (.violation (.foreignChild parent child node.parent))
  match node.next, node.previous with
  | some next, some _ =>
    let neighbour ← asking (m.lookup next)
    if neighbour.previous ≠ some child then
      throw (.violation (.brokenCycle parent))
    return next
  | _, _ => throw (.violation (.brokenCycle parent))

/-- Checks that `child` does not start before the sibling before it ends. The answer is where it ends
itself. -/
def checkOrder (m : Model) (child : NodeId) (previousEnd : Option Nat) :
    Except CheckFailure Nat := do
  let range ← asking (m.totalRange child)
  match previousEnd with
  | some previousEnd =>
    if range.start < previousEnd then
      throw (.violation (.unorderedSiblings child range.start previousEnd))
  | none => pure ()
  return range.stop

/-- Checks the children of `parent` from `child` on, until the ring is back at `first`. The answer is
the list of all nodes met and the stack with the children on top, both with the latest first. -/
def checkChildren (m : Model) (parent first : NodeId) :
    Nat → NodeId → Option Nat → List NodeId → List NodeId →
      Except CheckFailure (List NodeId × List NodeId)
  | 0, _, _, _, _ => throw (.violation (.brokenCycle parent))
  | steps + 1, child, previousEnd, seen, stack => do
    let next ← m.checkLinks parent child seen
    let stop ← m.checkOrder child previousEnd
    if next = first then
      return (child :: seen, child :: stack)
    else
      m.checkChildren parent first steps next (some stop) (child :: seen) (child :: stack)

/-- Checks the nodes of a stack and all that is below them. -/
def checkStack (m : Model) : Nat → List NodeId → List NodeId → Except CheckFailure Unit
  | 0, _, _ => return ()
  | _ + 1, _, [] => return ()
  | steps + 1, seen, id :: stack => do
    m.checkNode id
    match m.firstChild? id with
    | none => m.checkStack steps seen stack
    | some first =>
      let (seen, stack) ← m.checkChildren id first (m.size + 1) first none seen stack
      m.checkStack steps seen stack

/-- Checks that every node in the index holds the element it is known by. -/
def checkIndex (m : Model) : List (Element × NodeId) → Except CheckFailure Unit
  | [] => return ()
  | (element, id) :: entries => do
    let node ← asking (m.lookup id)
    if node.content.element? ≠ some element then
      throw (.violation (.staleSemanticIndex id))
    m.checkIndex entries

/-- Checks all rules on the tree below the root, and the index. No node is met twice, so the root and
one step for each node are enough. -/
def check (m : Model) : Except CheckFailure Unit := do
  m.checkStack (m.size + 1) [] [rootId]
  m.checkIndex m.index.entries

end Model

end SyntaxTree
