import SyntaxTree.Builder.Link

/-!
# Creating nodes

A parser reports what it recognises depth first: an empty composite when it enters a rule, a leaf for
each token. A new node is allocated before its parent is looked at.
-/

namespace SyntaxTree.Model

/-- An empty composite, as the last child of `parent` if one is given. It can be bound to a semantic
element until it is compressed. -/
def newComposite (m : Model) (grammar : Option String) (lookahead : Nat) (parent : Option NodeId) :
    Except Fault (Model × NodeId) := do
  let id := m.size
  let m := m.push (.unlinked (.freshComposite lookahead) grammar)
  match parent with
  | none => return (m, id)
  | some parent => return (← m.link parent id, id)

/-- The range of a leaf of the given length: it must fit into 32 bits and into the text, and must not
split a character. -/
def leafRange (m : Model) (offset length : Nat) : Except Fault TextRange :=
  if UInt32.size ≤ offset + length then
    .error .leafEndOverflow
  else if m.textLength < offset + length then
    .error (.leafOutsideText offset (offset + length) m.textLength)
  else if Text.isBoundary m.chars offset && Text.isBoundary m.chars (offset + length) then
    .ok ⟨offset, offset + length, Nat.le_add_right offset length⟩
  else
    .error (.leafSplitsCharacter offset (offset + length))

/-- A leaf for the token of the given place in the text, as the last child of `parent`. -/
def newLeaf (m : Model) (offset length : Nat) (grammar : Option String) (hidden : Bool)
    (error : Option SyntaxError) (parent : NodeId) : Except Fault (Model × NodeId) := do
  let range ← m.leafRange offset length
  let id := m.size
  let m := m.push (.unlinked (.leaf range hidden error) grammar)
  return (← m.link parent id, id)

/-- Adds a composite that has no parent yet, with all that hangs below it, as the last child of
`parent`. The parent must not hang below the child. -/
def addChild (m : Model) (parent child : NodeId) : Except Fault Model := do
  let _ ← m.locate parent
  if parent = child ∨ child ∈ m.ancestors parent then
    throw (.cycle parent child)
  m.link parent child

end SyntaxTree.Model
