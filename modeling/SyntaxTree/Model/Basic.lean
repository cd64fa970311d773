import SyntaxTree.Node
import SyntaxTree.SemanticIndex
import SyntaxTree.Text.Bytes

/-!
# The node model

A model is a text, the store of all nodes that were ever allocated over it, and the semantic index.
Nodes are only added and changed in place, never removed, so a node's name stays valid for good.

Every change of the store is one of two, `push` and `modify`, and the laws below say what a node is
afterwards; no proof has to look at the store itself.
-/

namespace SyntaxTree

/-- A lossless concrete syntax tree over one text. -/
structure Model where
  text : String
  nodes : Array Node
  index : SemanticIndex
deriving Repr

namespace Model

/-- The root is allocated first. -/
def rootId : NodeId := 0

/-- The model of a text with nothing but the root. -/
def initial (text : String) : Model :=
  ⟨text, #[Node.unlinked (.root ⟨none, 0⟩ none) none], .empty⟩

/-- The characters of the text. -/
def chars (m : Model) : List Char :=
  m.text.toList

/-- Length of the text in bytes. -/
def textLength (m : Model) : Nat :=
  Text.byteLength m.chars

/-- Opens a text for building. Offsets are 32-bit numbers, so a longer text is refused. -/
def ofText (text : String) : Except Fault Model :=
  let m := initial text
  if m.textLength < UInt32.size then .ok m else .error .textTooLong

/-- Number of nodes ever allocated, replaced ones included. -/
def size (m : Model) : Nat :=
  m.nodes.size

/-- A node of the store. -/
def get? (m : Model) (id : NodeId) : Option Node :=
  m.nodes[id]?

/-- A node that the caller takes to exist. -/
def lookup (m : Model) (id : NodeId) : Except Fault Node :=
  match m.get? id with
  | some node => .ok node
  | none => .error (.outOfStore m.size id)

/-- A node that the caller takes to be live, that is, not replaced. -/
def lookupLive (m : Model) (id : NodeId) : Except Fault Node := do
  let node ← m.lookup id
  match node.replacedBy with
  | none => return node
  | some successor => throw (.replaced id successor)

/-- A node that a reader names. -/
def locate (m : Model) (id : NodeId) : Except Fault Node :=
  match m.get? id with
  | some node => .ok node
  | none => .error (.notInModel id)

/-- Allocates a node. Its name is the size before. -/
def push (m : Model) (node : Node) : Model :=
  { m with nodes := m.nodes.push node }

/-- Changes one node. -/
def modify (m : Model) (id : NodeId) (change : Node → Node) : Model :=
  { m with nodes := m.nodes.modify id change }

@[simp] theorem text_push (m : Model) (node : Node) : (m.push node).text = m.text := rfl

@[simp] theorem text_modify (m : Model) (id : NodeId) (change : Node → Node) :
    (m.modify id change).text = m.text := rfl

@[simp] theorem index_push (m : Model) (node : Node) : (m.push node).index = m.index := rfl

@[simp] theorem index_modify (m : Model) (id : NodeId) (change : Node → Node) :
    (m.modify id change).index = m.index := rfl

@[simp] theorem size_push (m : Model) (node : Node) : (m.push node).size = m.size + 1 := by
  simp [size, push]

@[simp] theorem size_modify (m : Model) (id : NodeId) (change : Node → Node) :
    (m.modify id change).size = m.size := by
  simp [size, modify]

theorem get?_push (m : Model) (node : Node) (id : NodeId) :
    (m.push node).get? id = if id = m.size then some node else m.get? id := by
  rw [get?, push, Array.getElem?_push]
  rfl

theorem get?_modify (m : Model) (id target : NodeId) (change : Node → Node) :
    (m.modify target change).get? id
      = if target = id then (m.get? id).map change else m.get? id := by
  simp [get?, modify, Array.getElem?_modify]

theorem get?_eq_none_iff {m : Model} {id : NodeId} : m.get? id = none ↔ m.size ≤ id := by
  simp [get?, size]

theorem lookup_eq_ok_iff {m : Model} {id : NodeId} {node : Node} :
    m.lookup id = .ok node ↔ m.get? id = some node := by
  unfold lookup
  cases m.get? id <;> simp

end Model

end SyntaxTree
