import SyntaxTree.Model.Walk

/-!
# Where nodes stand in the text

Only leaves store a range. The total range of a composite runs from its first leaf to its last one,
hidden leaves included; an empty composite stands where the node before it ends; the root spans the
whole text. The range of a composite leaves out hidden leaves at both ends.

Leaves may be created in any order, so a range can turn out to end before it starts. That is a fault
of whoever built the tree, and shows when the range is asked for.
-/

namespace SyntaxTree.Model

/-! ## Ends of the total range -/

mutual

/-- Where the node ends: with its last child, or where an empty composite stands. -/
def endWithin (m : Model) : Nat → NodeId → Nat
  | 0, _ => 0
  | steps + 1, id =>
    match m.content? id with
    | none => 0
    | some (.root _ _) => m.textLength
    | some (.leaf range _ _) => range.stop
    | some (.composite _ _) | some (.bindable _ _ _) =>
      match m.lastChild? id with
      | some child => m.endWithin steps child
      | none => m.emptyWithin steps id

/-- Where an empty composite stands: at the end of the nearest node before it, else at the start of
the text. -/
def emptyWithin (m : Model) : Nat → NodeId → Nat
  | 0, _ => 0
  | steps + 1, id =>
    match m.previousSibling? id with
    | some previous => m.endWithin steps previous
    | none =>
      match m.parent? id with
      | none => 0
      | some parent => if m.isRoot parent then 0 else m.emptyWithin steps parent

end

/-- Enough steps for any search: each node is passed at most once on the way down and once on the way
up. -/
def searchSteps (m : Model) : Nat :=
  2 * m.size + 1

/-- Where an empty composite stands. -/
def emptyOffset (m : Model) (id : NodeId) : Nat :=
  m.emptyWithin m.searchSteps id

/-- The end of the node, hidden leaves included. -/
def totalEnd (m : Model) (id : NodeId) : Nat :=
  m.endWithin m.searchSteps id

/-- Where the node starts: with its first child, or where an empty composite stands. -/
def startWithin (m : Model) : Nat → NodeId → Nat
  | 0, _ => 0
  | steps + 1, id =>
    match m.content? id with
    | none => 0
    | some (.root _ _) => 0
    | some (.leaf range _ _) => range.start
    | some (.composite _ _) | some (.bindable _ _ _) =>
      match m.firstChild? id with
      | some child => m.startWithin steps child
      | none => m.emptyOffset id

/-- The start of the node, hidden leaves included. -/
def totalStart (m : Model) (id : NodeId) : Nat :=
  m.startWithin m.size id

/-! ## Ranges -/

/-- The range of the node, hidden leaves included. -/
def totalRange (m : Model) (id : NodeId) : Except Fault TextRange :=
  TextRange.between (m.totalStart id) (m.totalEnd id)

/-- The length of the total range. -/
def totalLength (m : Model) (id : NodeId) : Except Fault Nat :=
  if m.totalStart id ≤ m.totalEnd id then
    .ok (m.totalEnd id - m.totalStart id)
  else
    .error .negativeDifference

/-- Searches a stack of nodes, its top first, for a visible leaf. A composite gives way to its
children, the last one on top. -/
def lastVisibleWithin (m : Model) : Nat → List NodeId → Option NodeId
  | 0, _ => none
  | _ + 1, [] => none
  | steps + 1, id :: stack =>
    if m.isLeaf id then
      if m.isHidden id then m.lastVisibleWithin steps stack else some id
    else
      m.lastVisibleWithin steps ((m.children id).reverse ++ stack)

/-- The last visible leaf at or below the node. Each node is on the stack at most once. -/
def lastVisibleLeaf? (m : Model) (id : NodeId) : Option NodeId :=
  m.lastVisibleWithin (m.size + 1) [id]

/-- The first visible leaf at or below the node. -/
def firstVisibleLeaf? (m : Model) (id : NodeId) : Option NodeId :=
  (m.leaves id).find? fun leaf => !m.isHidden leaf

/-- The range of the node without hidden leaves at its ends; the total range if no leaf is
visible. -/
def range (m : Model) (id : NodeId) : Except Fault TextRange :=
  if m.isLeaf id then
    m.totalRange id
  else
    match m.firstVisibleLeaf? id with
    | none => m.totalRange id
    | some first =>
      let last := (m.lastVisibleLeaf? id).getD first
      TextRange.between (m.totalStart first) (m.totalEnd last)

/-- Where the node starts, without hidden leaves. -/
def offset (m : Model) (id : NodeId) : Except Fault Nat := do
  return (← m.range id).start

/-- How long the node is, without hidden leaves at its ends. -/
def length (m : Model) (id : NodeId) : Except Fault Nat := do
  return (← m.range id).length

/-! ## Text and lines -/

/-- The text of a range. -/
def textOf (m : Model) (range : TextRange) : Except Fault String :=
  match Text.slice? m.chars range.start range.stop with
  | some chars => .ok (String.ofList chars)
  | none =>
    .error (.cutInsideCharacter
      (if Text.isBoundary m.chars range.start then range.stop else range.start))

/-- The node's text, hidden leaves included. -/
def totalText (m : Model) (id : NodeId) : Except Fault String := do
  m.textOf (← m.totalRange id)

/-- The node's text. -/
def nodeText (m : Model) (id : NodeId) : Except Fault String := do
  m.textOf (← m.range id)

/-- The line of an offset, counted from 1. Its number has to fit into 32 bits. -/
def lineOf (m : Model) (offset : Nat) : Except Fault Nat :=
  match Text.lineIndex? m.chars offset with
  | some line => if line + 1 < UInt32.size then .ok (line + 1) else .error .lineOverflow
  | none => .error .invalidOffset

/-- The last byte of a range, or where an empty range stands. -/
def lastByte (range : TextRange) : Nat :=
  if range.isEmpty then range.start else range.stop - 1

/-- The line on which the node starts. -/
def startLine (m : Model) (id : NodeId) : Except Fault Nat := do
  m.lineOf (← m.range id).start

/-- The line on which the node ends. -/
def endLine (m : Model) (id : NodeId) : Except Fault Nat := do
  m.lineOf (lastByte (← m.range id))

/-- The line on which the node starts, hidden leaves included. -/
def totalStartLine (m : Model) (id : NodeId) : Except Fault Nat :=
  m.lineOf (m.totalStart id)

/-- The line on which the node ends, hidden leaves included. -/
def totalEndLine (m : Model) (id : NodeId) : Except Fault Nat := do
  m.lineOf (lastByte (← m.totalRange id))

end SyntaxTree.Model
