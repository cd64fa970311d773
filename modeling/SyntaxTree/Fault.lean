import SyntaxTree.NodeKind

/-!
# Faults

A caller of the builder promises that its arguments fit together: that a parent is a composite, that
a leaf lies inside the text, and so on. A broken promise is a fault, and so is a question that has no
answer, such as the line of an offset in the middle of a character. Each fault names its cause, and
`Fault.message` is the one place that puts it into words.
-/

namespace SyntaxTree

/-- What can go wrong when a model is built or read. -/
inductive Fault where
  /-- The text is too long for 32-bit offsets. -/
  | textTooLong
  /-- A node outside the store was used: the store's size and the node. -/
  | outOfStore (size : Nat) (id : NodeId)
  /-- A node that was never allocated was looked up. -/
  | notInModel (id : NodeId)
  /-- A node was used after another took its place. -/
  | replaced (id successor : NodeId)
  /-- The end of a leaf does not fit into 32 bits. -/
  | leafEndOverflow
  /-- A leaf reaches past the end of the text. -/
  | leafOutsideText (start stop textLength : Nat)
  /-- A leaf starts or ends inside a character. -/
  | leafSplitsCharacter (start stop : Nat)
  /-- The new child is the parent itself or one of its ancestors. -/
  | cycle (parent child : NodeId)
  /-- The new child already has a place in the tree. -/
  | alreadyLinked (id : NodeId) (next previous : Option NodeId)
  /-- The root was given as a child. -/
  | rootAsChild
  /-- A leaf was given as a parent. -/
  | leafAsParent (id : NodeId)
  /-- The node has no slot for a semantic element. -/
  | notBindable (id : NodeId) (kind : NodeKind)
  /-- The root was to be marked with a syntax error. -/
  | rootWithSyntaxError
  /-- A node without a parent was to be replaced. -/
  | noParent (id : NodeId)
  /-- A node with a parent has no place among siblings. -/
  | notInSiblingRing (id : NodeId)
  /-- Children were given to a node that cannot have any. -/
  | parentIsLeaf
  /-- A child's next sibling is missing. -/
  | noNextSibling
  /-- A wrapped node has no parent afterwards. -/
  | wrappedWithoutParent
  /-- A walk was told to skip past a node that has no parent. -/
  | skipWithoutParent
  /-- A range ends before it starts. -/
  | reversedRange
  /-- A subtraction of offsets has no result. -/
  | negativeDifference
  /-- The text was cut inside a character. -/
  | cutInsideCharacter (offset : Nat)
  /-- A line was asked for at an offset that is no character boundary. -/
  | invalidOffset
  /-- The number of a line does not fit into 32 bits. -/
  | lineOverflow
  /-- A line of a dump is to be indented by more than 16 bits can hold. -/
  | indentOverflow
deriving DecidableEq, Repr

/-- The wording of each fault. -/
def Fault.message : Fault → String
  | textTooLong => "source text does not fit into `TextSize`"
  | outOfStore size id =>
    "index out of bounds: the len is " ++ toString size ++ " but the index is " ++ toString id
  | notInModel id => NodeId.label id ++ " does not belong to this model"
  | replaced id successor => NodeId.label id ++ " has been replaced by " ++ NodeId.label successor
  | leafEndOverflow => "leaf end overflows `TextSize`"
  | leafOutsideText start stop textLength =>
    "leaf " ++ toString start ++ ".." ++ toString stop
      ++ " lies outside the source text of length " ++ toString textLength
  | leafSplitsCharacter start stop =>
    "leaf " ++ toString start ++ ".." ++ toString stop ++ " splits a character"
  | cycle parent child =>
    "linking " ++ NodeId.label child ++ " under " ++ NodeId.label parent ++ " would create a cycle"
  | alreadyLinked id next previous =>
    NodeId.label id ++ " is already linked: next = " ++ NodeId.optionLabel next
      ++ ", previous = " ++ NodeId.optionLabel previous
  | rootAsChild => "the root cannot be a child"
  | leafAsParent id => NodeId.label id ++ " is a leaf and cannot have children"
  | notBindable id kind => NodeId.label id ++ " is a " ++ kind.name ++ " and cannot be bound"
  | rootWithSyntaxError => "the root node cannot carry a syntax error"
  | noParent id => NodeId.label id ++ " has no parent and cannot be replaced"
  | notInSiblingRing id => NodeId.label id ++ " is not linked into a sibling list"
  | parentIsLeaf => "parent must be a composite"
  | noNextSibling => "linked child has a next sibling"
  | wrappedWithoutParent => "wrapped node has a parent"
  | skipWithoutParent => "entered child has a parent"
  | reversedRange => "assertion failed: start.raw <= end.raw"
  | negativeDifference => "attempt to subtract with overflow"
  | cutInsideCharacter offset => "byte index " ++ toString offset ++ " is not a char boundary"
  | invalidOffset => "invalid offset"
  | lineOverflow => "attempt to add with overflow"
  | indentOverflow => "Formatting argument out of range"

end SyntaxTree
