import SyntaxTree.Model.Navigation

/-!
# Children, from both ends

A child cursor stands before a composite's remaining children and takes them one at a time from
either end. Both ends know only the sibling ring, so the cursor is exhausted at the moment when the
ends meet.
-/

namespace SyntaxTree

/-- The two ends of the children that remain: the child to come next from the front, and from the
back. -/
structure ChildCursor where
  front : Option NodeId
  back : Option NodeId
deriving DecidableEq, Repr

namespace ChildCursor

/-- No child remains. -/
def exhausted : ChildCursor := ⟨none, none⟩

/-- Takes a child from the front. -/
def next (m : Model) (cursor : ChildCursor) : Option NodeId × ChildCursor :=
  match cursor.front with
  | none => (none, cursor)
  | some child =>
    (some child,
      if cursor.back = some child then exhausted else ⟨m.nextInRing? child, cursor.back⟩)

/-- Takes a child from the back. -/
def nextBack (m : Model) (cursor : ChildCursor) : Option NodeId × ChildCursor :=
  match cursor.back with
  | none => (none, cursor)
  | some child =>
    (some child,
      if cursor.front = some child then exhausted else ⟨cursor.front, m.previousInRing? child⟩)

/-- The last of the children that remain. -/
def last (m : Model) (cursor : ChildCursor) : Option NodeId :=
  (cursor.nextBack m).1

/-- What a way of taking children yields, for at most `steps` of them. -/
def drain (take : ChildCursor → Option NodeId × ChildCursor) : Nat → ChildCursor → List NodeId
  | 0, _ => []
  | steps + 1, cursor =>
    match take cursor with
    | (none, _) => []
    | (some child, rest) => child :: drain take steps rest

/-- The children that remain, in order. -/
def toList (m : Model) (cursor : ChildCursor) : List NodeId :=
  drain (next m) m.size cursor

/-- The children that remain, the last one first. -/
def toReversedList (m : Model) (cursor : ChildCursor) : List NodeId :=
  drain (nextBack m) m.size cursor

/-- How many children remain. -/
def count (m : Model) (cursor : ChildCursor) : Nat :=
  (cursor.toList m).length

end ChildCursor

namespace Model

/-- A cursor before all children of a node. -/
def childCursor (m : Model) (id : NodeId) : ChildCursor :=
  ⟨m.firstChild? id, m.lastChild? id⟩

/-- The node's children in order. -/
def children (m : Model) (id : NodeId) : List NodeId :=
  (m.childCursor id).toList m

end Model

end SyntaxTree
