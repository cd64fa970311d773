import SyntaxTree.Proofs.Placement

/-!
# Offsets are positions in the text

Whoever builds a tree may put its leaves in any order, and may leave trees detached and nodes replaced. Ranges can then be
reversed, but offsets stay what they are: every node starts and ends at a character boundary of the text
(`reachable_positioned`). An offset that is not found right away is looked for elsewhere in the tree, so the search has
to end, and it has to end at a leaf, at the start of the text or at its end.

What is asked about a place can then fail for one reason only. A text is read whenever its range is in order, and the
line of a start is always found. Lines are looked up in an index, and an index is made only for a text of fewer than
2^32 - 1 bytes (`Text.Indexable`). Such a text has a number of 32 bits for each of its lines. Without an index there would
be one that has none: the line after 2^32 - 1 line feeds.
-/

namespace SyntaxTree

namespace Text

variable {cs before after : List Char}

/-- The line of a boundary counts the line feeds before it. -/
theorem lineIndex?_append (before after : List Char) :
    lineIndex? (before ++ after) (byteLength before) = some (before.count '\n') := by
  rw [lineIndex?, cut?_append]
  rfl

end Text

namespace Model

variable {m : Model} {text : String} {n : NodeId} {before after : List Char}

/-! ## Lines -/

/-- The number of the line that comes after some text, counted from 1, if it fits into 32 bits. -/
def lineAfter (before : List Char) : Except Fault Nat :=
  if before.count '\n' + 1 < UInt32.size then .ok (before.count '\n' + 1) else .error .lineOverflow

theorem lineOf_eq (hchars : m.chars = before ++ after) : m.lineOf (Text.byteLength before) = lineAfter before := by
  rw [lineOf, hchars, Text.lineIndex?_append]
  rfl

end Model

end SyntaxTree
