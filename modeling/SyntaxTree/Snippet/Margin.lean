import SyntaxTree.Snippet.Marking

/-!
# The margin

Long lines are shown in part. The margin says from which column to which, so that the marks, their
labels and some space around them fit the terminal. As long as everything fits, the lines are shown
whole, except that a deep common indentation is cut off.
-/

namespace SyntaxTree.Snippet

/-- The width of the terminal. -/
def terminalWidth : Nat := 140

/-- Columns of space that marks and labels should have around them. -/
def padding : Nat := 6

/-- Columns that a label adds after its mark. -/
def labelWidth : Nat := 5

/-- The indentation of lines that are all blank: more than any line has. -/
def noIndentation : Nat := UInt64.size - 1

/-- What the margin has to make room for: the common indentation, the columns of all marks, the end
of their labels, and the longest line. -/
structure Extent where
  indentation : Nat
  markStart : Nat
  markEnd : Nat
  labelEnd : Nat
  longest : Nat
deriving Repr

/-- The indentation of a line, none if it is blank. A tab counts as four columns. -/
def indentation? (text : List Char) : Option Nat :=
  if text.all Text.isWhiteSpace then
    none
  else
    some (Text.width (fun c => if c = '\t' then 4 else 1) (text.takeWhile Text.isWhiteSpace))

/-- The extent of marked lines, with space around marks and labels. -/
def Extent.of (lines : List MarkedLine) : Extent :=
  let marks := lines.filterMap (·.marking.mark?)
  let indentation := (lines.filterMap (indentation? ·.line.text)).min?.getD noIndentation
  let markEnd := (marks.map (·.last)).max?.getD 0
  let labelEnd := (marks.map (·.last + labelWidth)).max?.getD 0
  { indentation := indentation - padding
    markStart := (marks.map (·.first)).min?.getD 0 - padding
    markEnd := markEnd + padding
    labelEnd := labelEnd + padding
    longest := (lines.map (Text.byteLength ·.line.text)).max?.getD 0 }

/-- The columns that are shown of every line, and how many fit at most. `padded` tells that the right
end lies in the space after the marks or labels. -/
structure Margin where
  left : Nat
  right : Nat
  width : Nat
  padded : Bool
deriving Repr

/-- The columns to show when not everything fits: what is needed without the indentation if that
fits, else the marks with their labels, else the marks, in the middle or further to the left. None
if the labels end before the indentation does. -/
def fitted? (extent : Extent) (width : Nat) : Option (Nat × Nat) :=
  if extent.labelEnd < extent.indentation then
    none
  else if extent.labelEnd - extent.indentation ≤ width then
    some (extent.indentation, extent.indentation + width)
  else if extent.labelEnd - extent.markStart ≤ width then
    let left := extent.markStart - (width - (extent.labelEnd - extent.markStart)) / 2
    some (left, left + width)
  else if extent.markEnd - extent.markStart ≤ width then
    let left := extent.markStart - (width - (extent.markEnd - extent.markStart)) / 5 * 2
    some (left, left + width)
  else
    some (extent.markStart, extent.markEnd)

/-- The margin for lines of the given extent, when `width` columns fit. -/
def Margin.of? (extent : Extent) (width : Nat) : Option Margin := do
  let left := if 20 < extent.indentation then extent.indentation - 16 else 0
  let right := max extent.longest left
  let (left, right) ←
    if width < right - left then fitted? extent width else some (left, right)
  return ⟨left, right, width, right = extent.markEnd || right = extent.labelEnd⟩

end SyntaxTree.Snippet
