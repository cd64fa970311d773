import SyntaxTree.Snippet.Excerpt

/-!
# Marking lines

A range inside one line is marked there. A longer one is opened on its first line and closed on its
last, and passes through the lines between. Columns count the cells that characters take on a
terminal; controls take none here.
-/

namespace SyntaxTree.Snippet

/-- What a mark says about its range. -/
inductive MarkKind where
  /-- The whole range lies in the line. -/
  | within
  /-- The range starts in the line. -/
  | opening
  /-- The range ends in the line. -/
  | closing
deriving DecidableEq, Repr

/-- Columns of a line, from `first` up to, and without, `last`. -/
structure Mark where
  kind : MarkKind
  first : Nat
  last : Nat
deriving DecidableEq, Repr

/-- What the range has to do with a line. -/
inductive Marking where
  | unmarked
  | through
  | marked (mark : Mark)
deriving DecidableEq, Repr

/-- The mark on a line. -/
def Marking.mark? : Marking → Option Mark
  | marked mark => some mark
  | _ => none

/-- A line and what the range has to do with it. -/
structure MarkedLine where
  line : SourceLine
  marking : Marking
deriving DecidableEq, Repr

/-- The characters of a line that lie before a byte offset of the excerpt. -/
def SourceLine.before (line : SourceLine) (offset : Nat) : List Char :=
  ((Text.cut? line.text (offset - line.start)).map (·.1)).getD line.text

/-- The column at a byte offset of the excerpt. -/
def SourceLine.column (line : SourceLine) (offset : Nat) : Nat :=
  Text.width (fun c => (Text.columns? c).getD 0) (line.before offset)

/-- The mark of a range that lies in the line. An empty range is shown as one column. -/
def SourceLine.markWithin (line : SourceLine) (start stop : Nat) : Mark :=
  let first := line.column start
  let last := line.column stop
  ⟨.within, first, if first = last then last + 1 else last⟩

/-- The mark of a range that starts in the line and goes on. -/
def SourceLine.markOpening (line : SourceLine) (start : Nat) : Mark :=
  let first := line.column start
  ⟨.opening, first, first + 1⟩

/-- The mark of a range that ends in the line. It stands on the last column before the end, and one
further if the end takes in the line break. -/
def SourceLine.markClosing (line : SourceLine) (stop : Nat) : Mark :=
  let last := line.column stop - 1 + (if line.stop < stop then 1 else 0)
  ⟨.closing, last, last + 1⟩

/-- Marks the lines of an excerpt, the range being still to be closed. -/
def markLines (start stop : Nat) : List SourceLine → List MarkedLine
  | [] => []
  | line :: lines =>
    if line.start ≤ start ∧ stop ≤ line.limit then
      ⟨line, .marked (line.markWithin start stop)⟩ :: lines.map (⟨·, .unmarked⟩)
    else if line.start ≤ start then
      ⟨line, .marked (line.markOpening start)⟩ :: markLines start stop lines
    else if line.limit < stop then
      ⟨line, .through⟩ :: markLines start stop lines
    else
      ⟨line, .marked (line.markClosing stop)⟩ :: lines.map (⟨·, .unmarked⟩)

/-- The lines of an excerpt with their marks. -/
def Excerpt.markedLines (excerpt : Excerpt) : List MarkedLine :=
  markLines excerpt.start excerpt.stop excerpt.lines

/-! ## Leaving lines out -/

/-- What is shown of an excerpt: a line, or a gap. -/
inductive ShownLine where
  | line (line : MarkedLine)
  | gap
deriving Repr

/-- The line, if it is no gap. -/
def ShownLine.line? : ShownLine → Option MarkedLine
  | line shown => some shown
  | gap => none

/-- Lines between two marks. More than three give way to a gap between the first and the last. -/
def foldBetween (lines : List MarkedLine) : List ShownLine :=
  match lines with
  | first :: _ :: _ :: rest@(_ :: _) =>
    .line first :: .gap :: (rest.getLast?.map ShownLine.line).toList
  | lines => lines.map .line

/-- What is shown of the lines after a mark, `between` being the lines since then. -/
def shownAfter : List MarkedLine → List MarkedLine → List ShownLine
  | _, [] => []
  | between, line :: lines =>
    match line.marking with
    | .marked _ => foldBetween between ++ .line line :: shownAfter [] lines
    | _ => shownAfter (between ++ [line]) lines

/-- What is shown of the lines: all from the first mark to the last, but for gaps. -/
def shownLines (lines : List MarkedLine) : List ShownLine :=
  match lines.dropWhile fun line => line.marking.mark?.isNone with
  | [] => []
  | first :: rest => .line first :: shownAfter [] rest

end SyntaxTree.Snippet
