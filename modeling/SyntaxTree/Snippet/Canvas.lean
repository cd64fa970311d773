/-!
# A canvas of styled cells

What is shown on a terminal is drawn on rows of cells first, each a character with a style. A row
grows with blanks up to where something is drawn, and later drawing covers what was there. Printing
switches styles only where they change.
-/

namespace SyntaxTree.Snippet

/-- How a cell looks. -/
inductive Style where
  | plain
  | error
  | lineNumber
  | emphasis
deriving DecidableEq, Repr

/-- The control sequence that switches a style on. -/
def Style.sequence : Style → String
  | plain => ""
  | error => "\x1b[1m\x1b[91m"
  | lineNumber => "\x1b[1m\x1b[94m"
  | emphasis => "\x1b[1m"

/-- The control sequence that switches every style off. -/
def resetSequence : String := "\x1b[0m"

/-- A character with a style. -/
structure Cell where
  char : Char
  style : Style
deriving DecidableEq, Repr

/-- An empty cell. -/
def Cell.blank : Cell := ⟨' ', .plain⟩

/-- A row of cells. -/
abbrev Row := Array Cell

/-- The row, filled up with blanks to at least the given width. -/
def Row.widen (row : Row) (width : Nat) : Row :=
  row ++ Array.replicate (width - row.size) Cell.blank

/-- Draws one cell. -/
def Row.put (row : Row) (column : Nat) (cell : Cell) : Row :=
  (Row.widen row (column + 1)).setIfInBounds column cell

/-- Rows of cells, the top one first. -/
structure Canvas where
  rows : Array Row
deriving Repr

namespace Canvas

/-- Nothing is drawn. -/
def empty : Canvas := ⟨#[]⟩

/-- The number of rows. -/
def height (canvas : Canvas) : Nat :=
  canvas.rows.size

/-- The width of a row. -/
def widthOf (canvas : Canvas) (row : Nat) : Nat :=
  (canvas.rows[row]?.map Array.size).getD 0

/-- Draws one character. Missing rows above it are empty. -/
def put (canvas : Canvas) (row column : Nat) (char : Char) (style : Style) : Canvas :=
  let rows := canvas.rows ++ Array.replicate (row + 1 - canvas.rows.size) #[]
  ⟨rows.modify row fun cells => Row.put cells column ⟨char, style⟩⟩

/-- Draws characters side by side. -/
def putChars (canvas : Canvas) (row : Nat) : Nat → List Char → Style → Canvas
  | _, [], _ => canvas
  | column, char :: chars, style =>
    (canvas.put row column char style).putChars row (column + 1) chars style

/-- Draws a text from a column on. -/
def putText (canvas : Canvas) (row column : Nat) (text : String) (style : Style) : Canvas :=
  canvas.putChars row column text.toList style

/-- Draws a text at the end of a row. -/
def append (canvas : Canvas) (row : Nat) (text : String) (style : Style) : Canvas :=
  canvas.putText row (canvas.widthOf row) text style

/-- Draws the same character in each of `count` columns. -/
def putRun (canvas : Canvas) (row column count : Nat) (char : Char) (style : Style) : Canvas :=
  canvas.putChars row column (List.replicate count char) style

/-- Prints cells, `current` being the style that is on. -/
def printCells (styled : Bool) : Style → List Cell → String
  | current, [] => if current = .plain then "" else resetSequence
  | current, ⟨char, style⟩ :: cells =>
    let style := if styled then style else .plain
    if style = current then
      String.singleton char ++ printCells styled style cells
    else
      (if current = .plain then "" else resetSequence) ++ style.sequence
        ++ String.singleton char ++ printCells styled style cells

/-- Prints the rows, one on each line, with or without styles. -/
def print (canvas : Canvas) (styled : Bool) : String :=
  "\n".intercalate (canvas.rows.toList.map fun row => printCells styled .plain row.toList)

end Canvas

end SyntaxTree.Snippet
