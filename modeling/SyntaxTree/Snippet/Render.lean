import SyntaxTree.Snippet.Canvas
import SyntaxTree.Snippet.Margin

/-!
# Rendering diagnostics

A diagnostic is shown as a title, the place in the text, and the excerpt with its range marked: a
range inside one line is underlined, a longer one is bracketed at the left.
-/

namespace SyntaxTree.Snippet

/-- The decimal digits of a number. -/
def digitCount (n : Nat) : Nat :=
  (toString n).length

/-- How a line is shown: tabs as four blanks, and without characters that join or redirect others. -/
def shownText (text : List Char) : List Char :=
  text.flatMap fun c =>
    if c = '\t' then [' ', ' ', ' ', ' ']
    else if c ∈ ['\u200d', '\u202a', '\u202b', '\u202d', '\u202e', '\u2066', '\u2067', '\u2068',
      '\u202c', '\u2069'] then []
    else [c]

/-- The columns of a shown character. A control takes one. -/
def shownColumns (c : Char) : Nat :=
  (Text.columns? c).getD 1

/-- As many characters as fit into the given columns, and how many columns they take. -/
def takeColumns : Nat → List Char → List Char × Nat
  | _, [] => ([], 0)
  | room, c :: cs =>
    if shownColumns c ≤ room then
      let (taken, columns) := takeColumns (room - shownColumns c) cs
      (c :: taken, shownColumns c + columns)
    else
      ([], 0)

/-- What all rows of a snippet share: the width of the line numbers, whether there is room for
brackets at the left, and the margin. -/
structure Layout where
  numberWidth : Nat
  bracketed : Bool
  margin : Margin
deriving Repr

/-- The column of brackets. -/
def Layout.bracketColumn (layout : Layout) : Nat :=
  layout.numberWidth + 3

/-- The column where lines start. -/
def Layout.textColumn (layout : Layout) : Nat :=
  if layout.bracketed then layout.bracketColumn + 2 else layout.bracketColumn

/-- Draws the bar that closes off the line numbers. -/
def Layout.drawBar (layout : Layout) (canvas : Canvas) (row : Nat) : Canvas :=
  canvas.put row (layout.numberWidth + 1) '|' .lineNumber

/-- Draws the part of a line inside the margin, with dots where something was cut off. -/
def Layout.drawText (layout : Layout) (canvas : Canvas) (row : Nat) (text : List Char) : Canvas :=
  let margin := layout.margin
  let length := Text.byteLength text
  let left := min margin.left length
  let right := if length - margin.left ≤ margin.width then length else min length margin.right
  let (taken, columns) := takeColumns (right - left) (text.drop left)
  let column := layout.textColumn
  let canvas := canvas.putChars row column taken .plain
  let canvas := if 0 < margin.left then canvas.putText row column "..." .lineNumber else canvas
  let needed := if margin.padded then margin.right - padding else margin.right
  if needed < length ∧ margin.left + margin.width < length then
    canvas.putText row (column + columns - 3) "..." .lineNumber
  else
    canvas

/-- Draws a mark in the row below its line. `hidden` is how many columns the margin cuts off at the
left. -/
def Layout.drawMark (layout : Layout) (canvas : Canvas) (row : Nat) (hidden : Nat) (mark : Mark) :
    Canvas :=
  let bracket := layout.bracketColumn
  let column := layout.textColumn
  let below := row + 1
  let canvas := layout.drawBar canvas below
  let canvas :=
    if mark.kind = .within then canvas
    else
      canvas.putRun below (bracket + 1) (column + mark.first - hidden - bracket) '_' .error
  let canvas :=
    if mark.kind = .closing then
      (canvas.put row bracket '|' .error).put below bracket '|' .error
    else
      canvas
  let canvas :=
    if mark.kind = .opening then canvas
    else canvas.putText below (column + (mark.last + 1 - hidden)) "here" .error
  (List.range' mark.first (mark.last - mark.first)).foldl
    (fun canvas position => canvas.put below (column + position - hidden) '^' .error) canvas

/-- Draws what the range has to do with a line. A range that starts before any text of its line is
opened beside the line itself. -/
def Layout.drawMarking (layout : Layout) (canvas : Canvas) (row : Nat) (text : List Char) :
    Marking → Canvas
  | .unmarked => canvas
  | .through => canvas.put row layout.bracketColumn '|' .error
  | .marked mark =>
    if mark.kind = .opening ∧ (text.take mark.first).all Text.isWhiteSpace then
      canvas.put row layout.bracketColumn '/' .error
    else
      let left := min layout.margin.left (Text.byteLength text)
      let hidden := Text.width shownColumns (text.take left)
      layout.drawMark canvas row hidden mark

/-- Draws a line, or a gap, below what is drawn already. -/
def Layout.drawLine (layout : Layout) (canvas : Canvas) : ShownLine → Canvas
  | .gap =>
    let row := canvas.height
    (canvas.putText row 0 "..." .lineNumber).put row layout.bracketColumn '|' .error
  | .line ⟨line, marking⟩ =>
    let row := canvas.height
    let text := shownText line.text
    let number := toString line.number
    let label := "".pushn ' ' (layout.numberWidth - number.length) ++ number ++ " |"
    let canvas := canvas.putText row 0 label .lineNumber
    let canvas := layout.drawText canvas row text
    layout.drawMarking canvas row text marking

/-- The line and column of the range's start, counted from 1 in characters. -/
def position (start : Nat) (lines : List SourceLine) : Nat × Nat :=
  match lines.find? fun line => line.start ≤ start ∧ start < line.limit with
  | some line => (line.number, (line.before start).length + 1)
  | none => (1, 1)

/-- Draws the title: the level, the code, the message. -/
def drawTitle (canvas : Canvas) (diagnostic : Diagnostic) : Canvas :=
  let level := "error" ++ (diagnostic.issueCode.elim "" fun code => "[" ++ code ++ "]")
  let canvas := canvas.append 0 level .error
  if diagnostic.message.isEmpty then canvas
  else (canvas.append 0 ": " .plain).append 0 diagnostic.message .emphasis

/-- Draws where the range starts. -/
def Layout.drawPlace (layout : Layout) (canvas : Canvas) (path : String) (place : Nat × Nat) :
    Canvas :=
  let canvas := canvas.putText 1 layout.numberWidth "-->" .lineNumber
  let canvas := canvas.putText 1 (layout.numberWidth + 4) path .plain
  canvas.append 1 (":" ++ toString place.1 ++ ":" ++ toString place.2) .plain

end Snippet

/-- A diagnostic shown over the text it belongs to, which stands in the file `path`. None if its
range does not fit the text. -/
def Diagnostic.render? (diagnostic : Diagnostic) (path text : String) (styled : Bool) :
    Option String := do
  let excerpt ← Snippet.Excerpt.of? text.toList diagnostic.range
  let marked := excerpt.markedLines
  let shown := Snippet.shownLines marked
  let lines := shown.filterMap Snippet.ShownLine.line?
  let width := Snippet.terminalWidth - (3 + Snippet.digitCount excerpt.nextNumber)
  let margin ← Snippet.Margin.of? (.of marked) width
  let numberWidth := ((lines.map (·.line.number)).max?.map Snippet.digitCount).getD 0
  let bracketed := lines.any fun line => line.marking.mark?.any (·.kind ≠ .within)
  let layout : Snippet.Layout := ⟨numberWidth, bracketed, margin⟩
  let place := Snippet.position excerpt.start (lines.map (·.line))
  let canvas := Snippet.drawTitle .empty diagnostic
  let canvas := layout.drawPlace canvas path place
  let canvas := layout.drawBar canvas 2
  let canvas := shown.foldl layout.drawLine canvas
  return (layout.drawBar canvas canvas.height).print styled

end SyntaxTree
