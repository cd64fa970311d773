import SyntaxTree.Diagnostic
import SyntaxTree.Text.Bytes
import SyntaxTree.Text.CharClass

/-!
# Excerpts

The part of a text that is shown for a range: the lines from the one where the range starts to the
one where it ends. A line ends with a line feed, with or without a carriage return before it; what
remains after the last line feed is a line only if it is not empty.
-/

namespace SyntaxTree.Snippet

/-- A line of an excerpt: its characters without the line break, the byte offset of the first of them
in the excerpt, the length of the line break, and its number in the text. -/
structure SourceLine where
  text : List Char
  start : Nat
  breakLength : Nat
  number : Nat
deriving DecidableEq, Repr

/-- Where the line's characters end. -/
def SourceLine.stop (line : SourceLine) : Nat :=
  line.start + Text.byteLength line.text

/-- The first offset that no longer belongs to the line. A line without line break still has a place
after its last character. -/
def SourceLine.limit (line : SourceLine) : Nat :=
  line.stop + max line.breakLength 1

/-- Lines of a text, and the range shown in them. Offsets count from the start of the excerpt. -/
structure Excerpt where
  lines : List SourceLine
  start : Nat
  stop : Nat
  nextNumber : Nat
deriving Repr

/-- Cuts a text after each line feed. The answer is each line's characters without it, and whether it
was there. -/
def splitAtLineFeeds : List Char → List (List Char × Bool)
  | [] => []
  | c :: cs =>
    if c = '\n' then
      ([], true) :: splitAtLineFeeds cs
    else
      match splitAtLineFeeds cs with
      | [] => [([c], false)]
      | (line, ended) :: lines => (c :: line, ended) :: lines

/-- Splits the line break off a line: the characters before it, and its length. -/
def splitLineBreak : List Char × Bool → List Char × Nat
  | (line, false) => (line, 0)
  | (line, true) =>
    if line.getLast? = some '\r' then (line.dropLast, 2) else (line, 1)

/-- Gives lines their place: byte offsets and numbers from the given ones on. -/
def placeLines : Nat → Nat → List (List Char × Nat) → List SourceLine
  | _, _, [] => []
  | start, number, (text, breakLength) :: lines =>
    ⟨text, start, breakLength, number⟩
      :: placeLines (start + Text.byteLength text + breakLength) (number + 1) lines

/-- What stands after the last line feed. -/
def lastLine (cs : List Char) : List Char :=
  (cs.reverse.takeWhile (· ≠ '\n')).reverse

/-- The excerpt for a range, none if an end of the range is no character boundary of the text. -/
def Excerpt.of? (text : List Char) (range : TextRange) : Option Excerpt := do
  let (upToStop, after) ← Text.cut? text range.stop
  let (before, between) ← Text.cut? upToStop range.start
  let opening := lastLine before
  let skipped := Text.byteLength before - Text.byteLength opening
  let shown := opening ++ between ++ after.takeWhile (· ≠ '\n')
  let number := before.count '\n' + 1
  let lines := placeLines 0 number ((splitAtLineFeeds shown).map splitLineBreak)
  return ⟨lines, range.start - skipped, range.stop - skipped, number + lines.length⟩

end SyntaxTree.Snippet
