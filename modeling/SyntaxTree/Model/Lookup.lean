import SyntaxTree.Model.Span

/-!
# Finding nodes

Which node covers an offset, and which nodes carry syntax errors.
-/

namespace SyntaxTree.Model

/-- Whether the node covers an offset: the offset lies in its total range, or both end with the text.
An empty node covers nothing. -/
def covers (m : Model) (offset : Nat) (id : NodeId) : Except Fault Bool := do
  let range ← m.totalRange id
  return !range.isEmpty
    && (range.contains offset || (offset == m.textLength && range.stop == m.textLength))

/-- The first of the nodes that covers an offset. -/
def firstCovering? (m : Model) (offset : Nat) : List NodeId → Except Fault (Option NodeId)
  | [] => return none
  | id :: ids => do
    if ← m.covers offset id then
      return some id
    else
      m.firstCovering? offset ids

/-- Goes down from a node to the first child that covers the offset, for at most `steps` steps. -/
def innermostWithin (m : Model) (offset : Nat) : Nat → NodeId → Except Fault NodeId
  | 0, id => return id
  | steps + 1, id => do
    match ← m.firstCovering? offset (m.children id) with
    | none => return id
    | some child => m.innermostWithin offset steps child

/-- The innermost node that covers an offset, the root if there is no other, and none past the end of
the text. -/
def innermostAt? (m : Model) (offset : Nat) : Except Fault (Option NodeId) :=
  if m.textLength < offset then
    return none
  else do
    return some (← m.innermostWithin offset m.size rootId)

/-- The leaf that covers an offset. -/
def leafAt? (m : Model) (offset : Nat) : Except Fault (Option NodeId) := do
  return (← m.innermostAt? offset).filter m.isLeaf

/-- The nodes with a syntax error, in document order. -/
def syntaxErrors (m : Model) : List NodeId :=
  (m.descendants rootId).filter fun id => (m.syntaxError? id).isSome

/-- The diagnostic of a node, if it has a syntax error. -/
def diagnostic? (m : Model) (id : NodeId) : Except Fault (Option Diagnostic) :=
  match m.syntaxError? id with
  | none => return none
  | some error => do return some (error.located (← m.range id))

/-- One diagnostic for each syntax error, in document order. -/
def diagnostics (m : Model) : Except Fault (List Diagnostic) := do
  return (← m.syntaxErrors.mapM m.diagnostic?).filterMap id

end SyntaxTree.Model
