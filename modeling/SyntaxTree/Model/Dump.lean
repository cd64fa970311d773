import SyntaxTree.Model.Span
import SyntaxTree.Text.Quoted

/-!
# Dumps

A dump shows a tree with one line for each node, indented by depth. A line gives the node's kind and
total range, then what it has of: grammar element, text (leaves), look-ahead (composites), semantic
element, error message. All text is quoted, so that every line feed of a dump ends a line. A node
that lies too deep to be indented has no line.
-/

namespace SyntaxTree

namespace Model

/-- A node in one word: kind, name and total range. -/
def label (m : Model) (id : NodeId) : Except Fault String := do
  let range ← m.totalRange id
  let kind := (m.kind? id).elim "" NodeKind.name
  return kind ++ NodeId.label id ++ "@" ++ range.label

/-- What a dump shows of a node, without indentation. -/
def dumpLine (m : Model) (id : NodeId) : Except Fault String := do
  let range ← m.totalRange id
  let own ←
    if m.isLeaf id then
      let text ← m.textOf range
      pure (" " ++ Text.quoted text)
    else
      pure <| match m.lookahead? id with
        | none | some 0 => ""
        | some lookahead => " la=" ++ toString lookahead
  let kind := (m.kind? id).elim "" NodeKind.name
  let grammar := (m.grammar? id).elim "" fun name => " " ++ Text.quoted name
  let element := (m.element? id).elim "" fun element => " semantic=" ++ toString element
  let error := (m.syntaxError? id).elim "" fun error => " error=" ++ Text.quoted error.message
  return kind ++ "@" ++ range.label ++ grammar ++ own ++ element ++ error

/-- How far a line is indented: by two blanks for each level. The number has to fit into 16 bits. -/
def indent (depth : Nat) : Except Fault Nat :=
  if 2 * depth < UInt16.size then .ok (2 * depth) else .error .indentOverflow

theorem indent_eq_ok_iff {depth blanks : Nat} :
    indent depth = .ok blanks ↔ 2 * depth < UInt16.size ∧ blanks = 2 * depth := by
  rw [indent]
  by_cases hfits : 2 * depth < UInt16.size
  · rw [if_pos hfits, Except.ok.injEq, eq_comm]
    exact (and_iff_right hfits).symm
  · rw [if_neg hfits]
    exact ⟨nofun, fun h => absurd h.1 hfits⟩

theorem indent_eq_error_iff {depth : Nat} {fault : Fault} :
    indent depth = .error fault ↔ UInt16.size ≤ 2 * depth ∧ fault = .indentOverflow := by
  rw [indent]
  by_cases hfits : 2 * depth < UInt16.size
  · rw [if_pos hfits]
    exact ⟨nofun, fun h => absurd h.1 (Nat.not_le_of_lt hfits)⟩
  · rw [if_neg hfits, Except.error.injEq, eq_comm]
    exact (and_iff_right (Nat.le_of_not_lt hfits)).symm

/-- The lines of a walk's events, the first of them at the given depth. Nodes that are not shown
leave no trace, not even in the depth. -/
def dumpEvents (m : Model) (showHidden : Bool) : Nat → List WalkEvent → Except Fault String
  | _, [] => return ""
  | depth, event :: events =>
    if m.isHidden event.node && !showHidden then
      m.dumpEvents showHidden depth events
    else
      match event, depth with
      | .enter id, depth => do
        let line ← m.dumpLine id
        let blanks ← indent depth
        let rest ← m.dumpEvents showHidden (depth + 1) events
        return "".pushn ' ' blanks ++ line ++ "\n" ++ rest
      | .leave _, 0 => throw .negativeDifference
      | .leave _, depth + 1 => m.dumpEvents showHidden depth events

/-- The node and all that is below it, a line for each node, with or without hidden leaves. -/
def dump (m : Model) (id : NodeId) (showHidden : Bool) : Except Fault String :=
  m.dumpEvents showHidden 0 (m.events id)

/-- The dump of the whole tree. -/
def dumpTree (m : Model) : Except Fault String :=
  m.dump rootId true

/-- A model in one line. -/
def summary (m : Model) : String :=
  "NodeModel \x7b text_len: " ++ toString m.textLength ++ ", nodes: " ++ toString m.size ++ ", .. \x7d"

end Model

/-- A step of a walk in words. -/
def WalkEvent.label (m : Model) : WalkEvent → Except Fault String
  | enter id => do return "Enter(" ++ (← m.label id) ++ ")"
  | leave id => do return "Leave(" ++ (← m.label id) ++ ")"

end SyntaxTree
