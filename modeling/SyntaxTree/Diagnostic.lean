import SyntaxTree.TextRange

/-!
# Syntax errors and diagnostics

A syntax error is content of the tree: the node that carries it is still a regular part of the
document. Once it is placed in the text it is a diagnostic, ready to be shown.
-/

namespace SyntaxTree

/-- A syntax error as a node carries it: the wording, a code that tools can react to, and data for
them. -/
structure SyntaxError where
  message : String
  issueCode : Option String
  issueData : List String
deriving DecidableEq, Repr

/-- A syntax error that is only a message. -/
def SyntaxError.ofMessage (message : String) : SyntaxError :=
  ⟨message, none, []⟩

/-- A syntax error placed in the text. -/
structure Diagnostic where
  message : String
  issueCode : Option String
  range : TextRange
deriving DecidableEq, Repr

/-- The diagnostic of a syntax error at a range. -/
def SyntaxError.located (error : SyntaxError) (range : TextRange) : Diagnostic :=
  ⟨error.message, error.issueCode, range⟩

end SyntaxTree
