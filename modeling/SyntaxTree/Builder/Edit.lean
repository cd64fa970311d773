import SyntaxTree.Builder.Create
import SyntaxTree.Builder.Bind
import SyntaxTree.Builder.Replace

/-!
# Edits

Everything that can be done to a model, as data: a parser makes its calls one after the other, and
each of them is an edit of the model that the calls before it left.
-/

namespace SyntaxTree

/-- One call of the builder. -/
inductive Edit where
  | newComposite (grammar : Option String) (lookahead : Nat) (parent : Option NodeId)
  | newLeaf (offset length : Nat) (grammar : Option String) (hidden : Bool)
      (error : Option SyntaxError) (parent : NodeId)
  | addChild (parent child : NodeId)
  | associate (node : NodeId) (element : Element)
  | wrap (grammar : Option String) (lookahead : Nat) (node : NodeId)
  | setSyntaxError (node : NodeId) (error : SyntaxError)
  | compress (node : NodeId)
deriving Repr

namespace Edit

/-- The model after an edit, and the node that the edit answers with, if any. -/
def apply (m : Model) : Edit → Except Fault (Model × Option NodeId)
  | newComposite grammar lookahead parent => do
    let (m, id) ← m.newComposite grammar lookahead parent
    return (m, some id)
  | newLeaf offset length grammar hidden error parent => do
    let (m, id) ← m.newLeaf offset length grammar hidden error parent
    return (m, some id)
  | addChild parent child => do
    return (← m.addChild parent child, none)
  | associate node element => do
    return (← m.associate node element, none)
  | wrap grammar lookahead node => do
    let (m, id) ← m.wrap grammar lookahead node
    return (m, some id)
  | setSyntaxError node error => do
    let (m, id) ← m.setSyntaxError node error
    return (m, some id)
  | compress node => m.compress node

end Edit

end SyntaxTree
