import SyntaxTree.NodeKind

/-!
# The semantic index

Which node each semantic element is bound to. The index is read only through `find?`, and the three
laws below say all that the operations do to it.
-/

namespace SyntaxTree

/-- A finite map from semantic elements to nodes. -/
structure SemanticIndex where
  entries : List (Element × NodeId)
deriving Repr

namespace SemanticIndex

/-- No element is bound. -/
def empty : SemanticIndex := ⟨[]⟩

/-- The node that an element is bound to. -/
def find? (index : SemanticIndex) (element : Element) : Option NodeId :=
  (index.entries.find? (·.1 == element)).map (·.2)

/-- Forgets an element. -/
def erase (index : SemanticIndex) (element : Element) : SemanticIndex :=
  ⟨index.entries.filter (·.1 != element)⟩

/-- Binds an element to a node, in place of the node it was bound to. -/
def insert (index : SemanticIndex) (element : Element) (node : NodeId) : SemanticIndex :=
  ⟨(element, node) :: (index.erase element).entries⟩

@[simp] theorem find?_empty (element : Element) : empty.find? element = none := rfl

theorem find?_erase (index : SemanticIndex) (e element : Element) :
    (index.erase e).find? element = if element = e then none else index.find? element := by
  obtain ⟨entries⟩ := index
  simp only [find?, erase]
  split
  · next h =>
    subst h
    simp [List.find?_eq_none]
  · next h =>
    congr 1
    induction entries with
    | nil => rfl
    | cons entry entries ih =>
      obtain ⟨key, node⟩ := entry
      by_cases hk : key = e
      · subst hk
        simp [ih, Ne.symm h]
      · by_cases hm : key = element
        · subst hm
          simp [hk]
        · simp [hk, hm, ih]

theorem find?_insert (index : SemanticIndex) (e element : Element) (node : NodeId) :
    (index.insert e node).find? element = if element = e then some node else index.find? element := by
  by_cases h : element = e
  · simp [find?, insert, h]
  · have := find?_erase index e element
    simp only [find?, insert] at this ⊢
    rw [List.find?_cons_of_neg (by simpa using Ne.symm h)]
    simpa [h] using this

end SemanticIndex

end SyntaxTree
