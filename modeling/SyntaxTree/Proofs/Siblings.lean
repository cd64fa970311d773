import SyntaxTree.Proofs.Store

/-!
# Reading child lists back

If the links of a model form the child lists `kids`, then what readers see are these lists: `children` gives
them (`children_eq`), `lastChild?` gives their last nodes, and the siblings of a node are its neighbours in
the list, without the step that closes the ring (`nextSibling?_eq`, `previousSibling?_eq`). So the lists that
links form are unique, and a model has its child lists.
-/

namespace SyntaxTree

/-- The cursor before the nodes of a list. -/
def ChildCursor.spanning (rest : List NodeId) : ChildCursor :=
  ⟨rest.head?, rest.getLast?⟩

namespace Model

open ChildCursor (drain spanning)

variable {m : Model} {kids : NodeId → List NodeId} {p c : NodeId} {before after : List NodeId}

/-- The ring closes behind the last child. -/
theorem lastChild?_eq (h : m.links.Forms kids) (p : NodeId) : m.lastChild? p = (kids p).getLast? := by
  rw [lastChild?, show m.firstChild? p = _ from h.firstChild p]
  cases hk : kids p with
  | nil => rfl
  | cons first rest =>
    have hring := (h.ring (show kids p = [] ++ first :: rest from hk)).2.2
    rw [List.append_nil] at hring
    exact hring

/-- The sibling after a node is the next one in the list. -/
theorem nextSibling?_eq (h : m.links.Forms kids) (hsplit : kids p = before ++ c :: after) :
    m.nextSibling? c = after.head? := by
  obtain ⟨hparent, hnext, -⟩ := h.ring hsplit
  have hfirst : m.firstChild? p = (kids p).head? := h.firstChild p
  rw [links_parent] at hparent
  rw [links_next] at hnext
  rw [nextSibling?, hnext, hparent]
  cases after with
  | nil =>
    -- the last node's next neighbour is the first one, which does not count
    have hhead : ([] ++ before ++ [c]).head? = m.firstChild? p := by rw [hfirst, hsplit]; rfl
    rw [hhead]
    cases hf : m.firstChild? p with
    | none => rfl
    | some first => simp [hf]
  | cons a after =>
    obtain ⟨first, hf⟩ : ∃ first, (kids p).head? = some first := by
      rw [hsplit]
      exact ⟨_, List.head?_eq_some_head (by simp)⟩
    have ha : a ≠ first := by
      intro e
      have hnil := (h.eq_first_iff (show kids p = (before ++ [c]) ++ a :: after by simpa using hsplit) hf).1 e
      simp at hnil
    simp [hfirst.trans hf, ha]

/-- The sibling before a node is the previous one in the list. -/
theorem previousSibling?_eq (h : m.links.Forms kids) (hsplit : kids p = before ++ c :: after) :
    m.previousSibling? c = before.getLast? := by
  obtain ⟨hparent, -, hprevious⟩ := h.ring hsplit
  have hfirst : m.firstChild? p = (kids p).head? := h.firstChild p
  rw [links_parent] at hparent
  rw [links_previous] at hprevious
  rw [previousSibling?, hparent]
  cases before with
  | nil =>
    rw [hsplit] at hfirst
    simp [hfirst]
  | cons b before =>
    have hcb : c ≠ b := by
      intro e
      have hnil := (h.eq_first_iff hsplit (by rw [hsplit]; rfl)).1 e
      cases hnil
    rw [hsplit] at hfirst
    simp [hfirst, hcb, hprevious, List.getLast?_cons]

/-- A node without a parent has no siblings. -/
theorem siblings_of_parent?_none (hp : m.parent? c = none) :
    m.nextSibling? c = none ∧ m.previousSibling? c = none := by
  rw [nextSibling?, previousSibling?, hp]
  cases m.nextInRing? c <;> exact ⟨rfl, rfl⟩

/-- A cursor over a part of a list takes the first node of that part from the front. -/
theorem next_spanning (h : m.links.Forms kids) {rest : List NodeId} (hsplit : kids p = before ++ (c :: rest) ++ after) :
    (spanning (c :: rest)).next m = (some c, spanning rest) := by
  have hnodup := h.nodup p
  rw [hsplit] at hnodup
  cases rest with
  | nil => simp [spanning, ChildCursor.next, ChildCursor.exhausted]
  | cons d rest =>
    -- the ends have not met: the last node of the part is not `c`
    have hlast : (d :: rest).getLast? ≠ some c := by
      intro e
      exact (List.nodup_cons.1 hnodup.of_append_left.of_append_right).1 (List.mem_of_getLast? e)
    have hnext : m.nextInRing? c = some d :=
      (h.ring (show kids p = before ++ c :: (d :: rest ++ after) by simpa using hsplit)).2.1
    simp only [spanning, ChildCursor.next, List.head?_cons, List.getLast?_cons_cons, if_neg hlast, hnext]

/-- It takes the last node of that part from the back. -/
theorem nextBack_spanning (h : m.links.Forms kids) {rest : List NodeId}
    (hsplit : kids p = before ++ (rest ++ [c]) ++ after) :
    (spanning (rest ++ [c])).nextBack m = (some c, spanning rest) := by
  have hnodup := h.nodup p
  rw [hsplit] at hnodup
  rcases List.eq_nil_or_concat rest with rfl | ⟨rest, d, rfl⟩
  · simp [spanning, ChildCursor.nextBack, ChildCursor.exhausted]
  · rw [List.concat_eq_append] at *
    -- the ends have not met: the first node of the part is not `c`
    have hfirst : (rest ++ [d] ++ [c]).head? = (rest ++ [d]).head? := by cases rest <;> rfl
    have hne : (rest ++ [d]).head? ≠ some c := by
      intro e
      have happ := List.nodup_append.1 hnodup.of_append_left.of_append_right
      exact happ.2.2 c (List.mem_of_mem_head? e) c (List.mem_singleton_self c) rfl
    have hprevious : m.previousInRing? c = some d := by
      have hring := (h.ring (show kids p = (before ++ rest ++ [d]) ++ c :: after by simpa using hsplit)).2.2
      rwa [← List.append_assoc, List.getLast?_concat] at hring
    simp only [spanning, ChildCursor.nextBack, List.getLast?_concat, hfirst, if_neg hne, hprevious]

/-- Taking from the front gives the part in order, however many steps there are to spare. -/
theorem drain_next_spanning (h : m.links.Forms kids) :
    ∀ (rest before : List NodeId) (steps : Nat), kids p = before ++ rest ++ after → rest.length ≤ steps →
      drain (ChildCursor.next m) steps (spanning rest) = rest := by
  intro rest
  induction rest with
  | nil =>
    intro before steps _ _
    cases steps <;> rfl
  | cons c rest ih =>
    intro before steps hsplit hsteps
    obtain ⟨steps, rfl⟩ := Nat.exists_eq_succ_of_ne_zero (Nat.ne_of_gt (Nat.zero_lt_of_lt hsteps))
    rw [drain, next_spanning h hsplit]
    exact congrArg (c :: ·) (ih (before ++ [c]) steps (by simpa using hsplit) (Nat.le_of_succ_le_succ hsteps))

/-- Taking from the back gives the part in reverse. -/
theorem drain_nextBack_spanning (h : m.links.Forms kids) :
    ∀ (rest after : List NodeId) (steps : Nat), kids p = before ++ rest ++ after → rest.length ≤ steps →
      drain (ChildCursor.nextBack m) steps (spanning rest) = rest.reverse := by
  intro rest
  induction rest using List.reverseRecOn with
  | nil =>
    intro after steps _ _
    cases steps <;> rfl
  | append_singleton rest c ih =>
    intro after steps hsplit hsteps
    rw [List.length_append] at hsteps
    obtain ⟨steps, rfl⟩ := Nat.exists_eq_succ_of_ne_zero (Nat.ne_of_gt (Nat.zero_lt_of_lt hsteps))
    rw [drain, nextBack_spanning h hsplit, List.reverse_append]
    exact congrArg (c :: ·) (ih (c :: after) steps (by simpa using hsplit) (Nat.le_of_succ_le_succ hsteps))

/-- The children that readers see are the lists that the links form. -/
theorem children_eq (h : m.links.Forms kids) : m.children = kids := by
  funext p
  rw [children, ChildCursor.toList, childCursor, lastChild?_eq h,
    show m.firstChild? p = _ from h.firstChild p]
  exact drain_next_spanning h (kids p) [] m.size (List.append_nil _).symm (length_kids_le h p)

end Model

end SyntaxTree
