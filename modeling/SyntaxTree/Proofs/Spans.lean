import SyntaxTree.Proofs.LeafOrder

/-!
# Ranges from leaves

The range of a node goes from its first visible leaf to its last. The first is found on a walk, the last by a search
that keeps the nodes it has still to look at on a stack. Both are searches of one list, `visibleLeaves`: each step of the
second takes a node away from those below the stack, but no visible leaf (`visibleBelow_of_unstacked?`), so it ends with
the last of them on top. `range_eq` gives the range of any node from this list and the total range, and says nothing of
walks and stacks.

Of a leaf only its token counts, the piece of text it stands for and whether that is hidden. The file also gathers the
ends of nodes that are decided by a node's place alone: the root, a node without a parent, and an only child.
-/

namespace SyntaxTree

/-- The piece of text that a leaf stands for, and whether it is hidden. -/
def Content.token? : Content → Option (TextRange × Bool)
  | leaf range hidden _ => some (range, hidden)
  | _ => none

@[simp] theorem Content.token?_withFirstChild (child : Option NodeId) (content : Content) :
    (content.withFirstChild child).token? = content.token? := by
  cases content <;> rfl

@[simp] theorem Content.token?_withSlot (slot : Option Element) (content : Content) :
    (content.withSlot slot).token? = content.token? := by
  cases content <;> rfl

namespace Model

variable {m : Model} {n c w : NodeId}

/-! ## Tokens -/

/-- The token of a leaf. -/
def token? (m : Model) (n : NodeId) : Option (TextRange × Bool) :=
  (m.content? n).bind Content.token?

theorem token?_eq_bare? (m : Model) (n : NodeId) : m.token? n = (m.bare? n).bind (·.content.token?) := by
  rw [token?, content?, bare?]
  cases m.get? n <;> simp

theorem isLeaf_eq_token? (m : Model) (n : NodeId) : m.isLeaf n = (m.token? n).isSome := by
  rw [isLeaf, kind?, token?, content?]
  cases m.get? n with
  | none => rfl
  | some node =>
    obtain ⟨⟨_, _ | _, _ | _⟩ | ⟨_, _⟩ | ⟨_, _ | _⟩ | ⟨_, _, _ | _⟩, _, _, _, _, _⟩ := node <;> rfl

theorem isHidden_eq_token? (m : Model) (n : NodeId) : m.isHidden n = (m.token? n).any (·.2) := by
  rw [isHidden, kind?, token?, content?]
  cases m.get? n with
  | none => rfl
  | some node =>
    obtain ⟨⟨_, _ | _, _ | _⟩ | ⟨_, _⟩ | ⟨_, _ | _⟩ | ⟨_, _, _ | _⟩, _, _, _, _, _⟩ := node <;> rfl

theorem leafRange?_eq_token? (m : Model) (n : NodeId) : m.leafRange? n = (m.token? n).map (·.1) := by
  rw [leafRange?, token?]
  rcases m.content? n with _ | _ | _ | _ | _ <;> rfl

/-! ## Nodes whose place decides -/

/-- A node without a parent stands at the start of the text. -/
theorem WellFormed.emptyOffset_of_top (h : m.WellFormed) (hn : m.parent? n = none) : m.emptyOffset n = 0 := by
  have hstep := h.offsetWithin_searchSteps (.enter n)
  rwa [preceding?, (siblings_of_parent?_none hn).2, hn] at hstep

/-- The root spans the text. -/
theorem WellFormed.span_root (h : m.WellFormed) :
    m.totalStart rootId = 0 ∧ m.totalEnd rootId = m.textLength := by
  obtain ⟨slot, hroot⟩ := h.labelled.root
  obtain ⟨node, hnode, hbare⟩ := get?_of_bare? hroot
  have hcontent : ∃ branch, m.content? rootId = some (.root branch slot) := by
    have hroot := congrArg Node.content hbare
    rw [content?, hnode]
    cases hown : node.content with
    | root branch held =>
      rw [Node.bare_content, hown] at hroot
      obtain ⟨-, rfl⟩ := Content.root.inj hroot
      exact ⟨branch, congrArg some hown⟩
    | _ =>
      rw [Node.bare_content, hown] at hroot
      cases hroot
  obtain ⟨branch, hcontent⟩ := hcontent
  obtain ⟨steps, hsteps⟩ := Nat.exists_eq_succ_of_ne_zero (Nat.ne_of_gt h.labelled.size_pos)
  rw [totalStart, totalEnd, searchSteps, hsteps, startWithin, endWithin, hcontent]
  exact ⟨rfl, rfl⟩

/-- An only child stands where its parent does, and has all that its parent has. -/
theorem WellFormed.only_child (h : m.WellFormed) (hw : m.children w = [c]) (hroot : m.isRoot w = false) :
    m.leaves w = m.leaves c ∧ m.emptyOffset w = m.emptyOffset c ∧ m.totalStart w = m.totalStart c ∧
      m.totalEnd w = m.totalEnd c := by
  have hc : c ∈ m.children w := by rw [hw]; exact List.mem_cons_self ..
  obtain ⟨hleaf, hlt⟩ := isLeaf_of_mem h.structured.forms hc
  have hstands := h.emptyOffset_eq (show m.children w = [] ++ c :: [] from hw)
  rw [hroot] at hstands
  refine ⟨?_, hstands.symm, ?_, ?_⟩
  · rw [h.leaves_eq hlt, hleaf, if_neg Bool.false_ne_true, hw, List.flatMap_singleton]
  · rw [h.totalStart_eq hlt hleaf hroot, hw]
    rfl
  · rw [h.totalEnd_eq hlt hleaf hroot, hw]
    rfl

/-! ## Visible leaves -/

/-- The leaves of a live node are live. -/
theorem WellFormed.live_of_mem_leaves (h : m.WellFormed) (n : NodeId) : m.Live n →
    ∀ x ∈ m.leaves n, m.Live x ∧ m.isLeaf x = true := by
  induction n using descend h.structured.forms h.structured.grounded with
  | step n ih =>
  intro hn x hx
  rw [h.leaves_eq hn.lt_size] at hx
  split at hx
  · next hleaf =>
    obtain rfl := List.mem_singleton.1 hx
    exact ⟨hn, hleaf⟩
  · obtain ⟨c, hc, hx⟩ := List.mem_flatMap.1 hx
    exact ih c hc (h.live_of_mem hc) x hx

/-- The leaves of the node that are not hidden, in document order. -/
def visibleLeaves (m : Model) (n : NodeId) : List NodeId :=
  (m.leaves n).filter fun leaf => !m.isHidden leaf

theorem mem_visibleLeaves {x : NodeId} : x ∈ m.visibleLeaves n ↔ x ∈ m.leaves n ∧ m.isHidden x = false := by
  rw [visibleLeaves, List.mem_filter, Bool.not_eq_true']

/-- The search from the front finds the first of them. -/
theorem firstVisibleLeaf?_eq (m : Model) (n : NodeId) : m.firstVisibleLeaf? n = (m.visibleLeaves n).head? :=
  List.head?_filter.symm

theorem WellFormed.visibleLeaves_eq (h : m.WellFormed) (hn : n < m.size) :
    m.visibleLeaves n =
      if m.isLeaf n then if m.isHidden n then [] else [n] else (m.children n).flatMap m.visibleLeaves := by
  rw [visibleLeaves, h.leaves_eq hn]
  cases m.isLeaf n with
  | false => exact List.filter_flatMap
  | true => cases hhidden : m.isHidden n <;> simp [hhidden]

/-! ## The search from the back -/

/-- The stack after one step of the search from the back: a hidden leaf is dropped, and a composite gives way to its
children. The search stops at a visible leaf, or when the stack is empty. -/
def unstacked? (m : Model) : List NodeId → Option (List NodeId)
  | [] => none
  | n :: stack =>
    if m.isLeaf n then
      if m.isHidden n then some stack else none
    else
      some ((m.children n).reverse ++ stack)

theorem lastVisibleWithin_succ (steps : Nat) (stack : List NodeId) :
    m.lastVisibleWithin (steps + 1) stack = (m.unstacked? stack).elim stack.head? (m.lastVisibleWithin steps) := by
  cases stack with
  | nil => rfl
  | cons n stack =>
    rw [lastVisibleWithin, unstacked?]
    cases m.isLeaf n with
    | false => rfl
    | true => cases m.isHidden n <;> rfl

/-- The visible leaves at and below the stacked nodes. What is on top of the stack comes last in the document. -/
def visibleBelow (m : Model) (stack : List NodeId) : List NodeId :=
  stack.reverse.flatMap m.visibleLeaves

theorem visibleBelow_cons (m : Model) (n : NodeId) (stack : List NodeId) :
    m.visibleBelow (n :: stack) = m.visibleBelow stack ++ m.visibleLeaves n := by
  rw [visibleBelow, List.reverse_cons, List.flatMap_append, List.flatMap_singleton]
  rfl

/-- In each step the children of the top take its place, and no visible leaf is lost. For a hidden leaf, which has no
children, this means that it is dropped. -/
theorem WellFormed.of_unstacked? (h : m.WellFormed) (hn : n < m.size) {stack rest : List NodeId}
    (hstep : m.unstacked? (n :: stack) = some rest) :
    rest = (m.children n).reverse ++ stack ∧ m.visibleLeaves n = (m.children n).flatMap m.visibleLeaves := by
  rw [unstacked?] at hstep
  rw [h.visibleLeaves_eq hn]
  cases hleaf : m.isLeaf n with
  | false =>
    rw [hleaf, if_neg Bool.false_ne_true] at hstep
    exact ⟨(Option.some.inj hstep).symm, rfl⟩
  | true =>
    rw [hleaf, if_pos rfl] at hstep
    rw [h.children_of_isLeaf hleaf]
    cases hhidden : m.isHidden n with
    | false =>
      rw [hhidden] at hstep
      cases hstep
    | true =>
      rw [hhidden] at hstep
      exact ⟨(Option.some.inj hstep).symm, rfl⟩

/-- A search that stops has the last visible leaf on top. -/
theorem WellFormed.head?_of_unstacked?_eq_none (h : m.WellFormed) {stack : List NodeId} (hstack : ∀ x ∈ stack, x < m.size)
    (hstop : m.unstacked? stack = none) : stack.head? = (m.visibleBelow stack).getLast? := by
  cases stack with
  | nil => rfl
  | cons n stack =>
    rw [visibleBelow_cons, h.visibleLeaves_eq (hstack n (List.mem_cons_self ..))]
    rw [unstacked?] at hstop
    cases hleaf : m.isLeaf n with
    | false =>
      rw [hleaf] at hstop
      cases hstop
    | true =>
      cases hhidden : m.isHidden n with
      | true =>
        rw [hleaf, hhidden] at hstop
        cases hstop
      | false => exact List.getLast?_concat.symm

/-- The stack holds nodes of the store at every step. -/
theorem WellFormed.lt_size_of_unstacked? (h : m.WellFormed) {stack rest : List NodeId} (hstack : ∀ x ∈ stack, x < m.size)
    (hstep : m.unstacked? stack = some rest) : ∀ x ∈ rest, x < m.size := by
  cases stack with
  | nil => cases hstep
  | cons n stack =>
    obtain ⟨hn, hbelow⟩ := List.forall_mem_cons.1 hstack
    obtain ⟨rfl, -⟩ := h.of_unstacked? hn hstep
    intro x hx
    rcases List.mem_append.1 hx with hx | hx
    · exact h.lt_size_of_mem (List.mem_reverse.1 hx)
    · exact hbelow x hx

/-- Each step takes one node away from those at and below the stacked ones, and no visible leaf. -/
theorem WellFormed.visibleBelow_of_unstacked? (h : m.WellFormed) {stack rest : List NodeId}
    (hstack : ∀ x ∈ stack, x < m.size) (hstep : m.unstacked? stack = some rest) :
    (rest.flatMap m.descendants).length < (stack.flatMap m.descendants).length ∧
      m.visibleBelow rest = m.visibleBelow stack := by
  cases stack with
  | nil => cases hstep
  | cons n stack =>
    have hn := hstack n (List.mem_cons_self ..)
    obtain ⟨rfl, hvisible⟩ := h.of_unstacked? hn hstep
    constructor
    · rw [← (h.flatMap_children hn stack).length_eq, List.length_cons]
      exact Nat.lt_succ_self _
    · rw [visibleBelow_cons, hvisible, visibleBelow, List.reverse_append, List.reverse_reverse, List.flatMap_append]
      rfl

/-- The search ends, and it finds the last visible leaf below the stacked nodes. The induction is on how many nodes there
are at and below the stacked ones. -/
theorem WellFormed.exists_unstacking (h : m.WellFormed) (stack : List NodeId) (hstack : ∀ x ∈ stack, x < m.size) :
    ∃ trail, Climbs m.unstacked? stack trail ∧ trail.length ≤ (stack.flatMap m.descendants).length ∧
      ∀ steps, trail.length < steps → m.lastVisibleWithin steps stack = (m.visibleBelow stack).getLast? := by
  induction hcount : (stack.flatMap m.descendants).length using Nat.strong_induction_on generalizing stack with
  | _ count ih =>
  cases hstep : m.unstacked? stack with
  | none =>
    refine ⟨[], hstep, Nat.zero_le _, fun steps hsteps => ?_⟩
    obtain ⟨k, rfl⟩ := Nat.exists_eq_succ_of_ne_zero (Nat.ne_of_gt hsteps)
    rw [lastVisibleWithin_succ, hstep]
    exact h.head?_of_unstacked?_eq_none hstack hstep
  | some rest =>
    obtain ⟨hfewer, hsame⟩ := h.visibleBelow_of_unstacked? hstack hstep
    rw [hcount] at hfewer
    obtain ⟨trail, htrail, hlength, hfound⟩ := ih _ hfewer rest (h.lt_size_of_unstacked? hstack hstep) rfl
    refine ⟨rest :: trail, ⟨hstep, htrail⟩, Nat.succ_le_of_lt (Nat.lt_of_le_of_lt hlength hfewer), fun steps hsteps => ?_⟩
    obtain ⟨k, rfl⟩ := Nat.exists_eq_succ_of_ne_zero (Nat.ne_of_gt (Nat.zero_lt_of_lt hsteps))
    rw [lastVisibleWithin_succ, hstep, Option.elim_some, hfound k (Nat.lt_of_succ_lt_succ hsteps), hsame]

/-- The search from the back finds the last of the visible leaves. -/
theorem WellFormed.lastVisibleLeaf?_eq (h : m.WellFormed) (hn : n < m.size) :
    m.lastVisibleLeaf? n = (m.visibleLeaves n).getLast? := by
  obtain ⟨trail, -, hlength, hfound⟩ := h.exists_unstacking [n] (List.forall_mem_singleton.2 hn)
  rw [List.flatMap_singleton] at hlength
  have hsteps := Nat.lt_succ_of_le (Nat.le_trans hlength (h.length_descendants_le hn))
  rw [lastVisibleLeaf?, hfound _ hsteps, visibleBelow, List.reverse_singleton, List.flatMap_singleton]

/-- The range of a node goes from its first visible leaf to its last one. -/
theorem WellFormed.range_eq (h : m.WellFormed) (hn : n < m.size) :
    m.range n = match m.visibleLeaves n with
      | [] => m.totalRange n
      | first :: rest => TextRange.between (m.totalStart first) (m.totalEnd (rest.getLastD first)) := by
  rw [range, firstVisibleLeaf?_eq, h.lastVisibleLeaf?_eq hn]
  cases hleaf : m.isLeaf n with
  | false =>
    rw [if_neg Bool.false_ne_true]
    cases m.visibleLeaves n with
    | nil => rfl
    | cons first rest =>
      rw [List.head?_cons, List.getLast?_cons, ← List.getLastD_eq_getLast?]
      rfl
  | true =>
    -- a leaf is its own first and last one
    rw [if_pos rfl, h.visibleLeaves_eq hn, if_pos hleaf]
    cases m.isHidden n <;> rfl

end Model

end SyntaxTree
