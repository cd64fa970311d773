import SyntaxTree.Proofs.LeafOrder
import SyntaxTree.Proofs.Reachable
import SyntaxTree.Model.Check

/-!
# What the consistency check decides

The check tests nine rules. On a reachable model eight of them cannot fail: they follow from coherence. What is left
is the order of siblings, so the check passes exactly if all nodes below the root are in order, and by `LeafOrder` that
is the order of the leaves.

If it does not pass, the first node that is out of place decides how it fails. `inspection` lists the nodes below a
node in the order in which the check looks at them, `misplacement?` says what is wrong with the place of one node, and
`Coherent.check_eq` says that the check finds the first misplacement of the inspection. Each loop of the check has one
lemma to that effect, by induction on what the loop has still to do.
-/

namespace SyntaxTree.Model

variable {m : Model} {n p c first : NodeId} {before after seen stack : List NodeId}

/-! ## The order of inspection -/

/-- The nodes below a node as the check looks at them, down to a number of levels: the children in order, then what is
below the last child, and so on back to the first. -/
def inspectionWithin (m : Model) : Nat → NodeId → List NodeId
  | 0, _ => []
  | levels + 1, n => m.children n ++ (m.children n).reverse.flatMap (m.inspectionWithin levels)

/-- The nodes below a node as the check looks at them. -/
def inspection (m : Model) (n : NodeId) : List NodeId :=
  m.inspectionWithin (m.size - (m.ancestors n).length) n

theorem WellFormed.inspection_eq (h : m.WellFormed) (hn : n < m.size) :
    m.inspection n = m.children n ++ (m.children n).reverse.flatMap m.inspection := by
  have hlength := length_ancestors_lt h.structured.forms h.structured.grounded hn
  obtain ⟨levels, hlevels⟩ := Nat.exists_eq_succ_of_ne_zero (Nat.sub_ne_zero_of_lt hlength)
  have hchild : ∀ c ∈ (m.children n).reverse, m.inspectionWithin levels c = m.inspection c := by
    intro c hc
    rw [inspection, h.ancestors_of_mem (List.mem_reverse.1 hc), List.length_cons]
    congr 1
    omega
  rw [inspection, hlevels, Nat.succ_eq_add_one, inspectionWithin, List.flatMap_congr hchild]

/-- All nodes below a node are inspected, and no others. -/
theorem WellFormed.mem_inspection_iff (h : m.WellFormed) (n : NodeId) {x : NodeId} : n < m.size →
    (x ∈ m.inspection n ↔ x ∈ (m.children n).flatMap m.descendants) := by
  induction n using descend h.structured.forms h.structured.grounded with
  | step n ih =>
  intro hn
  rw [h.inspection_eq hn, List.mem_append, List.mem_flatMap, List.mem_flatMap]
  constructor
  · rintro (hx | ⟨c, hc, hx⟩)
    · refine ⟨x, hx, ?_⟩
      rw [h.descendants_eq (h.lt_size_of_mem hx)]
      exact List.mem_cons_self ..
    · rw [List.mem_reverse] at hc
      refine ⟨c, hc, ?_⟩
      rw [h.descendants_eq (h.lt_size_of_mem hc)]
      exact List.mem_cons_of_mem _ ((ih c hc (h.lt_size_of_mem hc)).1 hx)
  · rintro ⟨c, hc, hx⟩
    rw [h.descendants_eq (h.lt_size_of_mem hc)] at hx
    rcases List.mem_cons.1 hx with rfl | hx
    · exact Or.inl hc
    · exact Or.inr ⟨c, List.mem_reverse.2 hc, (ih c hc (h.lt_size_of_mem hc)).2 hx⟩

/-! ## Misplaced nodes -/

/-- How a check fails on a coherent model: it asks for the range of a node that ends before it starts, or finds a
node that starts before the sibling before it ends. -/
def Misplaced (m : Model) : CheckFailure → Prop
  | .fault fault => fault = .reversedRange ∧ ∃ node, m.totalEnd node < m.totalStart node
  | .violation violation => ∃ node previous, m.previousSibling? node = some previous ∧
      violation = .unorderedSiblings node (m.totalStart node) (m.totalEnd previous) ∧
      m.totalStart node < m.totalEnd previous

/-- A part of the check passes exactly if a condition holds, and then gives a known value. -/
structure Decides {α : Type} (m : Model) (condition : Prop) (result : Except CheckFailure α) (value : α) :
    Prop where
  passes : condition → result = .ok value
  fails : ¬ condition → ∃ failure, result = .error failure ∧ m.Misplaced failure

theorem Decides.eq_ok_iff {α : Type} {condition : Prop} {result : Except CheckFailure α} {value : α}
    (h : m.Decides condition result value) : result = .ok value ↔ condition := by
  refine ⟨fun hok => ?_, h.passes⟩
  by_contra hnot
  obtain ⟨failure, hfail, -⟩ := h.fails hnot
  rw [hok] at hfail
  cases hfail

/-- What the check finds wrong with the place of a node. The range of the node is asked for before it is compared with
the sibling before it. -/
def misplacement? (m : Model) (c : NodeId) : Option CheckFailure :=
  if m.totalEnd c < m.totalStart c then
    some (.fault .reversedRange)
  else
    (m.previousSibling? c).bind fun d =>
      if m.totalStart c < m.totalEnd d then
        some (.violation (.unorderedSiblings c (m.totalStart c) (m.totalEnd d)))
      else
        none

theorem misplacement?_of_reversed (hrev : m.totalEnd c < m.totalStart c) :
    m.misplacement? c = some (.fault .reversedRange) := by
  rw [misplacement?, if_pos hrev]

theorem misplacement?_eq_none_iff : m.misplacement? c = none ↔ m.InOrder c := by
  unfold misplacement?
  by_cases hrev : m.totalEnd c < m.totalStart c
  · rw [if_pos hrev]
    exact ⟨nofun, fun hc => absurd hc.not_reversed (Nat.not_le.2 hrev)⟩
  · rw [if_neg hrev, Option.bind_eq_none_iff]
    constructor
    · intro hnone
      refine ⟨Nat.not_lt.1 hrev, fun {d} hd => Nat.not_lt.1 fun hlt => ?_⟩
      have := hnone d hd
      rw [if_pos hlt] at this
      cases this
    · intro hc d hd
      rw [if_neg (Nat.not_lt.2 (hc.after_previous hd))]

/-- A node that is not reversed is misplaced only with respect to the sibling before it. -/
theorem misplacement?_eq_some {failure : CheckFailure} (hrev : ¬ m.totalEnd c < m.totalStart c)
    (hc : m.misplacement? c = some failure) : ∃ d, m.previousSibling? c = some d ∧
      failure = .violation (.unorderedSiblings c (m.totalStart c) (m.totalEnd d)) ∧
      m.totalStart c < m.totalEnd d := by
  rw [misplacement?, if_neg hrev] at hc
  obtain ⟨d, hd, hc⟩ := Option.bind_eq_some_iff.1 hc
  split at hc
  · next hlt => exact ⟨d, hd, (Option.some.inj hc).symm, hlt⟩
  · cases hc

theorem misplaced_of_misplacement? {failure : CheckFailure} (hc : m.misplacement? c = some failure) :
    m.Misplaced failure := by
  by_cases hrev : m.totalEnd c < m.totalStart c
  · rw [misplacement?_of_reversed hrev] at hc
    obtain rfl := Option.some.inj hc
    exact ⟨rfl, c, hrev⟩
  · obtain ⟨d, hd, rfl, hlt⟩ := misplacement?_eq_some hrev hc
    exact ⟨c, d, hd, rfl, hlt⟩

/-- How a part of the check ends that has found a failure, or none and then gives a value. -/
def verdict {α : Type} (value : α) (failure : Option CheckFailure) : Except CheckFailure α :=
  failure.elim (.ok value) .error

/-- Two parts in a row look at the nodes of both. -/
theorem verdict_append {α β : Type} {value : α} {last : β} {rest : α → Except CheckFailure β} {xs : List NodeId}
    (ys : List NodeId) (h : rest value = verdict last (ys.findSome? m.misplacement?)) :
    (verdict value (xs.findSome? m.misplacement?) >>= rest) = verdict last ((xs ++ ys).findSome? m.misplacement?) := by
  rw [List.findSome?_append]
  cases xs.findSome? m.misplacement? with
  | none => exact h
  | some failure => rfl

/-! ## Nodes and links -/

/-- A live node passes on its own. -/
theorem Coherent.checkNode_eq_ok (h : m.Coherent) (hn : m.Live n) : m.checkNode n = .ok () := by
  obtain ⟨node, hnode, hlive⟩ := hn
  have hproper := h.labelled.proper (bare?_of_get? hnode)
  have hlinked : node.next.isSome = node.previous.isSome := by
    have hall := h.wellLinked.all_or_none n
    rw [nextInRing?, previousInRing?, hnode] at hall
    exact hall.1.trans hall.2.symm
  have hindex : ∀ e, node.content.element? = some e → m.index.find? e = some n := by
    intro e he
    refine (h.indexed.bound e n).2 ?_
    rw [element?, hnode]
    exact he
  have hrange : ∀ range, node.content.leafRange? = some range → ¬ m.textLength < range.stop := by
    intro range hrange
    rw [← Content.leafRange?_withFirstChild none] at hrange
    exact Nat.not_lt.2 (hproper.in_text hrange).1
  unfold checkNode
  rw [lookup_eq_ok_iff.2 hnode]
  show (if node.next.isSome != node.previous.isSome then _ else _) = _
  rw [hlinked, bne_self_eq_false, if_neg Bool.false_ne_true, hlive]
  cases hr : node.content.leafRange? with
  | none =>
    cases he : node.content.element? with
    | none => rfl
    | some e => simp [hindex e he, pure, Except.pure]
  | some range =>
    cases he : node.content.element? with
    | none => simp [hrange range hr, pure, Except.pure]
    | some e => simp [hrange range hr, hindex e he, pure, Except.pure]

/-- A child that has not been met passes. The answer is the node after it in the ring. -/
theorem WellFormed.checkLinks_eq_ok (h : m.WellFormed) (hfirst : (m.children p).head? = some first)
    (hsplit : m.children p = before ++ c :: after) (hseen : c ∉ seen) {next : NodeId}
    (hnext : (after ++ [first]).head? = some next) : m.checkLinks p c seen = .ok next := by
  obtain ⟨hparent, -, hprevious⟩ := h.structured.forms.ring hsplit
  have hring := (h.structured.forms.next_eq_head? hfirst hsplit).trans hnext
  obtain ⟨hback, -⟩ := h.structured.forms.previous_of_next hring
  obtain ⟨node, hnode, hnodeNext⟩ := Option.bind_eq_some_iff.1 hring
  obtain ⟨neighbour, hneighbour, hneighbourPrevious⟩ := Option.bind_eq_some_iff.1 hback
  have hnodeParent : node.parent = some p := by
    rw [links_parent, parent?, hnode] at hparent
    exact hparent
  obtain ⟨previous, hnodePrevious⟩ : ∃ previous, node.previous = some previous := by
    rw [links_previous, previousInRing?, hnode] at hprevious
    exact ⟨_, hprevious.trans (List.getLast?_eq_some_getLast (by simp))⟩
  unfold checkLinks
  rw [if_neg hseen, lookup_eq_ok_iff.2 hnode]
  show (if node.parent ≠ some p then _ else _) = _
  rw [if_neg (not_not_intro hnodeParent), hnodeNext, hnodePrevious]
  show (asking (m.lookup next) >>= _) = _
  rw [lookup_eq_ok_iff.2 hneighbour]
  show (if neighbour.previous ≠ some c then _ else _) = _
  rw [if_neg (not_not_intro hneighbourPrevious)]
  rfl

/-! ## Siblings -/

/-- The order of a node and the sibling before it is all that is checked of their places. -/
theorem checkOrder_eq (m : Model) (c : NodeId) :
    m.checkOrder c ((m.previousSibling? c).map m.totalEnd) =
      verdict (m.totalEnd c) ([c].findSome? m.misplacement?) := by
  rw [List.findSome?_singleton]
  by_cases hrev : m.totalEnd c < m.totalStart c
  · rw [misplacement?_of_reversed hrev, checkOrder, totalRange, TextRange.between_eq_error_iff.2 ⟨hrev, rfl⟩]
    rfl
  · obtain ⟨range, hrange⟩ : ∃ range, m.totalRange c = .ok range :=
      ⟨⟨m.totalStart c, m.totalEnd c, Nat.not_lt.1 hrev⟩, TextRange.between_eq_ok_iff.2 ⟨rfl, rfl⟩⟩
    obtain ⟨hstart, hstop⟩ := TextRange.between_eq_ok_iff.1 hrange
    rw [checkOrder, hrange, misplacement?, if_neg hrev]
    cases m.previousSibling? c with
    | none => exact congrArg Except.ok hstop
    | some d =>
      show (if range.start < m.totalEnd d then _ else _) = verdict _ (if m.totalStart c < m.totalEnd d then _ else _)
      rw [hstart]
      split
      · rfl
      · exact congrArg Except.ok hstop

/-- One turn of the loop over a ring. -/
theorem WellFormed.checkChildren_succ (h : m.WellFormed) (hfirst : (m.children p).head? = some first)
    (hsplit : m.children p = before ++ c :: after) (hseen : c ∉ seen) {next : NodeId}
    (hnext : (after ++ [first]).head? = some next) (steps : Nat) (previousEnd : Option Nat) :
    m.checkChildren p first (steps + 1) c previousEnd seen stack =
      m.checkOrder c previousEnd >>= fun stop =>
        if next = first then .ok (c :: seen, c :: stack)
        else m.checkChildren p first steps next (some stop) (c :: seen) (c :: stack) := by
  rw [checkChildren, h.checkLinks_eq_ok hfirst hsplit hseen hnext]
  rfl

/-- From a child on, the loop over the ring looks at that child and those after it. -/
theorem WellFormed.checkChildren_eq (h : m.WellFormed) (hfirst : (m.children p).head? = some first) :
    ∀ (after before : List NodeId) (c : NodeId) (steps : Nat) (seen stack : List NodeId),
      m.children p = before ++ c :: after → after.length < steps → (∀ x ∈ c :: after, x ∉ seen) →
      m.checkChildren p first steps c ((m.previousSibling? c).map m.totalEnd) seen stack =
        verdict ((c :: after).reverse ++ seen, (c :: after).reverse ++ stack)
          ((c :: after).findSome? m.misplacement?) := by
  intro after
  induction after with
  | nil =>
    intro before c steps seen stack hsplit hsteps hseen
    obtain _ | steps := steps
    · exact absurd hsteps (Nat.not_lt_zero _)
    -- the ring is back where it started
    rw [h.checkChildren_succ hfirst hsplit (hseen c (List.mem_cons_self ..)) rfl, checkOrder_eq]
    exact verdict_append [] (if_pos rfl)
  | cons d after ih =>
    intro before c steps seen stack hsplit hsteps hseen
    obtain _ | steps := steps
    · exact absurd hsteps (Nat.not_lt_zero _)
    have hsplit' : m.children p = (before ++ [c]) ++ d :: after := by rw [hsplit]; simp
    have hnodup := h.structured.forms.nodup p
    have hne : d ≠ first := by
      intro e
      have hnil := (h.structured.forms.eq_first_iff hsplit' hfirst).1 e
      simp at hnil
    have hprevious : m.previousSibling? d = some c := by
      rw [previousSibling?_eq h.structured.forms hsplit', List.getLast?_concat]
    have hrest : ∀ x ∈ d :: after, x ∉ c :: seen := by
      intro x hx hmem
      rcases List.mem_cons.1 hmem with rfl | hmem
      · rw [hsplit, List.nodup_append, List.nodup_cons] at hnodup
        exact hnodup.2.1.1 hx
      · exact hseen x (List.mem_cons_of_mem _ hx) hmem
    have hloop := ih (before ++ [c]) d steps (c :: seen) (c :: stack) hsplit' (Nat.lt_of_succ_lt_succ hsteps) hrest
    rw [hprevious, Option.map_some] at hloop
    rw [h.checkChildren_succ hfirst hsplit (hseen c (List.mem_cons_self ..)) rfl, checkOrder_eq]
    refine verdict_append (d :: after) ?_
    rw [if_neg hne, List.reverse_cons, List.append_assoc, List.append_assoc]
    exact hloop

/-- The loop over the ring of a parent looks at its children. -/
theorem WellFormed.checkChildren_all (h : m.WellFormed) (hfirst : m.firstChild? p = some first)
    (hseen : ∀ x ∈ m.children p, x ∉ seen) :
    m.checkChildren p first (m.size + 1) first none seen stack =
      verdict ((m.children p).reverse ++ seen, (m.children p).reverse ++ stack)
        ((m.children p).findSome? m.misplacement?) := by
  have hhead : (m.children p).head? = some first := (h.head?_children p).trans hfirst
  obtain ⟨after, hsplit⟩ := List.head?_eq_some_iff.1 hhead
  have hprevious : m.previousSibling? first = none :=
    previousSibling?_eq h.structured.forms (show m.children p = [] ++ first :: after from hsplit)
  have hlength := length_kids_le h.structured.forms p
  have hloop := h.checkChildren_eq hhead after [] first (m.size + 1) seen stack hsplit
    (by rw [hsplit, List.length_cons] at hlength; omega) (hsplit ▸ hseen)
  rwa [hprevious, ← hsplit] at hloop

/-! ## The whole tree -/

/-- What the loop over the stack keeps to: the trees of the stacked nodes are apart from each other, and of each
tree at most the top has been met. -/
structure Pending (m : Model) (seen stack : List NodeId) : Prop where
  live : ∀ n ∈ stack, m.Live n
  apart : (stack.flatMap m.descendants).Nodup
  unseen : ∀ n ∈ stack, ∀ x ∈ (m.children n).flatMap m.descendants, x ∉ seen

/-- A node on the stack is not below another, nor below itself. -/
theorem Pending.not_mem_below (h : m.WellFormed) (hpending : m.Pending seen stack) (hn : n ∈ stack)
    (hp : p ∈ stack) : n ∉ (m.children p).flatMap m.descendants := by
  intro hbelow
  obtain ⟨hnodup, hdisjoint⟩ := List.nodup_flatMap.1 hpending.apart
  have htree := h.descendants_eq (hpending.live p hp).lt_size
  by_cases hne : n = p
  · have hself := hnodup p hp
    rw [htree, List.nodup_cons] at hself
    exact hself.1 (hne ▸ hbelow)
  · have htop : n ∈ m.descendants n := by
      rw [h.descendants_eq (hpending.live n hn).lt_size]
      exact List.mem_cons_self ..
    have : Std.Symm (Function.onFun List.Disjoint m.descendants) := ⟨fun _ _ hd _ ha hb => hd hb ha⟩
    refine hdisjoint.forall hn hp hne htop ?_
    rw [htree]
    exact List.mem_cons_of_mem _ hbelow

theorem Pending.step (h : m.WellFormed) (hpending : m.Pending seen (n :: stack)) :
    m.Pending ((m.children n).reverse ++ seen) ((m.children n).reverse ++ stack) := by
  have hn := (hpending.live n (List.mem_cons_self ..)).lt_size
  -- forgetting what was met before, the new stack is as it should be
  have hstack : m.Pending [] ((m.children n).reverse ++ stack) := by
    refine ⟨fun c hc => ?_, ?_, fun _ _ _ _ => List.not_mem_nil⟩
    · rcases List.mem_append.1 hc with hc | hc
      · exact h.live_of_parent? (h.structured.forms.mem_iff.1 (List.mem_reverse.1 hc))
      · exact hpending.live c (List.mem_cons_of_mem _ hc)
    · exact (List.nodup_cons.1 ((h.flatMap_children hn stack).nodup_iff.2 hpending.apart)).2
  refine ⟨hstack.live, hstack.apart, fun p hp x hx hseen => ?_⟩
  rcases List.mem_append.1 hseen with hmet | hseen
  · exact hstack.not_mem_below h (List.mem_append_left _ hmet) hp hx
  · rcases List.mem_append.1 hp with hchild | hp
    · rw [List.mem_reverse] at hchild
      refine hpending.unseen n (List.mem_cons_self ..) x (List.mem_flatMap.2 ⟨p, hchild, ?_⟩) hseen
      rw [h.descendants_eq (h.lt_size_of_mem hchild)]
      exact List.mem_cons_of_mem _ hx
    · exact hpending.unseen p (List.mem_cons_of_mem _ hp) x hx hseen

/-- A node of the stack gives way to its children, once they have been looked at. -/
theorem Coherent.checkStack_succ (h : m.Coherent) (hpending : m.Pending seen (n :: stack)) {steps : Nat}
    {rest : List NodeId}
    (hrest : m.checkStack steps ((m.children n).reverse ++ seen) ((m.children n).reverse ++ stack) =
      verdict () (rest.findSome? m.misplacement?)) :
    m.checkStack (steps + 1) seen (n :: stack) = verdict () ((m.children n ++ rest).findSome? m.misplacement?) := by
  have hn := hpending.live n (List.mem_cons_self ..)
  rw [checkStack, h.checkNode_eq_ok hn, ok_bind]
  have hhead := h.head?_children n
  cases hfirst : m.firstChild? n with
  | none =>
    rw [hfirst] at hhead
    have hkids := List.head?_eq_none_iff.1 hhead
    rw [hkids] at hrest ⊢
    exact hrest
  | some first =>
    have hseen : ∀ x ∈ m.children n, x ∉ seen := by
      intro x hx
      refine hpending.unseen n (List.mem_cons_self ..) x (List.mem_flatMap.2 ⟨x, hx, ?_⟩)
      rw [h.descendants_eq (h.lt_size_of_mem hx)]
      exact List.mem_cons_self ..
    simp only [h.checkChildren_all hfirst hseen]
    exact verdict_append _ hrest

/-- The loop over the stack looks at everything below the nodes on it. -/
theorem Coherent.checkStack_eq (h : m.Coherent) : ∀ (steps : Nat) (seen stack : List NodeId),
    m.Pending seen stack → (stack.flatMap m.descendants).length < steps →
    m.checkStack steps seen stack = verdict () ((stack.flatMap m.inspection).findSome? m.misplacement?) := by
  intro steps
  induction steps with
  | zero =>
    intro seen stack _ hsteps
    exact absurd hsteps (Nat.not_lt_zero _)
  | succ steps ih =>
    intro seen stack hpending hsteps
    cases stack with
    | nil => rfl
    | cons n stack =>
      have hn := (hpending.live n (List.mem_cons_self ..)).lt_size
      have hlength := (h.flatMap_children hn stack).length_eq
      rw [List.length_cons] at hlength
      rw [h.checkStack_succ hpending (ih _ _ (hpending.step h.toWellFormed) (by omega)), List.flatMap_append,
        List.flatMap_cons, h.inspection_eq hn, List.append_assoc]

/-! ## The index -/

/-- Nodes that hold the elements they are known by pass. -/
theorem checkIndex_eq_ok {entries : List (Element × NodeId)}
    (h : ∀ entry ∈ entries, m.element? entry.2 = some entry.1) : m.checkIndex entries = .ok () := by
  induction entries with
  | nil => rfl
  | cons entry entries ih =>
    obtain ⟨node, hnode, helement⟩ := Option.bind_eq_some_iff.1 (h entry (List.mem_cons_self ..))
    rw [checkIndex, lookup_eq_ok_iff.2 hnode]
    show (if node.content.element? ≠ some entry.1 then _ else _) = _
    rw [if_neg (not_not_intro helement)]
    exact ih fun entry' hentry => h entry' (List.mem_cons_of_mem _ hentry)

theorem Indexed.element?_of_mem (h : m.Indexed) {entry : Element × NodeId} (hentry : entry ∈ m.index.entries) :
    m.element? entry.2 = some entry.1 := by
  refine (h.bound entry.1 entry.2).1 ?_
  rw [SemanticIndex.find?]
  cases hfind : m.index.entries.find? (·.1 == entry.1) with
  | none => exact absurd (beq_self_eq_true entry.1) (List.find?_eq_none.1 hfind entry hentry)
  | some found =>
    have hkey := List.find?_some hfind
    rw [beq_iff_eq] at hkey
    rw [List.inj_on_of_nodup_map h.nodup (List.mem_of_find?_eq_some hfind) hentry hkey]
    rfl

/-! ## The check -/

/-- The check of a coherent model fails at the first node that is out of place, in the order of the inspection. -/
theorem Coherent.check_eq (h : m.Coherent) :
    m.check = verdict () ((m.inspection rootId).findSome? m.misplacement?) := by
  have hroot : m.Pending [] [rootId] := by
    refine ⟨?_, ?_, fun _ _ _ _ => List.not_mem_nil⟩
    · rw [List.forall_mem_singleton]
      exact h.live_root
    · rw [List.flatMap_singleton]
      exact h.nodup_descendants h.labelled.size_pos
  have hlength := h.length_descendants_le h.labelled.size_pos
  have hstack := h.checkStack_eq (m.size + 1) [] [rootId] hroot
    (by rw [List.flatMap_singleton]; exact Nat.lt_succ_of_le hlength)
  have hindex := checkIndex_eq_ok fun entry hentry => h.indexed.element?_of_mem hentry
  rw [List.flatMap_singleton] at hstack
  rw [check, hstack, hindex]
  cases (m.inspection rootId).findSome? m.misplacement? <;> rfl

/-- No node of the inspection is out of place exactly if the leaves follow each other. -/
theorem WellFormed.findSome?_inspection_eq_none_iff (h : m.WellFormed) :
    (m.inspection rootId).findSome? m.misplacement? = none ↔ m.LeavesInSequence := by
  rw [List.findSome?_eq_none_iff, ← h.orderedBelow_root_iff, OrderedBelow]
  simp only [misplacement?_eq_none_iff, h.mem_inspection_iff rootId h.labelled.size_pos]

/-- The check of a coherent model is decided by the order of its nodes. -/
theorem Coherent.check_decides (h : m.Coherent) : m.Decides m.LeavesInSequence m.check () := by
  rw [h.check_eq, ← h.findSome?_inspection_eq_none_iff]
  cases hfound : (m.inspection rootId).findSome? m.misplacement? with
  | none => exact ⟨fun _ => rfl, fun hnot => absurd rfl hnot⟩
  | some failure =>
    obtain ⟨c, -, hc⟩ := List.exists_of_findSome?_eq_some hfound
    exact ⟨nofun, fun _ => ⟨failure, rfl, misplaced_of_misplacement? hc⟩⟩

/-- The check of a reachable model passes exactly if the leaves follow each other. The only rule that it can find
broken is the order of two siblings, and then it tells how they are placed; and the only fault that can end it is
a range that is asked for and ends before it starts. -/
theorem reachable_check_iff {text : String} (h : Reachable text m) : (m.check = .ok () ↔ m.LeavesInSequence) ∧
    (∀ violation, m.check = .error (.violation violation) → ∃ node previous,
      m.previousSibling? node = some previous ∧
      violation = .unorderedSiblings node (m.totalStart node) (m.totalEnd previous) ∧
      m.totalStart node < m.totalEnd previous) ∧
    (∀ fault, m.check = .error (.fault fault) →
      fault = .reversedRange ∧ ∃ node, m.totalEnd node < m.totalStart node) := by
  have hdecides := h.coherent.check_decides
  have hmisplaced : ∀ failure, m.check = .error failure → m.Misplaced failure := by
    intro failure hfail
    have hnot : ¬ m.LeavesInSequence := by
      intro hsequence
      rw [hdecides.passes hsequence] at hfail
      cases hfail
    obtain ⟨failure', hfail', hmisplaced⟩ := hdecides.fails hnot
    rw [hfail] at hfail'
    obtain rfl := Except.error.inj hfail'
    exact hmisplaced
  refine ⟨⟨fun hok => ?_, hdecides.passes⟩, fun violation => hmisplaced _, fun fault => hmisplaced _⟩
  by_contra hnot
  obtain ⟨failure, hfail, -⟩ := hdecides.fails hnot
  rw [hok] at hfail
  cases hfail

/-- Two leaves with an empty composite between them, in the order of the text and the other way round. Where they are
not in order, it is the end of the empty composite that the second leaf does not keep to. -/
theorem reachable_check_iff_two_leaves : ∃ m m', Reachable "ab" m ∧ m.LeavesInSequence ∧ Reachable "ab" m' ∧
    m'.check = .error (.violation (.unorderedSiblings 3 0 2)) ∧ m'.previousSibling? 3 = some 2 ∧
    m'.leafRange? 2 = none ∧ ¬ m'.LeavesInSequence := by
  have h : Reachable "ab" (initial "ab") := .opened (ofText_eq_ok_iff.2 ⟨by decide, rfl⟩)
  have hgood := h.edited (.newLeaf 0 1 none false none 0) (by decide) rfl
  have hgood := hgood.edited (.newComposite none 0 (some 0)) (by decide) rfl
  have hgood := hgood.edited (.newLeaf 1 1 none false none 0) (by decide) rfl
  have hbad := h.edited (.newLeaf 1 1 none false none 0) (by decide) rfl
  have hbad := hbad.edited (.newComposite none 0 (some 0)) (by decide) rfl
  have hbad := hbad.edited (.newLeaf 0 1 none false none 0) (by decide) rfl
  refine ⟨_, _, hgood, (reachable_check_iff hgood).1.1 rfl, hbad, rfl, rfl, rfl, ?_⟩
  intro hsequence
  have hok := (reachable_check_iff hbad).1.2 hsequence
  cases hok

-- under a composite of their own the two leaves are not compared if the range of the composite, which is asked for
-- first, ends before it starts
example : ∃ m, Reachable "abc" m ∧ m.check = .error (.fault .reversedRange) := by
  have h : Reachable "abc" (initial "abc") := .opened (ofText_eq_ok_iff.2 ⟨by decide, rfl⟩)
  have h := h.edited (.newComposite none 0 (some 0)) (by decide) rfl
  have h := h.edited (.newLeaf 2 1 none false none 1) (by decide) rfl
  have h := h.edited (.newLeaf 0 1 none false none 1) (by decide) rfl
  exact ⟨_, h, rfl⟩

end SyntaxTree.Model
