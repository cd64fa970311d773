import SyntaxTree.Proofs.Kinship
import SyntaxTree.Proofs.Placement

/-!
# Where nodes start and end, read off the leaves

Only leaves store offsets. The start and the end of any other node are found by searches that go down to a first or last
child, over to the sibling before, or up to the parent, and each of them hands over to another one. This file gives their
answers in closed form, for trees whose leaves come in any order: `Extent` says that every search ends, and that what it
finds is one look at the leaves of the whole tree, in the order of the document.

The tree may be the one below the root or a detached one. Its nodes are listed by a walk from its top, and the walk below
a node is one stretch of that list (`exists_split_descendants`), so the leaves before a node are those of what is listed
before it.
-/

namespace SyntaxTree.Model

variable {m : Model} {text : String} {n p c top : NodeId} {earlier later : List NodeId}

/-! ## Leaves before a node -/

/-- The leaves of the tree below `top` that come before the node in the document. -/
def leavesBefore (m : Model) (top n : NodeId) : List NodeId :=
  ((m.descendants top).takeWhile (· != n)).filter m.isLeaf

/-- Where the last of some leaves ends, and the start of the text if there is none. -/
def endOfLast (m : Model) (leaves : List NodeId) : Nat :=
  (leaves.getLast?.bind m.leafRange?).elim 0 (·.stop)

theorem isLeaf_of_mem_leavesBefore {x : NodeId} (hx : x ∈ m.leavesBefore top n) : m.isLeaf x = true :=
  (List.mem_filter.1 hx).2

/-- For leaves the end that is stored is the end that is found. -/
theorem endOfLast_eq_lastEnd {leaves : List NodeId} (hleaves : ∀ x ∈ leaves, m.isLeaf x = true) :
    m.endOfLast leaves = m.lastEnd 0 leaves := by
  unfold endOfLast lastEnd
  cases hlast : leaves.getLast? with
  | none => rfl
  | some x =>
    obtain ⟨range, hrange⟩ := exists_leafRange? (hleaves x (List.mem_of_getLast? hlast))
    rw [Option.bind_some, hrange, Option.elim_some, Option.elim_some, totalEnd_of_leafRange? hrange]

/-- What is below a child is a stretch of what is below its parent: after the parent itself and what is below the children
before. -/
theorem WellFormed.descendants_of_split (h : m.WellFormed) {before after : List NodeId}
    (hsplit : m.children p = before ++ c :: after) :
    m.descendants p = p :: before.flatMap m.descendants ++ (m.descendants c ++ after.flatMap m.descendants) := by
  have hc : c ∈ m.children p := h.structured.forms.mem_of_split hsplit
  rw [h.descendants_eq (h.structured.live_of_mem hc).lt_size, hsplit, List.flatMap_append, List.flatMap_cons,
    List.cons_append]

/-- What is below a node is a stretch of what is below the top of its tree, and the node stands where the last leaf before
that stretch ends. The induction goes down from the top. -/
theorem WellFormed.exists_split_descendants (h : m.WellFormed) (htop : m.Live top) (hloose : m.parent? top = none) :
    ∀ n ∈ m.descendants top, ∃ earlier later, m.descendants top = earlier ++ (m.descendants n ++ later) ∧
      m.origin n = m.lastEnd 0 (earlier.filter m.isLeaf) := by
  refine h.forall_descendants (fun {p c} hc hp => ?_) top htop.lt_size ⟨[], [], ?_, ?_⟩
  · obtain ⟨earlier, later, hlist, horigin⟩ := hp
    obtain ⟨before, after, hsplit⟩ := List.append_of_mem hc
    refine ⟨earlier ++ p :: before.flatMap m.descendants, after.flatMap m.descendants ++ later, ?_, ?_⟩
    · rw [hlist, h.descendants_of_split hsplit]
      simp only [List.append_assoc, List.cons_append]
    · have hleaf : m.isLeaf p ≠ true := by
        rw [(isLeaf_of_mem h.structured.forms hc).1]
        exact Bool.false_ne_true
      rw [h.origin_of_split hsplit, horigin, List.filter_append, List.filter_cons_of_neg hleaf, List.filter_flatMap,
        lastEnd_append]
      rfl
  · rw [List.nil_append, List.append_nil]
  · show m.origin top = 0
    cases hroot : m.isRoot top with
    | true => rw [h.isRoot_iff.1 hroot, h.origin_root]
    | false => rw [origin_of_not_root hroot, h.emptyOffset_of_top hloose]

/-- The stretch starts with the node itself, so the leaves before the node are those before the stretch. -/
theorem WellFormed.leavesBefore_of_split (h : m.WellFormed) (htop : m.Live top) (hn : n < m.size)
    (hlist : m.descendants top = earlier ++ (m.descendants n ++ later)) :
    m.leavesBefore top n = earlier.filter m.isLeaf := by
  have hnodup := h.nodup_descendants htop.lt_size
  rw [hlist, h.descendants_eq hn, List.cons_append] at hnodup
  have hother : ∀ x ∈ earlier, (x != n) = true := fun x hx =>
    bne_iff_ne.2 ((List.nodup_append.1 hnodup).2.2 x hx n (List.mem_cons_self ..))
  rw [leavesBefore, hlist, h.descendants_eq hn, List.cons_append, List.takeWhile_append_of_pos hother,
    List.takeWhile_cons_of_neg (by simp), List.append_nil]

/-! ## First children -/

/-- Going down by first children leads to a leaf, with which the node starts, or to an empty composite, which stands where
the node does. -/
theorem WellFormed.exists_totalStart_eq (h : m.WellFormed) (n : NodeId) : n < m.size → m.isRoot n = false →
    ∃ chain bottom, Climbs m.firstChild? n chain ∧ (n :: chain).getLast? = some bottom ∧
      m.totalStart n = (m.leafRange? bottom).elim (m.origin n) (·.start) := by
  induction n using descend h.structured.forms h.structured.grounded with
  | step n ih =>
  intro hn hroot
  have hfirst := h.head?_children n
  cases hleaf : m.isLeaf n with
  | true =>
    obtain ⟨range, hrange⟩ := exists_leafRange? hleaf
    rw [h.children_of_isLeaf hleaf] at hfirst
    exact ⟨[], n, hfirst.symm, rfl, by rw [totalStart_of_leafRange? hrange, hrange, Option.elim_some]⟩
  | false =>
    have hstart := h.totalStart_eq hn hleaf hroot
    rcases hkids : m.children n with _ | ⟨c, after⟩
    · rw [hkids] at hfirst hstart
      have hrange : m.leafRange? n = none := by
        rcases content?_of_inner hn hleaf hroot with ⟨branch, error, hcontent⟩ | ⟨branch, slot, error, hcontent⟩ <;>
          rw [leafRange?, hcontent] <;> rfl
      exact ⟨[], n, hfirst.symm, rfl, by rw [hstart, hrange, origin_of_not_root hroot]; rfl⟩
    · have hc : c ∈ m.children n := by rw [hkids]; exact List.mem_cons_self ..
      have horigin : m.origin c = m.origin n := h.origin_of_split (hkids.trans (List.nil_append _).symm)
      obtain ⟨chain, bottom, hchain, hlast, hbottom⟩ := ih c hc (h.lt_size_of_mem hc) (h.isRoot_of_mem hc)
      rw [hkids] at hfirst hstart
      refine ⟨c :: chain, bottom, ⟨hfirst.symm, hchain⟩, ?_, ?_⟩
      · rw [List.getLast?_cons_cons, hlast]
      · rw [hstart, ← horigin, ← hbottom]
        rfl

/-! ## Extents -/

/-- Where a node starts, stands and ends, by the leaves of the tree below `top`. -/
structure Extent (m : Model) (top n : NodeId) : Prop where
  /-- In the document the leaves before the node are followed by its own. -/
  leaves_in_order : ∃ later, m.leaves top = m.leavesBefore top n ++ (m.leaves n ++ later)
  /-- The search for the end comes to its last step by itself, and more steps change nothing. -/
  end_found : ∃ trail, Climbs m.preceding? (.leave n) trail ∧
    ∀ steps, trail.length < steps → m.endWithin steps n = m.totalEnd n
  /-- So does the search for the place where an empty composite would stand. -/
  place_found : ∃ trail, Climbs m.preceding? (.enter n) trail ∧
    ∀ steps, trail.length < steps → m.emptyWithin steps n = m.emptyOffset n
  /-- So does the search for the start. -/
  start_found : ∃ trail, Climbs m.opening? n trail ∧
    ∀ steps, trail.length < steps → m.startWithin steps n = m.totalStart n
  /-- The node ends with the last leaf that lies in it or before it. -/
  totalEnd : m.totalEnd n = m.endOfLast (m.leavesBefore top n ++ m.leaves n)
  /-- An empty composite in its place stands where the last leaf before it ends. -/
  emptyOffset : m.emptyOffset n = m.endOfLast (m.leavesBefore top n)
  /-- The node starts with the leaf that its first children lead to. If they lead to an empty composite, it starts where
  the last leaf before it ends. -/
  totalStart : ∃ chain bottom, Climbs m.firstChild? n chain ∧ (n :: chain).getLast? = some bottom ∧
    m.totalStart n = (m.leafRange? bottom).elim (m.endOfLast (m.leavesBefore top n)) (·.start)

theorem WellFormed.extent (h : m.WellFormed) (htop : m.Live top) (hloose : m.parent? top = none)
    (hn : n ∈ m.descendants top) (hroot : n ≠ rootId) : m.Extent top n := by
  have hlt := h.lt_size_of_mem_descendants htop.lt_size hn
  have hinner : m.isRoot n = false := Bool.eq_false_iff.2 fun hr => hroot (h.isRoot_iff.1 hr)
  obtain ⟨earlier, later, hlist, horigin⟩ := h.exists_split_descendants htop hloose n hn
  have hbefore := h.leavesBefore_of_split htop hlt hlist
  have hplace : m.origin n = m.endOfLast (m.leavesBefore top n) := by
    rw [endOfLast_eq_lastEnd fun x hx => isLeaf_of_mem_leavesBefore hx, hbefore, horigin]
  have hsearch : ∀ event : WalkEvent, event.node < m.size → ∃ trail, Climbs m.preceding? event trail ∧
      ∀ steps, trail.length < steps → m.offsetWithin steps event = m.offsetWithin m.searchSteps event := by
    intro event hevent
    obtain ⟨trail, htrail, -, hsteps⟩ := h.concludes_offset hevent
    exact ⟨trail, htrail, hsteps⟩
  refine ⟨⟨later.filter m.isLeaf, ?_⟩, hsearch (.leave n) hlt, hsearch (.enter n) hlt, ?_, ?_, ?_, ?_⟩
  · rw [hbefore, leaves, leaves, hlist, List.filter_append, List.filter_append]
  · obtain ⟨trail, htrail, -, hsteps⟩ := h.concludes_start hlt
    exact ⟨trail, htrail, hsteps⟩
  · rw [h.totalEnd_eq_lastEnd n hlt hinner, ← origin_of_not_root hinner, horigin, ← hbefore, ← lastEnd_append,
      endOfLast_eq_lastEnd]
    intro x hx
    rcases List.mem_append.1 hx with hx | hx
    · exact isLeaf_of_mem_leavesBefore hx
    · exact isLeaf_of_mem_leaves hx
  · rw [← origin_of_not_root hinner, hplace]
  · rw [← hplace]
    exact h.exists_totalStart_eq n hlt hinner

/-- In every reachable model, whatever the order of its leaves, every live node other than the root starts and ends where
the leaves of its tree say. -/
theorem reachable_extent (h : Reachable text m) (hn : m.Live n) (hroot : n ≠ rootId) :
    ∃ top, (m.Live top ∧ m.parent? top = none) ∧ n ∈ m.descendants top ∧ m.Extent top n := by
  have hwf := h.coherent.toWellFormed
  obtain ⟨top, ⟨⟨htop, hloose⟩, hmem⟩, -⟩ := hwf.existsUnique_top hn
  exact ⟨top, ⟨htop, hloose⟩, hmem, hwf.extent htop hloose hmem hroot⟩

/-- A composite whose first children lead to an empty one, so that it starts where the leaf before it ends. Its own leaf
stands out of order, so that it ends before that. Beside it a detached tree that ends with an empty composite. -/
theorem reachable_extent_misordered : ∃ m, Reachable "abcd" m ∧ m.leaves rootId = [2, 6] ∧ m.leavesBefore rootId 3 = [2] ∧
    m.totalStart 3 = 3 ∧ m.totalEnd 3 = 1 ∧ m.leavesBefore 7 9 = [8] ∧ m.totalEnd 9 = 3 ∧
    (∃ top, (m.Live top ∧ m.parent? top = none) ∧ 3 ∈ m.descendants top ∧ m.Extent top 3) ∧
    ∃ top, (m.Live top ∧ m.parent? top = none) ∧ 9 ∈ m.descendants top ∧ m.Extent top 9 := by
  have h : Reachable "abcd" (initial "abcd") := .opened (ofText_eq_ok_iff.2 ⟨by decide, rfl⟩)
  have h := h.edited (.newComposite none 0 (some 0)) (by decide) rfl
  have h := h.edited (.newLeaf 2 1 none false none 1) (by decide) rfl
  have h := h.edited (.newComposite none 0 (some 0)) (by decide) rfl
  have h := h.edited (.newComposite none 0 (some 3)) (by decide) rfl
  have h := h.edited (.newComposite none 0 (some 4)) (by decide) rfl
  have h := h.edited (.newLeaf 0 1 none false none 3) (by decide) rfl
  have h := h.edited (.newComposite none 0 none) (by decide) rfl
  have h := h.edited (.newLeaf 1 2 none false none 7) (by decide) rfl
  have h := h.edited (.newComposite none 0 (some 7)) (by decide) rfl
  exact ⟨_, h, rfl, rfl, rfl, rfl, rfl, rfl, reachable_extent h ⟨_, rfl, rfl⟩ (by decide),
    reachable_extent h ⟨_, rfl, rfl⟩ (by decide)⟩

end SyntaxTree.Model
