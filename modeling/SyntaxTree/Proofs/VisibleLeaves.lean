import SyntaxTree.Proofs.Reachable
import SyntaxTree.Proofs.Spans

/-!
# The visible leaves at both ends

The range of a node goes from its first visible leaf to its last one, and the two are looked for in different ways: the
first on a walk from the front, the last with a stack of nodes from the back. The searches agree (`reachable_visibleEnds`),
on every tree and also on nodes that were replaced: both look at the same list of visible leaves, so they fail together
or not at all, and a range that starts with a visible leaf never has to do without a last one.
-/

namespace SyntaxTree.Model

variable {m : Model} {text : String} {n : NodeId}

/-- The two searches of a node agree on its visible leaves, and these decide its range. -/
structure VisibleEnds (m : Model) (n : NodeId) : Prop where
  /-- The search from the back never has anything but nodes of the store on its stack, and comes to its last step by
  itself. -/
  concludes : Concludes m.unstacked? (fun stack => ∀ x ∈ stack, x < m.size) m.lastVisibleWithin [n] (m.lastVisibleLeaf? n)
  /-- It finds the last of the visible leaves that a walk meets. -/
  last : m.lastVisibleLeaf? n = (m.visibleLeaves n).getLast?
  none_iff : m.lastVisibleLeaf? n = none ↔ ∀ leaf ∈ m.leaves n, m.isHidden leaf = true
  /-- Where the search from the front finds a leaf, so does the one from the back. -/
  both_found : ∀ {first}, m.firstVisibleLeaf? n = some first → ∃ last, m.lastVisibleLeaf? n = some last
  /-- The range starts with the first visible leaf and ends with the last one. -/
  range_visible : ∀ {first last}, (m.visibleLeaves n).head? = some first → (m.visibleLeaves n).getLast? = some last →
    ∃ opening closing, m.leafRange? first = some opening ∧ m.leafRange? last = some closing ∧
      m.range n = TextRange.between opening.start closing.stop
  range_hidden : m.visibleLeaves n = [] → m.range n = m.totalRange n

theorem visibleLeaves_eq_nil_iff : m.visibleLeaves n = [] ↔ ∀ leaf ∈ m.leaves n, m.isHidden leaf = true := by
  rw [visibleLeaves, List.filter_eq_nil_iff]
  simp only [Bool.not_eq_true', Bool.not_eq_false]

theorem WellFormed.concludes_lastVisible (h : m.WellFormed) (hn : n < m.size) :
    Concludes m.unstacked? (fun stack => ∀ x ∈ stack, x < m.size) m.lastVisibleWithin [n] (m.lastVisibleLeaf? n) := by
  have hstack : ∀ x ∈ [n], x < m.size := List.forall_mem_singleton.2 hn
  obtain ⟨trail, htrail, hlength, -⟩ := h.exists_unstacking [n] hstack
  rw [List.flatMap_singleton] at hlength
  exact htrail.concludes lastVisibleWithin_succ (Nat.lt_succ_of_le (Nat.le_trans hlength (h.length_descendants_le hn)))
    h.lt_size_of_unstacked? hstack

/-- A range that starts with a visible leaf ends with one. -/
theorem WellFormed.range_of_visible (h : m.WellFormed) (hn : n < m.size) {first last : NodeId}
    (hfirst : (m.visibleLeaves n).head? = some first) (hlast : (m.visibleLeaves n).getLast? = some last) :
    m.range n = TextRange.between (m.totalStart first) (m.totalEnd last) := by
  obtain ⟨rest, hvisible⟩ := List.head?_eq_some_iff.1 hfirst
  have hrange := h.range_eq hn
  rw [hvisible, List.getLast?_cons, ← List.getLastD_eq_getLast?] at hlast
  rw [hvisible] at hrange
  rw [← Option.some.inj hlast]
  exact hrange

theorem WellFormed.visibleEnds (h : m.WellFormed) (hn : n < m.size) : m.VisibleEnds n := by
  have hlastEq := h.lastVisibleLeaf?_eq hn
  have hleaf : ∀ x ∈ m.visibleLeaves n, ∃ range, m.leafRange? x = some range := fun x hx =>
    exists_leafRange? (List.mem_filter.1 (mem_visibleLeaves.1 hx).1).2
  refine ⟨h.concludes_lastVisible hn, hlastEq, ?_, fun {first} hfirst => ?_, fun {first last} hfirst hlast => ?_,
    fun hnone => ?_⟩
  · rw [hlastEq, List.getLast?_eq_none_iff, visibleLeaves_eq_nil_iff]
  · rw [firstVisibleLeaf?_eq] at hfirst
    rw [hlastEq]
    exact ⟨_, List.getLast?_eq_some_getLast (List.ne_nil_of_mem (List.mem_of_mem_head? hfirst))⟩
  · obtain ⟨opening, hopening⟩ := hleaf first (List.mem_of_mem_head? hfirst)
    obtain ⟨closing, hclosing⟩ := hleaf last (List.mem_of_getLast? hlast)
    refine ⟨opening, closing, hopening, hclosing, ?_⟩
    rw [h.range_of_visible hn hfirst hlast, totalStart_of_leafRange? hopening, totalEnd_of_leafRange? hclosing]
  · rw [h.range_eq hn, hnone]

/-- In every reachable model the two searches agree on the visible leaves of every node, and the range of the node goes
from the first to the last of them. -/
theorem reachable_visibleEnds (h : Reachable text m) (hn : n < m.size) : m.VisibleEnds n :=
  h.coherent.toWellFormed.visibleEnds hn

/-- A composite with hidden leaves on both sides of its two visible ones, the last of them marked, between empty
composites of which one was replaced; and two detached composites, one without a visible leaf and one whose leaves are
out of order. -/
theorem reachable_visibleEnds_between_hidden : ∃ m, Reachable "abcdef" m ∧ m.leaves 1 = [3, 5, 6, 7] ∧
    m.visibleLeaves 1 = [5, 6] ∧ m.totalRange 1 = .ok ⟨0, 5, by decide⟩ ∧ m.range 1 = .ok ⟨1, 4, by decide⟩ ∧
    m.VisibleEnds 1 ∧ m.isStale 8 = true ∧ m.VisibleEnds 8 ∧ m.leaves 10 = [11] ∧ m.lastVisibleLeaf? 10 = none ∧
    m.VisibleEnds 10 ∧ m.visibleLeaves 12 = [13, 14] ∧ m.range 12 = .error .reversedRange ∧ m.VisibleEnds 12 := by
  have h : Reachable "abcdef" (initial "abcdef") := .opened (ofText_eq_ok_iff.2 ⟨by decide, rfl⟩)
  have h := h.edited (.newComposite none 0 (some 0)) (by decide) rfl
  have h := h.edited (.newComposite none 0 (some 1)) (by decide) rfl
  have h := h.edited (.newLeaf 0 1 none true none 1) (by decide) rfl
  have h := h.edited (.newComposite none 0 (some 1)) (by decide) rfl
  have h := h.edited (.newLeaf 1 1 none false none 4) (by decide) rfl
  have h := h.edited (.newLeaf 3 1 none false none 4) (by decide) rfl
  have h := h.edited (.newLeaf 4 1 none true (some ⟨"unexpected", none, []⟩) 4) (by decide) rfl
  have h := h.edited (.newComposite none 0 (some 1)) (by decide) rfl
  have h := h.edited (.setSyntaxError 8 ⟨"missing", none, []⟩) (by decide) rfl
  have h := h.edited (.newComposite none 0 none) (by decide) rfl
  have h := h.edited (.newLeaf 2 1 none true none 10) (by decide) rfl
  have h := h.edited (.newComposite none 0 none) (by decide) rfl
  have h := h.edited (.newLeaf 5 1 none false none 12) (by decide) rfl
  have h := h.edited (.newLeaf 0 1 none false none 12) (by decide) rfl
  exact ⟨_, h, rfl, rfl, rfl, rfl, reachable_visibleEnds h (by decide), rfl, reachable_visibleEnds h (by decide), rfl, rfl,
    reachable_visibleEnds h (by decide), rfl, rfl, reachable_visibleEnds h (by decide)⟩

end SyntaxTree.Model
