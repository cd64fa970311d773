import SyntaxTree.Model.Lookup
import SyntaxTree.Proofs.DumpLines

/-!
# A checked model is safe to read

Most questions about a node can be at fault: a range may end before it starts, a text may be cut inside a character, a
dump may leave more nodes than it entered. In a model that passes the check none of these happens, for any node of the
tree (`reachable_safeToRead`), since a check of the leaves says where all nodes stand (`Placement`).

One fault remains that no check looks for. A dump indents its lines, and fails if it shows a node that lies too deep for
that. The check is about the order of leaves, so it passes a tree of any depth (`no_dump_of_deep_tree`).
-/

namespace SyntaxTree.Model

variable {m : Model} {n p c : NodeId}

/-! ## Texts -/

/-- The text of a range between characters. -/
theorem Inside.textOf {range : TextRange} (hr : m.Inside range n) : ∃ text, m.textOf range = .ok text := by
  obtain ⟨between, hslice⟩ := Text.exists_slice? hr.start_boundary hr.stop_boundary range.start_le_stop
  exact ⟨String.ofList between, textOf_eq_ok hslice⟩

/-! ## All questions -/

/-- Every question about the node has an answer, but for dumps of nodes that lie too deep. -/
structure Answers (m : Model) (n : NodeId) : Prop where
  totalRange : ∃ range, m.totalRange n = .ok range
  totalLength : ∃ length, m.totalLength n = .ok length
  range : ∃ range, m.range n = .ok range
  offset : ∃ offset, m.offset n = .ok offset
  length : ∃ length, m.length n = .ok length
  totalText : ∃ text, m.totalText n = .ok text
  text : ∃ text, m.nodeText n = .ok text
  label : ∃ label, m.label n = .ok label
  dump_iff : ∀ showHidden, (∃ text, m.dump n showHidden = .ok text) ↔
    ∀ x ∈ m.shown showHidden (m.descendants n), 2 * m.levelBelow n x < UInt16.size
  dump_fault : ∀ showHidden fault, m.dump n showHidden = .error fault → fault = .indentOverflow

theorem WellFormed.answers_of_placed (h : m.WellFormed) (hn : n < m.size) (hp : m.Placed n) : m.Answers n := by
  obtain ⟨total, htotal, htotalInside⟩ := h.totalRange_of_placed hn hp
  obtain ⟨range, hrange, hrangeInside⟩ := h.range_of_placed hn hp
  obtain ⟨totalText, htotalText⟩ := htotalInside.textOf
  obtain ⟨text, htext⟩ := hrangeInside.textOf
  have hordered : ∀ x ∈ m.descendants n, m.totalStart x ≤ m.totalEnd x := fun x hx =>
    (h.le_of_placed (h.lt_size_of_mem_descendants hn hx) (h.forall_descendants h.placed_child n hn hp x hx)).2
  refine ⟨⟨total, htotal⟩, ?_, ⟨range, hrange⟩, ?_, ?_, ⟨totalText, ?_⟩, ⟨text, ?_⟩, ?_, fun showHidden => ?_,
    fun showHidden fault hfault => ((h.dump_eq_error_iff_of_ordered hn hordered).1 hfault).1⟩
  · unfold Model.totalLength
    rw [if_pos (h.le_of_placed hn hp).2]
    exact ⟨_, rfl⟩
  · unfold Model.offset
    rw [hrange]
    exact ⟨_, rfl⟩
  · unfold Model.length
    rw [hrange]
    exact ⟨_, rfl⟩
  · unfold Model.totalText
    rw [htotal, ok_bind, htotalText]
  · unfold Model.nodeText
    rw [hrange, ok_bind, htext]
  · unfold Model.label
    rw [htotal]
    exact ⟨_, rfl⟩
  · rw [h.exists_dump_iff hn]
    exact forall₂_congr fun x hx => and_iff_right (hordered x (List.mem_filter.1 hx).1)

/-- A model whose tree can be read: all questions have answers, nodes lie inside their parents and follow each other in
the text, and the places of syntax errors can be shown. -/
structure SafeToRead (m : Model) : Prop where
  answers : ∀ n ∈ m.descendants rootId, m.Answers n
  /-- A child lies inside its parent. -/
  nested : ∀ p ∈ m.descendants rootId, ∀ c ∈ m.children p, ∃ outer inner, m.totalRange p = .ok outer ∧
    m.totalRange c = .ok inner ∧ outer.start ≤ inner.start ∧ inner.stop ≤ outer.stop
  /-- Without hidden leaves a node is no larger. -/
  trimmed : ∀ n ∈ m.descendants rootId, ∃ outer inner, m.totalRange n = .ok outer ∧ m.range n = .ok inner ∧
    outer.start ≤ inner.start ∧ inner.stop ≤ outer.stop
  /-- Nodes that come later in the document do not start earlier. -/
  forward : (m.descendants rootId).Pairwise fun a b => m.totalStart a ≤ m.totalStart b
  /-- There are diagnostics, and all of them lie in the text, between characters. -/
  diagnostics : ∃ found, m.diagnostics = .ok found ∧ ∀ d ∈ found, d.range.stop ≤ m.textLength ∧
    Text.isBoundary m.chars d.range.start = true ∧ Text.isBoundary m.chars d.range.stop = true

/-- Every node that is placed has its diagnostic, if any. -/
theorem WellFormed.exists_diagnostic? (h : m.WellFormed) (hn : n < m.size) (hp : m.Placed n) :
    ∃ found, m.diagnostic? n = .ok found ∧ ∀ d ∈ found, m.Inside d.range n := by
  obtain ⟨range, hrange, hinside⟩ := h.range_of_placed hn hp
  unfold diagnostic?
  cases m.syntaxError? n with
  | none => exact ⟨none, rfl, nofun⟩
  | some error =>
    refine ⟨some (error.located range), ?_, fun d hd => ?_⟩
    · simp only
      rw [hrange]
      rfl
    · obtain rfl := Option.some.inj hd
      exact hinside

theorem WellFormed.exists_diagnostics (h : m.WellFormed) (hp : ∀ x ∈ m.descendants rootId, m.Placed x) :
    ∃ found, m.diagnostics = .ok found ∧ ∀ d ∈ found, d.range.stop ≤ m.textLength ∧
      Text.isBoundary m.chars d.range.start = true ∧ Text.isBoundary m.chars d.range.stop = true := by
  have heach : ∀ n ∈ m.syntaxErrors, ∃ found, m.diagnostic? n = .ok found ∧ ∀ d ∈ found, ∃ x, m.Inside d.range x := by
    intro n hn
    have hmem := (List.mem_filter.1 hn).1
    obtain ⟨found, hfound, hinside⟩ :=
      h.exists_diagnostic? (h.lt_size_of_mem_descendants h.labelled.size_pos hmem) (hp n hmem)
    exact ⟨found, hfound, fun d hd => ⟨n, hinside d hd⟩⟩
  obtain ⟨found, hfound, hall⟩ := exists_mapM_eq_ok heach
  refine ⟨found.filterMap id, ?_, fun d hd => ?_⟩
  · unfold Model.diagnostics
    rw [hfound]
    rfl
  · obtain ⟨some?, hmem, hd⟩ := List.mem_filterMap.1 hd
    obtain ⟨x, hinside⟩ := hall some? hmem d hd
    exact ⟨Text.le_byteLength_of_isBoundary hinside.stop_boundary, hinside.start_boundary, hinside.stop_boundary⟩

theorem WellFormed.safeToRead (h : m.WellFormed) (hp : ∀ x ∈ m.descendants rootId, m.Placed x) : m.SafeToRead := by
  have hlt : ∀ x ∈ m.descendants rootId, x < m.size := fun x hx =>
    h.lt_size_of_mem_descendants h.labelled.size_pos hx
  have hroot : m.Placed rootId := hp rootId (h.mem_descendants_self h.labelled.size_pos)
  refine ⟨fun n hn => h.answers_of_placed (hlt n hn) (hp n hn), fun p hmem c hc => ?_, fun n hn => ?_,
    h.pairwise_totalStart rootId h.labelled.size_pos hroot, h.exists_diagnostics hp⟩
  · obtain ⟨hstart, hend⟩ := h.encloses_child (hp p hmem) hc
    have hinner := h.totalRange_eq (h.lt_size_of_mem hc) (h.placed_child hc (hp p hmem))
    exact ⟨_, _, h.totalRange_eq (hlt p hmem) (hp p hmem), hinner, hstart, hend⟩
  · obtain ⟨range, hrange, hinside⟩ := h.range_of_placed (hlt n hn) (hp n hn)
    exact ⟨_, range, h.totalRange_eq (hlt n hn) (hp n hn), hrange, hinside.starts, hinside.stops⟩

/-- Every reachable model that passes the check is safe to read. -/
theorem reachable_safeToRead {text : String} (h : Reachable text m) (hcheck : m.check = .ok ()) : m.SafeToRead :=
  h.coherent.safeToRead (h.coherent.placed_of_check hcheck)

/-- A composite that starts with an empty composite and ends with a hidden leaf and a marked empty one, over a text with
a character of two bytes and a gap that no leaf covers. -/
theorem reachable_safeToRead_gap : ∃ m, Reachable "é b" m ∧ m.check = .ok () ∧
    m.descendants rootId = [0, 1, 2, 3, 4, 6] ∧ m.totalRange 1 = .ok ⟨0, 3, by decide⟩ ∧
    m.range 1 = .ok ⟨0, 2, by decide⟩ ∧ m.totalRange 6 = .ok ⟨3, 3, by decide⟩ ∧ m.totalText 3 = .ok "é" ∧
    m.diagnostics = .ok [⟨"missing", none, ⟨3, 3, by decide⟩⟩] ∧ m.SafeToRead := by
  have h : Reachable "é b" (initial "é b") := .opened (ofText_eq_ok_iff.2 ⟨by decide, rfl⟩)
  have h := h.edited (.newComposite none 0 (some 0)) (by decide) rfl
  have h := h.edited (.newComposite none 0 (some 1)) (by decide) rfl
  have h := h.edited (.newLeaf 0 2 none false none 1) (by decide) rfl
  have h := h.edited (.newLeaf 2 1 none true none 1) (by decide) rfl
  have h := h.edited (.newComposite none 0 (some 1)) (by decide) rfl
  have h := h.edited (.setSyntaxError 5 ⟨"missing", none, []⟩) (by decide) rfl
  exact ⟨_, h, rfl, rfl, rfl, rfl, rfl, rfl, rfl, reachable_safeToRead h rfl⟩

/-- A tree without leaves passes the check. If its last node lies one level too deep to be indented, there is no dump. -/
theorem no_dump_of_deep_tree : ∃ m, Reachable "" m ∧ m.check = .ok () ∧
    ∀ showHidden, m.dump rootId showHidden = .error .indentOverflow := by
  obtain ⟨m, h, hchain, -, hcomposites⟩ := exists_chain (show (initial "").textLength < UInt32.size by decide) 32768
  have hwell := h.coherent.toWellFormed
  have hsize := hwell.labelled.size_pos
  have hordered : ∀ x ∈ m.descendants rootId, m.totalStart x ≤ m.totalEnd x := fun x hx =>
    h.totalStart_le_totalEnd_of_empty (hwell.lt_size_of_mem_descendants hsize hx)
  have hsequence : m.LeavesInSequence := by
    have hleaves : m.leaves rootId = [] := List.filter_eq_nil_iff.2 fun x hx => by
      rw [hcomposites x (hchain.le_of_mem hwell hx)]
      exact Bool.false_ne_true
    rw [LeavesInSequence, hleaves]
    exact .nil
  obtain ⟨hmem, -, hlevel⟩ := hchain.levelBelow_root hwell (Nat.le_refl _)
  have hvisible : m.isHidden 32768 = false := Bool.eq_false_iff.2 fun hhidden => by
    have hleaf := isLeaf_of_isHidden hhidden
    rw [hcomposites 32768 (Nat.le_refl _)] at hleaf
    cases hleaf
  refine ⟨m, h, h.coherent.check_decides.passes hsequence, fun showHidden =>
    (hwell.dump_eq_error_iff_of_ordered hsize hordered).2 ⟨rfl, 32768, List.mem_filter.2 ⟨hmem, ?_⟩, ?_⟩⟩
  · rw [hvisible]
    rfl
  · rw [hlevel]

end SyntaxTree.Model
