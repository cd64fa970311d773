import SyntaxTree.Proofs.Losslessness

/-!
# What is found at an offset

Looking up an offset goes down to the first child that covers it and never turns back. In a consistent tree nothing is
missed that way: `reachable_lookup` says that the node found lies below every other node that covers the offset, so it is
the innermost one, and that the leaf found is the only leaf that covers the offset. Gaps between leaves, leaves without
text and empty composites that stretch their parent need no mention; all that counts is that children follow each other
and lie inside their parent.

`Covers` is the rule in the words of ranges. For an offset of the text it asks for one byte, `byteAt`, which at the end of
the text is the last one, and that is how the search is followed. Past the end of the text nothing covers anything.
-/

namespace SyntaxTree.Model

variable {m : Model} {text : String} {n x found leaf : NodeId} {offset : Nat}

/-! ## Covering -/

/-- The total range of the node is not empty, and the offset lies in it or ends it together with the text. -/
def Covers (m : Model) (offset : Nat) (n : NodeId) : Prop :=
  ∃ range, m.totalRange n = .ok range ∧ range.start < range.stop ∧
    (range.start ≤ offset ∧ offset < range.stop ∨ offset = m.textLength ∧ range.stop = m.textLength)

/-- The rule is the one that the search goes by. -/
theorem covers_iff : m.Covers offset n ↔ m.covers offset n = .ok true := by
  unfold Covers covers
  cases hrange : m.totalRange n with
  | error fault => exact ⟨nofun, nofun⟩
  | ok range =>
    have hle := range.start_le_stop
    rw [ok_bind]
    simp only [Except.ok.injEq, exists_eq_left', pure, Except.pure, TextRange.isEmpty, TextRange.contains,
      Bool.and_eq_true, Bool.or_eq_true, Bool.not_eq_eq_eq_not, Bool.not_true, beq_eq_false_iff_ne, beq_iff_eq,
      decide_eq_true_eq]
    exact and_congr_left fun _ => ⟨Nat.ne_of_lt, Nat.lt_of_le_of_ne hle⟩

/-- A placed node covers an offset of the text if it holds the byte that the offset is about. -/
theorem WellFormed.covers_iff_holds (h : m.WellFormed) (hn : n < m.size) (hp : m.Placed n)
    (hoffset : offset ≤ m.textLength) : m.Covers offset n ↔ m.Holds (m.byteAt offset) n := by
  rw [covers_iff, h.covers_eq hn hp hoffset, Except.ok.injEq, decide_eq_true_iff]

/-- Past the end of the text nothing is covered. -/
theorem WellFormed.not_covers (h : m.WellFormed) (hn : n < m.size) (hoffset : m.textLength < offset) :
    ¬ m.Covers offset n := by
  rintro ⟨range, hrange, -, hcovers⟩
  have hend : m.totalEnd n ≤ m.textLength := Text.le_byteLength_of_isBoundary (h.isBoundary_totalEnd hn)
  rw [← (TextRange.between_eq_ok_iff.1 hrange).2] at hend
  omega

/-! ## The innermost node -/

/-- The node is the root or covers the offset, and all other nodes that cover the offset are above it. -/
structure Innermost (m : Model) (offset : Nat) (n : NodeId) : Prop where
  in_tree : n ∈ m.descendants rootId
  covers : m.Covers offset n ∨ n = rootId
  deepest : ∀ x ∈ m.descendants rootId, x ≠ rootId → m.Covers offset x → x = n ∨ x ∈ m.ancestors n

/-- Every offset of the text has an innermost node, and it is found. -/
theorem WellFormed.exists_innermostAt? (h : m.WellFormed) (hp : ∀ x ∈ m.descendants rootId, m.Placed x)
    (hoffset : offset ≤ m.textLength) : ∃ found, m.innermostAt? offset = .ok (some found) ∧ m.Innermost offset found := by
  have hsize := h.labelled.size_pos
  have hholds : ∀ x ∈ m.descendants rootId, m.Covers offset x ↔ m.Holds (m.byteAt offset) x := fun x hx =>
    h.covers_iff_holds (h.lt_size_of_mem_descendants hsize hx) (hp x hx) hoffset
  obtain ⟨found, hfound, hmem, hcovers, hdeepest⟩ := h.exists_innermostWithin hoffset m.size rootId hsize
    (Nat.le_add_right ..) (hp rootId (h.mem_descendants_self hsize))
  refine ⟨found, ?_, hmem, ?_, fun x hx _ hxcovers => ?_⟩
  · unfold innermostAt?
    rw [if_neg (Nat.not_lt_of_le hoffset), hfound]
    rfl
  · exact hcovers.symm.imp_left (hholds found hmem).2
  · exact List.mem_cons.1 (hdeepest x hx ((hholds x hx).1 hxcovers))

theorem innermostAt?_of_lt (hoffset : m.textLength < offset) : m.innermostAt? offset = .ok none := by
  unfold innermostAt?
  rw [if_pos hoffset]
  rfl

/-! ## The leaf -/

/-- Nothing is below a leaf. -/
theorem WellFormed.not_mem_ancestors_of_isLeaf (h : m.WellFormed) (hlt : leaf < m.size) (hleaf : m.isLeaf leaf = true) :
    leaf ∉ m.ancestors n := by
  intro habove
  have hn : n ∈ m.descendants leaf := (h.mem_descendants_iff hlt).2 (Or.inr habove)
  rw [h.descendants_eq hlt, h.children_of_isLeaf hleaf, List.flatMap_nil, List.mem_singleton] at hn
  rw [hn] at habove
  exact (climbs_ancestors h.structured.forms h.structured.grounded leaf).not_mem habove

/-- A leaf covers the offset exactly if it is the innermost node. -/
theorem WellFormed.covers_leaf_iff (h : m.WellFormed) (hfound : m.Innermost offset found)
    (hleaf : leaf ∈ m.leaves rootId) : m.Covers offset leaf ↔ leaf = found := by
  obtain ⟨hmem, hisLeaf⟩ := List.mem_filter.1 hleaf
  have hroot : leaf ≠ rootId := by
    rintro rfl
    rw [h.isLeaf_root] at hisLeaf
    cases hisLeaf
  constructor
  · intro hcovers
    have hlt := h.lt_size_of_mem_descendants h.labelled.size_pos hmem
    exact (hfound.deepest leaf hmem hroot hcovers).resolve_right (h.not_mem_ancestors_of_isLeaf hlt hisLeaf)
  · rintro rfl
    exact hfound.covers.resolve_right hroot

/-- The leaf at an offset of the text is the innermost node, if that is a leaf. -/
theorem leafAt?_of_innermostAt? {answer : Option NodeId} (hanswer : m.innermostAt? offset = .ok answer) :
    m.leafAt? offset = .ok (answer.filter m.isLeaf) := by
  unfold leafAt?
  rw [hanswer]
  rfl

/-- Every leaf that covers the offset is found, and nothing else. -/
theorem WellFormed.exists_leafAt?_iff (h : m.WellFormed) (hp : ∀ x ∈ m.descendants rootId, m.Placed x) (offset : Nat) :
    ∃ answer, m.leafAt? offset = .ok answer ∧
      ∀ leaf, answer = some leaf ↔ leaf ∈ m.leaves rootId ∧ m.Covers offset leaf := by
  rcases Nat.lt_or_ge m.textLength offset with hpast | hoffset
  · refine ⟨none, leafAt?_of_innermostAt? (innermostAt?_of_lt hpast), fun leaf => ⟨nofun, fun hleaf => ?_⟩⟩
    have hlt := h.lt_size_of_mem_descendants h.labelled.size_pos (List.mem_filter.1 hleaf.1).1
    exact absurd hleaf.2 (h.not_covers hlt hpast)
  · obtain ⟨found, hfound, hinnermost⟩ := h.exists_innermostAt? hp hoffset
    refine ⟨_, leafAt?_of_innermostAt? hfound, fun leaf => ?_⟩
    rw [Option.filter_eq_some_iff, Option.some.injEq]
    constructor
    · rintro ⟨rfl, hleaf⟩
      have hmem : found ∈ m.leaves rootId := List.mem_filter.2 ⟨hinnermost.in_tree, hleaf⟩
      exact ⟨hmem, (h.covers_leaf_iff hinnermost hmem).2 rfl⟩
    · rintro ⟨hmem, hcovers⟩
      exact ⟨((h.covers_leaf_iff hinnermost hmem).1 hcovers).symm, (List.mem_filter.1 hmem).2⟩

/-- In a reachable model that passes the check, looking up an offset gives the innermost node unless the offset is past the
end of the text, and looking for a leaf gives the one leaf that covers the offset, or none if no leaf does. -/
theorem reachable_lookup (h : Reachable text m) (hcheck : m.check = .ok ()) (offset : Nat) :
    (∃ answer, m.innermostAt? offset = .ok answer ∧ (answer = none ↔ m.textLength < offset) ∧
      ∀ n ∈ answer, m.Innermost offset n) ∧
    ∃ answer, m.leafAt? offset = .ok answer ∧ (answer = none ↔ ∀ leaf ∈ m.leaves rootId, ¬ m.Covers offset leaf) ∧
      ∀ leaf, answer = some leaf ↔ leaf ∈ m.leaves rootId ∧ m.Covers offset leaf := by
  have hwf := h.coherent.toWellFormed
  have hplaced := h.coherent.placed_of_check hcheck
  refine ⟨?_, ?_⟩
  · rcases Nat.lt_or_ge m.textLength offset with hpast | hoffset
    · exact ⟨none, innermostAt?_of_lt hpast, ⟨fun _ => hpast, fun _ => rfl⟩, nofun⟩
    · obtain ⟨found, hfound, hinnermost⟩ := hwf.exists_innermostAt? hplaced hoffset
      refine ⟨some found, hfound, ⟨nofun, fun hpast => absurd hoffset (Nat.not_le_of_lt hpast)⟩, fun n hn => ?_⟩
      obtain rfl := Option.some.inj hn
      exact hinnermost
  · obtain ⟨answer, hanswer, hleaf⟩ := hwf.exists_leafAt?_iff hplaced offset
    refine ⟨answer, hanswer, ?_, hleaf⟩
    rw [Option.eq_none_iff_forall_ne_some]
    exact forall_congr' fun leaf => (not_congr (hleaf leaf)).trans not_and

/-- A composite with a gap between its leaves, a leaf without text and an empty composite, and another one that ends with
the text and an empty composite. In the gap the first composite is found and no leaf, at the end of the text the last leaf
with text. -/
theorem reachable_lookup_gap : ∃ m, Reachable "abcde" m ∧ m.check = .ok () ∧ m.children 1 = [2, 3, 4, 5] ∧
    m.children 6 = [7, 8] ∧ m.innermostAt? 1 = .ok (some 1) ∧ m.Innermost 1 1 ∧ m.leafAt? 1 = .ok none ∧
    (∀ leaf ∈ m.leaves rootId, ¬ m.Covers 1 leaf) ∧ m.leafAt? 5 = .ok (some 7) ∧ m.Covers 5 7 ∧
    m.innermostAt? 6 = .ok none := by
  have h : Reachable "abcde" (initial "abcde") := .opened (ofText_eq_ok_iff.2 ⟨by decide, rfl⟩)
  have h := h.edited (.newComposite none 0 (some 0)) (by decide) rfl
  have h := h.edited (.newLeaf 0 1 none false none 1) (by decide) rfl
  have h := h.edited (.newLeaf 1 0 none false none 1) (by decide) rfl
  have h := h.edited (.newLeaf 2 1 none false none 1) (by decide) rfl
  have h := h.edited (.newComposite none 0 (some 1)) (by decide) rfl
  have h := h.edited (.newComposite none 0 (some 0)) (by decide) rfl
  have h := h.edited (.newLeaf 4 1 none true none 6) (by decide) rfl
  have h := h.edited (.newComposite none 0 (some 6)) (by decide) rfl
  obtain ⟨⟨inner, hinner, -, hinnermost⟩, gap, hgap, huncovered, -⟩ := reachable_lookup h rfl 1
  obtain rfl : some 1 = inner := Except.ok.inj hinner
  obtain rfl : none = gap := Except.ok.inj hgap
  obtain ⟨-, last, hlast, -, hcovered⟩ := reachable_lookup h rfl 5
  obtain rfl : some 7 = last := Except.ok.inj hlast
  exact ⟨_, h, rfl, rfl, rfl, hinner, hinnermost 1 rfl, hgap, huncovered.1 rfl, hlast, ((hcovered 7).1 rfl).2, rfl⟩

end SyntaxTree.Model
