import Mathlib.Algebra.Ring.Nat
import SyntaxTree.Model.Lookup
import SyntaxTree.Proofs.Kinship
import SyntaxTree.Proofs.Placement

/-!
# Trees that lose nothing

If the leaves of a consistent tree are together as long as the text, there is no room for gaps between them: the first
starts with the text, each one starts where the one before it ends, and the last one ends with the text. This is
`Seamless`. It is a matter of the whole list of leaves, but it splits with the list, so it passes down to the leaves of
every node (`Filled`). Then the text of a node is that of its leaves, one after the other, also where the node begins or
ends with empty composites; and every byte of the text is found in a leaf.

Looking up an offset goes down from the root to the first child that covers it, which is the only one, and stops where no
child does (`exists_innermostWithin`). In a filled composite there always is a child to go on with, so it stops at a leaf.
-/

namespace SyntaxTree.Model

variable {m : Model} {n p c x : NodeId} {offset byte : Nat} {ids xs ys : List NodeId}

/-! ## Leaves without gaps -/

/-- Leaves that follow each other without a gap, the first of them at `offset`. -/
def Seamless (m : Model) : Nat → List NodeId → Prop
  | _, [] => True
  | offset, leaf :: leaves => m.totalStart leaf = offset ∧ m.Seamless (m.totalEnd leaf) leaves

theorem seamless_append :
    m.Seamless offset (xs ++ ys) ↔ m.Seamless offset xs ∧ m.Seamless (m.lastEnd offset xs) ys := by
  induction xs generalizing offset with
  | nil => exact ⟨fun h => ⟨trivial, h⟩, fun h => h.2⟩
  | cons x xs ih => rw [List.cons_append, Seamless, Seamless, ih, lastEnd_cons, and_assoc]

theorem Seamless.ordered (hseamless : m.Seamless offset ids) : m.Ordered offset ids := by
  induction ids generalizing offset with
  | nil => trivial
  | cons x ids ih => exact ⟨Nat.le_of_eq hseamless.1.symm, ih hseamless.2⟩

/-- Number of bytes that the leaves cover. -/
def covered (m : Model) (ids : List NodeId) : Nat :=
  (ids.map fun x => m.totalEnd x - m.totalStart x).sum

theorem covered_cons (x : NodeId) (ids : List NodeId) :
    m.covered (x :: ids) = m.totalEnd x - m.totalStart x + m.covered ids := by
  rw [covered, List.map_cons, List.sum_cons, covered]

/-- Leaves that follow each other cover no more than what they span. -/
theorem Ordered.covered_le (hids : ∀ x ∈ ids, m.isLeaf x = true) (hordered : m.Ordered offset ids) :
    offset + m.covered ids ≤ m.lastEnd offset ids := by
  induction ids generalizing offset with
  | nil => exact Nat.le_refl offset
  | cons x ids ih =>
    have hx := totalStart_le_totalEnd_of_leaf (hids x (List.mem_cons_self ..))
    have hrest := ih (fun y hy => hids y (List.mem_cons_of_mem _ hy)) hordered.2
    have hstart := hordered.1
    rw [lastEnd_cons, covered_cons]
    omega

/-- If they cover all of it there is no gap. -/
theorem Ordered.seamless (hids : ∀ x ∈ ids, m.isLeaf x = true) (hordered : m.Ordered offset ids)
    (hfull : m.lastEnd offset ids ≤ offset + m.covered ids) : m.Seamless offset ids := by
  induction ids generalizing offset with
  | nil => trivial
  | cons x ids ih =>
    have hrestLeaf : ∀ y ∈ ids, m.isLeaf y = true := fun y hy => hids y (List.mem_cons_of_mem _ hy)
    have hx := totalStart_le_totalEnd_of_leaf (hids x (List.mem_cons_self ..))
    have hrest := hordered.2.covered_le hrestLeaf
    have hstart := hordered.1
    rw [lastEnd_cons, covered_cons] at hfull
    exact ⟨by omega, ih hrestLeaf hordered.2 (by omega)⟩

/-- Leaves without gaps hold every byte that they span. -/
theorem Seamless.exists_holding (hseamless : m.Seamless offset ids) (hfrom : offset ≤ byte)
    (hto : byte < m.lastEnd offset ids) : ∃ x ∈ ids, m.totalStart x ≤ byte ∧ byte < m.totalEnd x := by
  induction ids generalizing offset with
  | nil => exact absurd hfrom (Nat.not_le_of_lt hto)
  | cons x ids ih =>
    obtain ⟨hstart, hrest⟩ := hseamless
    by_cases hbyte : byte < m.totalEnd x
    · exact ⟨x, List.mem_cons_self .., by omega, hbyte⟩
    · rw [lastEnd_cons] at hto
      obtain ⟨y, hy, hholds⟩ := ih hrest (Nat.le_of_not_lt hbyte) hto
      exact ⟨y, List.mem_cons_of_mem _ hy, hholds⟩

/-! ## Filled nodes -/

/-- The leaves of the node span it without a gap. -/
structure Filled (m : Model) (n : NodeId) : Prop where
  seamless : m.Seamless (m.origin n) (m.leaves n)
  ends : m.lastEnd (m.origin n) (m.leaves n) = m.totalEnd n

theorem Filled.placed (hf : m.Filled n) : m.Placed n :=
  hf.seamless.ordered

/-- The children of a filled node are filled. -/
theorem WellFormed.filled_child (h : m.WellFormed) (hc : c ∈ m.children p) (hf : m.Filled p) : m.Filled c := by
  obtain ⟨before, after, hsplit⟩ := List.append_of_mem hc
  have hroot := h.isRoot_of_mem hc
  have hseamless := hf.seamless
  rw [h.leaves_of_mem hc, hsplit, List.flatMap_append, List.flatMap_cons, seamless_append, seamless_append] at hseamless
  refine ⟨?_, ?_⟩
  · rw [h.origin_of_split hsplit]
    exact hseamless.2.1
  · rw [origin_of_not_root hroot, ← h.totalEnd_eq_lastEnd c (h.lt_size_of_mem hc) hroot]

/-- A filled node starts where it stands, also if it begins with empty composites. -/
theorem WellFormed.totalStart_of_filled (h : m.WellFormed) (n : NodeId) : n < m.size → m.Filled n →
    m.totalStart n = m.origin n := by
  induction n using descend h.structured.forms h.structured.grounded with
  | step n ih =>
  intro hn hf
  cases hroot : m.isRoot n with
  | true =>
    obtain rfl := h.isRoot_iff.1 hroot
    rw [h.span_root.1, h.origin_root]
  | false =>
  cases hleaf : m.isLeaf n with
  | true =>
    have hseamless := hf.seamless
    rw [h.leaves_eq hn, if_pos hleaf] at hseamless
    exact hseamless.1
  | false =>
  rw [h.totalStart_eq hn hleaf hroot, ← origin_of_not_root hroot]
  cases hfirst : (m.children n).head? with
  | none => rfl
  | some c =>
    have hc := List.mem_of_mem_head? hfirst
    obtain ⟨after, hkids⟩ := List.head?_eq_some_iff.1 hfirst
    have horigin := h.origin_of_split (show m.children n = [] ++ c :: after from hkids)
    rw [Option.elim_some, ih c hc (h.lt_size_of_mem hc) (h.filled_child hc hf), horigin]
    rfl

/-- The length of a leaf is that of its range. -/
theorem mapM_length_of_leaves (hids : ∀ x ∈ ids, m.isLeaf x = true) :
    ids.mapM m.length = .ok (ids.map fun x => m.totalEnd x - m.totalStart x) := by
  induction ids with
  | nil => rfl
  | cons x ids ih =>
    have hx := hids x (List.mem_cons_self ..)
    have hlength : m.length x = .ok (m.totalEnd x - m.totalStart x) := by
      unfold Model.length Model.range
      rw [if_pos hx, totalRange_of_leaf hx]
      rfl
    rw [List.mapM_cons, hlength, ok_bind, ih fun y hy => hids y (List.mem_cons_of_mem _ hy)]
    rfl

/-- Leaves that are together as long as the text leave no gap anywhere in the tree. -/
theorem Coherent.filled_of_check (h : m.Coherent) (hcheck : m.check = .ok ())
    (hfull : List.sum <$> (m.leaves rootId).mapM m.length = .ok m.textLength) :
    ∀ x ∈ m.descendants rootId, m.Filled x := by
  have hleaves : ∀ x ∈ m.leaves rootId, m.isLeaf x = true := fun x hx => isLeaf_of_mem_leaves hx
  have hplaced : m.Placed rootId :=
    h.placed_of_check hcheck rootId (h.mem_descendants_self h.labelled.size_pos)
  rw [mapM_length_of_leaves hleaves] at hfull
  have hcovered : m.covered (m.leaves rootId) = m.textLength := Except.ok.inj hfull
  have hend := h.lastEnd_le_totalEnd h.labelled.size_pos
  have hspan := hplaced.covered_le hleaves
  rw [h.span_root.2] at hend
  refine h.forall_descendants h.filled_child rootId h.labelled.size_pos ⟨?_, ?_⟩
  · exact hplaced.seamless hleaves (by omega)
  · rw [h.span_root.2]
    omega

/-! ## Texts -/

/-- The texts of leaves without gaps are the text that they span, in pieces. -/
theorem Labelled.exists_texts (h : m.Labelled) (hoffset : Text.isBoundary m.chars offset = true)
    (hids : ∀ x ∈ ids, m.isLeaf x = true) (hseamless : m.Seamless offset ids) :
    ∃ texts, ids.mapM m.totalText = .ok texts ∧
      Text.slice? m.chars offset (m.lastEnd offset ids) = some (String.join texts).toList := by
  induction ids generalizing offset with
  | nil => exact ⟨[], rfl, Text.slice?_self hoffset⟩
  | cons x ids ih =>
    obtain ⟨rfl, hrest⟩ := hseamless
    have hx := hids x (List.mem_cons_self ..)
    obtain ⟨hstart, hend⟩ := h.isBoundary_leaf hx
    obtain ⟨chars, hslice⟩ := Text.exists_slice? hstart hend (totalStart_le_totalEnd_of_leaf hx)
    obtain ⟨texts, htexts, hjoin⟩ := ih hend (fun y hy => hids y (List.mem_cons_of_mem _ hy)) hrest
    have htext : m.totalText x = .ok (String.ofList chars) := by
      unfold Model.totalText
      rw [totalRange_of_leaf hx, ok_bind]
      exact textOf_eq_ok hslice
    refine ⟨String.ofList chars :: texts, ?_, ?_⟩
    · rw [List.mapM_cons, htext, ok_bind, htexts]
      rfl
    · rw [lastEnd_cons, Text.slice?_append hslice hjoin, String.join_cons]
      simp

/-- The text of a filled node is that of its leaves. -/
theorem WellFormed.totalText_of_filled (h : m.WellFormed) (hn : n < m.size) (hf : m.Filled n) :
    ∃ texts, (m.leaves n).mapM m.totalText = .ok texts ∧ m.totalText n = .ok (String.join texts) := by
  obtain ⟨texts, htexts, hslice⟩ := h.labelled.exists_texts (h.isBoundary_origin n)
    (fun x hx => isLeaf_of_mem_leaves hx) hf.seamless
  refine ⟨texts, htexts, ?_⟩
  rw [hf.ends, ← h.totalStart_of_filled n hn hf] at hslice
  unfold Model.totalText
  rw [h.totalRange_eq hn hf.placed, ok_bind, textOf_eq_ok hslice, String.ofList_toList]

theorem WellFormed.totalText_root (h : m.WellFormed) : m.totalText rootId = .ok m.text := by
  have hrange : m.totalRange rootId = .ok ⟨0, m.textLength, Nat.zero_le _⟩ :=
    TextRange.between_eq_ok_iff.2 ⟨h.span_root.1.symm, h.span_root.2.symm⟩
  unfold Model.totalText
  rw [hrange, ok_bind, textOf_eq_ok (Text.slice?_all m.chars), chars, String.ofList_toList]

/-! ## Looking up offsets -/

/-- The byte that an offset is about. At the end of the text this is the last byte. -/
def byteAt (m : Model) (offset : Nat) : Nat :=
  min offset (m.textLength - 1)

/-- The node holds a byte of the text. -/
def Holds (m : Model) (byte : Nat) (n : NodeId) : Prop :=
  m.totalStart n ≤ byte ∧ byte < m.totalEnd n

instance (m : Model) (byte : Nat) (n : NodeId) : Decidable (m.Holds byte n) :=
  inferInstanceAs (Decidable (m.totalStart n ≤ byte ∧ byte < m.totalEnd n))

/-- A placed node covers an offset of the text if it holds the byte that the offset is about. -/
theorem WellFormed.covers_eq (h : m.WellFormed) (hn : n < m.size) (hp : m.Placed n) (hoffset : offset ≤ m.textLength) :
    m.covers offset n = .ok (decide (m.Holds (m.byteAt offset) n)) := by
  have hend : m.totalEnd n ≤ m.textLength := Text.le_byteLength_of_isBoundary (h.isBoundary_totalEnd hn)
  have hle := (h.le_of_placed hn hp).2
  unfold covers
  rw [h.totalRange_eq hn hp, ok_bind]
  refine congrArg Except.ok (Bool.eq_iff_iff.2 ?_)
  rw [decide_eq_true_iff]
  simp only [TextRange.isEmpty, TextRange.contains, Bool.and_eq_true, Bool.or_eq_true, Bool.not_eq_eq_eq_not,
    Bool.not_true, beq_eq_false_iff_ne, beq_iff_eq, decide_eq_true_eq]
  unfold Holds byteAt
  omega

theorem WellFormed.firstCovering?_eq (h : m.WellFormed) (hids : ∀ c ∈ ids, c < m.size ∧ m.Placed c)
    (hoffset : offset ≤ m.textLength) :
    m.firstCovering? offset ids = .ok (ids.find? fun c => decide (m.Holds (m.byteAt offset) c)) := by
  induction ids with
  | nil => rfl
  | cons c ids ih =>
    obtain ⟨hlt, hp⟩ := hids c (List.mem_cons_self ..)
    rw [firstCovering?, h.covers_eq hlt hp hoffset, ok_bind, List.find?_cons]
    cases decide (m.Holds (m.byteAt offset) c) with
    | true => rfl
    | false => exact ih fun d hd => hids d (List.mem_cons_of_mem _ hd)

/-- A filled composite that holds a byte has a child that does. -/
theorem WellFormed.exists_child_holding (h : m.WellFormed) (hn : n < m.size) (hleaf : m.isLeaf n = false)
    (hf : m.Filled n) (hholds : m.Holds byte n) : ∃ c ∈ m.children n, m.Holds byte c := by
  have hfrom := hholds.1
  rw [h.totalStart_of_filled n hn hf] at hfrom
  obtain ⟨x, hx, hstart, hend⟩ := hf.seamless.exists_holding hfrom (by rw [hf.ends]; exact hholds.2)
  rw [h.leaves_eq hn, hleaf, if_neg Bool.false_ne_true] at hx
  obtain ⟨c, hc, hx⟩ := List.mem_flatMap.1 hx
  obtain ⟨houter, houter'⟩ := h.encloses_of_mem c (h.lt_size_of_mem hc) (h.placed_child hc hf.placed) x
    (List.mem_filter.1 hx).1
  exact ⟨c, hc, Nat.le_trans houter hstart, Nat.lt_of_lt_of_le hend houter'⟩

/-- A node that encloses another one holds every byte that the other one holds. -/
theorem Encloses.holds (hencloses : m.Encloses n x) (hx : m.Holds byte x) : m.Holds byte n :=
  ⟨Nat.le_trans hencloses.1 hx.1, Nat.lt_of_lt_of_le hx.2 hencloses.2⟩

/-- No byte is held by two children of a placed node: one of them ends before the other starts. -/
theorem WellFormed.eq_of_holds (h : m.WellFormed) (hp : m.Placed p) {d : NodeId} (hc : c ∈ m.children p)
    (hd : d ∈ m.children p) (hcholds : m.Holds byte c) (hdholds : m.Holds byte d) : c = d := by
  have hapart : (m.children p).Pairwise fun a b => ¬ (m.Holds byte a ∧ m.Holds byte b) :=
    (h.pairwise_children hp).imp fun {a b} hab hboth =>
      absurd (Nat.lt_of_lt_of_le hboth.1.2 (Nat.le_trans hab hboth.2.1)) (Nat.lt_irrefl byte)
  have hsymm : Std.Symm fun a b => ¬ (m.Holds byte a ∧ m.Holds byte b) := ⟨fun a b hab hba => hab hba.symm⟩
  by_contra hne
  exact hapart.forall hc hd hne ⟨hcholds, hdholds⟩

/-- Going down from a placed node ends at the node or at one below it that holds the byte, and every node below that holds
the byte is on the way. The steps that are left bound how deep the tree can still be. -/
theorem WellFormed.exists_innermostWithin (h : m.WellFormed) (hoffset : offset ≤ m.textLength) :
    ∀ (steps : Nat) (n : NodeId), n < m.size → m.size ≤ steps + (m.ancestors n).length → m.Placed n →
      ∃ found, m.innermostWithin offset steps n = .ok found ∧ found ∈ m.descendants n ∧
        (found = n ∨ m.Holds (m.byteAt offset) found) ∧
        ∀ x ∈ m.descendants n, m.Holds (m.byteAt offset) x → x ∈ found :: m.ancestors found := by
  intro steps
  induction steps with
  | zero =>
    intro n hn hsteps
    have hlt := length_ancestors_lt h.structured.forms h.structured.grounded hn
    omega
  | succ steps ih =>
    intro n hn hsteps hp
    have hchildren : ∀ c ∈ m.children n, c < m.size ∧ m.Placed c := fun c hc =>
      ⟨h.lt_size_of_mem hc, h.placed_child hc hp⟩
    -- a child holds all that is held below it
    have houter : ∀ c ∈ m.children n, ∀ x ∈ m.descendants c, m.Holds (m.byteAt offset) x →
        m.Holds (m.byteAt offset) c := fun c hc x hx hxholds =>
      (h.encloses_of_mem c (hchildren c hc).1 (hchildren c hc).2 x hx).holds hxholds
    rw [innermostWithin, h.firstCovering?_eq hchildren hoffset, ok_bind]
    cases hfind : (m.children n).find? fun c => decide (m.Holds (m.byteAt offset) c) with
    | none =>
      refine ⟨n, rfl, h.mem_descendants_self hn, Or.inl rfl, fun x hx hxholds => ?_⟩
      rw [h.descendants_eq hn] at hx
      rcases List.mem_cons.1 hx with rfl | hx
      · exact List.mem_cons_self ..
      · obtain ⟨c, hc, hx⟩ := List.mem_flatMap.1 hx
        exact absurd (decide_eq_true (houter c hc x hx hxholds)) (List.find?_eq_none.1 hfind c hc)
    | some c =>
      have hc := List.mem_of_find?_eq_some hfind
      have hcholds : m.Holds (m.byteAt offset) c := by simpa using List.find?_some hfind
      have hdepth := h.ancestors_of_mem hc
      obtain ⟨found, hfound, hmem, hholds, hdeepest⟩ := ih c (hchildren c hc).1
        (by rw [hdepth, List.length_cons]; omega) (hchildren c hc).2
      have hbelow : found ∈ m.descendants n := by
        rw [h.descendants_eq hn]
        exact List.mem_cons_of_mem _ (List.mem_flatMap.2 ⟨c, hc, hmem⟩)
      refine ⟨found, hfound, hbelow, Or.inr (hholds.elim (fun e => e ▸ hcholds) id), fun x hx hxholds => ?_⟩
      rw [h.descendants_eq hn] at hx
      rcases List.mem_cons.1 hx with rfl | hx
      · exact List.mem_cons.2 (((h.mem_descendants_iff hn).1 hbelow).imp_left Eq.symm)
      · obtain ⟨d, hd, hx⟩ := List.mem_flatMap.1 hx
        obtain rfl := h.eq_of_holds hp hd hc (houter d hd x hx hxholds) hcholds
        exact hdeepest x hx hxholds

/-- Going down from a filled node that holds the byte ends at a leaf that does: below a composite there would be a child to
go on with. -/
theorem WellFormed.innermostWithin_leaf (h : m.WellFormed) (hoffset : offset ≤ m.textLength) {steps : Nat} (hn : n < m.size)
    (hsteps : m.size ≤ steps + (m.ancestors n).length) (hf : m.Filled n) (hholds : m.Holds (m.byteAt offset) n) :
    ∃ leaf, m.innermostWithin offset steps n = .ok leaf ∧ m.isLeaf leaf = true ∧ leaf ∈ m.leaves n ∧
      m.Holds (m.byteAt offset) leaf := by
  obtain ⟨found, hfound, hmem, hfoundHolds, hdeepest⟩ := h.exists_innermostWithin hoffset steps n hn hsteps hf.placed
  replace hfoundHolds : m.Holds (m.byteAt offset) found := hfoundHolds.elim (fun e => e ▸ hholds) id
  cases hleaf : m.isLeaf found with
  | true => exact ⟨found, hfound, hleaf, List.mem_filter.2 ⟨hmem, hleaf⟩, hfoundHolds⟩
  | false =>
    obtain ⟨c, hc, hcholds⟩ := h.exists_child_holding (h.lt_size_of_mem_descendants hn hmem) hleaf
      (h.forall_descendants h.filled_child n hn hf found hmem) hfoundHolds
    exact absurd (hdeepest c (h.mem_descendants_of_child hc n hn hmem) hcholds) (h.not_mem_ancestors_of_mem hc)

/-- If the root is filled every offset of a text that is not empty is in a leaf. -/
theorem WellFormed.exists_leafAt? (h : m.WellFormed) (hf : m.Filled rootId) (htext : 0 < m.textLength)
    (hoffset : offset ≤ m.textLength) : ∃ leaf ∈ m.leaves rootId, m.leafAt? offset = .ok (some leaf) ∧
      m.Holds (m.byteAt offset) leaf := by
  have hholds : m.Holds (m.byteAt offset) rootId := by
    unfold Holds byteAt
    rw [h.span_root.1, h.span_root.2]
    omega
  obtain ⟨leaf, hfound, hleaf, hmem, hholds⟩ :=
    h.innermostWithin_leaf hoffset h.labelled.size_pos (Nat.le_add_right ..) hf hholds
  refine ⟨leaf, hmem, ?_, hholds⟩
  unfold leafAt? innermostAt?
  rw [if_neg (Nat.not_lt_of_le hoffset), hfound]
  simp [bind, Except.bind, pure, Except.pure, hleaf]

/-- In a reachable model that passes the check and whose leaves are together as long as the text, the text of every node
is that of its leaves in order. The leaves of the root spell out the whole text, and every offset of a text that is not
empty is covered by a leaf, which is found there. -/
theorem reachable_lossless {text : String} (h : Reachable text m) (hcheck : m.check = .ok ())
    (hfull : List.sum <$> (m.leaves rootId).mapM m.length = .ok m.textLength) :
    (∀ n ∈ m.descendants rootId, ∃ texts, (m.leaves n).mapM m.totalText = .ok texts ∧
      m.totalText n = .ok (String.join texts)) ∧
    (∃ texts, (m.leaves rootId).mapM m.totalText = .ok texts ∧ String.join texts = text) ∧
    (text ≠ "" → ∀ offset ≤ m.textLength, ∃ leaf ∈ m.leaves rootId, m.leafAt? offset = .ok (some leaf) ∧
      m.covers offset leaf = .ok true) := by
  have hwf := h.coherent.toWellFormed
  have hsize := hwf.labelled.size_pos
  have hfilled := h.coherent.filled_of_check hcheck hfull
  have hroot := hwf.mem_descendants_self hsize
  have htexts : ∀ n ∈ m.descendants rootId, ∃ texts, (m.leaves n).mapM m.totalText = .ok texts ∧
      m.totalText n = .ok (String.join texts) := fun n hn =>
    hwf.totalText_of_filled (hwf.lt_size_of_mem_descendants hsize hn) (hfilled n hn)
  refine ⟨htexts, ?_, fun htext offset hoffset => ?_⟩
  · obtain ⟨texts, hpieces, hjoin⟩ := htexts rootId hroot
    refine ⟨texts, hpieces, ?_⟩
    rw [hwf.totalText_root] at hjoin
    rw [← Except.ok.inj hjoin, h.text_eq]
  · have hpos : 0 < m.textLength := by
      refine Nat.pos_of_ne_zero fun hzero => htext ?_
      rw [← h.text_eq, ← String.toList_eq_nil_iff]
      exact Text.byteLength_eq_zero_iff.1 hzero
    obtain ⟨leaf, hmem, hfound, hholds⟩ := hwf.exists_leafAt? (hfilled rootId hroot) hpos hoffset
    have hbelow := (List.mem_filter.1 hmem).1
    refine ⟨leaf, hmem, hfound, ?_⟩
    rw [hwf.covers_eq (hwf.lt_size_of_mem_descendants hsize hbelow) (hfilled leaf hbelow).placed hoffset,
      decide_eq_true hholds]

/-- A composite that begins and ends with empty composites, and another one that begins with an empty composite in an
empty composite, over a text with a character of two bytes. -/
theorem reachable_lossless_empty_ends : ∃ m, Reachable "é b" m ∧ m.check = .ok () ∧
    List.sum <$> (m.leaves rootId).mapM m.length = .ok m.textLength ∧ m.children rootId = [1, 6] ∧
    m.children 1 = [2, 3, 4, 5] ∧ m.children 6 = [7, 9] ∧ m.totalText 1 = .ok "é " ∧ m.totalText 6 = .ok "b" ∧
    (∃ texts, (m.leaves 1).mapM m.totalText = .ok texts ∧ m.totalText 1 = .ok (String.join texts)) ∧
    (∃ texts, (m.leaves rootId).mapM m.totalText = .ok texts ∧ String.join texts = "é b") ∧
    (∃ leaf ∈ m.leaves rootId, m.leafAt? 4 = .ok (some leaf) ∧ m.covers 4 leaf = .ok true) := by
  have h : Reachable "é b" (initial "é b") := .opened (ofText_eq_ok_iff.2 ⟨by decide, rfl⟩)
  have h := h.edited (.newComposite none 0 (some 0)) (by decide) rfl
  have h := h.edited (.newComposite none 0 (some 1)) (by decide) rfl
  have h := h.edited (.newLeaf 0 2 none false none 1) (by decide) rfl
  have h := h.edited (.newLeaf 2 1 none true none 1) (by decide) rfl
  have h := h.edited (.newComposite none 0 (some 1)) (by decide) rfl
  have h := h.edited (.newComposite none 0 (some 0)) (by decide) rfl
  have h := h.edited (.newComposite none 0 (some 6)) (by decide) rfl
  have h := h.edited (.newComposite none 0 (some 7)) (by decide) rfl
  have h := h.edited (.newLeaf 3 1 none false none 6) (by decide) rfl
  obtain ⟨htexts, hwhole, hlookup⟩ := reachable_lossless h rfl rfl
  exact ⟨_, h, rfl, rfl, rfl, rfl, rfl, rfl, rfl, htexts 1 (by decide), hwhole,
    hlookup (by decide) 4 (by decide)⟩

end SyntaxTree.Model
