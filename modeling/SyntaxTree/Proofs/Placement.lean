import SyntaxTree.Proofs.Checking
import SyntaxTree.Proofs.Spans

/-!
# Where the nodes of a consistent tree stand

The check compares neighbours only. What readers rely on is about any two nodes of the tree: a node lies inside the
nodes above it, and what comes later in the document does not start earlier. `Placed` says for one node that its leaves
follow each other from where the node stands. It passes from a node to its children, so it holds of a whole tree if it
holds of the root, and everything else is read off from it.

That offsets lie on character boundaries needs no check at all: every offset of every node is the end of some leaf, the
start of one, or the start of the text.
-/

namespace SyntaxTree.Model

variable {m : Model} {n p c d x : NodeId} {offset : Nat} {ids before middle after : List NodeId}

/-! ## Boundaries -/

/-- A leaf starts and ends between characters. -/
theorem Labelled.isBoundary_of_leafRange? (h : m.Labelled) {range : TextRange} (hrange : m.leafRange? n = some range) :
    Text.isBoundary m.chars range.start = true ∧ Text.isBoundary m.chars range.stop = true := by
  obtain ⟨hidden, error, hcontent⟩ := leafRange?_eq_some hrange
  obtain ⟨node, hnode, hleaf⟩ := Option.map_eq_some_iff.1 hcontent
  refine ((h.proper (bare?_of_get? hnode)).in_text ?_).2
  rw [Node.bare_content, hleaf]
  rfl

theorem Labelled.isBoundary_leaf (h : m.Labelled) (hleaf : m.isLeaf n = true) :
    Text.isBoundary m.chars (m.totalStart n) = true ∧ Text.isBoundary m.chars (m.totalEnd n) = true := by
  obtain ⟨range, hrange⟩ := exists_leafRange? hleaf
  rw [totalStart_of_leafRange? hrange, totalEnd_of_leafRange? hrange]
  exact h.isBoundary_of_leafRange? hrange

theorem Labelled.isBoundary_lastEnd (h : m.Labelled) (hoffset : Text.isBoundary m.chars offset = true)
    (hids : ∀ x ∈ ids, m.isLeaf x = true) : Text.isBoundary m.chars (m.lastEnd offset ids) = true := by
  unfold lastEnd
  cases hlast : ids.getLast? with
  | none => exact hoffset
  | some x => exact (h.isBoundary_leaf (hids x (List.mem_of_getLast? hlast))).2

theorem isLeaf_of_mem_leaves (hx : x ∈ m.leaves n) : m.isLeaf x = true :=
  (List.mem_filter.1 hx).2

theorem isLeaf_of_mem_flatMap (hx : x ∈ ids.flatMap m.leaves) : m.isLeaf x = true := by
  obtain ⟨c, -, hx⟩ := List.mem_flatMap.1 hx
  exact isLeaf_of_mem_leaves hx

/-- A node stands between characters: at the start of the text or at the end of a leaf. The induction goes up from the
node. -/
theorem WellFormed.isBoundary_emptyOffset (h : m.WellFormed) (n : NodeId) :
    Text.isBoundary m.chars (m.emptyOffset n) = true := by
  obtain ⟨chain, hchain⟩ := h.structured.grounded n
  induction chain generalizing n with
  | nil =>
    rw [Climbs] at hchain
    rw [h.emptyOffset_of_top hchain]
    exact Text.isBoundary_zero _
  | cons p chain ih =>
    obtain ⟨hparent, hchain⟩ := hchain
    obtain ⟨before, after, hsplit⟩ := List.append_of_mem (h.structured.forms.listed hparent)
    rw [h.emptyOffset_eq_lastEnd hsplit]
    refine h.labelled.isBoundary_lastEnd ?_ fun x hx => isLeaf_of_mem_flatMap hx
    rw [origin]
    split
    · exact Text.isBoundary_zero _
    · exact ih p hchain

theorem WellFormed.isBoundary_origin (h : m.WellFormed) (n : NodeId) :
    Text.isBoundary m.chars (m.origin n) = true := by
  rw [origin]
  split
  · exact Text.isBoundary_zero _
  · exact h.isBoundary_emptyOffset n

/-- A node ends between characters. -/
theorem WellFormed.isBoundary_totalEnd (h : m.WellFormed) (hn : n < m.size) :
    Text.isBoundary m.chars (m.totalEnd n) = true := by
  cases hroot : m.isRoot n with
  | true =>
    rw [h.isRoot_iff.1 hroot, h.span_root.2]
    exact Text.isBoundary_byteLength _
  | false =>
    rw [h.totalEnd_eq_lastEnd n hn hroot]
    exact h.labelled.isBoundary_lastEnd (h.isBoundary_emptyOffset n) fun x hx => isLeaf_of_mem_leaves hx

/-- A node starts between characters. The induction goes down to its first leaf. -/
theorem WellFormed.isBoundary_totalStart (h : m.WellFormed) (n : NodeId) : n < m.size →
    Text.isBoundary m.chars (m.totalStart n) = true := by
  induction n using descend h.structured.forms h.structured.grounded with
  | step n ih =>
  intro hn
  cases hroot : m.isRoot n with
  | true =>
    rw [h.isRoot_iff.1 hroot, h.span_root.1]
    exact Text.isBoundary_zero _
  | false =>
  cases hleaf : m.isLeaf n with
  | true => exact (h.labelled.isBoundary_leaf hleaf).1
  | false =>
  rw [h.totalStart_eq hn hleaf hroot]
  cases hfirst : (m.children n).head? with
  | none => exact h.isBoundary_emptyOffset n
  | some c =>
    have hc := List.mem_of_mem_head? hfirst
    exact ih c hc (h.lt_size_of_mem hc)

/-- Without any text there is one place only, so no node ends before it starts. -/
theorem Reachable.totalStart_le_totalEnd_of_empty (h : Reachable "" m) (hn : n < m.size) :
    m.totalStart n ≤ m.totalEnd n := by
  have hstart := Text.le_byteLength_of_isBoundary (h.coherent.toWellFormed.isBoundary_totalStart n hn)
  rw [chars, h.text_eq] at hstart
  rw [Nat.le_zero.1 hstart]
  exact Nat.zero_le _

/-! ## Placed nodes -/

/-- The leaves of the node follow each other, from where it stands. The root stands at the start of the text. -/
def Placed (m : Model) (n : NodeId) : Prop :=
  m.Ordered (m.origin n) (m.leaves n)

theorem WellFormed.leaves_of_mem (h : m.WellFormed) (hc : c ∈ m.children p) :
    m.leaves p = (m.children p).flatMap m.leaves := by
  rw [h.leaves_eq (h.structured.live_of_mem hc).lt_size, (isLeaf_of_mem h.structured.forms hc).1]
  rfl

/-- A child stands where the leaves before it end. -/
theorem WellFormed.origin_of_split (h : m.WellFormed) (hsplit : m.children p = before ++ c :: after) :
    m.origin c = m.lastEnd (m.origin p) (before.flatMap m.leaves) := by
  have hc : c ∈ m.children p := h.structured.forms.mem_of_split hsplit
  rw [origin_of_not_root (h.isRoot_of_mem hc), h.emptyOffset_eq_lastEnd hsplit]

theorem WellFormed.ordered_children (h : m.WellFormed) (hp : m.Placed p) :
    m.Ordered (m.origin p) ((m.children p).flatMap m.leaves) := by
  by_cases hkids : m.children p = []
  · rw [hkids]
    trivial
  · rw [← h.leaves_of_mem (List.head_mem hkids)]
    exact hp

theorem WellFormed.placed_child (h : m.WellFormed) (hc : c ∈ m.children p) (hp : m.Placed p) : m.Placed c := by
  obtain ⟨before, after, hsplit⟩ := List.append_of_mem hc
  rw [Placed, h.origin_of_split hsplit]
  exact ordered_flatMap.1 (h.ordered_children hp) before c after hsplit

theorem WellFormed.origin_root (h : m.WellFormed) : m.origin rootId = 0 := by
  rw [origin, h.isRoot_iff.2 rfl]
  rfl

/-- In a tree that passes the check all nodes are placed. -/
theorem Coherent.placed_of_check (h : m.Coherent) (hcheck : m.check = .ok ()) :
    ∀ x ∈ m.descendants rootId, m.Placed x := by
  refine h.forall_descendants h.placed_child rootId h.labelled.size_pos ?_
  rw [Placed, h.origin_root, ordered_iff_isChain fun x hx => isLeaf_of_mem_leaves hx]
  exact ⟨fun _ _ => Nat.zero_le _, h.check_decides.eq_ok_iff.1 hcheck⟩

/-! ## What follows for two nodes -/

theorem totalStart_le_totalEnd_of_leaf (hleaf : m.isLeaf n = true) : m.totalStart n ≤ m.totalEnd n := by
  obtain ⟨range, hrange⟩ := exists_leafRange? hleaf
  rw [totalStart_of_leafRange? hrange, totalEnd_of_leafRange? hrange]
  exact range.start_le_stop

theorem lastEnd_cons (offset : Nat) (x : NodeId) (ids : List NodeId) :
    m.lastEnd offset (x :: ids) = m.lastEnd (m.totalEnd x) ids := by
  exact lastEnd_append offset [x] ids

/-- Leaves that follow each other lead on in the text. -/
theorem Ordered.le_lastEnd (hids : ∀ x ∈ ids, m.isLeaf x = true) (hordered : m.Ordered offset ids) :
    offset ≤ m.lastEnd offset ids := by
  induction ids generalizing offset with
  | nil => exact Nat.le_refl offset
  | cons x ids ih =>
    have hx := totalStart_le_totalEnd_of_leaf (hids x (List.mem_cons_self ..))
    have hrest := ih (fun y hy => hids y (List.mem_cons_of_mem _ hy)) hordered.2
    have hstart := hordered.1
    rw [lastEnd_cons]
    omega

/-- Each of them lies in between. -/
theorem Ordered.le_of_mem (hids : ∀ x ∈ ids, m.isLeaf x = true) (hordered : m.Ordered offset ids) (hx : x ∈ ids) :
    offset ≤ m.totalStart x ∧ m.totalEnd x ≤ m.lastEnd offset ids := by
  obtain ⟨before, after, rfl⟩ := List.append_of_mem hx
  obtain ⟨hbefore, hstart, hafter⟩ := ordered_append.1 hordered
  have hto := hbefore.le_lastEnd fun y hy => hids y (List.mem_append_left _ hy)
  have hfrom := hafter.le_lastEnd fun y hy => hids y (List.mem_append_right _ (List.mem_cons_of_mem _ hy))
  rw [lastEnd_append, lastEnd_cons]
  exact ⟨Nat.le_trans hto hstart, hfrom⟩

/-- A placed node starts where it stands or later, and does not end before it starts. -/
theorem WellFormed.le_of_placed (h : m.WellFormed) (hn : n < m.size) (hp : m.Placed n) :
    m.origin n ≤ m.totalStart n ∧ m.totalStart n ≤ m.totalEnd n := by
  cases hroot : m.isRoot n with
  | true =>
    obtain rfl := h.isRoot_iff.1 hroot
    rw [h.origin_root, h.span_root.1]
    exact ⟨Nat.le_refl 0, Nat.zero_le _⟩
  | false =>
    rw [Placed, origin_of_not_root hroot, h.ordered_leaves_iff n hn hroot] at hp
    rw [origin_of_not_root hroot]
    exact ⟨hp.starts, hp.not_reversed⟩

/-- A node other than the root ends with its last leaf, or where it stands. The root may end later. -/
theorem WellFormed.lastEnd_le_totalEnd (h : m.WellFormed) (hn : n < m.size) :
    m.lastEnd (m.origin n) (m.leaves n) ≤ m.totalEnd n := by
  cases hroot : m.isRoot n with
  | true =>
    obtain rfl := h.isRoot_iff.1 hroot
    rw [h.span_root.2]
    refine Text.le_byteLength_of_isBoundary ?_
    exact h.labelled.isBoundary_lastEnd (h.isBoundary_origin rootId) fun x hx => isLeaf_of_mem_leaves hx
  | false =>
    rw [origin_of_not_root hroot, h.totalEnd_eq_lastEnd n hn hroot]

/-- A child ends where the leaves up to its own end. -/
theorem WellFormed.totalEnd_of_split (h : m.WellFormed) (hsplit : m.children p = before ++ c :: after) :
    m.totalEnd c = m.lastEnd (m.origin p) ((before ++ [c]).flatMap m.leaves) := by
  have hc : c ∈ m.children p := h.structured.forms.mem_of_split hsplit
  rw [h.totalEnd_eq_lastEnd c (h.lt_size_of_mem hc) (h.isRoot_of_mem hc), h.emptyOffset_eq_lastEnd hsplit,
    List.flatMap_append, List.flatMap_singleton, lastEnd_append]

/-- The leaves of more children end no earlier. -/
theorem WellFormed.lastEnd_le_lastEnd (h : m.WellFormed) (hp : m.Placed p)
    (hsplit : m.children p = before ++ (middle ++ after)) :
    m.lastEnd (m.origin p) (before.flatMap m.leaves) ≤
      m.lastEnd (m.origin p) ((before ++ middle).flatMap m.leaves) := by
  have hordered := h.ordered_children hp
  rw [hsplit, List.flatMap_append, ordered_append, List.flatMap_append, ordered_append] at hordered
  rw [List.flatMap_append, lastEnd_append]
  exact hordered.2.1.le_lastEnd fun x hx => isLeaf_of_mem_flatMap hx

/-- A child ends before any later one starts. -/
theorem WellFormed.pairwise_children (h : m.WellFormed) (hp : m.Placed p) :
    (m.children p).Pairwise fun c d => m.totalEnd c ≤ m.totalStart d := by
  -- by induction on the children that are left, with those before them on the other side of the split
  have hrest : ∀ (rest before : List NodeId), m.children p = before ++ rest →
      rest.Pairwise fun c d => m.totalEnd c ≤ m.totalStart d := by
    intro rest
    induction rest with
    | nil => exact fun _ _ => .nil
    | cons c rest ih =>
      intro before hsplit
      have hsplit' : m.children p = (before ++ [c]) ++ rest := by rw [hsplit, ← List.append_cons]
      refine List.pairwise_cons.2 ⟨fun d hd => ?_, ih (before ++ [c]) hsplit'⟩
      obtain ⟨middle, after, rfl⟩ := List.append_of_mem hd
      have hd : d ∈ m.children p := by rw [hsplit]; simp
      calc m.totalEnd c = m.lastEnd (m.origin p) ((before ++ [c]).flatMap m.leaves) := h.totalEnd_of_split hsplit
        _ ≤ m.lastEnd (m.origin p) ((before ++ [c] ++ middle).flatMap m.leaves) := h.lastEnd_le_lastEnd hp hsplit'
        _ = m.origin d := (h.origin_of_split (hsplit'.trans (List.append_assoc ..).symm)).symm
        _ ≤ m.totalStart d := (h.le_of_placed (h.lt_size_of_mem hd) (h.placed_child hd hp)).1
  exact hrest (m.children p) [] rfl

/-- The second node lies in the text inside the first. -/
def Encloses (m : Model) (n x : NodeId) : Prop :=
  m.totalStart n ≤ m.totalStart x ∧ m.totalEnd x ≤ m.totalEnd n

/-- A placed node encloses its children. -/
theorem WellFormed.encloses_child (h : m.WellFormed) (hp : m.Placed p) (hc : c ∈ m.children p) : m.Encloses p c := by
  have hlive := h.structured.live_of_mem hc
  obtain ⟨before, after, hsplit⟩ := List.append_of_mem hc
  constructor
  · cases hroot : m.isRoot p with
    | true =>
      rw [h.isRoot_iff.1 hroot, h.span_root.1]
      exact Nat.zero_le _
    | false =>
      rw [h.totalStart_eq hlive.lt_size (isLeaf_of_mem h.structured.forms hc).1 hroot]
      have hpairwise := h.pairwise_children hp
      rw [hsplit] at hpairwise ⊢
      cases before with
      | nil => exact Nat.le_refl _
      | cons first before =>
        have hfirst : first ∈ m.children p := by rw [hsplit]; exact List.mem_cons_self ..
        have hends := (List.pairwise_cons.1 hpairwise).1 c (by simp)
        exact Nat.le_trans (h.le_of_placed (h.lt_size_of_mem hfirst) (h.placed_child hfirst hp)).2 hends
  · have hsplit' : m.children p = (before ++ [c]) ++ (after ++ []) := by simpa using hsplit
    calc m.totalEnd c = m.lastEnd (m.origin p) ((before ++ [c]).flatMap m.leaves) := h.totalEnd_of_split hsplit
      _ ≤ m.lastEnd (m.origin p) ((before ++ [c] ++ after).flatMap m.leaves) := h.lastEnd_le_lastEnd hp hsplit'
      _ = m.lastEnd (m.origin p) (m.leaves p) := by rw [h.leaves_of_mem hc, hsplit, ← List.append_cons]
      _ ≤ m.totalEnd p := h.lastEnd_le_totalEnd hlive.lt_size

/-- A placed node encloses all nodes below it. -/
theorem WellFormed.encloses_of_mem (h : m.WellFormed) (n : NodeId) : n < m.size → m.Placed n →
    ∀ x ∈ m.descendants n, m.Encloses n x := by
  induction n using descend h.structured.forms h.structured.grounded with
  | step n ih =>
  intro hn hp x hx
  rw [h.descendants_eq hn] at hx
  rcases List.mem_cons.1 hx with rfl | hx
  · exact ⟨Nat.le_refl _, Nat.le_refl _⟩
  · obtain ⟨c, hc, hx⟩ := List.mem_flatMap.1 hx
    have houter := h.encloses_child hp hc
    have hinner := ih c hc (h.lt_size_of_mem hc) (h.placed_child hc hp) x hx
    exact ⟨Nat.le_trans houter.1 hinner.1, Nat.le_trans hinner.2 houter.2⟩

/-- Nodes below a placed node do not start before those that come earlier in the document. -/
theorem WellFormed.pairwise_totalStart (h : m.WellFormed) (n : NodeId) : n < m.size → m.Placed n →
    (m.descendants n).Pairwise fun a b => m.totalStart a ≤ m.totalStart b := by
  induction n using descend h.structured.forms h.structured.grounded with
  | step n ih =>
  intro hn hp
  have hencloses := h.encloses_of_mem n hn hp
  rw [h.descendants_eq hn] at hencloses ⊢
  refine List.pairwise_cons.2 ⟨fun x hx => (hencloses x (List.mem_cons_of_mem _ hx)).1, ?_⟩
  refine List.pairwise_flatMap.2 ⟨fun c hc => ih c hc (h.lt_size_of_mem hc) (h.placed_child hc hp), ?_⟩
  -- between two children: out of the first one, over to the second, and into it
  refine (h.pairwise_children hp).imp_of_mem fun {c d} hc hd hcd x hx y hy => ?_
  have hlt := h.lt_size_of_mem hc
  have hx' := h.forall_descendants h.placed_child c hlt (h.placed_child hc hp) x hx
  calc m.totalStart x ≤ m.totalEnd x := (h.le_of_placed (h.lt_size_of_mem_descendants hlt hx) hx').2
    _ ≤ m.totalEnd c := (h.encloses_of_mem c hlt (h.placed_child hc hp) x hx).2
    _ ≤ m.totalStart d := hcd
    _ ≤ m.totalStart y := (h.encloses_of_mem d (h.lt_size_of_mem hd) (h.placed_child hd hp) y hy).1

/-! ## Ranges -/

/-- The range lies inside the node, and it starts and ends between characters. -/
structure Inside (m : Model) (range : TextRange) (n : NodeId) : Prop where
  starts : m.totalStart n ≤ range.start
  stops : range.stop ≤ m.totalEnd n
  start_boundary : Text.isBoundary m.chars range.start = true
  stop_boundary : Text.isBoundary m.chars range.stop = true

/-- The text of a range is the slice between its ends. -/
theorem textOf_eq_ok {range : TextRange} {chars : List Char}
    (hslice : Text.slice? m.chars range.start range.stop = some chars) :
    m.textOf range = .ok (String.ofList chars) := by
  unfold textOf
  rw [hslice]

/-- A leaf has a total range wherever it stands. -/
theorem totalRange_of_leaf (hleaf : m.isLeaf n = true) :
    m.totalRange n = .ok ⟨m.totalStart n, m.totalEnd n, totalStart_le_totalEnd_of_leaf hleaf⟩ :=
  TextRange.between_eq_ok_iff.2 ⟨rfl, rfl⟩

/-- A placed node has a total range. -/
theorem WellFormed.totalRange_eq (h : m.WellFormed) (hn : n < m.size) (hp : m.Placed n) :
    m.totalRange n = .ok ⟨m.totalStart n, m.totalEnd n, (h.le_of_placed hn hp).2⟩ :=
  TextRange.between_eq_ok_iff.2 ⟨rfl, rfl⟩

theorem WellFormed.totalRange_of_placed (h : m.WellFormed) (hn : n < m.size) (hp : m.Placed n) :
    ∃ range, m.totalRange n = .ok range ∧ m.Inside range n :=
  ⟨_, h.totalRange_eq hn hp, Nat.le_refl _, Nat.le_refl _, h.isBoundary_totalStart n hn, h.isBoundary_totalEnd hn⟩

/-- Every range that is reported starts and ends between characters, whatever the order of the leaves. -/
theorem WellFormed.isBoundary_of_totalRange (h : m.WellFormed) (hn : n < m.size) {range : TextRange}
    (hrange : m.totalRange n = .ok range) :
    Text.isBoundary m.chars range.start = true ∧ Text.isBoundary m.chars range.stop = true := by
  obtain ⟨hstart, hstop⟩ := TextRange.between_eq_ok_iff.1 hrange
  rw [hstart, hstop]
  exact ⟨h.isBoundary_totalStart n hn, h.isBoundary_totalEnd hn⟩

theorem WellFormed.isBoundary_of_range (h : m.WellFormed) (hn : n < m.size) {range : TextRange}
    (hrange : m.range n = .ok range) :
    Text.isBoundary m.chars range.start = true ∧ Text.isBoundary m.chars range.stop = true := by
  rw [h.range_eq hn] at hrange
  cases hvisible : m.visibleLeaves n with
  | nil =>
    rw [hvisible] at hrange
    exact h.isBoundary_of_totalRange hn hrange
  | cons first rest =>
    rw [hvisible] at hrange
    have hleaf : ∀ x ∈ first :: rest, m.isLeaf x = true := fun x hx =>
      isLeaf_of_mem_leaves (mem_visibleLeaves.1 (hvisible ▸ hx)).1
    obtain ⟨hstart, hstop⟩ := TextRange.between_eq_ok_iff.1 hrange
    rw [hstart, hstop]
    exact ⟨(h.labelled.isBoundary_leaf (hleaf first (List.mem_cons_self ..))).1,
      (h.labelled.isBoundary_leaf (hleaf _ List.getLastD_mem_cons)).2⟩

/-- The first visible leaf of a placed node starts before any visible leaf ends. -/
theorem totalStart_le_of_visible (hp : m.Placed n) {first last : NodeId} {rest : List NodeId}
    (hvisible : m.visibleLeaves n = first :: rest) (hlast : last ∈ first :: rest) :
    m.totalStart first ≤ m.totalEnd last := by
  rw [← hvisible, mem_visibleLeaves] at hlast
  obtain ⟨before, after, hsplit, hhidden, -, -⟩ := List.filter_eq_cons_iff.1 hvisible
  have hleaves : ∀ x ∈ first :: after, m.isLeaf x = true := fun x hx =>
    isLeaf_of_mem_leaves (n := n) (by rw [hsplit]; exact List.mem_append_right _ hx)
  unfold Placed at hp
  rw [hsplit] at hp hlast
  rcases List.mem_append.1 hlast.1 with hbefore | hafter
  · -- all leaves before the first visible one are hidden
    refine absurd ?_ (hhidden last hbefore)
    rw [hlast.2]
    rfl
  · have hordered : m.Ordered (m.totalStart first) (first :: after) :=
      ⟨Nat.le_refl _, (ordered_append.1 hp).2.2⟩
    have hstart := (hordered.le_of_mem hleaves hafter).1
    have hend := totalStart_le_totalEnd_of_leaf (hleaves last hafter)
    omega

/-- A placed node has a range, inside its total range. -/
theorem WellFormed.range_of_placed (h : m.WellFormed) (hn : n < m.size) (hp : m.Placed n) :
    ∃ range, m.range n = .ok range ∧ m.Inside range n := by
  have hrangeEq := h.range_eq hn
  cases hvisible : m.visibleLeaves n with
  | nil =>
    rw [hvisible] at hrangeEq
    rw [hrangeEq]
    exact h.totalRange_of_placed hn hp
  | cons first rest =>
    rw [hvisible] at hrangeEq
    have hinside : ∀ x ∈ first :: rest, m.Encloses n x := fun x hx =>
      h.encloses_of_mem n hn hp x (List.mem_filter.1 (mem_visibleLeaves.1 (hvisible ▸ hx)).1).1
    have hlast : rest.getLastD first ∈ first :: rest := List.getLastD_mem_cons
    have hrange : m.range n = .ok ⟨_, _, totalStart_le_of_visible hp hvisible hlast⟩ :=
      hrangeEq.trans (TextRange.between_eq_ok_iff.2 ⟨rfl, rfl⟩)
    obtain ⟨hstart, hstop⟩ := h.isBoundary_of_range hn hrange
    exact ⟨_, hrange, (hinside first (List.mem_cons_self ..)).1, (hinside _ hlast).2, hstart, hstop⟩

end SyntaxTree.Model
