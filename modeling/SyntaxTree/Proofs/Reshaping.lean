import Mathlib.Data.List.Find
import SyntaxTree.Proofs.Spans

/-!
# Trees that keep their spans

Spans are derived: where a node stands is found by going back through the nodes before it, so a change anywhere in a
tree might shift nodes anywhere else. `Reshaped` describes the changes that shift nothing. Nodes may get other names,
an empty composite may be put at the end of a child list, and a composite may be put between a node and its parent.

What comes of such a change is `Kept`: every node of the first model has its start, its end and its leaves in the
second. The proofs follow the three ways in which spans are derived. Leaves are found going down (`Reshaped.leaves`),
the place of a node going up from it, by the leaves before it (`Reshaped.emptyOffset`), and the start of a node going
down again.
-/

namespace SyntaxTree.Model

variable {m m' m'' : Model} {rep rep' place : NodeId → NodeId} {n p c : NodeId}

/-- The second model is the first one reshaped. What became of a live node is given by `rep`, and what stands in its
place among the children of its parent by `place`. -/
structure Reshaped (m m' : Model) (rep place : NodeId → NodeId) : Prop where
  text : m'.text = m.text
  live : ∀ {n}, m.Live n → m'.Live (rep n)
  root : ∀ {n}, m.Live n → (rep n = rootId ↔ n = rootId)
  token : ∀ {n}, m.Live n → m'.token? (rep n) = m.token? n
  top : ∀ {n}, m.Live n → m.parent? n = none → m'.parent? (rep n) = none
  /-- The children are there in order, and after them there may be empty composites. -/
  children : ∀ {n}, m.Live n → ∃ extra, m'.children (rep n) = (m.children n).map place ++ extra ∧
    ∀ e ∈ extra, m'.isLeaf e = false ∧ m'.children e = []
  /-- In the place of a child stands the child, or a composite with the child and nothing else below. -/
  placed : ∀ {p c}, c ∈ m.children p → place c = rep c ∨ m'.children (place c) = [rep c]

/-- Live nodes have their leaves and their ends in the second model, where `rep` says what became of them. -/
structure Kept (m m' : Model) (rep : NodeId → NodeId) : Prop where
  live : ∀ {n}, m.Live n → m'.Live (rep n)
  root : rep rootId = rootId
  token : ∀ {n}, m.Live n → m'.token? (rep n) = m.token? n
  leaves : ∀ {n}, m.Live n → m'.leaves (rep n) = (m.leaves n).map rep
  totalStart : ∀ {n}, m.Live n → m'.totalStart (rep n) = m.totalStart n
  totalEnd : ∀ {n}, m.Live n → m'.totalEnd (rep n) = m.totalEnd n

/-! ## What a reshaping keeps -/

section Reshaped

variable (h : m.WellFormed) (h' : m'.WellFormed) (hr : Reshaped m m' rep place)

include hr in
theorem Reshaped.isLeaf (hn : m.Live n) : m'.isLeaf (rep n) = m.isLeaf n := by
  rw [isLeaf_eq_token?, isLeaf_eq_token?, hr.token hn]

include hr in
/-- A leaf has its own ends. -/
theorem Reshaped.span_of_leaf (hn : m.Live n) (hleaf : m.isLeaf n = true) :
    m'.totalStart (rep n) = m.totalStart n ∧ m'.totalEnd (rep n) = m.totalEnd n := by
  obtain ⟨range, hrange⟩ := exists_leafRange? hleaf
  have hrange' : m'.leafRange? (rep n) = some range := by
    rw [leafRange?_eq_token?, hr.token hn, ← leafRange?_eq_token?]
    exact hrange
  rw [totalStart_of_leafRange? hrange, totalEnd_of_leafRange? hrange, totalStart_of_leafRange? hrange',
    totalEnd_of_leafRange? hrange']
  exact ⟨rfl, rfl⟩

include hr in
theorem Reshaped.lastEnd {ids : List NodeId} (hids : ∀ x ∈ ids, m.Live x ∧ m.isLeaf x = true) (offset : Nat) :
    m'.lastEnd offset (ids.map rep) = m.lastEnd offset ids := by
  rw [Model.lastEnd, Model.lastEnd, List.getLast?_map]
  cases hlast : ids.getLast? with
  | none => rfl
  | some x =>
    obtain ⟨hlive, hleaf⟩ := hids x (List.mem_of_getLast? hlast)
    exact (hr.span_of_leaf hlive hleaf).2

include h h' hr

theorem Reshaped.isRoot (hn : m.Live n) : m'.isRoot (rep n) = m.isRoot n := by
  rw [Bool.eq_iff_iff, h'.isRoot_iff, h.isRoot_iff]
  exact hr.root hn

/-- What stands in the place of a child has all that the child has. -/
theorem Reshaped.place_eq (hc : c ∈ m.children p) :
    m'.leaves (place c) = m'.leaves (rep c) ∧ m'.emptyOffset (place c) = m'.emptyOffset (rep c) ∧
      m'.totalStart (place c) = m'.totalStart (rep c) ∧ m'.totalEnd (place c) = m'.totalEnd (rep c) := by
  rcases hr.placed hc with he | honly
  · rw [he]
    exact ⟨rfl, rfl, rfl, rfl⟩
  · obtain ⟨extra, hkids, -⟩ := hr.children (h.structured.live_of_mem hc)
    have hmem : place c ∈ m'.children (rep p) := by
      rw [hkids]
      exact List.mem_append_left _ (List.mem_map_of_mem hc)
    exact h'.only_child honly (h'.isRoot_of_mem hmem)

/-- The leaves of a node are the same, and in the same order. -/
theorem Reshaped.leaves (n : NodeId) : m.Live n → m'.leaves (rep n) = (m.leaves n).map rep := by
  induction n using descend h.structured.forms h.structured.grounded with
  | step n ih =>
  intro hn
  obtain ⟨extra, hkids, hextra⟩ := hr.children hn
  rw [h'.leaves_eq (hr.live hn).lt_size, h.leaves_eq hn.lt_size, hr.isLeaf hn]
  split
  · rfl
  · have hchildren : ∀ c ∈ m.children n, m'.leaves (place c) = (m.leaves c).map rep := fun c hc =>
      (hr.place_eq h h' hc).1.trans (ih c hc (h.live_of_mem hc))
    -- empty composites have no leaves
    have hnone : extra.flatMap m'.leaves = [] := by
      refine List.flatMap_eq_nil_iff.2 fun e he => ?_
      obtain ⟨hleaf, hempty⟩ := hextra e he
      have hmem : e ∈ m'.children (rep n) := by rw [hkids]; exact List.mem_append_right _ he
      rw [h'.leaves_eq (h'.lt_size_of_mem hmem), hleaf, hempty]
      rfl
    rw [hkids, List.flatMap_append, hnone, List.append_nil, List.flatMap_map, List.flatMap_congr hchildren,
      List.map_flatMap]

/-- A node stands where it stood: the leaves before it are the same. The induction goes up from the node. -/
theorem Reshaped.emptyOffset (hn : m.Live n) : m'.emptyOffset (rep n) = m.emptyOffset n := by
  obtain ⟨chain, hchain⟩ := h.structured.grounded n
  induction chain generalizing n with
  | nil =>
    rw [Climbs] at hchain
    rw [h.emptyOffset_of_top hchain, h'.emptyOffset_of_top (hr.top hn hchain)]
  | cons p chain ih =>
    obtain ⟨hparent, hchain⟩ := hchain
    have hmem := h.structured.forms.listed hparent
    have hp : m.Live p := h.structured.live_of_mem hmem
    obtain ⟨before, after, hsplit⟩ := List.append_of_mem hmem
    obtain ⟨extra, hkids, -⟩ := hr.children hp
    rw [hsplit, List.map_append, List.map_cons, List.append_assoc, List.cons_append] at hkids
    have hbefore : ∀ c ∈ before, c ∈ m.children p := fun c hc => by
      rw [hsplit]
      exact List.mem_append_left _ hc
    have hleaves : (before.map place).flatMap m'.leaves = (before.flatMap m.leaves).map rep := by
      rw [List.flatMap_map, List.map_flatMap]
      refine List.flatMap_congr fun c hc => ?_
      exact (hr.place_eq h h' (hbefore c hc)).1.trans (hr.leaves h h' c (h.live_of_mem (hbefore c hc)))
    have hlive : ∀ x ∈ before.flatMap m.leaves, m.Live x ∧ m.isLeaf x = true := by
      intro x hx
      obtain ⟨c, hc, hx⟩ := List.mem_flatMap.1 hx
      exact h.live_of_mem_leaves c (h.live_of_mem (hbefore c hc)) x hx
    have horigin : m'.origin (rep p) = m.origin p := by
      rw [origin, origin, hr.isRoot h h' hp, ih hp hchain]
    rw [← (hr.place_eq h h' hmem).2.1, h'.emptyOffset_eq_lastEnd hkids, h.emptyOffset_eq_lastEnd hsplit, horigin,
      hleaves, hr.lastEnd hlive]

theorem Reshaped.span_root :
    m'.totalStart (rep rootId) = m.totalStart rootId ∧ m'.totalEnd (rep rootId) = m.totalEnd rootId := by
  rw [(hr.root h.live_root).2 rfl, h.span_root.1, h.span_root.2, h'.span_root.1, h'.span_root.2]
  rw [textLength, textLength, chars, chars, hr.text]
  exact ⟨rfl, rfl⟩

theorem Reshaped.totalEnd (hn : m.Live n) : m'.totalEnd (rep n) = m.totalEnd n := by
  cases hroot : m.isRoot n with
  | true =>
    obtain rfl := h.isRoot_iff.1 hroot
    exact (hr.span_root h h').2
  | false =>
    rw [h'.totalEnd_eq_lastEnd _ (hr.live hn).lt_size ((hr.isRoot h h' hn).trans hroot), hr.leaves h h' n hn,
      hr.emptyOffset h h' hn, hr.lastEnd (h.live_of_mem_leaves n hn), h.totalEnd_eq_lastEnd n hn.lt_size hroot]

/-- A node that was empty starts where it stands, also if an empty composite is now below it. -/
theorem Reshaped.totalStart_of_empty (hn : m.Live n) (hleaf : m.isLeaf n = false) (hroot : m.isRoot n = false)
    (hempty : m.children n = []) : m'.totalStart (rep n) = m.emptyOffset n := by
  have hleaf' := (hr.isLeaf hn).trans hleaf
  have hroot' := (hr.isRoot h h' hn).trans hroot
  obtain ⟨extra, hkids, hextra⟩ := hr.children hn
  rw [hempty, List.map_nil, List.nil_append] at hkids
  rw [h'.totalStart_eq (hr.live hn).lt_size hleaf' hroot', ← hr.emptyOffset h h' hn]
  cases extra with
  | nil =>
    rw [hkids]
    rfl
  | cons e extra =>
    obtain ⟨heleaf, heempty⟩ := hextra e (List.mem_cons_self ..)
    have hmem : e ∈ m'.children (rep n) := by rw [hkids]; exact List.mem_cons_self ..
    have hstands := h'.emptyOffset_eq (show m'.children (rep n) = [] ++ e :: extra from hkids)
    rw [hroot'] at hstands
    rw [hkids, List.head?_cons, Option.elim_some,
      h'.totalStart_eq (h'.lt_size_of_mem hmem) heleaf (h'.isRoot_of_mem hmem), heempty]
    exact hstands

theorem Reshaped.totalStart (n : NodeId) : m.Live n → m'.totalStart (rep n) = m.totalStart n := by
  induction n using descend h.structured.forms h.structured.grounded with
  | step n ih =>
  intro hn
  cases hroot : m.isRoot n with
  | true =>
    obtain rfl := h.isRoot_iff.1 hroot
    exact (hr.span_root h h').1
  | false =>
  cases hleaf : m.isLeaf n with
  | true => exact (hr.span_of_leaf hn hleaf).1
  | false =>
  rw [h.totalStart_eq hn.lt_size hleaf hroot]
  cases hkids : m.children n with
  | nil => exact hr.totalStart_of_empty h h' hn hleaf hroot hkids
  | cons c rest =>
    have hc : c ∈ m.children n := by rw [hkids]; exact List.mem_cons_self ..
    obtain ⟨extra, hkids', -⟩ := hr.children hn
    rw [hkids, List.map_cons, List.cons_append] at hkids'
    rw [h'.totalStart_eq (hr.live hn).lt_size ((hr.isLeaf hn).trans hleaf) ((hr.isRoot h h' hn).trans hroot), hkids']
    exact (hr.place_eq h h' hc).2.2.1.trans (ih c hc (h.live_of_mem hc))

/-- A reshaping keeps all spans. -/
theorem Reshaped.kept : Kept m m' rep where
  live := hr.live
  root := (hr.root h.live_root).2 rfl
  token := hr.token
  leaves hn := hr.leaves h h' _ hn
  totalStart hn := hr.totalStart h h' _ hn
  totalEnd hn := hr.totalEnd h h' hn

end Reshaped

/-! ## What follows -/

theorem Kept.refl (m : Model) : Kept m m id :=
  ⟨id, rfl, fun _ => rfl, fun _ => (List.map_id _).symm, fun _ => rfl, fun _ => rfl⟩

theorem Kept.trans (hk : Kept m m' rep) (hk' : Kept m' m'' rep') : Kept m m'' (rep' ∘ rep) where
  live hn := hk'.live (hk.live hn)
  root := (congrArg rep' hk.root).trans hk'.root
  token hn := (hk'.token (hk.live hn)).trans (hk.token hn)
  leaves hn := by
    rw [Function.comp_apply, hk'.leaves (hk.live hn), hk.leaves hn, List.map_map]
  totalStart hn := (hk'.totalStart (hk.live hn)).trans (hk.totalStart hn)
  totalEnd hn := (hk'.totalEnd (hk.live hn)).trans (hk.totalEnd hn)

theorem Kept.congr (hk : Kept m m' rep) (h : m.WellFormed) (he : ∀ {n}, m.Live n → rep n = rep' n) :
    Kept m m' rep' where
  live hn := he hn ▸ hk.live hn
  root := (he h.live_root).symm.trans hk.root
  token hn := he hn ▸ hk.token hn
  leaves {n} hn := by
    rw [← he hn, hk.leaves hn]
    exact List.map_congr_left fun x hx => he (h.live_of_mem_leaves n hn x hx).1
  totalStart hn := he hn ▸ hk.totalStart hn
  totalEnd hn := he hn ▸ hk.totalEnd hn

/-- A node of one model and a node of another report the same places in the text. -/
structure SameSpan (m : Model) (n : NodeId) (m' : Model) (n' : NodeId) : Prop where
  totalStart : m'.totalStart n' = m.totalStart n
  totalEnd : m'.totalEnd n' = m.totalEnd n
  range : m'.range n' = m.range n

/-- The leaves of the tree as the text shows them: where each is, and whether it is hidden. -/
def leafSpans (m : Model) : List (Except Fault TextRange × Bool) :=
  (m.leaves rootId).map fun leaf => (m.range leaf, m.isHidden leaf)

theorem Kept.isHidden (hk : Kept m m' rep) (hn : m.Live n) : m'.isHidden (rep n) = m.isHidden n := by
  rw [isHidden_eq_token?, isHidden_eq_token?, hk.token hn]

/-- Visible leaves stay visible, in their order. -/
theorem Kept.visibleLeaves (hk : Kept m m' rep) (h : m.WellFormed) (hn : m.Live n) :
    m'.visibleLeaves (rep n) = (m.visibleLeaves n).map rep := by
  rw [Model.visibleLeaves, Model.visibleLeaves, hk.leaves hn, List.filter_map]
  refine congrArg _ (List.filter_congr fun x hx => ?_)
  rw [Function.comp_apply, hk.isHidden (h.live_of_mem_leaves n hn x hx).1]

theorem Kept.sameSpan (hk : Kept m m' rep) (h : m.WellFormed) (h' : m'.WellFormed) (hn : m.Live n) :
    SameSpan m n m' (rep n) where
  totalStart := hk.totalStart hn
  totalEnd := hk.totalEnd hn
  range := by
    rw [h'.range_eq (hk.live hn).lt_size, h.range_eq hn.lt_size, hk.visibleLeaves h hn]
    cases hvisible : m.visibleLeaves n with
    | nil => exact congrArg₂ TextRange.between (hk.totalStart hn) (hk.totalEnd hn)
    | cons first rest =>
      have hlive : ∀ x ∈ first :: rest, m.Live x := fun x hx =>
        (h.live_of_mem_leaves n hn x (mem_visibleLeaves.1 (hvisible ▸ hx)).1).1
      have hlast : rest.getLastD first ∈ first :: rest := List.getLastD_mem_cons ..
      refine congrArg₂ TextRange.between (hk.totalStart (hlive first (List.mem_cons_self ..))) ?_
      rw [← hk.totalEnd (hlive _ hlast), List.getLastD_map]

theorem Kept.leafSpans (hk : Kept m m' rep) (h : m.WellFormed) (h' : m'.WellFormed) :
    m'.leafSpans = m.leafSpans := by
  have hleaves := hk.leaves h.live_root
  rw [hk.root] at hleaves
  rw [Model.leafSpans, Model.leafSpans, hleaves, List.map_map]
  refine List.map_congr_left fun x hx => ?_
  have hlive := (h.live_of_mem_leaves rootId h.live_root x hx).1
  rw [Function.comp_apply, (hk.sameSpan h h' hlive).range, hk.isHidden hlive]

/-- Leaves that follow each other do so after the change, and only these. -/
theorem Kept.leavesInSequence_iff (hk : Kept m m' rep) (h : m.WellFormed) :
    m'.LeavesInSequence ↔ m.LeavesInSequence := by
  have hleaves := hk.leaves h.live_root
  rw [hk.root] at hleaves
  have hlive : ∀ x ∈ m.leaves rootId, m.Live x := fun x hx => (h.live_of_mem_leaves rootId h.live_root x hx).1
  rw [LeavesInSequence, LeavesInSequence, hleaves, List.isChain_map]
  have hfollows : ∀ {a b}, a ∈ m.leaves rootId → b ∈ m.leaves rootId →
      (m'.Follows (rep a) (rep b) ↔ m.Follows a b) := by
    intro a b ha hb
    simp only [Follows, leafRange?_eq_token?, hk.token (hlive a ha), hk.token (hlive b hb)]
  constructor
  · exact fun hchain => hchain.imp_of_mem_imp fun a b ha hb => (hfollows ha hb).1
  · exact fun hchain => hchain.imp_of_mem_imp fun a b ha hb => (hfollows ha hb).2

end SyntaxTree.Model
