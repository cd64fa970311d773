import SyntaxTree.Proofs.Ancestry
import SyntaxTree.Proofs.Linking

/-!
# What every store keeps to

The invariant of a model has four parts that hardly touch each other, so that an operation which leaves one
side of the store alone keeps the parts about it for free:

- `Structured`: the links form child lists without cycles, and nodes that are not live have no links;
- `Labelled`: one node is the root, successors are younger, replaced nodes hold no element, and leaves lie in
  the text;
- `Settled`: a live node without a parent is the root or a composite that still has its slot;
- `Indexed`: slots and index say the same.

`WellFormed` bundles the first three and `Coherent` all of them. This file says how each part fares under each
elementary change; what the builder's calls make of these changes is for `Building`.
-/

namespace SyntaxTree.Model

open Function (update update_self update_of_ne)
open Links (appended rename rename_self rename_of_ne adopted)

/-- The links form child lists without cycles. -/
structure Structured (m : Model) (kids : NodeId → List NodeId) : Prop where
  forms : m.links.Forms kids
  grounded : Grounded m.parent?
  root_loose : m.parent? rootId = none
  /-- A node that was replaced, or never allocated, has neither parent nor children. -/
  cut : ∀ {n}, ¬ m.Live n → m.parent? n = none ∧ kids n = []

/-- A node of the store is what it should be, wherever it stands. -/
structure Proper (m : Model) (n : NodeId) (b : Node) : Prop where
  root_only : b.kind = .root → n = rootId
  /-- A successor was allocated later than the node it replaced. -/
  successor : ∀ {s}, b.replacedBy = some s → n < s ∧ s < m.size
  /-- A replaced node has given its element away. -/
  emptied : ∀ {s}, b.replacedBy = some s → b.content.element? = none
  in_text : ∀ {range}, b.content.leafRange? = some range →
    range.stop ≤ m.textLength ∧ Text.isBoundary m.chars range.start = true ∧
      Text.isBoundary m.chars range.stop = true

/-- The first node is the root, all nodes are proper, and the text is not too long. -/
structure Labelled (m : Model) : Prop where
  root : ∃ slot, m.bare? rootId = some (.unlinked (.root ⟨none, 0⟩ slot) none)
  proper : ∀ {n b}, m.bare? n = some b → m.Proper n b
  short : m.textLength < UInt32.size

/-- A live node without a parent is the root or a composite that can still be bound. -/
def Settled (m : Model) : Prop :=
  ∀ n b, m.bare? n = some b → b.replacedBy = none → m.parent? n = none →
    n = rootId ∨ b.kind = .compositeWithSemanticElement

/-- Slots and index say the same, and no element has two entries. -/
structure Indexed (m : Model) : Prop where
  bound : ∀ e n, m.index.find? e = some n ↔ m.element? n = some e
  nodup : (m.index.entries.map Prod.fst).Nodup

/-- The store is as it should be, apart from the index. -/
structure WellFormed (m : Model) : Prop where
  structured : m.Structured m.children
  labelled : m.Labelled
  settled : m.Settled

/-- The invariant of a model. -/
structure Coherent (m : Model) : Prop extends WellFormed m where
  indexed : m.Indexed

variable {m m' : Model} {kids : NodeId → List NodeId} {n p c old : NodeId}

/-! ## Structure -/

/-- The child lists of a structured model are the ones that readers see. -/
theorem Structured.children_eq (h : m.Structured kids) : m.children = kids :=
  Model.children_eq h.forms

theorem Structured.of_children (h : m.Structured kids) : m.Structured m.children := by
  rw [h.children_eq]
  exact h

/-- A node with a parent is live. -/
theorem Structured.live_of_parent? (h : m.Structured kids) (hn : m.parent? n = some p) : m.Live n := by
  by_contra hlive
  rw [(h.cut hlive).1] at hn
  cases hn

/-- A parent is live. -/
theorem Structured.live_of_mem (h : m.Structured kids) (hc : c ∈ kids p) : m.Live p := by
  by_contra hlive
  rw [(h.cut hlive).2] at hc
  cases hc

/-- A node that was never allocated is nobody's parent. -/
theorem Structured.parent?_ne_size (h : m.Structured kids) (x : NodeId) : m.parent? x ≠ some m.size := by
  intro hx
  exact Nat.lt_irrefl _ (lt_size_of_parent h.forms hx)

theorem live_congr (h : m'.bare? n = m.bare? n) : m'.Live n ↔ m.Live n := by
  rw [live_iff_bare?, live_iff_bare?, h]

theorem SameData.live_iff (h : SameData m m') : m'.Live n ↔ m.Live n :=
  live_congr (congrFun h.bare n)

/-- Only links and live nodes matter. -/
theorem Structured.of_links (h : m.Structured kids) (hlinks : m'.links = m.links)
    (hlive : ∀ n, m.Live n → m'.Live n) : m'.Structured kids where
  forms := hlinks ▸ h.forms
  grounded := by
    rw [show m'.parent? = m.parent? from congrArg Links.parent hlinks]
    exact h.grounded
  root_loose := (congrFun (congrArg Links.parent hlinks) rootId).trans h.root_loose
  cut {n} hn := by
    rw [show m'.parent? = m.parent? from congrArg Links.parent hlinks]
    exact h.cut fun hl => hn (hlive n hl)

/-- Allocating keeps the structure: the new node stands nowhere. -/
theorem Structured.push (h : m.Structured kids) {content : Content} (hcontent : content.firstChild? = none)
    (grammar : Option String) : (m.push (.unlinked content grammar)).Structured kids := by
  refine h.of_links (links_push_unlinked m hcontent grammar) fun n hn => (live_congr ?_).2 hn
  rw [bare?_push_unlinked m hcontent, update_of_ne (Nat.ne_of_lt hn.lt_size)]

/-- Linking keeps the structure if the child is not above its new parent. -/
theorem Structured.appended (h : m.Structured kids) (hdata : SameData m m')
    (hforms : m'.links.Forms (appended kids p c)) (hparent : m'.parent? = update m.parent? c (some p))
    (hp : m.Live p) (hc : m.Live c) (hroot : c ≠ rootId) (hcp : c ≠ p) (hcycle : c ∉ m.ancestors p) :
    m'.Structured (appended kids p c) where
  forms := hforms
  grounded := by
    rw [hparent]
    exact h.grounded.linked (climbs_ancestors h.forms h.grounded p) hcp hcycle
  root_loose := by
    rw [hparent, update_of_ne hroot.symm]
    exact h.root_loose
  cut {n} hn := by
    rw [hdata.live_iff] at hn
    have hnc : n ≠ c := fun e => hn (e ▸ hc)
    have hnp : n ≠ p := fun e => hn (e ▸ hp)
    rw [hparent, update_of_ne hnc, Links.appended, update_of_ne hnp]
    exact h.cut hn

/-- The child lists after `wrapper` was put between `n` and its parent. -/
def wrapped (kids : NodeId → List NodeId) (n wrapper : NodeId) : NodeId → List NodeId :=
  Links.appended (fun q => (kids q).map (rename n wrapper)) wrapper n

/-- Putting a node that stands nowhere between another and its parent keeps the structure. -/
theorem Structured.wrapped (h : m.Structured kids) {wrapper : NodeId} (hdata : SameData m m')
    (hforms : m'.links.Forms (wrapped kids n wrapper)) (hne : n ≠ wrapper) (hn : m.parent? n = some p)
    (hparent : m'.parent? = update (update m.parent? wrapper (some p)) n (some wrapper))
    (hw : m.Live wrapper) (hroot : wrapper ≠ rootId) (hfresh : ∀ x, m.parent? x ≠ some wrapper) :
    m'.Structured (wrapped kids n wrapper) where
  forms := hforms
  grounded := h.grounded.wrapped hne hn hfresh hparent
  root_loose := by
    have hroot' : rootId ≠ n := by
      rintro rfl
      rw [h.root_loose] at hn
      cases hn
    rw [hparent, update_of_ne hroot', update_of_ne hroot.symm]
    exact h.root_loose
  cut {x} hx := by
    rw [hdata.live_iff] at hx
    have hxn : x ≠ n := fun e => hx (e ▸ h.live_of_parent? hn)
    have hxw : x ≠ wrapper := fun e => hx (e ▸ hw)
    rw [hparent, update_of_ne hxn, update_of_ne hxw, Model.wrapped, Links.appended, update_of_ne hxw,
      (h.cut hx).2]
    exact ⟨(h.cut hx).1, rfl⟩

/-- Replacing keeps the structure. -/
theorem Structured.replaced (h : m.Structured kids) {b : Node} {content : Content}
    (hr : Replaced m m' kids old b content) (hold : m.parent? old = some p) :
    m'.Structured (replaced kids old m.size) := by
  have hne : old ≠ m.size := Nat.ne_of_lt (lt_size_of_parent? hold)
  have hroot : rootId ≠ old := by
    rintro rfl
    rw [h.root_loose] at hold
    cases hold
  -- nodes other than the two keep their links, up to the name
  have hother : ∀ x, x ≠ old → x ≠ m.size → m'.parent? x = (m.parent? x).map (rename old m.size) := by
    intro x hxo hxs
    have := hr.parent x hxs
    rwa [rename_of_ne hxo] at this
  refine ⟨hr.forms, ?_, ?_, ?_⟩
  · exact h.grounded.renamed hne h.parent?_ne_size hr.parent hr.parent_old
  · have hsize : rootId ≠ m.size := by
      intro e
      exact Nat.not_lt_zero _ (e ▸ lt_size_of_parent? hold : old < rootId)
    rw [hother rootId hroot hsize, h.root_loose]
    rfl
  · intro x hx
    by_cases hxo : x = old
    · rw [hxo]
      exact ⟨hr.parent_old, Links.adopted_old hne⟩
    have hxs : x ≠ m.size := by
      rintro rfl
      refine hx (live_iff_bare?.2 ⟨.unlinked content b.grammar, ?_, rfl⟩)
      rw [hr.bare, update_of_ne hxo, update_self]
    have hcut := h.cut fun hl => hx ((live_congr (m := m) (by
      rw [hr.bare, update_of_ne hxo, update_of_ne hxs])).2 hl)
    rw [hother x hxo hxs, hcut.1, Model.replaced, Links.adopted_of_ne hxo hxs, hcut.2]
    exact ⟨rfl, rfl⟩

/-! ## Labels -/

theorem Proper.congr {b : Node} (h : m.Proper n b) (htext : m'.text = m.text) (hsize : m.size ≤ m'.size) :
    m'.Proper n b where
  root_only := h.root_only
  successor hs := ⟨(h.successor hs).1, Nat.lt_of_lt_of_le (h.successor hs).2 hsize⟩
  emptied := h.emptied
  in_text {range} hrange := by
    rw [textLength, chars, htext]
    exact h.in_text hrange

/-- Only the nodes that changed have to be looked at. -/
theorem Labelled.step (h : m.Labelled) (htext : m'.text = m.text) (hsize : m.size ≤ m'.size)
    (hroot : ∃ slot, m'.bare? rootId = some (.unlinked (.root ⟨none, 0⟩ slot) none))
    (hnew : ∀ {n b}, m'.bare? n = some b → m.bare? n = some b ∨ m'.Proper n b) : m'.Labelled where
  root := hroot
  proper {n b} hb := by
    rcases hnew hb with hold | hproper
    · exact (h.proper hold).congr htext hsize
    · exact hproper
  short := by
    rw [textLength, chars, htext]
    exact h.short

theorem Labelled.of_sameData (h : m.Labelled) (hdata : SameData m m') : m'.Labelled := by
  refine h.step hdata.text (Nat.le_of_eq hdata.size.symm) ?_ ?_
  · rw [hdata.bare]
    exact h.root
  · intro n b hb
    rw [hdata.bare] at hb
    exact Or.inl hb

theorem Labelled.size_pos (h : m.Labelled) : rootId < m.size := by
  obtain ⟨slot, hroot⟩ := h.root
  exact lt_size_of_bare? hroot

/-- Content of a new node, which is never the root's: a leaf lies in the text. -/
structure Fresh (m : Model) (content : Content) : Prop where
  not_root : content.kind ≠ .root
  loose : content.firstChild? = none
  in_text : ∀ {range}, content.leafRange? = some range →
    range.stop ≤ m.textLength ∧ Text.isBoundary m.chars range.start = true ∧
      Text.isBoundary m.chars range.stop = true

theorem Fresh.proper {content : Content} (h : m.Fresh content) (htext : m'.text = m.text)
    (grammar : Option String) : m'.Proper n (.unlinked content grammar) where
  root_only hk := absurd hk h.not_root
  successor hs := by cases hs
  emptied hs := by cases hs
  in_text {range} hrange := by
    rw [textLength, chars, htext]
    exact h.in_text hrange

theorem fresh_freshComposite (m : Model) (lookahead : Nat) : m.Fresh (.freshComposite lookahead) where
  not_root := by simp [Content.freshComposite, Content.kind]
  loose := rfl
  in_text hrange := by cases hrange

theorem Labelled.push (h : m.Labelled) {content : Content} (hfresh : m.Fresh content)
    (grammar : Option String) : (m.push (.unlinked content grammar)).Labelled := by
  have hbare := bare?_push_unlinked m hfresh.loose grammar
  refine h.step rfl (by rw [size_push]; exact Nat.le_succ _) ?_ ?_
  · rw [hbare, update_of_ne (Nat.ne_of_lt h.size_pos)]
    exact h.root
  · intro n b hb
    rw [hbare] at hb
    by_cases hn : n = m.size
    · rw [hn, update_self] at hb
      obtain rfl := Option.some.inj hb
      exact Or.inr (hfresh.proper (text_push m _) grammar)
    · rw [update_of_ne hn] at hb
      exact Or.inl hb

/-- A node that has given its element away can be replaced. -/
theorem Labelled.replaced (h : m.Labelled) {b : Node} {content : Content}
    (hr : Replaced m m' kids old b content) (hb : m.bare? old = some b) (hroot : old ≠ rootId)
    (hempty : b.content.element? = none) (hfresh : m.Fresh content) : m'.Labelled := by
  have hlt := lt_size_of_bare? hb
  refine h.step hr.text (by rw [hr.size]; exact Nat.le_succ _) ?_ ?_
  · rw [hr.bare, update_of_ne hroot.symm, update_of_ne (Nat.ne_of_lt h.size_pos)]
    exact h.root
  · intro n c hc
    rw [hr.bare] at hc
    by_cases hno : n = old
    · rw [hno, update_self] at hc
      obtain rfl := Option.some.inj hc
      have hproper := (h.proper hb).congr hr.text (by rw [hr.size]; exact Nat.le_succ _)
      refine Or.inr ⟨fun hk => hno ▸ hproper.root_only hk, fun hs => ?_, fun _ => hempty, hproper.in_text⟩
      obtain rfl := Option.some.inj hs
      rw [hno, hr.size]
      exact ⟨hlt, Nat.lt_succ_self _⟩
    rw [update_of_ne hno] at hc
    by_cases hns : n = m.size
    · rw [hns, update_self] at hc
      obtain rfl := Option.some.inj hc
      exact Or.inr (hfresh.proper hr.text b.grammar)
    · rw [update_of_ne hns] at hc
      exact Or.inl hc

/-! ## Nodes without a parent -/

/-- Only nodes that changed, or lost their parent, have to be looked at. -/
theorem Settled.step (h : m.Settled)
    (hnew : ∀ n b, m'.bare? n = some b → b.replacedBy = none → m'.parent? n = none →
      m.bare? n = some b ∧ m.parent? n = none ∨ b.kind = .compositeWithSemanticElement) : m'.Settled := by
  intro n b hb hlive hloose
  rcases hnew n b hb hlive hloose with ⟨hold, hloose⟩ | hkind
  · exact h n b hold hlive hloose
  · exact Or.inr hkind

/-- The new node of a replacement has a parent, and the old one is not live. -/
theorem Settled.replaced (h : m.Settled) {b : Node} {content : Content}
    (hr : Replaced m m' kids old b content) (hold : m.parent? old = some p) : m'.Settled := by
  have hne : old ≠ m.size := Nat.ne_of_lt (lt_size_of_parent? hold)
  refine h.step fun n c hc hlive hloose => ?_
  rw [hr.bare] at hc
  by_cases hno : n = old
  · rw [hno, update_self] at hc
    obtain rfl := Option.some.inj hc
    cases hlive
  rw [update_of_ne hno] at hc
  by_cases hns : n = m.size
  · have hparent := hr.parent old hne
    rw [rename_self, hold, ← hns, hloose] at hparent
    cases hparent
  · rw [update_of_ne hns] at hc
    have hparent := hr.parent n hns
    rw [rename_of_ne hno, hloose] at hparent
    exact Or.inl ⟨hc, Option.map_eq_none_iff.1 hparent.symm⟩

theorem WellFormed.replaced (h : m.WellFormed) {b : Node} {content : Content}
    (hr : Replaced m m' m.children n b content) (hb : m.bare? n = some b) (hn : m.parent? n = some p)
    (hempty : b.content.element? = none) (hfresh : m.Fresh content) : m'.WellFormed where
  structured := (h.structured.replaced hr hn).of_children
  labelled := by
    refine h.labelled.replaced hr hb ?_ hempty hfresh
    rintro rfl
    rw [h.structured.root_loose] at hn
    cases hn
  settled := h.settled.replaced hr hn

/-! ## Slots and index -/

/-- Filling a slot changes one bare node. -/
theorem bare?_setSlot {b : Node} (hb : m.bare? n = some b) (slot : Option Element) :
    (m.setSlot n slot).bare? = update m.bare? n (some { b with content := b.content.withSlot slot }) := by
  refine bare?_modify (fun node => { node with content := node.content.withSlot slot }) (fun node => ?_) hb
  simp only [Node.bare, Node.detached, Content.withFirstChild_withSlot]

theorem links_setSlot (m : Model) (n : NodeId) (slot : Option Element) : (m.setSlot n slot).links = m.links :=
  links_modify_data fun _ => ⟨rfl, rfl, rfl, Content.firstChild?_withSlot ..⟩

theorem live_setSlot (m : Model) (n x : NodeId) (slot : Option Element) :
    (m.setSlot n slot).Live x ↔ m.Live x := by
  cases hb : m.bare? n with
  | none =>
    have hn : m.get? n = none := get?_eq_none_iff.2 (bare?_eq_none_iff.1 hb)
    have hget : (m.setSlot n slot).get? x = m.get? x := by
      rw [setSlot, get?_modify]
      split
      · next e => rw [← e, hn]; rfl
      · rfl
    rw [Live, Live, hget]
  | some b =>
    rw [live_iff_bare?, live_iff_bare?, bare?_setSlot hb]
    by_cases hx : x = n
    · rw [hx, update_self, hb]
      simp
    · rw [update_of_ne hx]

theorem Structured.setSlot (h : m.Structured kids) (n : NodeId) (slot : Option Element) :
    (m.setSlot n slot).Structured kids :=
  h.of_links (links_setSlot m n slot) fun x hx => (live_setSlot m n x slot).2 hx

/-- The slot of a live node may be filled, and every slot may be emptied. -/
theorem Labelled.setSlot (h : m.Labelled) {b : Node} (hb : m.bare? n = some b) {slot : Option Element}
    (hslot : b.replacedBy = none ∨ slot = none) : (m.setSlot n slot).Labelled := by
  have hbare := bare?_setSlot hb slot
  refine h.step rfl (Nat.le_of_eq (size_modify ..).symm) ?_ ?_
  · obtain ⟨held, hroot⟩ := h.root
    by_cases hn : rootId = n
    · rw [hbare, ← hn, update_self]
      rw [← hn, hroot] at hb
      obtain rfl := Option.some.inj hb
      exact ⟨slot, rfl⟩
    · rw [hbare, update_of_ne hn]
      exact ⟨held, hroot⟩
  · intro x c hc
    rw [hbare] at hc
    by_cases hx : x = n
    · subst hx
      rw [update_self] at hc
      obtain rfl := Option.some.inj hc
      have hproper : (m.setSlot x slot).Proper x b :=
        (h.proper hb).congr rfl (Nat.le_of_eq (size_modify ..).symm)
      refine Or.inr ⟨fun hk => ?_, hproper.successor, fun hs => ?_, fun hrange => ?_⟩
      · exact hproper.root_only ((Content.kind_withSlot ..).symm.trans hk)
      · rcases hslot with hlive | rfl
        · rw [hlive] at hs
          cases hs
        · exact Content.element?_withSlot_none _
      · rw [Content.leafRange?_withSlot] at hrange
        exact hproper.in_text hrange
    · rw [update_of_ne hx] at hc
      exact Or.inl hc

theorem Settled.setSlot (h : m.Settled) {b : Node} (hb : m.bare? n = some b) (slot : Option Element) :
    (m.setSlot n slot).Settled := by
  intro x c hc hlive hloose
  rw [show (m.setSlot n slot).parent? = m.parent? from congrArg Links.parent (links_setSlot m n slot)] at hloose
  rw [bare?_setSlot hb] at hc
  by_cases hx : x = n
  · subst hx
    rw [update_self] at hc
    obtain rfl := Option.some.inj hc
    rcases h x b hb hlive hloose with hroot | hkind
    · exact Or.inl hroot
    · exact Or.inr ((Content.kind_withSlot ..).trans hkind)
  · rw [update_of_ne hx] at hc
    exact h x c hc hlive hloose

/-- Nothing was bound or released. -/
theorem Indexed.of_elements (h : m.Indexed) (hindex : m'.index = m.index)
    (helement : m'.element? = m.element?) : m'.Indexed := by
  refine ⟨?_, ?_⟩
  · rw [hindex, helement]
    exact h.bound
  · rw [hindex]
    exact h.nodup

/-- An element is bound to a node: the node that held it before is released, and so is the element that the
node held before. -/
theorem Indexed.rebound (h : m.Indexed) (e : Element) (n : NodeId)
    (hnodup : (m'.index.entries.map Prod.fst).Nodup)
    (hfind : ∀ f, m'.index.find? f
      = if f = e then some n else if m.element? n = some f then none else m.index.find? f)
    (helement : ∀ x, m'.element? x
      = if x = n then some e else if m.element? x = some e then none else m.element? x) : m'.Indexed where
  nodup := hnodup
  bound f x := by
    rw [hfind, helement]
    by_cases hf : f = e
    · subst hf
      rw [if_pos rfl]
      by_cases hx : x = n
      · rw [if_pos hx, hx]
        exact ⟨fun _ => rfl, fun _ => rfl⟩
      · rw [if_neg hx]
        constructor
        · intro he
          exact absurd (Option.some.inj he).symm hx
        · intro he
          split at he
          · cases he
          · next hne => exact absurd he hne
    · rw [if_neg hf]
      by_cases hx : x = n
      · rw [if_pos hx, hx]
        constructor
        · intro he
          split at he
          · cases he
          · next hne => exact absurd ((h.bound f n).1 he) hne
        · intro he
          exact absurd (Option.some.inj he).symm hf
      · rw [if_neg hx]
        constructor
        · intro he
          split at he
          · cases he
          · have hxf := (h.bound f x).1 he
            rw [if_neg fun hxe => hf (Option.some.inj (hxf.symm.trans hxe))]
            exact hxf
        · intro he
          split at he
          · cases he
          · have hfx := (h.bound f x).2 he
            rw [if_neg fun hnf => hx (Option.some.inj (hfx.symm.trans ((h.bound f n).2 hnf)))]
            exact hfx

/-- The store does not care what the index says. -/
theorem WellFormed.of_index (h : m.WellFormed) (index : SemanticIndex) :
    Model.WellFormed { m with index := index } := by
  have hstructured : Structured { m with index := index } m.children :=
    h.structured.of_links rfl fun _ hx => hx
  have hlabelled : Labelled { m with index := index } :=
    h.labelled.step rfl (Nat.le_refl _) h.labelled.root Or.inl
  exact ⟨hstructured.of_children, hlabelled, h.settled.step fun _ _ hb _ hloose => Or.inl ⟨hb, hloose⟩⟩

theorem WellFormed.setSlot (h : m.WellFormed) {b : Node} (hb : m.bare? n = some b) {slot : Option Element}
    (hslot : b.replacedBy = none ∨ slot = none) : (m.setSlot n slot).WellFormed where
  structured := (h.structured.setSlot n slot).of_children
  labelled := h.labelled.setSlot hb hslot
  settled := h.settled.setSlot hb slot

/-! ## Root and other nodes -/

/-- A node with a parent is not the root. -/
theorem WellFormed.ne_root (h : m.WellFormed) (hn : m.parent? n = some p) : n ≠ rootId := by
  intro e
  rw [e, h.structured.root_loose] at hn
  cases hn

theorem WellFormed.live_of_parent? (h : m.WellFormed) (hn : m.parent? n = some p) : m.Live n :=
  h.structured.live_of_parent? hn

/-- Readers see the head of a child list first. -/
theorem WellFormed.head?_children (h : m.WellFormed) (p : NodeId) : (m.children p).head? = m.firstChild? p :=
  (h.structured.forms.firstChild p).symm

/-- The next node to be allocated has no children. -/
theorem WellFormed.children_size (h : m.WellFormed) : m.children m.size = [] :=
  (h.structured.cut m.not_live_size).2

/-- A leaf has no children. -/
theorem WellFormed.children_of_isLeaf (h : m.WellFormed) (hleaf : m.isLeaf n = true) : m.children n = [] := by
  rw [← List.head?_eq_none_iff, h.head?_children]
  exact firstChild?_of_isLeaf hleaf

theorem WellFormed.live_root (h : m.WellFormed) : m.Live rootId := by
  obtain ⟨slot, hroot⟩ := h.labelled.root
  exact live_iff_bare?.2 ⟨_, hroot, rfl⟩

/-- The root is the node of that kind. -/
theorem WellFormed.isRoot_iff (h : m.WellFormed) : m.isRoot n = true ↔ n = rootId := by
  rw [isRoot_eq_bare?, beq_iff_eq]
  constructor
  · intro hk
    obtain ⟨b, hb, hkind⟩ := Option.map_eq_some_iff.1 hk
    exact (h.labelled.proper hb).root_only hkind
  · rintro rfl
    obtain ⟨slot, hroot⟩ := h.labelled.root
    rw [hroot]
    rfl

end SyntaxTree.Model
