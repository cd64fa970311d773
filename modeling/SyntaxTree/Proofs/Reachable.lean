import SyntaxTree.Proofs.Editing

/-!
# Reachable models

A model is reachable if a run of edits leads to it from the model of a text with nothing but the root. An edit
may only name nodes that were there before it. Every reachable model is coherent (`Reachable.coherent`): the
first model is, and no edit destroys it.

The main results put coherence into the words of the links and the slots themselves. `WellLinked` speaks of single
nodes and the nodes they point to, and knows nothing of child lists; `Paired` speaks of elements and the nodes that hold
them.
-/

namespace SyntaxTree

namespace Model

variable {m : Model} {text : String} {n p : NodeId}

/-- The models that runs of edits lead to. -/
inductive Reachable (text : String) : Model → Prop where
  | opened {m : Model} : ofText text = .ok m → Reachable text m
  | edited {m m' : Model} {answer : Option NodeId} (edit : Edit) : Reachable text m → edit.Allocated m →
      edit.apply m = .ok (m', answer) → Reachable text m'

/-- A text is opened unless it is too long. -/
theorem ofText_eq_ok_iff : ofText text = .ok m ↔ (initial text).textLength < UInt32.size ∧ initial text = m := by
  rw [ofText]
  by_cases hshort : (initial text).textLength < UInt32.size
  · rw [if_pos hshort, Except.ok.injEq]
    exact ⟨fun hm => ⟨hshort, hm⟩, fun hm => hm.2⟩
  · rw [if_neg hshort]
    exact ⟨nofun, fun hm => absurd hm.1 hshort⟩

/-- The root alone is coherent. -/
theorem coherent_of_ofText (h : ofText text = .ok m) : m.Coherent := by
  obtain ⟨hshort, rfl⟩ := ofText_eq_ok_iff.1 h
  have hget : ∀ n node, (initial text).get? n = some node →
      n = rootId ∧ node = .unlinked (.root ⟨none, 0⟩ none) none := by
    intro n node hn
    obtain _ | n := n
    · exact ⟨rfl, (Option.some.inj hn).symm⟩
    · cases hn
  have hbare : ∀ n b, (initial text).bare? n = some b →
      n = rootId ∧ b = .unlinked (.root ⟨none, 0⟩ none) none := by
    intro n b hb
    obtain ⟨node, hnode, rfl⟩ := get?_of_bare? hb
    obtain ⟨rfl, rfl⟩ := hget n node hnode
    exact ⟨rfl, rfl⟩
  -- no node has any link
  have hloose : ∀ {α : Type} (read : Node → Option α), read (.unlinked (.root ⟨none, 0⟩ none) none) = none →
      ∀ n, ((initial text).get? n).bind read = none := by
    intro α read hread n
    cases hn : (initial text).get? n with
    | none => rfl
    | some node =>
      obtain ⟨-, rfl⟩ := hget n node hn
      exact hread
  have hparent : ∀ n, (initial text).parent? n = none := hloose (·.parent) rfl
  have hforms : (initial text).links.Forms fun _ => [] := by
    refine ⟨hloose (·.content.firstChild?) rfl, fun _ => List.nodup_nil, fun {p c} hc => ?_, fun hsplit => ?_,
      fun {c} _ => ⟨hloose (·.next) rfl c, hloose (·.previous) rfl c⟩⟩
    · rw [links_parent, hparent] at hc
      cases hc
    · simp at hsplit
  have hstructured : (initial text).Structured fun _ => [] :=
    ⟨hforms, fun n => ⟨[], hparent n⟩, hparent rootId, fun {n} _ => ⟨hparent n, rfl⟩⟩
  refine ⟨⟨hstructured.of_children, ⟨⟨none, rfl⟩, fun {n b} hb => ?_, hshort⟩, fun n b hb _ _ => ?_⟩,
    fun e n => ?_, List.nodup_nil⟩
  · obtain ⟨rfl, rfl⟩ := hbare n b hb
    exact ⟨fun _ => rfl, nofun, nofun, nofun⟩
  · exact Or.inl (hbare n b hb).1
  · rw [show (initial text).element? n = none from hloose (·.content.element?) rfl n]
    exact ⟨nofun, nofun⟩

/-- Every reachable model is coherent. -/
theorem Reachable.coherent (h : Reachable text m) : m.Coherent := by
  induction h with
  | opened hopen => exact coherent_of_ofText hopen
  | edited edit _ hargs hok ih => exact (Edit.apply_outcome ih hargs hok).1

/-- The text stays as it was opened. -/
theorem Reachable.text_eq (h : Reachable text m) : m.text = text := by
  induction h with
  | opened hopen =>
    obtain ⟨-, rfl⟩ := ofText_eq_ok_iff.1 hopen
    rfl
  | edited edit hreachable hargs hok ih => exact (Edit.apply_outcome hreachable.coherent hargs hok).2.text.trans ih

/-! ## What coherence means for single nodes -/

/-- Following `next` from a first child meets the nodes of a list, each once, and comes back to where it
started; `previous` goes the same way in reverse; and the nodes met are the children of `p`. -/
structure Ring (m : Model) (p first : NodeId) (ring : List NodeId) : Prop where
  starts : ring.head? = some first
  closed : (ring ++ [first]).IsChain fun a b => m.nextInRing? a = some b ∧ m.previousInRing? b = some a
  nodup : ring.Nodup
  children : ∀ n, m.parent? n = some p ↔ n ∈ ring

/-- The links of a model fit together. -/
structure WellLinked (m : Model) : Prop where
  /-- A node has a parent and two neighbours, or none of them. -/
  all_or_none : ∀ n, (m.nextInRing? n).isSome = (m.parent? n).isSome ∧
    (m.previousInRing? n).isSome = (m.parent? n).isSome
  /-- The nodes below a composite form one ring. -/
  ring : ∀ {p first}, m.firstChild? p = some first → ∃ ring, m.Ring p first ring
  childless : ∀ {p}, m.firstChild? p = none → ∀ n, m.parent? n ≠ some p
  /-- The root stands alone and stays. -/
  root : m.kind? rootId = some .root ∧ m.isStale rootId = false ∧ m.parent? rootId = none
  /-- The way up from a live node ends, at the root or at a live composite without a parent. -/
  climbs : ∀ {n}, m.Live n → ∃ chain top, Climbs m.parent? n chain ∧ (n :: chain).getLast? = some top ∧
    m.Live top ∧ m.parent? top = none ∧ (top = rootId ∨ (m.kind? top).any NodeKind.isComposite = true)
  /-- A replaced node has no links and no element. -/
  cut : ∀ {n}, m.isStale n = true → m.parent? n = none ∧ m.nextInRing? n = none ∧
    m.previousInRing? n = none ∧ m.firstChild? n = none ∧ m.element? n = none
  /-- Links and the index lead to live nodes only. -/
  leads : ∀ {n x}, m.parent? n = some x ∨ m.nextInRing? n = some x ∨ m.previousInRing? n = some x ∨
    m.firstChild? n = some x ∨ (∃ e, m.nodeOfElement? e = some x) → m.Live x

theorem isStale_eq_true_iff : m.isStale n = true ↔ n < m.size ∧ ¬ m.Live n := by
  rw [isStale, lt_size_iff, Live]
  cases hn : m.get? n with
  | none => simp
  | some node => cases hr : node.replacedBy <;> simp [hr]

/-- A list that the links form is a ring. -/
theorem WellFormed.exists_ring (h : m.WellFormed) {first : NodeId} (hfirst : m.firstChild? p = some first) :
    m.Ring p first (m.children p) := by
  have hhead : (m.children p).head? = some first := (h.head?_children p).trans hfirst
  refine ⟨hhead, ?_, h.structured.forms.nodup p, fun n => h.structured.forms.mem_iff.symm⟩
  obtain ⟨rest, hk⟩ := List.head?_eq_some_iff.1 hhead
  rw [hk]
  exact h.structured.forms.isChain hhead rest [] first hk

/-- The way up from a live node ends at the root or at a live composite. -/
theorem WellFormed.exists_top (h : m.WellFormed) (hn : m.Live n) :
    ∃ top, (n :: m.ancestors n).getLast? = some top ∧ m.Live top ∧ m.parent? top = none ∧
      (top = rootId ∨ (m.kind? top).any NodeKind.isComposite = true) := by
  have hclimb := climbs_ancestors h.structured.forms h.structured.grounded n
  obtain ⟨top, hlast, hloose⟩ := hclimb.exists_top
  have hlive : m.Live top :=
    hclimb.forall_mem (fun _ hup => h.structured.live_of_mem (h.structured.forms.listed hup)) hn top
      (List.mem_of_getLast? hlast)
  refine ⟨top, hlast, hlive, hloose, ?_⟩
  obtain ⟨b, hb, hb'⟩ := live_iff_bare?.1 hlive
  rcases h.settled top b hb hb' hloose with hroot | hkind
  · exact Or.inl hroot
  · right
    rw [kind?_eq_bare?, hb, Option.map_some, hkind]
    rfl

/-- A node that holds an element is live. -/
theorem Labelled.live_of_element? (h : m.Labelled) {e : Element} (he : m.element? n = some e) : m.Live n := by
  rw [element?_eq_bare?] at he
  obtain ⟨b, hb, hbe⟩ := Option.bind_eq_some_iff.1 he
  cases hs : b.replacedBy with
  | none => exact live_iff_bare?.2 ⟨b, hb, hs⟩
  | some s =>
    rw [(h.proper hb).emptied hs] at hbe
    cases hbe

theorem Coherent.wellLinked (h : m.Coherent) : m.WellLinked := by
  have hforms := h.structured.forms
  refine ⟨fun n => ?_, fun hfirst => ⟨_, h.exists_ring hfirst⟩, fun {p} hp n hn => ?_, ?_, fun {n} hn => ?_,
    fun {n} hn => ?_, fun {n x} hlink => ?_⟩
  · cases hn : m.parent? n with
    | none =>
      obtain ⟨hnext, hprevious⟩ := hforms.unlinked hn
      rw [← links_next, ← links_previous, hnext, hprevious]
      exact ⟨rfl, rfl⟩
    | some p =>
      obtain ⟨next, previous, hnext, hprevious⟩ := hforms.exists_neighbours hn
      rw [← links_next, ← links_previous, hnext, hprevious]
      exact ⟨rfl, rfl⟩
  · have hempty := (h.head?_children p).trans hp
    rw [List.head?_eq_none_iff] at hempty
    have hmem := hforms.listed hn
    rw [hempty] at hmem
    cases hmem
  · obtain ⟨slot, hroot⟩ := h.labelled.root
    rw [kind?_eq_bare?, isStale_eq_bare?, hroot]
    exact ⟨rfl, rfl, h.structured.root_loose⟩
  · obtain ⟨top, htop⟩ := h.exists_top hn
    exact ⟨m.ancestors n, top, climbs_ancestors hforms h.structured.grounded n, htop⟩
  · obtain ⟨hlt, hstale⟩ := isStale_eq_true_iff.1 hn
    obtain ⟨hparent, hkids⟩ := h.structured.cut hstale
    obtain ⟨hnext, hprevious⟩ := hforms.unlinked hparent
    refine ⟨hparent, hnext, hprevious, ?_, ?_⟩
    · rw [← h.head?_children, hkids]
      rfl
    · cases he : m.element? n with
      | none => rfl
      | some e => exact absurd (h.labelled.live_of_element? he) hstale
  · rcases hlink with hparent | hnext | hprevious | hfirst | ⟨e, he⟩
    · exact h.structured.live_of_mem (hforms.listed hparent)
    · -- a neighbour has the same parent, and nodes with a parent are live
      obtain ⟨hback, -⟩ := hforms.previous_of_next hnext
      cases hx : m.parent? x with
      | none =>
        rw [(hforms.unlinked hx).2] at hback
        cases hback
      | some p => exact h.live_of_parent? hx
    · obtain ⟨hback, -⟩ := hforms.next_of_previous hprevious
      cases hx : m.parent? x with
      | none =>
        rw [(hforms.unlinked hx).1] at hback
        cases hback
      | some p => exact h.live_of_parent? hx
    · have hhead := (h.head?_children n).trans hfirst
      exact h.live_of_parent? (hforms.mem_iff.1 (List.mem_of_mem_head? hhead))
    · exact h.labelled.live_of_element? ((h.indexed.bound e x).1 he)

/-- The links of every reachable model fit together. -/
theorem reachable_wellLinked (h : Reachable text m) : m.WellLinked :=
  h.coherent.wellLinked

/-- A run that makes every kind of call: two leaves under a bound composite, the first one wrapped and its
wrapper compressed, the second one marked, and a composite that is added later. -/
theorem reachable_wellLinked_two_leaves : ∃ m, Reachable "ab" m ∧ m.children rootId = [1, 7] ∧
    m.children 1 = [6, 5] ∧ m.children 6 = [2] ∧ m.isStale 3 = true ∧ m.isStale 4 = true ∧ m.WellLinked := by
  have h : Reachable "ab" (initial "ab") := .opened (ofText_eq_ok_iff.2 ⟨by decide, rfl⟩)
  have h := h.edited (.newComposite none 0 (some 0)) (by decide) rfl
  have h := h.edited (.newLeaf 0 1 none false none 1) (by decide) rfl
  have h := h.edited (.newLeaf 1 1 none false none 1) (by decide) rfl
  have h := h.edited (.associate 1 7) (by decide) rfl
  have h := h.edited (.wrap none 0 2) (by decide) rfl
  have h := h.edited (.setSyntaxError 3 ⟨"late", none, []⟩) (by decide) rfl
  have h := h.edited (.compress 4) (by decide) rfl
  have h := h.edited (.newComposite none 0 none) (by decide) rfl
  have h := h.edited (.addChild 0 7) (by decide) rfl
  exact ⟨_, h, rfl, rfl, rfl, rfl, rfl, reachable_wellLinked h⟩

/-! ## What coherence means for elements -/

/-- Elements and the nodes that hold them are paired off. -/
structure Paired (m : Model) : Prop where
  /-- The index leads to a node exactly if that node holds the element, whether it is live or not. -/
  held : ∀ e n, m.nodeOfElement? e = some n ↔ m.element? n = some e
  /-- The index leads to live nodes that have a slot. -/
  bindable : ∀ {e n}, m.nodeOfElement? e = some n → m.Live n ∧ (m.kind? n).any NodeKind.isBindable = true
  one_node : ∀ {e n n'}, m.element? n = some e → m.element? n' = some e → n = n'
  one_element : ∀ {e e' n}, m.nodeOfElement? e = some n → m.nodeOfElement? e' = some n → e = e'

theorem Coherent.paired (h : m.Coherent) : m.Paired where
  held := h.indexed.bound
  bindable {e n} hn := by
    have he := (h.indexed.bound e n).1 hn
    refine ⟨h.labelled.live_of_element? he, ?_⟩
    obtain ⟨node, hnode, hnodeElement⟩ := Option.bind_eq_some_iff.1 he
    rw [kind?, hnode, Option.map_some, Option.any_some]
    exact Content.isBindable_of_element? hnodeElement
  one_node {e n n'} hn hn' := by
    have hfind := (h.indexed.bound e n).2 hn
    rw [(h.indexed.bound e n').2 hn'] at hfind
    exact (Option.some.inj hfind).symm
  one_element {e e' n} hn hn' := by
    have he := (h.indexed.bound e n).1 hn
    rw [(h.indexed.bound e' n).1 hn'] at he
    exact (Option.some.inj he).symm

/-- In every reachable model elements and nodes are paired off. -/
theorem reachable_paired (h : Reachable text m) : m.Paired :=
  h.coherent.paired

/-- An element that was evicted, one that was taken over by another node and one that went on to a marked node, with a
composite that lost its element and was compressed, and a holder without a parent. -/
theorem reachable_paired_moves : ∃ m, Reachable "" m ∧ m.nodeOfElement? 1 = none ∧ m.nodeOfElement? 2 = some 3 ∧
    m.nodeOfElement? 3 = some 4 ∧ m.parent? 3 = none ∧ m.isStale 1 = true ∧ m.element? 1 = none ∧
    m.isStale 2 = true ∧ m.element? 2 = none ∧ m.Paired := by
  have h : Reachable "" (initial "") := .opened (ofText_eq_ok_iff.2 ⟨by decide, rfl⟩)
  have h := h.edited (.newComposite none 0 (some 0)) (by decide) rfl
  have h := h.edited (.newComposite none 0 (some 0)) (by decide) rfl
  have h := h.edited (.newComposite none 0 none) (by decide) rfl
  have h := h.edited (.associate 1 1) (by decide) rfl
  have h := h.edited (.associate 1 2) (by decide) rfl
  have h := h.edited (.associate 3 2) (by decide) rfl
  have h := h.edited (.associate 2 3) (by decide) rfl
  have h := h.edited (.setSyntaxError 2 ⟨"late", none, []⟩) (by decide) rfl
  have h := h.edited (.compress 1) (by decide) rfl
  exact ⟨_, h, rfl, rfl, rfl, rfl, rfl, rfl, rfl, rfl, reachable_paired h⟩

end Model

end SyntaxTree
