import SyntaxTree.Proofs.Building

/-!
# Binding elements in a coherent model

Binding an element touches up to two slots and two entries of the index: the node that held the element is
released, and so is the element that the node held. `Bound` says what is left after all of it, and
`associate_eq_ok` that slots and index agree again.
-/

namespace SyntaxTree.Model

open Function (update update_self update_of_ne)

variable {m m' : Model} {n : NodeId}

/-- An element was bound to a node. The node that held it before, if another, holds nothing now. -/
structure Bound (m m' : Model) (n : NodeId) (e : Element) : Prop where
  links : m'.links = m.links
  bare : ∀ x, m'.bare? x = (m.bare? x).map fun b => { b with
    content := b.content.withSlot
      (if x = n then some e else if b.content.element? = some e then none else b.content.element?) }
  text : m'.text = m.text
  size : m'.size = m.size

/-- The model without the element, unless the node itself holds it. -/
def release (m : Model) (n : NodeId) (e : Element) : Model :=
  match m.index.find? e with
  | some holder => if holder = n then m else m.setSlot holder none
  | none => m

/-- The index without the element that the node holds, unless it is the same element. -/
def releaseElement (m : Model) (held : Option Element) (e : Element) : SemanticIndex :=
  match held with
  | some previous => if previous = e then m.index else m.index.erase previous
  | none => m.index

theorem links_release (m : Model) (n : NodeId) (e : Element) : (m.release n e).links = m.links := by
  unfold release
  split
  · split
    · rfl
    · exact links_setSlot ..
  · rfl

theorem size_release (m : Model) (n : NodeId) (e : Element) : (m.release n e).size = m.size := by
  unfold release
  split
  · split
    · rfl
    · exact size_modify ..
  · rfl

/-- No other node holds the element any more. -/
theorem bare?_release (h : m.Indexed) (n : NodeId) (e : Element) (x : NodeId) :
    (m.release n e).bare? x = (m.bare? x).map fun b => { b with
      content := b.content.withSlot
        (if x ≠ n ∧ b.content.element? = some e then none else b.content.element?) } := by
  have hheld : ∀ b, m.bare? x = some b → (b.content.element? = some e ↔ m.index.find? e = some x) := by
    intro b hb
    rw [h.bound, element?_eq_bare?, hb]
    rfl
  -- a node that does not lose the element stays as it is
  have hkeep : (x ≠ n → m.index.find? e ≠ some x) →
      m.bare? x = (m.bare? x).map fun b => { b with
        content := b.content.withSlot
          (if x ≠ n ∧ b.content.element? = some e then none else b.content.element?) } := by
    intro hx
    cases hb : m.bare? x with
    | none => rfl
    | some b =>
      rw [Option.map_some, if_neg fun hc => hx hc.1 ((hheld b hb).1 hc.2), Content.withSlot_element?]
  unfold release
  split
  · next holder hholder =>
    split
    · next heq =>
      refine hkeep fun hx hfind => hx ?_
      rw [hholder] at hfind
      exact (Option.some.inj hfind).symm.trans heq
    · next hne =>
      have hbound := (h.bound e holder).1 hholder
      rw [element?_eq_bare?] at hbound
      obtain ⟨b, hb, hbe⟩ := Option.bind_eq_some_iff.1 hbound
      rw [bare?_setSlot hb]
      by_cases hx : x = holder
      · rw [hx, update_self, hb, Option.map_some, if_pos ⟨hne, hbe⟩]
      · rw [update_of_ne hx]
        refine hkeep fun _ hfind => hx ?_
        rw [hholder] at hfind
        exact (Option.some.inj hfind).symm
  · next hfree =>
    refine hkeep fun _ hfind => ?_
    rw [hfree] at hfind
    cases hfind

theorem WellFormed.release (h : m.WellFormed) (hindex : m.Indexed) (n : NodeId) (e : Element) :
    (m.release n e).WellFormed := by
  unfold Model.release
  split
  · next holder hholder =>
    split
    · exact h
    · have hbound := (hindex.bound e holder).1 hholder
      rw [element?_eq_bare?] at hbound
      obtain ⟨b, hb, -⟩ := Option.bind_eq_some_iff.1 hbound
      exact h.setSlot hb (Or.inr rfl)
  · exact h

theorem nodup_keys_erase {index : SemanticIndex} (h : (index.entries.map Prod.fst).Nodup) (e : Element) :
    ((index.erase e).entries.map Prod.fst).Nodup :=
  h.sublist (List.filter_sublist.map _)

theorem nodup_keys_insert {index : SemanticIndex} (h : (index.entries.map Prod.fst).Nodup) (e : Element)
    (n : NodeId) : ((index.insert e n).entries.map Prod.fst).Nodup := by
  refine List.nodup_cons.2 ⟨?_, nodup_keys_erase h e⟩
  simp [SemanticIndex.erase]

theorem find?_releaseElement (m : Model) (held : Option Element) (e f : Element) (hf : f ≠ e) :
    (m.releaseElement held e).find? f = if held = some f then none else m.index.find? f := by
  unfold releaseElement
  cases held with
  | none => simp
  | some previous =>
    simp only [Option.some.injEq]
    split
    · next heq =>
      subst heq
      rw [if_neg (Ne.symm hf)]
    · rw [SemanticIndex.find?_erase]
      simp only [eq_comm]

theorem nodup_keys_releaseElement (h : m.Indexed) (held : Option Element) (e : Element) :
    ((m.releaseElement held e).entries.map Prod.fst).Nodup := by
  unfold releaseElement
  split
  · split
    · exact h.nodup
    · exact nodup_keys_erase h.nodup _
  · exact h.nodup

/-- Every live node with a slot can be bound. -/
theorem Coherent.associate_eq_ok (h : m.Coherent) (hn : m.Live n)
    (hkind : (m.kind? n).any NodeKind.isBindable = true) (e : Element) :
    ∃ m', m.associate n e = .ok m' ∧ m'.Coherent ∧ Bound m m' n e := by
  obtain ⟨node, hnode, hlive, hlook⟩ := hn.exists_lookupLive
  rw [kind?, hnode, Option.map_some, Option.any_some] at hkind
  let r := m.release n e
  let m' : Model := { r.setSlot n (some e) with
    index := (m.releaseElement node.content.element? e).insert e n }
  have hrelease := h.toWellFormed.release h.indexed n e
  have hrb : r.bare? n = some node.bare := by
    rw [bare?_release h.indexed, bare?_of_get? hnode, Option.map_some, if_neg (by simp), Content.withSlot_element?]
  have hbare : ∀ x, m'.bare? x = (m.bare? x).map fun b => { b with
      content := b.content.withSlot
        (if x = n then some e else if b.content.element? = some e then none else b.content.element?) } := by
    intro x
    rw [show m'.bare? x = (r.setSlot n (some e)).bare? x from rfl, bare?_setSlot hrb]
    by_cases hx : x = n
    · rw [hx, update_self, bare?_of_get? hnode]
      simp
    · rw [update_of_ne hx, bare?_release h.indexed]
      simp [hx]
  have hheld : m.element? n = node.content.element? := by rw [element?, hnode]; rfl
  have hfind : ∀ f, m'.index.find? f
      = if f = e then some n else if m.element? n = some f then none else m.index.find? f := by
    intro f
    rw [show m'.index = (m.releaseElement node.content.element? e).insert e n from rfl,
      SemanticIndex.find?_insert]
    split
    · rfl
    · next hf => rw [find?_releaseElement m _ e f hf, hheld]
  have hbound : Bound m m' n e :=
    ⟨(links_setSlot r n (some e)).trans (links_release m n e), hbare, by
      show r.text = m.text
      unfold r release
      split
      · split <;> rfl
      · rfl, (size_modify ..).trans (size_release m n e)⟩
  refine ⟨m', ?_, ⟨(hrelease.setSlot hrb (Or.inl hlive)).of_index _, ?_⟩, hbound⟩
  · rw [associate, hlook]
    simp only [bind, Except.bind]
    rw [if_neg (by rw [hkind]; decide)]
    rfl
  · refine h.indexed.rebound e n (nodup_keys_insert (nodup_keys_releaseElement h.indexed _ e) e n) hfind ?_
    intro x
    rw [element?_eq_bare?, hbare, element?_eq_bare?]
    by_cases hx : x = n
    · rw [if_pos hx, hx, bare?_of_get? hnode]
      simp only [if_true]
      exact Content.element?_withSlot (by rw [← hkind]; exact congrArg _ (Node.bare_kind node)) (some e)
    · rw [if_neg hx]
      cases m.bare? x with
      | none => rfl
      | some b =>
        simp only [hx, if_false, Option.map_some, Option.bind_some]
        split
        · exact Content.element?_withSlot_none b.content
        · rw [Content.withSlot_element?]

theorem live_of_associate {e : Element} (hok : m.associate n e = .ok m') :
    m.Live n ∧ (m.kind? n).any NodeKind.isBindable = true := by
  obtain ⟨node, hlook, hok⟩ := bind_eq_ok_iff.1 hok
  obtain ⟨hnode, hlive⟩ := lookupLive_eq_ok_iff.1 hlook
  refine ⟨⟨node, hnode, hlive⟩, ?_⟩
  rw [kind?, hnode, Option.map_some, Option.any_some]
  cases hkind : node.kind.isBindable with
  | true => rfl
  | false =>
    rw [hkind] at hok
    cases hok

end SyntaxTree.Model
