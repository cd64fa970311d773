import SyntaxTree.Proofs.Store

/-!
# Linking a child

`Linkable m p c` is what the builder asks for before it adds `c` under `p`. It is the exact condition:
`link_eq_ok` says that it is enough, and what the links are afterwards; `linkable_of_link` says that it is
needed. What is left to say about `link` elsewhere is only that the result has no cycles.
-/

namespace SyntaxTree.Model

open Function (update update_self update_of_ne)
open Links (appended)

variable {m m' : Model} {kids : NodeId → List NodeId} {p c : NodeId}

/-- The parent is a live composite, and the child is live, has no parent and is not the root. -/
structure Linkable (m : Model) (p c : NodeId) : Prop where
  parent_live : m.Live p
  parent_composite : m.isLeaf p = false
  child_live : m.Live c
  child_loose : m.parent? c = none
  child_not_root : m.isRoot c = false

theorem isRoot_eq_false_iff {node : Node} (h : m.get? c = some node) :
    m.isRoot c = false ↔ node.kind ≠ .root := by
  rw [isRoot, kind?, h]
  simp

/-- A node without a parent can be put before a linked one. -/
theorem insertBefore_eq_ok (h : m.links.Forms kids) {first last : NodeId}
    (hfirst : (kids p).head? = some first) (hlast : (kids p).getLast? = some last)
    (hc : m.Live c) (hcp : m.parent? c = none) :
    ∃ m', m.insertBefore first c = .ok m' ∧ SameData m m' ∧
      m'.links = ((m.links.place c p last first).setNext last c).setPrevious first c := by
  have hfirstParent : m.parent? first = some p := h.mem_iff.1 (List.mem_of_mem_head? hfirst)
  have hlastParent : m.parent? last = some p := h.mem_iff.1 (List.mem_of_getLast? hlast)
  have hfirstPrevious : m.previousInRing? first = some last := by
    cases hk : kids p with
    | nil => simp [hk] at hfirst
    | cons a rest =>
      obtain rfl : a = first := by simpa [hk] using hfirst
      have := (h.ring (show kids p = [] ++ a :: rest from hk)).2.2
      rw [links_previous] at this
      rw [this, List.append_nil, ← hk, hlast]
  obtain ⟨node, hnode, hlive⟩ := hc
  have hunlinked := lookupUnlinked_eq_ok_iff.2 ⟨hnode, hlive, (isUnlinked_iff h hnode).2 hcp⟩
  obtain ⟨place, hplace⟩ := lt_size_iff.1 (lt_size_of_parent? hfirstParent)
  have hplaceParent : place.parent = some p := by simpa [parent?, hplace] using hfirstParent
  have hplacePrevious : place.previous = some last := by
    simpa [previousInRing?, hplace] using hfirstPrevious
  let m₁ := m.modify c (·.linkedAt p last first)
  let m₂ := m₁.modify last fun n => { n with next := some c }
  let m₃ := m₂.modify first fun n => { n with previous := some c }
  have h₁ : SameData m m₁ := sameData_linkedAt
  have h₂ : SameData m₁ m₂ := sameData_next
  have h₃ : SameData m₂ m₃ := sameData_previous
  refine ⟨m₃, ?_, (h₁.trans h₂).trans h₃, ?_⟩
  · rw [insertBefore, hunlinked, lookup_eq_ok_iff.2 hplace]
    simp only [bind, Except.bind, hplaceParent, hplacePrevious]
    rfl
  · rw [links_modify_previous (by rw [h₂.size, h₁.size]; exact lt_size_of_parent? hfirstParent),
      links_modify_next (by rw [h₁.size]; exact lt_size_of_parent? hlastParent),
      links_modify_linkedAt (lt_size_of_get? hnode)]

/-- Adding a child puts it at the end of its parent's list and changes nothing else. -/
theorem appendChild_eq_ok (h : m.links.Forms kids) (hp : p < m.size) (hleaf : m.isLeaf p = false)
    (hc : m.Live c) (hcp : m.parent? c = none) (hroot : m.isRoot c = false) :
    ∃ m', m.appendChild p c = .ok m' ∧ SameData m m' ∧ m'.links.Forms (appended kids p c) ∧
      m'.parent? = update m.parent? c (some p) := by
  obtain ⟨node, hnode, hlive⟩ := id hc
  have hunlinked := lookupUnlinked_eq_ok_iff.2 ⟨hnode, hlive, (isUnlinked_iff h hnode).2 hcp⟩
  have hkind : node.kind ≠ .root := (isRoot_eq_false_iff hnode).1 hroot
  obtain ⟨parent, hparent⟩ := lt_size_iff.1 hp
  have hbranch : parent.content.branch? ≠ none := by
    rw [Ne, branch?_isNone_iff hparent, hleaf]
    simp
  obtain ⟨branch, hbranch⟩ := Option.ne_none_iff_exists'.1 hbranch
  have hfirst : branch.firstChild = (kids p).head? := by
    rw [← h.firstChild p, links_firstChild, firstChild?, hparent]
    simp [Content.firstChild?, hbranch]
  have hstart : m.appendChild p c =
      branch.firstChild.elim ((m.modify c (·.linkedAt p c c)).setFirstChild p (some c)) (m.insertBefore · c) := by
    rw [appendChild, hunlinked, lookup_eq_ok_iff.2 hparent, ok_bind, if_neg hkind, ok_bind]
    generalize parent.content.branch? = found at hbranch
    subst hbranch
    obtain ⟨_ | first, lookahead⟩ := branch <;> rfl
  rw [hstart, hfirst]
  cases hk : kids p with
  | nil =>
    have hdata : SameData m (m.modify c (·.linkedAt p c c)) := sameData_linkedAt
    obtain ⟨m', hok, hlinks, hdata'⟩ :=
      setFirstChild_eq_ok (m := m.modify c (·.linkedAt p c c)) (some c)
        (show p < _ by rw [hdata.size]; exact hp)
        (by rw [isLeaf_eq_bare?, hdata.bare, ← isLeaf_eq_bare?]; exact hleaf)
    rw [links_modify_linkedAt (lt_size_of_get? hnode)] at hlinks
    refine ⟨m', hok, hdata.trans hdata', ?_, ?_⟩
    · rw [hlinks]
      exact h.append_only hk hcp
    · rw [← links_parent, hlinks]
      rfl
  | cons first rest =>
    obtain ⟨m', hok, hdata, hlinks⟩ := insertBefore_eq_ok h (by rw [hk]; rfl)
      (List.getLast?_eq_some_getLast (by rw [hk]; simp)) hc hcp
    refine ⟨m', hok, hdata, ?_, ?_⟩
    · rw [hlinks]
      exact h.append_last (by rw [hk]; rfl) (List.getLast?_eq_some_getLast (by rw [hk]; simp)) hcp
    · rw [← links_parent, hlinks]
      rfl

/-- What can be linked is linked. -/
theorem link_eq_ok (h : m.links.Forms kids) (hl : m.Linkable p c) :
    ∃ m', m.link p c = .ok m' ∧ SameData m m' ∧ m'.links.Forms (appended kids p c) ∧
      m'.parent? = update m.parent? c (some p) := by
  obtain ⟨m', hok, hrest⟩ := appendChild_eq_ok h hl.parent_live.lt_size hl.parent_composite
    hl.child_live hl.child_loose hl.child_not_root
  obtain ⟨node, -, -, hlook⟩ := hl.parent_live.exists_lookupLive
  refine ⟨m', ?_, hrest⟩
  rw [link, hlook]
  exact hok

/-- What was linked could be linked. -/
theorem linkable_of_link (h : m.links.Forms kids) (hok : m.link p c = .ok m') : m.Linkable p c := by
  obtain ⟨parent, hlook, hok⟩ := bind_eq_ok_iff.1 hok
  obtain ⟨hparent, hlive⟩ := lookupLive_eq_ok_iff.1 hlook
  obtain ⟨node, hlook, hok⟩ := bind_eq_ok_iff.1 hok
  obtain ⟨hnode, hnodeLive, hunlinked⟩ := lookupUnlinked_eq_ok_iff.1 hlook
  have hkind : node.kind ≠ .root := by
    intro hk
    simp [hk, bind, Except.bind, throw, throwThe, MonadExceptOf.throw] at hok
  rw [if_neg hkind] at hok
  refine ⟨⟨parent, hparent, hlive⟩, ?_, ⟨node, hnode, hnodeLive⟩,
    (isUnlinked_iff h hnode).1 hunlinked, (isRoot_eq_false_iff hnode).2 hkind⟩
  cases hleaf : m.isLeaf p with
  | false => rfl
  | true =>
    have hbranch := (branch?_isNone_iff hparent).2 hleaf
    simp [lookup_eq_ok_iff.2 hparent, hbranch, bind, Except.bind, throw, throwThe,
      MonadExceptOf.throw] at hok

end SyntaxTree.Model
