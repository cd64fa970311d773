import SyntaxTree.Proofs.Store

/-!
# Taking the place of a node

A replacement happens in two moves. First the new node steps into the place of the old one, under its
parent and between its neighbours (`takePlace_eq_ok`); then it takes over the children
(`moveChildren_eq_ok`). Seen from the child lists, the two together rename the old node to the new one
everywhere (`replace_eq_ok`), and the old node is left with nothing but the name of its successor.

Both moves go through for every linked node. The loop over the children ends because the ring is closed:
it has gone once around when it is back at the first child.
-/

namespace SyntaxTree.Model

open Function (update update_self update_of_ne)
open Links (rename rename_self rename_of_ne option_map_rename adopted)

variable {m m' : Model} {kids : NodeId → List NodeId} {p old new : NodeId}

/-! ## The place -/

/-- A node that is somebody's parent is not a leaf. -/
theorem isLeaf_of_mem (h : m.links.Forms kids) {c : NodeId} (hc : c ∈ kids p) :
    m.isLeaf p = false ∧ p < m.size := by
  have hfirst := h.firstChild p
  rw [links_firstChild, List.head?_eq_some_head (List.ne_nil_of_mem hc)] at hfirst
  constructor
  · cases hleaf : m.isLeaf p with
    | false => rfl
    | true =>
      rw [firstChild?_of_isLeaf hleaf] at hfirst
      cases hfirst
  · by_contra hlt
    rw [(links_of_size_le (Nat.le_of_not_lt hlt)).2] at hfirst
    cases hfirst

/-- If the old node is the parent's first child, the new one is from now on. -/
def renameFirstChild (m : Model) (parent old new : NodeId) : Except Fault Model :=
  if m.firstChild? parent = some old then m.setFirstChild parent (some new) else pure m

theorem renameFirstChild_eq_ok (new : NodeId) (h : m.links.Forms kids) (hp : m.parent? old = some p) :
    ∃ m', m.renameFirstChild p old new = .ok m' ∧ SameData m m' ∧
      m'.links = { m.links with firstChild := fun q => (m.firstChild? q).map (rename old new) } := by
  have hmem : old ∈ kids p := h.listed hp
  have hother : ∀ q, q ≠ p → m.firstChild? q ≠ some old := by
    intro q hq hfirst
    rw [← links_firstChild, h.firstChild] at hfirst
    exact hq (h.parent_unique (List.mem_of_mem_head? hfirst) hmem)
  by_cases hfirst : m.firstChild? p = some old
  · obtain ⟨hleaf, hlt⟩ := isLeaf_of_mem h hmem
    obtain ⟨m', hok, hlinks, hdata⟩ := setFirstChild_eq_ok (some new) hlt hleaf
    refine ⟨m', by rw [renameFirstChild, if_pos hfirst]; exact hok, hdata, ?_⟩
    rw [hlinks]
    refine Links.ext rfl rfl rfl (funext fun q => ?_)
    by_cases hq : q = p
    · subst hq
      simp [Links.setFirstChild, hfirst]
    · simp only [Links.setFirstChild, links_firstChild, update_of_ne hq]
      rw [option_map_rename (hother q hq)]
  · refine ⟨m, by rw [renameFirstChild, if_neg hfirst]; rfl, SameData.refl m, ?_⟩
    refine Links.ext rfl rfl rfl (funext fun q => ?_)
    have hq : m.firstChild? q ≠ some old := by
      by_cases hq : q = p
      · exact hq ▸ hfirst
      · exact hother q hq
    exact (option_map_rename hq).symm

/-- The new node gets the neighbours of the old one, and they get the new node. -/
def inheritNeighbours (m : Model) (old new parent previous next : NodeId) : Model :=
  if next = old then
    m.modify new (·.linkedAt parent new new)
  else
    ((m.modify new (·.linkedAt parent previous next)).modify next fun n =>
      { n with previous := some new }).modify previous fun n => { n with next := some new }

theorem sameData_inheritNeighbours (m : Model) (old new parent previous next : NodeId) :
    SameData m (m.inheritNeighbours old new parent previous next) := by
  unfold inheritNeighbours
  split
  · exact sameData_linkedAt
  · exact (sameData_linkedAt.trans sameData_previous).trans sameData_next

/-- `takePlace` in three steps: first child, neighbours, and the old node let go. -/
theorem takePlace_eq {place : Node} {previous next : NodeId} (hold : m.get? old = some place)
    (hparent : place.parent = some p) (hnext : place.next = some next)
    (hprevious : place.previous = some previous) :
    m.takePlace old new = (do
      let m₁ ← m.renameFirstChild p old new
      return (m₁.inheritNeighbours old new p previous next).modify old Node.detached) := by
  rw [takePlace, lookup_eq_ok_iff.2 hold, renameFirstChild]
  simp only [bind, Except.bind, hparent, hnext, hprevious]
  split <;> rfl

/-- What the links are after a change of neighbours. -/
theorem links_inheritNeighbours {previous next : NodeId} (h : m.links.Forms kids)
    (hp : m.parent? old = some p) (hnext : m.nextInRing? old = some next)
    (hprevious : m.previousInRing? old = some previous) (hnew : new < m.size)
    (hloose : m.parent? new = none) {m₁ : Model} (hdata : SameData m m₁)
    (hparent₁ : m₁.links.parent = m.parent?) (hnext₁ : m₁.links.next = m.nextInRing?)
    (hprevious₁ : m₁.links.previous = m.previousInRing?) {l : Links}
    (hl : l = (m₁.inheritNeighbours old new p previous next).links) :
    l.parent = update m.parent? new (some p) ∧
      (∀ x, x ≠ old → x ≠ new → l.next x = (m.nextInRing? x).map (rename old new)) ∧
      (∀ x, x ≠ old → x ≠ new → l.previous x = (m.previousInRing? x).map (rename old new)) ∧
      l.next new = some (rename old new next) ∧ l.previous new = some (rename old new previous) ∧
      l.firstChild = m₁.links.firstChild := by
  have hnextOf : ∀ x, m.nextInRing? x = some old ↔ x = previous := h.next_eq_some_iff hprevious
  have hpreviousOf : ∀ x, m.previousInRing? x = some old ↔ x = next := h.previous_eq_some_iff hnext
  have hlt : new < m₁.size := by rw [hdata.size]; exact hnew
  by_cases hself : next = old
  · -- an only child is its own neighbour on both sides
    subst hself
    obtain rfl : next = previous := (hnextOf next).1 hnext
    rw [inheritNeighbours, if_pos rfl, links_modify_linkedAt hlt] at hl
    rw [hl]
    refine ⟨by simp only [Links.place, hparent₁], ?_, ?_, ?_, ?_, rfl⟩
    · intro x hxo hxn
      simp only [Links.place, hnext₁, update_of_ne hxn]
      exact (option_map_rename fun hx => hxo ((hnextOf x).1 hx)).symm
    · intro x hxo hxn
      simp only [Links.place, hprevious₁, update_of_ne hxn]
      exact (option_map_rename fun hx => hxo ((hpreviousOf x).1 hx)).symm
    · simp [Links.place]
    · simp [Links.place]
  · have hself' : previous ≠ old := fun e => hself ((hpreviousOf old).1 (e ▸ hprevious)).symm
    have hnextParent : m.parent? next = some p := (h.previous_of_next hnext).2.trans hp
    have hpreviousParent : m.parent? previous = some p := (h.next_of_previous hprevious).2.symm.trans hp
    have hnextNew : next ≠ new := by
      rintro rfl
      rw [hloose] at hnextParent
      cases hnextParent
    have hpreviousNew : previous ≠ new := by
      rintro rfl
      rw [hloose] at hpreviousParent
      cases hpreviousParent
    have hnextLt : next < m₁.size := by
      rw [hdata.size]
      exact lt_size_of_parent? hnextParent
    have hpreviousLt : previous < m₁.size := by
      rw [hdata.size]
      exact lt_size_of_parent? hpreviousParent
    rw [inheritNeighbours, if_neg hself,
      links_modify_next (by rw [sameData_previous.size, sameData_linkedAt.size]; exact hpreviousLt),
      links_modify_previous (by rw [sameData_linkedAt.size]; exact hnextLt),
      links_modify_linkedAt hlt] at hl
    rw [hl]
    refine ⟨by simp only [Links.setNext, Links.setPrevious, Links.place, hparent₁], ?_, ?_, ?_, ?_, rfl⟩
    · intro x hxo hxn
      simp only [Links.setNext, Links.setPrevious, Links.place, hnext₁]
      by_cases hx : x = previous
      · rw [hx, update_self, (hnextOf previous).2 rfl, Option.map_some, rename_self]
      · rw [update_of_ne hx, update_of_ne hxn]
        exact (option_map_rename fun e => hx ((hnextOf x).1 e)).symm
    · intro x hxo hxn
      simp only [Links.setNext, Links.setPrevious, Links.place, hprevious₁]
      by_cases hx : x = next
      · rw [hx, update_self, (hpreviousOf next).2 rfl, Option.map_some, rename_self]
      · rw [update_of_ne hx, update_of_ne hxn]
        exact (option_map_rename fun e => hx ((hpreviousOf x).1 e)).symm
    · simp only [Links.setNext, Links.setPrevious, Links.place]
      rw [update_of_ne hpreviousNew.symm, update_self, rename_of_ne hself]
    · simp only [Links.setNext, Links.setPrevious, Links.place]
      rw [update_of_ne hnextNew.symm, update_self, rename_of_ne hself']

/-- Stepping into a place renames the old node to the new one in its parent's list. -/
theorem takePlace_eq_ok (h : m.links.Forms kids) (hne : old ≠ new) (hp : m.parent? old = some p)
    (hnew : new < m.size) (hloose : m.parent? new = none) :
    ∃ m', m.takePlace old new = .ok m' ∧ SameData m m' ∧
      m'.links.Forms (fun q => (kids q).map (rename old new)) ∧
      m'.parent? = update (update m.parent? new (some p)) old none := by
  obtain ⟨next, previous, hnext, hprevious⟩ := h.exists_neighbours hp
  obtain ⟨place, hplace⟩ := lt_size_iff.1 (lt_size_of_parent? hp)
  obtain ⟨m₁, hok, hdata, hlinks⟩ := renameFirstChild_eq_ok new h hp
  obtain ⟨hpar, hnxt, hprv, hnxtNew, hprvNew, hfst⟩ :=
    links_inheritNeighbours h hp hnext hprevious hnew hloose hdata (by rw [hlinks]; rfl)
      (by rw [hlinks]; rfl) (by rw [hlinks]; rfl) rfl
  have hdata₂ := sameData_inheritNeighbours m₁ old new p previous next
  have hold : old < (m₁.inheritNeighbours old new p previous next).size := by
    rw [hdata₂.size, hdata.size]
    exact lt_size_of_parent? hp
  refine ⟨(m₁.inheritNeighbours old new p previous next).modify old Node.detached, ?_,
    (hdata.trans hdata₂).trans sameData_detached, ?_, ?_⟩
  · rw [takePlace_eq hplace (by simpa [parent?, hplace] using hp)
      (by simpa [nextInRing?, hplace] using hnext)
      (by simpa [previousInRing?, hplace] using hprevious), hok]
    rfl
  · rw [links_modify_detached hold]
    refine h.renamed hne hloose ?_ ?_ ?_ ?_ ?_
    · intro x hx
      simp only [Links.detach, hpar]
      by_cases hxo : x = old
      · rw [hxo, rename_self, update_of_ne hne.symm, update_self, links_parent, hp]
      · rw [rename_of_ne hxo, update_of_ne hxo, update_of_ne hx, links_parent]
    · intro x hx
      simp only [Links.detach]
      by_cases hxo : x = old
      · rw [hxo, rename_self, update_of_ne hne.symm, hnxtNew, hnext]
        rfl
      · rw [rename_of_ne hxo, update_of_ne hxo, hnxt x hxo hx, links_next]
    · intro x hx
      simp only [Links.detach]
      by_cases hxo : x = old
      · rw [hxo, rename_self, update_of_ne hne.symm, hprvNew, hprevious]
        rfl
      · rw [rename_of_ne hxo, update_of_ne hxo, hprv x hxo hx, links_previous]
    · intro q
      simp only [Links.detach, hfst, hlinks, links_firstChild]
    · simp [Links.detach]
  · rw [← links_parent, links_modify_detached hold]
    simp only [Links.detach, hpar]

/-- Only a node with a parent has a place to give. -/
theorem parent?_of_takePlace (hok : m.takePlace old new = .ok m') : ∃ p, m.parent? old = some p := by
  obtain ⟨place, hlook, hok⟩ := bind_eq_ok_iff.1 hok
  rw [lookup_eq_ok_iff] at hlook
  rw [parent?, hlook, Option.bind_some]
  cases hp : place.parent with
  | some p => exact ⟨p, rfl⟩
  | none =>
    rw [hp] at hok
    cases hok

/-! ## The children -/

/-- The loop gives the new parent to every node up to the end of the list. The induction is on the nodes
that are still to come; the last of them points back to the first child, which ends the loop. -/
theorem reparent_eq_ok (new first : NodeId) :
    ∀ (after : List NodeId) (m : Model) (child : NodeId) (steps : Nat), after.length < steps →
      (∀ x ∈ child :: after, x < m.size) → first ∉ after →
      (∀ before x rest, child :: after = before ++ x :: rest →
        m.nextInRing? x = (rest ++ [first]).head?) →
      ∃ m', m.reparent new first steps child = .ok m' ∧ SameData m m' ∧
        m'.links = { m.links with
          parent := fun x => if x ∈ child :: after then some new else m.parent? x } := by
  intro after
  induction after with
  | nil =>
    intro m child steps hsteps hlt hfirst hnext
    obtain ⟨steps, rfl⟩ := Nat.exists_eq_succ_of_ne_zero (Nat.ne_of_gt hsteps)
    obtain ⟨node, hnode⟩ := lt_size_iff.1 (hlt child (List.mem_cons_self ..))
    have hn : node.next = some first := by
      have := hnext [] child [] rfl
      simpa [nextInRing?, hnode] using this
    refine ⟨m.modify child fun n => { n with parent := some new }, ?_, sameData_parent, ?_⟩
    · rw [reparent, lookup_eq_ok_iff.2 hnode]
      simp only [bind, Except.bind, hn, if_true]
      rfl
    · rw [links_modify_parent (hlt child (List.mem_cons_self ..))]
      refine Links.ext (funext fun x => ?_) rfl rfl rfl
      by_cases hx : x = child
      · simp [Links.setParent, hx]
      · simp [Links.setParent, hx]
  | cons a after ih =>
    intro m child steps hsteps hlt hfirst hnext
    obtain ⟨steps, rfl⟩ := Nat.exists_eq_succ_of_ne_zero (Nat.ne_of_gt (Nat.zero_lt_of_lt hsteps))
    have hchild := hlt child (List.mem_cons_self ..)
    obtain ⟨node, hnode⟩ := lt_size_iff.1 hchild
    have hn : node.next = some a := by
      have := hnext [] child (a :: after) rfl
      simpa [nextInRing?, hnode] using this
    have hafirst : a ≠ first := fun e => hfirst (e ▸ List.mem_cons_self ..)
    have hlinks : (m.modify child fun n => { n with parent := some new }).links
        = m.links.setParent child new := links_modify_parent hchild
    obtain ⟨m', hok, hdata, hlinks'⟩ := ih (m.modify child fun n => { n with parent := some new }) a
      steps (Nat.lt_of_succ_lt_succ hsteps)
      (fun x hx => by rw [sameData_parent.size]; exact hlt x (List.mem_cons_of_mem _ hx))
      (fun hmem => hfirst (List.mem_cons_of_mem _ hmem))
      (fun before x rest hsplit => by
        rw [← links_next, hlinks]
        exact hnext (child :: before) x rest (by rw [hsplit, List.cons_append]))
    refine ⟨m', ?_, sameData_parent.trans hdata, ?_⟩
    · rw [reparent, lookup_eq_ok_iff.2 hnode]
      simp only [bind, Except.bind, hn, if_neg hafirst]
      exact hok
    · rw [hlinks', ← links_parent, hlinks]
      refine Links.ext (funext fun x => ?_) rfl rfl rfl
      by_cases hx : x = child
      · simp [Links.setParent, hx]
      · simp [Links.setParent, hx]

/-- The whole list of the old node becomes the list of the new one. -/
theorem moveChildren_eq_ok (h : m.links.Forms kids) (hne : old ≠ new) (hnew : new < m.size)
    (hempty : kids new = []) (hleaf : kids old ≠ [] → m.isLeaf new = false) :
    ∃ m', m.moveChildren old new = .ok m' ∧ SameData m m' ∧ m'.links.Forms (adopted kids old new) ∧
      ∀ x, m'.parent? x = if m.parent? x = some old then some new else m.parent? x := by
  have hfirst : m.firstChild? old = (kids old).head? := h.firstChild old
  rw [moveChildren, hfirst]
  cases hk : kids old with
  | nil =>
    have hsame : adopted kids old new = kids := by
      funext q
      by_cases hqn : q = new
      · rw [hqn, Links.adopted_new, hk, hempty]
      by_cases hqo : q = old
      · rw [hqo, Links.adopted_old hne, hk]
      · exact Links.adopted_of_ne hqo hqn
    refine ⟨m, rfl, SameData.refl m, by rw [hsame]; exact h, fun x => ?_⟩
    rw [if_neg]
    intro hx
    have := h.listed hx
    rw [hk] at this
    cases this
  | cons first rest =>
    have hmem : first ∈ kids old := by rw [hk]; exact List.mem_cons_self ..
    obtain ⟨hleafOld, hltOld⟩ := isLeaf_of_mem h hmem
    obtain ⟨m₁, hok₁, hlinks₁, hdata₁⟩ := setFirstChild_eq_ok none hltOld hleafOld
    obtain ⟨m₂, hok₂, hlinks₂, hdata₂⟩ := setFirstChild_eq_ok (m := m₁) (p := new) (some first)
      (by rw [hdata₁.size]; exact hnew)
      (by rw [isLeaf_eq_bare?, hdata₁.bare, ← isLeaf_eq_bare?]; exact hleaf (by rw [hk]; simp))
    have hdata := hdata₁.trans hdata₂
    have hlinks : m₂.links = (m.links.setFirstChild old none).setFirstChild new (some first) := by
      rw [hlinks₂, hlinks₁]
    have hnodup := h.nodup old
    have hlt : ∀ x ∈ kids old, x < m.size := fun x hx => lt_size_of_parent? (h.mem_iff.1 hx)
    have hlength := length_kids_le h old
    rw [hk] at hnodup hlength hlt
    obtain ⟨m₃, hok₃, hdata₃, hlinks₃⟩ := reparent_eq_ok new first rest m₂ first m₂.size
      (by rw [hdata.size]; exact hlength)
      (fun x hx => by rw [hdata.size]; exact hlt x hx) (List.nodup_cons.1 hnodup).1
      (fun before x after hsplit => by
        rw [← links_next, hlinks]
        exact h.next_eq_head? (by rw [hk]; rfl) (hk.trans hsplit))
    have hparent : ∀ x, m₃.parent? x = if m.parent? x = some old then some new else m.parent? x := by
      intro x
      rw [← links_parent, hlinks₃, ← hk, ← links_parent, hlinks]
      simp only [h.mem_iff]
      rfl
    refine ⟨m₃, ?_, hdata.trans hdata₃, ?_, hparent⟩
    · simp only [List.head?_cons, hok₁, bind, Except.bind, hok₂]
      exact hok₃
    · refine h.adopted hne hempty hparent ?_ ?_ ?_
      · rw [hlinks₃, hlinks]
        rfl
      · rw [hlinks₃, hlinks]
        rfl
      · rw [hlinks₃, hlinks, hk]
        rfl

/-! ## The replacement -/

/-- The lists after `new` took over the place and the list of `old`. -/
def replaced (kids : NodeId → List NodeId) (old new : NodeId) : NodeId → List NodeId :=
  adopted (fun q => (kids q).map (rename old new)) old new

/-- What a replacement does: `old` is renamed to the fresh node in all lists and links, the fresh node
has the given content and the grammar element of `old`, and `old`, which was `b` apart from its links, only
keeps the name of its successor. -/
structure Replaced (m m' : Model) (kids : NodeId → List NodeId) (old : NodeId) (b : Node)
    (content : Content) : Prop where
  forms : m'.links.Forms (replaced kids old m.size)
  parent : ∀ x, x ≠ m.size → m'.parent? (rename old m.size x) = (m.parent? x).map (rename old m.size)
  parent_old : m'.parent? old = none
  bare : m'.bare? = update (update m.bare? m.size (some (.unlinked content b.grammar))) old
    (some { b with grammar := none, replacedBy := some m.size })
  index : m'.index = m.index
  text : m'.text = m.text
  size : m'.size = m.size + 1

/-- The old node has given its grammar element away, and the new one is allocated. -/
def allocated (m : Model) (old : NodeId) (content : Content) (grammar : Option String) : Model :=
  (m.modify old fun n => { n with grammar := none }).push (.unlinked content grammar)

theorem size_allocated (m : Model) (old : NodeId) (content : Content) (grammar : Option String) :
    (m.allocated old content grammar).size = m.size + 1 := by
  rw [allocated, size_push, size_modify]

theorem links_allocated (m : Model) (old : NodeId) {content : Content} (hcontent : content.firstChild? = none)
    (grammar : Option String) : (m.allocated old content grammar).links = m.links :=
  (links_push_unlinked _ hcontent grammar).trans (links_modify_data fun _ => ⟨rfl, rfl, rfl, rfl⟩)

theorem bare?_allocated {b : Node} (hb : m.bare? old = some b) {content : Content}
    (hcontent : content.firstChild? = none) (grammar : Option String) :
    (m.allocated old content grammar).bare? =
      update (update m.bare? old (some { b with grammar := none })) m.size (some (.unlinked content grammar)) := by
  rw [allocated, bare?_push_unlinked _ hcontent, size_modify,
    bare?_modify (fun n => { n with grammar := none }) (fun _ => rfl) hb]

/-- After both moves parents are what they were, up to the name of the old node. -/
theorem parent?_of_moves {m₂ m₃ m₄ : Model} (hne : old ≠ new) (hp : m₂.parent? old = some p)
    (htake : m₃.parent? = update (update m₂.parent? new (some p)) old none)
    (hmove : ∀ x, m₄.parent? x = if m₃.parent? x = some old then some new else m₃.parent? x)
    {x : NodeId} (hx : x ≠ new) : m₄.parent? (rename old new x) = (m₂.parent? x).map (rename old new) := by
  rw [hmove, htake]
  by_cases hxo : x = old
  · rw [hxo, rename_self, update_of_ne hne.symm, update_self, hp, Option.map_some, rename]
    by_cases hpo : p = old
    · rw [if_pos (congrArg some hpo), if_pos hpo]
    · rw [if_neg fun e => hpo (Option.some.inj e), if_neg hpo]
  · rw [rename_of_ne hxo, update_of_ne hxo, update_of_ne hx]
    by_cases hpo : m₂.parent? x = some old
    · rw [if_pos hpo, hpo, Option.map_some, rename_self]
    · rw [if_neg hpo, option_map_rename hpo]

/-- Every linked node can be replaced, as long as a node with children is not replaced by a leaf. -/
theorem replace_eq_ok (h : m.links.Forms kids) {b : Node} {content : Content}
    (hb : m.bare? old = some b) (hp : m.parent? old = some p) (hcontent : content.firstChild? = none)
    (hleaf : kids old ≠ [] → content.kind.isLeaf = false) :
    ∃ m', m.replace old content = .ok (m', m.size) ∧ Replaced m m' kids old b content := by
  have hne : old ≠ m.size := Nat.ne_of_lt (lt_size_of_bare? hb)
  let m₂ := m.allocated old content b.grammar
  have hlinks₂ : m₂.links = m.links := links_allocated m old hcontent b.grammar
  have hsize₂ : m₂.size = m.size + 1 := size_allocated m old content b.grammar
  have hbare₂ := bare?_allocated hb hcontent b.grammar
  have hparent₂ : m₂.parent? = m.parent? := congrArg Links.parent hlinks₂
  have hforms₂ : m₂.links.Forms kids := by rw [hlinks₂]; exact h
  have hp₂ : m₂.parent? old = some p := by rw [hparent₂]; exact hp
  have hloose : m₂.parent? m.size = none := by
    rw [hparent₂]
    exact (links_of_size_le (Nat.le_refl _)).1
  have hempty : kids m.size = [] := by
    have hfirst := h.firstChild m.size
    rw [links_firstChild, (links_of_size_le (Nat.le_refl _)).2] at hfirst
    exact List.head?_eq_none_iff.1 hfirst.symm
  obtain ⟨m₃, hok₃, hdata₃, hforms₃, hparent₃⟩ := takePlace_eq_ok hforms₂ hne hp₂
    (by rw [hsize₂]; exact Nat.lt_succ_self _) hloose
  obtain ⟨m₄, hok₄, hdata₄, hforms₄, hparent₄⟩ := moveChildren_eq_ok hforms₃ hne
    (by rw [hdata₃.size, hsize₂]; exact Nat.lt_succ_self _) (by rw [hempty]; rfl)
    (fun hk => by
      rw [isLeaf_eq_bare?, hdata₃.bare, hbare₂, update_self]
      exact hleaf fun e => hk (by rw [e]; rfl))
  have hdata : SameData m₂ m₄ := hdata₃.trans hdata₄
  -- last, the old node learns the name of its successor
  let m₅ := m₄.modify old fun n => { n with replacedBy := some m.size }
  have hlinks₅ : m₅.links = m₄.links := links_modify_data fun _ => ⟨rfl, rfl, rfl, rfl⟩
  have hparent₅ : m₅.parent? = m₄.parent? := congrArg Links.parent hlinks₅
  have hbare₄ : m₄.bare? old = some { b with grammar := none } := by
    rw [hdata.bare, hbare₂, update_of_ne hne, update_self]
  have hbare₅ : m₅.bare? = update m₄.bare? old (some { b with grammar := none, replacedBy := some m.size }) :=
    bare?_modify (fun n => { n with replacedBy := some m.size }) (fun _ => rfl) hbare₄
  refine ⟨m₅, ?_, by rw [hlinks₅]; exact hforms₄, fun x hx => ?_, ?_, ?_, hdata.index, hdata.text, ?_⟩
  · obtain ⟨node, hnode, rfl⟩ := get?_of_bare? hb
    rw [replace, lookup_eq_ok_iff.2 hnode, ok_bind]
    show (m₂.takePlace old m.size >>= _) = _
    rw [hok₃, ok_bind, hok₄]
    rfl
  · rw [hparent₅, ← hparent₂]
    exact parent?_of_moves hne hp₂ hparent₃ hparent₄ hx
  · rw [hparent₅, hparent₄, hparent₃, update_self]
    rfl
  · rw [hbare₅, hdata.bare, hbare₂]
    funext x
    by_cases hxo : x = old
    · rw [hxo, update_self, update_self]
    · rw [update_of_ne hxo, update_of_ne hxo]
      by_cases hxs : x = m.size
      · rw [hxs, update_self, update_self]
      · rw [update_of_ne hxs, update_of_ne hxs, update_of_ne hxo]
  · rw [size_modify, hdata.size, hsize₂]

/-- Only a node with a parent can be replaced. -/
theorem parent?_of_replace {content : Content} {r : Model × NodeId} (hcontent : content.firstChild? = none)
    (hok : m.replace old content = .ok r) : ∃ p, m.parent? old = some p := by
  obtain ⟨node, -, hok⟩ := bind_eq_ok_iff.1 hok
  obtain ⟨m₁, htake, -⟩ := bind_eq_ok_iff.1 hok
  obtain ⟨p, hp⟩ := parent?_of_takePlace htake
  have hlinks := links_allocated m old hcontent node.grammar
  exact ⟨p, (congrFun (congrArg Links.parent hlinks) old).symm.trans hp⟩

end SyntaxTree.Model
