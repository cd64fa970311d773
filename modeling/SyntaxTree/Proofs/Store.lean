import Mathlib.Data.List.Perm.Subperm
import SyntaxTree.Proofs.Links
import SyntaxTree.Builder.Edit

/-!
# A store is links and bare nodes

Every node of a store has two sides: where it stands, and what it is. `Model.links` reads off the first
side for all nodes at once; `Model.bare?` reads off the second, as the node with its links taken away.
The two sides change independently. The operations that link nodes leave every bare node as it was
(`SameData`), and the operations that fill slots or name successors leave the links as they were, so a
proof about one side never has to look at the other.

The file closes with what a successful look-up tells about a node.
-/

namespace SyntaxTree

open Function (update update_self update_of_ne)

/-- After a step that succeeds the rest goes on with its answer. -/
theorem ok_bind {ε α β : Type} (a : α) (f : α → Except ε β) : Except.ok a >>= f = f a := rfl

/-- A sequence of two steps succeeds when both do. -/
theorem bind_eq_ok_iff {ε α β : Type} {x : Except ε α} {f : α → Except ε β} {b : β} :
    x >>= f = .ok b ↔ ∃ a, x = .ok a ∧ f a = .ok b := by
  cases x <;> simp [bind, Except.bind]

/-- A step for each item of a list succeeds if all of them do. -/
theorem exists_mapM_eq_ok {ε α β : Type} {f : α → Except ε β} {P : β → Prop} {xs : List α}
    (h : ∀ x ∈ xs, ∃ y, f x = .ok y ∧ P y) : ∃ ys, xs.mapM f = .ok ys ∧ ∀ y ∈ ys, P y := by
  induction xs with
  | nil => exact ⟨[], rfl, nofun⟩
  | cons x xs ih =>
    obtain ⟨y, hy, hPy⟩ := h x (List.mem_cons_self ..)
    obtain ⟨ys, hys, hPys⟩ := ih fun x hx => h x (List.mem_cons_of_mem _ hx)
    refine ⟨y :: ys, ?_, List.forall_mem_cons.2 ⟨hPy, hPys⟩⟩
    rw [List.mapM_cons, hy, ok_bind, hys, ok_bind]
    rfl

/-! ## Bare nodes -/

namespace Content

@[simp] theorem element?_withFirstChild (child : Option NodeId) (content : Content) :
    (content.withFirstChild child).element? = content.element? := by
  cases content <;> rfl

@[simp] theorem leafRange?_withFirstChild (child : Option NodeId) (content : Content) :
    (content.withFirstChild child).leafRange? = content.leafRange? := by
  cases content <;> rfl

@[simp] theorem withFirstChild_withFirstChild (child other : Option NodeId) (content : Content) :
    (content.withFirstChild other).withFirstChild child = content.withFirstChild child := by
  cases content <;> rfl

@[simp] theorem firstChild?_withSlot (slot : Option Element) (content : Content) :
    (content.withSlot slot).firstChild? = content.firstChild? := by
  cases content <;> rfl

theorem withFirstChild_withSlot (child : Option NodeId) (slot : Option Element) (content : Content) :
    (content.withSlot slot).withFirstChild child = (content.withFirstChild child).withSlot slot := by
  cases content <;> rfl

@[simp] theorem leafRange?_withSlot (slot : Option Element) (content : Content) :
    (content.withSlot slot).leafRange? = content.leafRange? := by
  cases content <;> rfl

@[simp] theorem element?_withSlot_none (content : Content) : (content.withSlot none).element? = none := by
  cases content <;> rfl

/-- A slot holds what was put into it. -/
theorem element?_withSlot {content : Content} (h : content.kind.isBindable = true) (slot : Option Element) :
    (content.withSlot slot).element? = slot := by
  rcases content with ⟨_, _ | _, _ | _⟩ | ⟨_, _⟩ | ⟨_, _ | _⟩ | ⟨_, _, _ | _⟩ <;> first | rfl | cases h

/-- What holds an element has a slot. -/
theorem isBindable_of_element? {content : Content} {e : Element} (h : content.element? = some e) :
    content.kind.isBindable = true := by
  rcases content with ⟨_, _ | _, _ | _⟩ | ⟨_, _⟩ | ⟨_, _ | _⟩ | ⟨_, _, _ | _⟩ <;> first | rfl | cases h

/-- Putting back what is in the slot changes nothing. -/
@[simp] theorem withSlot_element? (content : Content) : content.withSlot content.element? = content := by
  cases content <;> rfl

/-- The new first child is there, unless the content is a leaf. -/
theorem firstChild?_withFirstChild (child : Option NodeId) {content : Content} {branch : Branch}
    (h : content.branch? = some branch) : (content.withFirstChild child).firstChild? = child := by
  cases content <;> first | rfl | cases h

/-- Content that takes a place without a child of its own. -/
theorem withFirstChild_none {content : Content} (h : content.firstChild? = none) :
    content.withFirstChild none = content := by
  rcases content with _ | ⟨⟨_, _⟩, _⟩ | ⟨⟨_, _⟩, _⟩ | ⟨⟨_, _⟩, _, _⟩ <;>
    simp_all [firstChild?, branch?, withFirstChild]

end Content

namespace Node

/-- The node with its links taken away. -/
def bare (node : Node) : Node :=
  { node.detached with content := node.content.withFirstChild none }

@[simp] theorem bare_replacedBy (node : Node) : node.bare.replacedBy = node.replacedBy := rfl

@[simp] theorem bare_content (node : Node) : node.bare.content = node.content.withFirstChild none := rfl

@[simp] theorem bare_kind (node : Node) : node.bare.kind = node.kind :=
  Content.kind_withFirstChild none node.content

theorem bare_unlinked {content : Content} (h : content.firstChild? = none) (grammar : Option String) :
    (unlinked content grammar).bare = unlinked content grammar := by
  simp [bare, unlinked, detached, Content.withFirstChild_none h]

end Node

namespace Model

/-- The links of all nodes. -/
def links (m : Model) : Links :=
  ⟨m.parent?, m.nextInRing?, m.previousInRing?, m.firstChild?⟩

/-- What a node is, apart from its links. -/
def bare? (m : Model) (id : NodeId) : Option Node :=
  (m.get? id).map Node.bare

/-- A node that was allocated and not replaced. -/
def Live (m : Model) (id : NodeId) : Prop :=
  ∃ node, m.get? id = some node ∧ node.replacedBy = none

/-- The second model differs from the first at most in its links. -/
structure SameData (m m' : Model) : Prop where
  bare : m'.bare? = m.bare?
  index : m'.index = m.index
  text : m'.text = m.text
  size : m'.size = m.size

variable {m m' m'' : Model} {id : NodeId}

theorem SameData.refl (m : Model) : SameData m m := ⟨rfl, rfl, rfl, rfl⟩

theorem SameData.trans (h : SameData m m') (h' : SameData m' m'') : SameData m m'' :=
  ⟨h'.bare.trans h.bare, h'.index.trans h.index, h'.text.trans h.text, h'.size.trans h.size⟩

/-! ## Reading the two sides -/

@[simp] theorem links_parent (m : Model) : m.links.parent = m.parent? := rfl

@[simp] theorem links_next (m : Model) : m.links.next = m.nextInRing? := rfl

@[simp] theorem links_previous (m : Model) : m.links.previous = m.previousInRing? := rfl

@[simp] theorem links_firstChild (m : Model) : m.links.firstChild = m.firstChild? := rfl

theorem lt_size_iff : id < m.size ↔ ∃ node, m.get? id = some node := by
  rw [← Option.isSome_iff_exists, ← not_iff_not, Nat.not_lt, ← get?_eq_none_iff]
  simp

theorem lt_size_of_get? {node : Node} (h : m.get? id = some node) : id < m.size :=
  lt_size_iff.2 ⟨node, h⟩

theorem Live.lt_size (h : m.Live id) : id < m.size := by
  obtain ⟨node, hnode, -⟩ := h
  exact lt_size_of_get? hnode

theorem Live.ne_size (h : m.Live id) : id ≠ m.size :=
  Nat.ne_of_lt h.lt_size

/-- The next node to be allocated is not there yet. -/
theorem not_live_size (m : Model) : ¬ m.Live m.size :=
  fun hlive => Nat.lt_irrefl _ hlive.lt_size

theorem bare?_of_get? {node : Node} (h : m.get? id = some node) : m.bare? id = some node.bare := by
  rw [bare?, h]
  rfl

theorem get?_of_bare? {b : Node} (h : m.bare? id = some b) :
    ∃ node, m.get? id = some node ∧ node.bare = b :=
  Option.map_eq_some_iff.1 h

theorem lt_size_of_bare? {b : Node} (h : m.bare? id = some b) : id < m.size := by
  obtain ⟨node, hnode, -⟩ := get?_of_bare? h
  exact lt_size_of_get? hnode

theorem bare?_eq_none_iff : m.bare? id = none ↔ m.size ≤ id := by
  rw [bare?, Option.map_eq_none_iff, get?_eq_none_iff]

/-- A node without a bare node has no links. -/
theorem links_of_size_le (h : m.size ≤ id) :
    m.parent? id = none ∧ m.firstChild? id = none := by
  rw [parent?, firstChild?, get?_eq_none_iff.2 h]
  exact ⟨rfl, rfl⟩

theorem lt_size_of_parent? {p : NodeId} (h : m.parent? id = some p) : id < m.size := by
  by_contra hlt
  rw [(links_of_size_le (Nat.le_of_not_lt hlt)).1] at h
  cases h

/-- Different nodes of a store are at most as many as it holds. -/
theorem length_le_size {ids : List NodeId} (hnodup : ids.Nodup) (h : ∀ x ∈ ids, x < m.size) :
    ids.length ≤ m.size := by
  have hsub : ids ⊆ List.range m.size := fun x hx => List.mem_range.2 (h x hx)
  have := (hnodup.subperm hsub).length_le
  rwa [List.length_range] at this

/-- A child list is no longer than the store is large. -/
theorem length_kids_le {kids : NodeId → List NodeId} (h : m.links.Forms kids) (p : NodeId) : (kids p).length ≤ m.size :=
  length_le_size (h.nodup p) fun _ hx => lt_size_of_parent? (h.mem_iff.1 hx)

theorem live_iff_bare? : m.Live id ↔ ∃ b, m.bare? id = some b ∧ b.replacedBy = none := by
  constructor
  · rintro ⟨node, hnode, hlive⟩
    exact ⟨node.bare, bare?_of_get? hnode, hlive⟩
  · rintro ⟨b, hb, hlive⟩
    obtain ⟨node, hnode, rfl⟩ := get?_of_bare? hb
    exact ⟨node, hnode, hlive⟩

theorem kind?_eq_bare? (m : Model) (id : NodeId) : m.kind? id = (m.bare? id).map Node.kind := by
  rw [kind?, bare?, Option.map_map]
  congr 1
  funext node
  exact (Node.bare_kind node).symm

theorem element?_eq_bare? (m : Model) (id : NodeId) :
    m.element? id = (m.bare? id).bind (·.content.element?) := by
  rw [element?, bare?]
  cases m.get? id <;> simp

theorem isStale_eq_bare? (m : Model) (id : NodeId) :
    m.isStale id = (m.bare? id).any (·.replacedBy.isSome) := by
  rw [isStale, bare?]
  cases m.get? id <;> simp

theorem isLeaf_eq_bare? (m : Model) (id : NodeId) :
    m.isLeaf id = (m.bare? id).any (·.kind.isLeaf) := by
  rw [isLeaf, kind?_eq_bare?]
  cases m.bare? id <;> rfl

theorem isRoot_eq_bare? (m : Model) (id : NodeId) :
    m.isRoot id = ((m.bare? id).map Node.kind == some .root) := by
  rw [isRoot, kind?_eq_bare?]

/-- A node is a leaf exactly if it has no branch. -/
theorem branch?_isNone_iff {node : Node} (h : m.get? id = some node) :
    node.content.branch? = none ↔ m.isLeaf id = true := by
  rw [isLeaf, kind?, h, Option.map_some, Option.any_some, Node.kind, Content.isLeaf_kind,
    Option.isNone_iff_eq_none]

/-- A leaf has no first child. -/
theorem firstChild?_of_isLeaf (h : m.isLeaf id = true) : m.firstChild? id = none := by
  rw [firstChild?]
  cases hnode : m.get? id with
  | none => rfl
  | some node =>
    rw [Option.bind_some, Content.firstChild?, (branch?_isNone_iff hnode).2 h]
    rfl

/-! ## Allocating -/

/-- A new node stands nowhere. -/
theorem links_push_unlinked (m : Model) {content : Content} (h : content.firstChild? = none)
    (grammar : Option String) : (m.push (.unlinked content grammar)).links = m.links := by
  have hfresh : m.get? m.size = none := get?_eq_none_iff.2 (Nat.le_refl _)
  ext x y
  all_goals
    simp only [links, parent?, nextInRing?, previousInRing?, firstChild?, get?_push]
    by_cases hx : x = m.size
    · rw [if_pos hx, hx, hfresh]
      simp [Node.unlinked, h]
    · rw [if_neg hx]

theorem bare?_push_unlinked (m : Model) {content : Content} (h : content.firstChild? = none)
    (grammar : Option String) :
    (m.push (.unlinked content grammar)).bare?
      = update m.bare? m.size (some (.unlinked content grammar)) := by
  funext x
  rw [bare?, get?_push]
  by_cases hx : x = m.size
  · rw [if_pos hx, hx, update_self, Option.map_some, Node.bare_unlinked h]
  · rw [if_neg hx, update_of_ne hx, bare?]

/-- A change of the newest node. -/
theorem modify_push_size (m : Model) (node : Node) (change : Node → Node) :
    (m.push node).modify m.size change = m.push (change node) := by
  have hnodes : (m.nodes.push node).modify m.nodes.size change = m.nodes.push (change node) := by
    refine Array.ext_getElem? fun i => ?_
    rw [Array.getElem?_modify, Array.getElem?_push, Array.getElem?_push]
    by_cases hi : i = m.nodes.size
    · rw [if_pos hi.symm, if_pos hi, if_pos hi, Option.map_some]
    · rw [if_neg (Ne.symm hi), if_neg hi, if_neg hi]
  rw [push, push, modify, size]
  exact congrArg (fun nodes => Model.mk m.text nodes m.index) hnodes

/-! ## Changing links -/

/-- What a node's field is after one node was changed. -/
theorem bind_get?_modify {α : Type} (m : Model) (id target : NodeId) (change : Node → Node)
    (read : Node → Option α) :
    ((m.modify target change).get? id).bind read
      = if target = id then (m.get? id).bind (read ∘ change) else (m.get? id).bind read := by
  rw [get?_modify]
  split <;> cases m.get? id <;> rfl

/-- A field that the change sets for all nodes is set for a node of the store. -/
theorem bind_get?_modify_const {α : Type} {m : Model} {target : NodeId} {change : Node → Node}
    {read : Node → Option α} {value : Option α} (h : target < m.size)
    (hset : ∀ node, read (change node) = value) :
    (fun id => ((m.modify target change).get? id).bind read)
      = update (fun id => (m.get? id).bind read) target value := by
  funext id
  rw [bind_get?_modify]
  by_cases hid : target = id
  · obtain ⟨node, hnode⟩ := lt_size_iff.1 h
    rw [if_pos hid, ← hid, update_self, hnode]
    exact hset node
  · rw [if_neg hid, update_of_ne (Ne.symm hid)]

/-- A field that the change keeps stays as it was. -/
theorem bind_get?_modify_same {α : Type} {m : Model} {target : NodeId} {change : Node → Node}
    {read : Node → Option α} (hkeep : ∀ node, read (change node) = read node) :
    (fun id => ((m.modify target change).get? id).bind read)
      = fun id => (m.get? id).bind read := by
  funext id
  rw [bind_get?_modify, show read ∘ change = read from funext hkeep, ite_self]

theorem links_modify_linkedAt {parent previous next : NodeId} (h : id < m.size) :
    (m.modify id (·.linkedAt parent previous next)).links = m.links.place id parent previous next :=
  Links.ext (bind_get?_modify_const h fun _ => rfl) (bind_get?_modify_const h fun _ => rfl)
    (bind_get?_modify_const h fun _ => rfl) (bind_get?_modify_same fun _ => rfl)

theorem links_modify_detached (h : id < m.size) :
    (m.modify id Node.detached).links = m.links.detach id :=
  Links.ext (bind_get?_modify_const h fun _ => rfl) (bind_get?_modify_const h fun _ => rfl)
    (bind_get?_modify_const h fun _ => rfl) (bind_get?_modify_same fun _ => rfl)

theorem links_modify_parent {parent : NodeId} (h : id < m.size) :
    (m.modify id fun n => { n with parent := some parent }).links = m.links.setParent id parent :=
  Links.ext (bind_get?_modify_const h fun _ => rfl) (bind_get?_modify_same fun _ => rfl)
    (bind_get?_modify_same fun _ => rfl) (bind_get?_modify_same fun _ => rfl)

theorem links_modify_next {next : NodeId} (h : id < m.size) :
    (m.modify id fun n => { n with next := some next }).links = m.links.setNext id next :=
  Links.ext (bind_get?_modify_same fun _ => rfl) (bind_get?_modify_const h fun _ => rfl)
    (bind_get?_modify_same fun _ => rfl) (bind_get?_modify_same fun _ => rfl)

theorem links_modify_previous {previous : NodeId} (h : id < m.size) :
    (m.modify id fun n => { n with previous := some previous }).links
      = m.links.setPrevious id previous :=
  Links.ext (bind_get?_modify_same fun _ => rfl) (bind_get?_modify_same fun _ => rfl)
    (bind_get?_modify_const h fun _ => rfl) (bind_get?_modify_same fun _ => rfl)

/-- A change of links is none of data. -/
theorem sameData_modify {change : Node → Node} (h : ∀ node, (change node).bare = node.bare) :
    SameData m (m.modify id change) where
  bare := by
    funext x
    rw [bare?, bare?, get?_modify]
    split
    · cases m.get? x with
      | none => rfl
      | some node => exact congrArg some (h node)
    · rfl
  index := rfl
  text := rfl
  size := size_modify m id change

theorem sameData_linkedAt {parent previous next : NodeId} :
    SameData m (m.modify id (·.linkedAt parent previous next)) :=
  sameData_modify fun _ => rfl

theorem sameData_detached : SameData m (m.modify id Node.detached) :=
  sameData_modify fun _ => rfl

theorem sameData_parent {parent : NodeId} :
    SameData m (m.modify id fun n => { n with parent := some parent }) :=
  sameData_modify fun _ => rfl

theorem sameData_next {next : NodeId} :
    SameData m (m.modify id fun n => { n with next := some next }) :=
  sameData_modify fun _ => rfl

theorem sameData_previous {previous : NodeId} :
    SameData m (m.modify id fun n => { n with previous := some previous }) :=
  sameData_modify fun _ => rfl

/-- A first child can be given to every node of the store that is not a leaf. -/
theorem setFirstChild_eq_ok {p : NodeId} (child : Option NodeId) (hp : p < m.size)
    (hleaf : m.isLeaf p = false) :
    ∃ m', m.setFirstChild p child = .ok m' ∧ m'.links = m.links.setFirstChild p child ∧
      SameData m m' := by
  obtain ⟨node, hnode⟩ := lt_size_iff.1 hp
  have hbranch : node.content.branch? ≠ none := by
    rw [Ne, branch?_isNone_iff hnode, hleaf]
    simp
  obtain ⟨branch, hbranch⟩ := Option.ne_none_iff_exists'.1 hbranch
  refine ⟨m.modify p fun n => { n with content := n.content.withFirstChild child }, ?_, ?_,
    sameData_modify fun n => ?_⟩
  · rw [setFirstChild, lookup_eq_ok_iff.2 hnode]
    simp only [bind, Except.bind, hbranch]
    rfl
  · refine Links.ext (bind_get?_modify_same fun _ => rfl) (bind_get?_modify_same fun _ => rfl)
      (bind_get?_modify_same fun _ => rfl) ?_
    funext x
    rw [links_firstChild, firstChild?, bind_get?_modify]
    by_cases hx : p = x
    · rw [if_pos hx, ← hx, hnode]
      simpa [Links.setFirstChild] using Content.firstChild?_withFirstChild child hbranch
    · rw [if_neg hx]
      simp [Links.setFirstChild, update_of_ne (Ne.symm hx), firstChild?]
  · simp [Node.bare, Node.detached]

/-! ## Changing data -/

/-- A change of data is none of links. -/
theorem links_modify_data {change : Node → Node}
    (h : ∀ node, (change node).parent = node.parent ∧ (change node).next = node.next ∧
      (change node).previous = node.previous ∧
      (change node).content.firstChild? = node.content.firstChild?) :
    (m.modify id change).links = m.links :=
  Links.ext (bind_get?_modify_same fun node => (h node).1)
    (bind_get?_modify_same fun node => (h node).2.1)
    (bind_get?_modify_same fun node => (h node).2.2.1)
    (bind_get?_modify_same fun node => (h node).2.2.2)

/-- If a change and taking the links away can be swapped, the bare node is changed alike. -/
theorem bare?_modify (change : Node → Node) {b : Node}
    (h : ∀ node, (change node).bare = change node.bare) (hb : m.bare? id = some b) :
    (m.modify id change).bare? = update m.bare? id (some (change b)) := by
  funext x
  rw [bare?, get?_modify]
  by_cases hx : id = x
  · obtain ⟨node, hnode, rfl⟩ := get?_of_bare? hb
    rw [if_pos hx, ← hx, update_self, hnode, Option.map_some, Option.map_some, h]
  · rw [if_neg hx, update_of_ne (Ne.symm hx), bare?]

/-! ## Looking up -/

/-- A look-up as a live node succeeds for live nodes. -/
theorem lookupLive_eq_ok_iff {node : Node} :
    m.lookupLive id = .ok node ↔ m.get? id = some node ∧ node.replacedBy = none := by
  unfold lookupLive lookup
  cases m.get? id with
  | none => simp [bind, Except.bind]
  | some found =>
    simp only [bind, Except.bind, Option.some.injEq]
    cases hr : found.replacedBy with
    | none =>
      constructor
      · intro h
        cases h
        exact ⟨rfl, hr⟩
      · rintro ⟨rfl, -⟩
        rfl
    | some successor =>
      constructor
      · intro h
        cases h
      · rintro ⟨rfl, hlive⟩
        rw [hr] at hlive
        cases hlive

theorem Live.exists_lookupLive (h : m.Live id) :
    ∃ node, m.get? id = some node ∧ node.replacedBy = none ∧ m.lookupLive id = .ok node := by
  obtain ⟨node, hnode, hlive⟩ := h
  exact ⟨node, hnode, hlive, lookupLive_eq_ok_iff.2 ⟨hnode, hlive⟩⟩

/-- A node can be linked exactly if it is live and has no links yet. -/
theorem lookupUnlinked_eq_ok_iff {node : Node} :
    m.lookupUnlinked id = .ok node ↔
      m.get? id = some node ∧ node.replacedBy = none ∧ node.isUnlinked = true := by
  unfold lookupUnlinked
  cases hlook : m.lookupLive id with
  | error fault =>
    constructor
    · intro h
      cases h
    · rintro ⟨hnode, hlive, -⟩
      rw [lookupLive_eq_ok_iff.2 ⟨hnode, hlive⟩] at hlook
      cases hlook
  | ok found =>
    obtain ⟨hfound, hlive⟩ := lookupLive_eq_ok_iff.1 hlook
    simp only [bind, Except.bind]
    by_cases hu : found.isUnlinked = true
    · rw [if_pos hu]
      constructor
      · intro h
        cases h
        exact ⟨hfound, hlive, hu⟩
      · rintro ⟨hnode, -, -⟩
        rw [hfound] at hnode
        exact congrArg _ (Option.some.inj hnode)
    · rw [if_neg hu]
      constructor
      · intro h
        cases h
      · rintro ⟨hnode, -, hnu⟩
        rw [hfound] at hnode
        exact absurd (Option.some.inj hnode ▸ hnu) hu

/-- Where links form lists, a node has no links exactly if it has no parent. -/
theorem isUnlinked_iff {kids : NodeId → List NodeId} (h : m.links.Forms kids) {node : Node}
    (hnode : m.get? id = some node) : node.isUnlinked = true ↔ m.parent? id = none := by
  have hp : m.parent? id = node.parent := by rw [parent?, hnode]; rfl
  constructor
  · intro hu
    simp only [Node.isUnlinked, Bool.and_eq_true, Option.isNone_iff_eq_none] at hu
    rw [hp, hu.2]
  · intro hnone
    obtain ⟨hnext, hprevious⟩ := h.unlinked hnone
    rw [links_next, nextInRing?, hnode] at hnext
    rw [links_previous, previousInRing?, hnode] at hprevious
    rw [hp] at hnone
    simp_all [Node.isUnlinked]

end Model

end SyntaxTree
