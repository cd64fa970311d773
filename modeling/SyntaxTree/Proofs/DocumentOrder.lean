import SyntaxTree.Proofs.Coherence
import SyntaxTree.Model.Walk

/-!
# Document order

A walk finds its way by the links alone. This file shows what it meets: `events_eq` says that the walk from a node
enters the node, walks its children one after the other, and leaves it. Everything that is read off a walk follows
the same recursion, above all the descendants and the leaves of a node.

The recursion itself is `outline`, which is given as many steps as there can be nodes below: a child has one step
less than its parent, so the equation for `outline` holds as it stands and nothing has to be said about steps.
-/

namespace SyntaxTree.Model

variable {m : Model} {n p c start : NodeId}

/-! ## The outline of a tree -/

/-- A node with all that is below it, each node entered and left, down to a number of levels. -/
def outlineWithin (m : Model) : Nat → NodeId → List WalkEvent
  | 0, _ => []
  | levels + 1, n => .enter n :: ((m.children n).flatMap (m.outlineWithin levels) ++ [.leave n])

/-- A node with all that is below it, each node entered and left. -/
def outline (m : Model) (n : NodeId) : List WalkEvent :=
  m.outlineWithin (m.size - (m.ancestors n).length) n

/-- What an outline holds for the nodes below. -/
def outlines (m : Model) (ids : List NodeId) : List WalkEvent :=
  ids.flatMap m.outline

/-- The way up from a child starts with its parent. -/
theorem WellFormed.ancestors_of_mem (h : m.WellFormed) (hc : c ∈ m.children p) : m.ancestors c = p :: m.ancestors p :=
  ancestors_of_parent? h.structured.forms h.structured.grounded (h.structured.forms.mem_iff.1 hc)

theorem WellFormed.outline_eq (h : m.WellFormed) (hn : n < m.size) :
    m.outline n = .enter n :: (m.outlines (m.children n) ++ [.leave n]) := by
  have hlength := length_ancestors_lt h.structured.forms h.structured.grounded hn
  obtain ⟨levels, hlevels⟩ := Nat.exists_eq_succ_of_ne_zero (Nat.sub_ne_zero_of_lt hlength)
  have hchild : ∀ c ∈ m.children n, m.outlineWithin levels c = m.outline c := by
    intro c hc
    rw [outline, h.ancestors_of_mem hc, List.length_cons]
    congr 1
    omega
  rw [outline, hlevels, Nat.succ_eq_add_one, outlineWithin, outlines]
  rw [List.flatMap_congr hchild]

/-- A child is live. -/
theorem WellFormed.live_of_mem (h : m.WellFormed) (hc : c ∈ m.children p) : m.Live c :=
  h.live_of_parent? (h.structured.forms.mem_iff.1 hc)

/-- A child is a node of the store. -/
theorem WellFormed.lt_size_of_mem (h : m.WellFormed) (hc : c ∈ m.children p) : c < m.size :=
  lt_size_of_parent? (h.structured.forms.mem_iff.1 hc)

/-- Above a child is also its parent. -/
theorem WellFormed.mem_ancestors_of_child (h : m.WellFormed) (hc : c ∈ m.children p) (hn : c ∈ n :: m.ancestors n) :
    p ∈ m.ancestors n := by
  have hparent := mem_ancestors_of_parent? h.structured.forms h.structured.grounded (h.structured.forms.mem_iff.1 hc)
  rcases List.mem_cons.1 hn with rfl | hn
  · exact hparent
  · exact mem_ancestors_trans h.structured.forms h.structured.grounded hparent hn

/-- No child is above its parent. -/
theorem WellFormed.not_mem_ancestors_of_mem (h : m.WellFormed) (hc : c ∈ m.children p) : c ∉ p :: m.ancestors p :=
  fun hmem => (climbs_ancestors h.structured.forms h.structured.grounded p).not_mem (h.mem_ancestors_of_child hc hmem)

/-- The outline of a node is about the node and the nodes below it. -/
theorem WellFormed.mem_outline (h : m.WellFormed) (n : NodeId) : n < m.size →
    ∀ event ∈ m.outline n, event.node < m.size ∧ n ∈ event.node :: m.ancestors event.node := by
  induction n using descend h.structured.forms h.structured.grounded with
  | step n ih =>
  intro hn event hevent
  rw [h.outline_eq hn, List.mem_cons, List.mem_append, List.mem_singleton] at hevent
  rcases hevent with rfl | hbelow | rfl
  · exact ⟨hn, List.mem_cons_self ..⟩
  · obtain ⟨c, hc, hevent⟩ := List.mem_flatMap.1 hbelow
    obtain ⟨hlt, hmem⟩ := ih c hc (h.lt_size_of_mem hc) event hevent
    exact ⟨hlt, List.mem_cons_of_mem _ (h.mem_ancestors_of_child hc hmem)⟩
  · exact ⟨hn, List.mem_cons_self ..⟩

/-- No event is met twice: a node is not below itself, and no node is below two children. -/
theorem WellFormed.nodup_outline (h : m.WellFormed) (n : NodeId) : n < m.size → (m.outline n).Nodup := by
  induction n using descend h.structured.forms h.structured.grounded with
  | step n ih =>
  intro hn
  have hforms := h.structured.forms
  have hgrounded := h.structured.grounded
  have hbelow : ∀ event ∈ m.outlines (m.children n), event.node ≠ n := by
    intro event hevent he
    obtain ⟨c, hc, hevent⟩ := List.mem_flatMap.1 hevent
    have hmem := (h.mem_outline c (h.lt_size_of_mem hc) event hevent).2
    rw [he] at hmem
    exact h.not_mem_ancestors_of_mem hc hmem
  have hlists : (m.outlines (m.children n)).Nodup := by
    refine List.nodup_flatMap.2 ⟨fun c hc => ih c hc (h.lt_size_of_mem hc), ?_⟩
    refine (hforms.nodup n).imp_of_mem fun {c d} hc hd hcd => ?_
    intro event hevent hevent'
    -- its node is below both children
    have hxc := (h.mem_outline c (h.lt_size_of_mem hc) event hevent).2
    have hxd := (h.mem_outline d (h.lt_size_of_mem hd) event hevent').2
    exact hcd (eq_of_mem_ancestors hforms hgrounded (hforms.mem_iff.1 hc) (hforms.mem_iff.1 hd) hxc hxd)
  rw [h.outline_eq hn, List.nodup_cons, List.nodup_append]
  refine ⟨?_, hlists, List.nodup_singleton _, ?_⟩
  · intro hmem
    rcases List.mem_append.1 hmem with hmem | hmem
    · exact hbelow _ hmem rfl
    · cases List.mem_singleton.1 hmem
  · intro event hevent last hlast he
    rw [List.mem_singleton.1 hlast] at he
    exact hbelow event hevent (congrArg WalkEvent.node he)

/-- A number for each event, two for each node. -/
def eventNumber : WalkEvent → Nat
  | .enter n => 2 * n
  | .leave n => 2 * n + 1

theorem eventNumber_injective : Function.Injective eventNumber := by
  intro a b hab
  cases a <;> cases b <;> simp only [eventNumber] at hab
  · exact congrArg _ (Nat.le_antisymm (by omega) (by omega))
  · omega
  · omega
  · exact congrArg _ (Nat.le_antisymm (by omega) (by omega))

/-- Different events of nodes of the store are at most two for each node. -/
theorem length_le_two_mul_size {events : List WalkEvent} (hnodup : events.Nodup)
    (hlt : ∀ event ∈ events, event.node < m.size) : events.length ≤ 2 * m.size := by
  have hsub : events.map eventNumber ⊆ List.range (2 * m.size) := by
    intro x hx
    obtain ⟨event, hevent, rfl⟩ := List.mem_map.1 hx
    have hnode := Nat.succ_le_of_lt (hlt event hevent)
    rw [List.mem_range]
    cases event <;> simp only [eventNumber, WalkEvent.node] at hnode ⊢ <;> omega
  have hlength := ((hnodup.map eventNumber_injective).subperm hsub).length_le
  rwa [List.length_map, List.length_range] at hlength

theorem WellFormed.length_outline_le (h : m.WellFormed) (hn : n < m.size) : (m.outline n).length ≤ 2 * m.size :=
  length_le_two_mul_size (h.nodup_outline n hn) fun event hevent => (h.mem_outline n hn event hevent).1

/-! ## Walks follow the outline -/

theorem eventsFrom_succ_of_some {event following : WalkEvent} (hnext : event.following? m start = some following)
    (steps : Nat) : m.eventsFrom start (steps + 1) event = event :: m.eventsFrom start steps following := by
  rw [eventsFrom, hnext]

/-- After a child comes the next one, and after the last child the walk is back at the parent. -/
theorem following?_leave (hforms : m.links.Forms m.children) {before after : List NodeId}
    (hsplit : m.children p = before ++ c :: after) (hc : c ≠ start) :
    WalkEvent.following? m start (.leave c) = some (after.head?.elim (.leave p) .enter) := by
  have hparent : m.parent? c = some p := (hforms.ring hsplit).1
  rw [WalkEvent.following?, if_neg hc, nextSibling?_eq hforms hsplit, hparent]
  cases after <;> rfl

theorem following?_enter (hforms : m.links.Forms m.children) :
    WalkEvent.following? m start (.enter n) = some ((m.children n).head?.elim (.leave n) .enter) := by
  rw [WalkEvent.following?, show m.firstChild? n = _ from hforms.firstChild n]
  cases m.children n <;> rfl

/-- Entering a node leads, through all that is below it, to leaving it, unless the walk started below. The
induction goes down the tree, and among the children of a node along the list. -/
theorem WellFormed.eventsFrom_enter (h : m.WellFormed) (n : NodeId) : n < m.size → n ∉ m.ancestors start →
    ∀ steps, m.eventsFrom start ((m.outlines (m.children n)).length + 1 + steps) (.enter n)
      = .enter n :: m.outlines (m.children n) ++ m.eventsFrom start steps (.leave n) := by
  have hforms := h.structured.forms
  have hgrounded := h.structured.grounded
  induction n using descend hforms hgrounded with
  | step n ih =>
  intro hn hstart steps
  -- one child: the walk goes through it and on to what comes after it
  have hchild : ∀ {before after : List NodeId} {c : NodeId}, m.children n = before ++ c :: after → ∀ steps,
      m.eventsFrom start ((m.outline c).length + steps) (.enter c)
        = m.outline c ++ m.eventsFrom start steps (after.head?.elim (.leave n) .enter) := by
    intro before after c hsplit steps
    have hc : c ∈ m.children n := hforms.mem_of_split hsplit
    have hup : n ∈ m.ancestors c := mem_ancestors_of_parent? hforms hgrounded (hforms.mem_iff.1 hc)
    have hcs : c ≠ start := by
      intro e
      exact hstart (e ▸ hup)
    have hcstart : c ∉ m.ancestors start := fun hmem => hstart (mem_ancestors_trans hforms hgrounded hup hmem)
    have hlength : (m.outline c).length + steps
        = (m.outlines (m.children c)).length + 1 + (steps + 1) := by
      rw [h.outline_eq (h.lt_size_of_mem hc)]
      simp only [List.length_cons, List.length_append, List.length_nil]
      omega
    rw [hlength, ih c hc (h.lt_size_of_mem hc) hcstart,
      eventsFrom_succ_of_some (following?_leave hforms hsplit hcs), h.outline_eq (h.lt_size_of_mem hc)]
    simp
  -- all children from one of them on
  have hsiblings : ∀ (after before : List NodeId) (c : NodeId), m.children n = before ++ c :: after →
      m.eventsFrom start ((m.outlines (c :: after)).length + steps) (.enter c)
        = m.outlines (c :: after) ++ m.eventsFrom start steps (.leave n) := by
    intro after
    induction after with
    | nil =>
      intro before c hsplit
      have hone : m.outlines [c] = m.outline c := by rw [outlines, List.flatMap_singleton]
      rw [hone]
      exact hchild hsplit steps
    | cons d after ihafter =>
      intro before c hsplit
      have hmore : m.outlines (c :: d :: after) = m.outline c ++ m.outlines (d :: after) := List.flatMap_cons
      rw [hmore, List.length_append, Nat.add_assoc, hchild hsplit, List.append_assoc]
      congr 1
      exact ihafter (before ++ [c]) d (by simpa using hsplit)
  rw [Nat.add_right_comm, eventsFrom_succ_of_some (following?_enter hforms), List.cons_append]
  cases hkids : m.children n with
  | nil => rw [show (m.outlines []).length + steps = steps from Nat.zero_add steps]; rfl
  | cons c after => exact congrArg _ (hsiblings after [] c hkids)

/-- A walk meets the outline of the node that it starts from. -/
theorem WellFormed.events_eq_outline (h : m.WellFormed) (hn : n < m.size) : m.events n = m.outline n := by
  have hlength := h.length_outline_le hn
  rw [h.outline_eq hn] at hlength ⊢
  simp only [List.length_cons, List.length_append, List.length_nil] at hlength
  have hself : n ∉ m.ancestors n := (climbs_ancestors h.structured.forms h.structured.grounded n).not_mem
  -- the steps that are left are enough to leave the node
  obtain ⟨steps, hsteps⟩ : ∃ steps, 2 * m.size = (m.outlines (m.children n)).length + 1 + (steps + 1) :=
    ⟨2 * m.size - (m.outlines (m.children n)).length - 2, by omega⟩
  rw [events, hsteps, h.eventsFrom_enter n hn hself, eventsFrom, WalkEvent.following?, if_pos rfl]
  rfl

/-- The walk from a node enters it, walks its children in order, and leaves it. -/
theorem WellFormed.events_eq (h : m.WellFormed) (hn : n < m.size) :
    m.events n = .enter n :: ((m.children n).flatMap m.events ++ [.leave n]) := by
  rw [h.events_eq_outline hn, h.outline_eq hn, outlines,
    List.flatMap_congr fun c hc => (h.events_eq_outline (h.lt_size_of_mem hc)).symm]

/-- A walk meets no event twice. -/
theorem WellFormed.nodup_events (h : m.WellFormed) (hn : n < m.size) : (m.events n).Nodup := by
  rw [h.events_eq_outline hn]
  exact h.nodup_outline n hn

/-- A walk has no more than two events for each node. -/
theorem WellFormed.length_events_le (h : m.WellFormed) (hn : n < m.size) : (m.events n).length ≤ 2 * m.size := by
  rw [h.events_eq_outline hn]
  exact h.length_outline_le hn

/-! ## Descendants and leaves -/

/-- The descendants of a node are what a walk enters. -/
theorem mem_descendants_iff_enter {x : NodeId} : x ∈ m.descendants n ↔ .enter x ∈ m.events n := by
  rw [descendants, List.mem_filterMap]
  constructor
  · rintro ⟨event, hevent, hentered⟩
    cases event with
    | enter y =>
      obtain rfl := Option.some.inj hentered
      exact hevent
    | leave y => cases hentered
  · exact fun hevent => ⟨.enter x, hevent, rfl⟩

/-- The descendants of a node are itself and those of its children, in order. -/
theorem WellFormed.descendants_eq (h : m.WellFormed) (hn : n < m.size) :
    m.descendants n = n :: (m.children n).flatMap m.descendants := by
  have hleave : [WalkEvent.leave n].filterMap WalkEvent.entered? = [] := rfl
  rw [descendants, h.events_eq hn, List.filterMap_cons, List.filterMap_append, List.filterMap_flatMap, hleave,
    List.append_nil]
  rfl

theorem WellFormed.mem_descendants_self (h : m.WellFormed) (hn : n < m.size) : n ∈ m.descendants n := by
  rw [h.descendants_eq hn]
  exact List.mem_cons_self ..

/-- What passes from a node to its children holds of all nodes below it. -/
theorem WellFormed.forall_descendants (h : m.WellFormed) {motive : NodeId → Prop}
    (hdown : ∀ {p c}, c ∈ m.children p → motive p → motive c) (n : NodeId) : n < m.size → motive n →
      ∀ x ∈ m.descendants n, motive x := by
  induction n using descend h.structured.forms h.structured.grounded with
  | step n ih =>
  intro hn hmotive x hx
  rw [h.descendants_eq hn] at hx
  rcases List.mem_cons.1 hx with rfl | hx
  · exact hmotive
  · obtain ⟨c, hc, hx⟩ := List.mem_flatMap.1 hx
    exact ih c hc (h.lt_size_of_mem hc) (hdown hc hmotive) x hx

/-- No node is a descendant twice. -/
theorem WellFormed.nodup_descendants (h : m.WellFormed) (hn : n < m.size) : (m.descendants n).Nodup := by
  refine (h.nodup_events hn).filterMap fun a b x ha hb => ?_
  -- only entering a node counts
  cases a <;> cases b <;> simp_all [WalkEvent.entered?]

theorem WellFormed.lt_size_of_mem_descendants (h : m.WellFormed) (hn : n < m.size) {x : NodeId}
    (hx : x ∈ m.descendants n) : x < m.size := by
  rw [mem_descendants_iff_enter, h.events_eq_outline hn] at hx
  exact (h.mem_outline n hn _ hx).1

/-- A node has no more descendants than there are nodes. -/
theorem WellFormed.length_descendants_le (h : m.WellFormed) (hn : n < m.size) : (m.descendants n).length ≤ m.size :=
  length_le_size (h.nodup_descendants hn) fun _ hx => h.lt_size_of_mem_descendants hn hx

/-- A walk leaves what it enters. -/
theorem WellFormed.leave_mem_events (h : m.WellFormed) (n : NodeId) : n < m.size → ∀ x ∈ m.descendants n,
    .leave x ∈ m.events n := by
  induction n using descend h.structured.forms h.structured.grounded with
  | step n ih =>
  intro hn x hx
  rw [h.descendants_eq hn] at hx
  rw [h.events_eq hn]
  refine List.mem_cons_of_mem _ (List.mem_append.2 ?_)
  rcases List.mem_cons.1 hx with rfl | hx
  · exact Or.inr (List.mem_singleton_self _)
  · obtain ⟨c, hc, hx⟩ := List.mem_flatMap.1 hx
    exact Or.inl (List.mem_flatMap.2 ⟨c, hc, ih c hc (h.lt_size_of_mem hc) x hx⟩)

/-- Where nodes wait on a stack, children may take the place of their parent: what is below is the same, less the parent
itself. -/
theorem WellFormed.flatMap_children (h : m.WellFormed) (hn : n < m.size) (stack : List NodeId) :
    (n :: ((m.children n).reverse ++ stack).flatMap m.descendants).Perm ((n :: stack).flatMap m.descendants) := by
  rw [List.flatMap_cons, h.descendants_eq hn, List.cons_append, List.flatMap_append]
  exact (((List.reverse_perm _).flatMap_right _).append_right _).cons n

/-- A leaf is its own only leaf, and the leaves of a composite are those of its children, in order. -/
theorem WellFormed.leaves_eq (h : m.WellFormed) (hn : n < m.size) :
    m.leaves n = if m.isLeaf n then [n] else (m.children n).flatMap m.leaves := by
  rw [leaves, h.descendants_eq hn]
  split
  · next hleaf =>
    rw [h.children_of_isLeaf hleaf, List.flatMap_nil, List.filter_cons_of_pos hleaf]
    rfl
  · next hleaf =>
    rw [List.filter_cons_of_neg hleaf, List.filter_flatMap]
    rfl

end SyntaxTree.Model
