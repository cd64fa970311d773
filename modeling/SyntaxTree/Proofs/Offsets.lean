import SyntaxTree.Proofs.DocumentOrder
import SyntaxTree.Model.Span

/-!
# Offsets without steps

The ends of a node are found by going back in the document: to the last child, to the sibling before, or up to the
parent. `preceding?` is one such step, on the events of a walk. Going back always ends (`grounded_preceding?`), and it
passes no event twice, so the steps that a search is given are enough. What is left are the equations that one would
like to take for the definition of `totalStart`, `totalEnd` and `emptyOffset`.
-/

namespace SyntaxTree.Model

variable {m : Model} {n p c : NodeId} {before after : List NodeId}

/-! ## Going back -/

/-- The event whose offset decides that of the given one: entering a node stands for where an empty node would be in
its place, and leaving it for where it ends. -/
def preceding? (m : Model) : WalkEvent → Option WalkEvent
  | .leave n =>
    match m.content? n with
    | some (.composite _ _) | some (.bindable _ _ _) => some ((m.lastChild? n).elim (.enter n) .leave)
    | _ => none
  | .enter n =>
    match m.previousSibling? n with
    | some previous => some (.leave previous)
    | none => (m.parent? n).bind fun parent => if m.isRoot parent then none else some (.enter parent)

/-- The offset of an event that no other one decides. -/
def ownOffset (m : Model) : WalkEvent → Nat
  | .leave n =>
    match m.content? n with
    | some (.root _ _) => m.textLength
    | some (.leaf range _ _) => range.stop
    | _ => 0
  | .enter _ => 0

/-- The two searches as one. -/
def offsetWithin (m : Model) (steps : Nat) : WalkEvent → Nat
  | .leave n => m.endWithin steps n
  | .enter n => m.emptyWithin steps n

theorem offsetWithin_succ (steps : Nat) (event : WalkEvent) :
    m.offsetWithin (steps + 1) event = (m.preceding? event).elim (m.ownOffset event) (m.offsetWithin steps) := by
  cases event with
  | leave n =>
    rw [offsetWithin, endWithin, preceding?, ownOffset]
    cases m.content? n with
    | none => rfl
    | some content =>
      cases content with
      | leaf range hidden error => rfl
      | root branch slot => rfl
      | composite branch error => cases m.lastChild? n <;> rfl
      | bindable branch slot error => cases m.lastChild? n <;> rfl
  | enter n =>
    rw [offsetWithin, emptyWithin, preceding?]
    cases m.previousSibling? n with
    | some previous => rfl
    | none =>
      cases m.parent? n with
      | none => rfl
      | some parent =>
        simp only [Option.bind_some]
        split <;> rfl

/-- What decides the place before a child: the sibling before it, or the place before the parent. -/
theorem preceding?_enter (hforms : m.links.Forms m.children) (hsplit : m.children p = before ++ c :: after) :
    m.preceding? (.enter c)
      = before.getLast?.elim (if m.isRoot p then none else some (.enter p)) fun d => some (.leave d) := by
  have hparent : m.parent? c = some p := (hforms.ring hsplit).1
  rw [preceding?, previousSibling?_eq hforms hsplit, hparent]
  cases before.getLast? <;> rfl

/-- What a node is that is neither a leaf nor the root. -/
theorem content?_of_inner (hn : n < m.size) (hleaf : m.isLeaf n = false) (hroot : m.isRoot n = false) :
    (∃ branch error, m.content? n = some (.composite branch error)) ∨
      ∃ branch slot error, m.content? n = some (.bindable branch slot error) := by
  obtain ⟨node, hnode⟩ := lt_size_iff.1 hn
  rw [isLeaf, kind?, hnode] at hleaf
  rw [isRoot, kind?, hnode] at hroot
  rw [content?, hnode, Option.map_some]
  cases hcontent : node.content with
  | leaf range hidden error =>
    rw [Option.map_some, Option.any_some, Node.kind, hcontent] at hleaf
    cases hidden <;> cases error <;> cases hleaf
  | root branch slot =>
    rw [Option.map_some, Node.kind, hcontent] at hroot
    cases hroot
  | composite branch error => exact Or.inl ⟨branch, error, rfl⟩
  | bindable branch slot error => exact Or.inr ⟨branch, slot, error, rfl⟩

/-- What decides the end of a composite other than the root: its last child, or the place where it stands. -/
theorem preceding?_leave (hforms : m.links.Forms m.children) (hn : n < m.size) (hleaf : m.isLeaf n = false)
    (hroot : m.isRoot n = false) :
    m.preceding? (.leave n) = some ((m.children n).getLast?.elim (.enter n) .leave) := by
  rw [preceding?, lastChild?_eq hforms]
  rcases content?_of_inner hn hleaf hroot with ⟨branch, error, hcontent⟩ | ⟨branch, slot, error, hcontent⟩
  · rw [hcontent]
  · rw [hcontent]

/-! ## Going back ends -/

/-- Going back from an event ends. -/
def Ends (m : Model) (event : WalkEvent) : Prop :=
  ∃ chain, Climbs m.preceding? event chain

theorem Ends.of_none {event : WalkEvent} (h : m.preceding? event = none) : m.Ends event :=
  ⟨[], h⟩

theorem Ends.of_preceding? {event earlier : WalkEvent} (h : m.preceding? event = some earlier)
    (hends : m.Ends earlier) : m.Ends event := by
  obtain ⟨chain, hchain⟩ := hends
  exact ⟨earlier :: chain, h, hchain⟩

/-- Going back from a child ends, if it ends from its parent and, for each sibling, from the end of the sibling
whenever it does from its start. The induction is on the siblings before the child. -/
theorem Ends.enter_child (hforms : m.links.Forms m.children) (hp : m.isRoot p = false → m.Ends (.enter p))
    (hleave : ∀ d ∈ m.children p, m.Ends (.enter d) → m.Ends (.leave d)) :
    ∀ (before after : List NodeId) (c : NodeId), m.children p = before ++ c :: after → m.Ends (.enter c) := by
  intro before
  induction before using List.reverseRecOn with
  | nil =>
    intro after c hsplit
    have hstep := preceding?_enter hforms hsplit
    cases hroot : m.isRoot p with
    | true =>
      rw [hroot] at hstep
      exact .of_none hstep
    | false =>
      rw [hroot] at hstep
      exact .of_preceding? hstep (hp hroot)
  | append_singleton before d ih =>
    intro after c hsplit
    have hstep := preceding?_enter hforms hsplit
    rw [List.getLast?_concat] at hstep
    have hd : m.children p = before ++ d :: c :: after := by simpa using hsplit
    exact .of_preceding? hstep (hleave d (by rw [hd]; simp) (ih (c :: after) d hd))

/-- Going back from the end of a node ends if it does from its start: through the children it comes to the start. -/
theorem WellFormed.ends_leave (h : m.WellFormed) (n : NodeId) : m.Ends (.enter n) → m.Ends (.leave n) := by
  have hforms := h.structured.forms
  induction n using descend hforms h.structured.grounded with
  | step n ih =>
  intro henter
  have hstep : m.preceding? (.leave n) = none ∨
      m.preceding? (.leave n) = some ((m.children n).getLast?.elim (.enter n) .leave) := by
    rw [preceding?, lastChild?_eq hforms]
    split <;> simp
  rcases hstep with hstep | hstep
  · exact .of_none hstep
  · refine .of_preceding? hstep ?_
    cases hlast : (m.children n).getLast? with
    | none => exact henter
    | some c =>
      have hc := List.mem_of_getLast? hlast
      obtain ⟨before, after, hsplit⟩ := List.append_of_mem hc
      exact ih c hc (.enter_child hforms (fun _ => henter) ih before after c hsplit)

theorem WellFormed.ends_enter (h : m.WellFormed) (n : NodeId) : m.Ends (.enter n) := by
  have hforms := h.structured.forms
  obtain ⟨chain, hchain⟩ := h.structured.grounded n
  induction chain generalizing n with
  | nil =>
    rw [Climbs] at hchain
    refine .of_none ?_
    rw [preceding?, (siblings_of_parent?_none hchain).2, hchain]
    rfl
  | cons p chain ih =>
    obtain ⟨before, after, hsplit⟩ := hforms.exists_split hchain.1
    exact .enter_child hforms (fun _ => ih p hchain.2) (fun d _ => h.ends_leave d) before after n hsplit

/-- Going back ends from every event. -/
theorem WellFormed.grounded_preceding? (h : m.WellFormed) : Grounded m.preceding? := by
  intro event
  cases event with
  | enter n => exact h.ends_enter n
  | leave n => exact h.ends_leave n (h.ends_enter n)

/-- An event that is gone back to is about a node of the store. -/
theorem WellFormed.lt_size_of_preceding? (h : m.WellFormed) {event earlier : WalkEvent}
    (hstep : m.preceding? event = some earlier) : earlier.node < m.size := by
  have hforms := h.structured.forms
  cases event with
  | enter n =>
    rw [preceding?] at hstep
    cases hp : m.parent? n with
    | none =>
      rw [(siblings_of_parent?_none hp).2, hp] at hstep
      cases hstep
    | some p =>
      obtain ⟨before, after, hsplit⟩ := hforms.exists_split hp
      rw [previousSibling?_eq hforms hsplit, hp] at hstep
      cases hlast : before.getLast? with
      | none =>
        rw [hlast] at hstep
        simp only [Option.bind_some] at hstep
        split at hstep
        · cases hstep
        · obtain rfl := Option.some.inj hstep
          exact lt_size_of_parent hforms hp
      | some d =>
        rw [hlast] at hstep
        obtain rfl := Option.some.inj hstep
        refine h.lt_size_of_mem (?_ : d ∈ m.children p)
        rw [hsplit]
        exact List.mem_append_left _ (List.mem_of_getLast? hlast)
  | leave n =>
    have hn : n < m.size := by
      by_contra hlt
      rw [preceding?, content?, get?_eq_none_iff.2 (Nat.le_of_not_lt hlt)] at hstep
      cases hstep
    have hlater : earlier = (m.children n).getLast?.elim (.enter n) .leave := by
      rw [preceding?, lastChild?_eq hforms] at hstep
      split at hstep <;> cases hstep <;> rfl
    rw [hlater]
    cases hlast : (m.children n).getLast? with
    | none => exact hn
    | some c => exact h.lt_size_of_mem (List.mem_of_getLast? hlast)

/-- A way back is shorter than the steps that a search has: no event is gone back to twice, so there are at most two for
each node. -/
theorem WellFormed.length_lt_searchSteps (h : m.WellFormed) {event : WalkEvent} {chain : List WalkEvent}
    (hchain : Climbs m.preceding? event chain) : chain.length < m.searchSteps := by
  have hlength := length_le_two_mul_size (List.nodup_cons.1 hchain.nodup).2 fun earlier hmem => by
    obtain ⟨later, hstep⟩ := hchain.exists_below hmem
    exact h.lt_size_of_preceding? hstep
  rw [searchSteps]
  omega

/-- The search for the offset of an event ends, without leaving the store. -/
theorem WellFormed.concludes_offset (h : m.WellFormed) {event : WalkEvent} (hevent : event.node < m.size) :
    Concludes m.preceding? (·.node < m.size) m.offsetWithin event (m.offsetWithin m.searchSteps event) := by
  obtain ⟨chain, hchain⟩ := h.grounded_preceding? event
  exact hchain.concludes offsetWithin_succ (h.length_lt_searchSteps hchain)
    (fun _ hstep => h.lt_size_of_preceding? hstep) hevent

/-- The searches have steps enough. -/
theorem WellFormed.offsetWithin_searchSteps (h : m.WellFormed) (event : WalkEvent) :
    m.offsetWithin m.searchSteps event
      = (m.preceding? event).elim (m.ownOffset event) (m.offsetWithin m.searchSteps) := by
  obtain ⟨chain, hchain⟩ := h.grounded_preceding? event
  exact hchain.search_up offsetWithin_succ (h.length_lt_searchSteps hchain)

/-! ## Ends -/

/-- The range of a leaf. -/
def leafRange? (m : Model) (n : NodeId) : Option TextRange :=
  (m.content? n).bind Content.leafRange?

/-- A composite ends with its last child. An empty one ends where it stands. -/
theorem WellFormed.totalEnd_eq (h : m.WellFormed) (hn : n < m.size) (hleaf : m.isLeaf n = false)
    (hroot : m.isRoot n = false) : m.totalEnd n = (m.children n).getLast?.elim (m.emptyOffset n) m.totalEnd := by
  have hstep := h.offsetWithin_searchSteps (.leave n)
  rw [preceding?_leave h.structured.forms hn hleaf hroot, Option.elim_some] at hstep
  refine Eq.trans (show m.totalEnd n = _ from hstep) ?_
  cases (m.children n).getLast? <;> rfl

/-- A child stands where the sibling before it ends. The first one stands where its parent does, which is at the
start of the text if that is the root. -/
theorem WellFormed.emptyOffset_eq (h : m.WellFormed) (hsplit : m.children p = before ++ c :: after) :
    m.emptyOffset c = before.getLast?.elim (if m.isRoot p then 0 else m.emptyOffset p) m.totalEnd := by
  have hstep := h.offsetWithin_searchSteps (.enter c)
  rw [preceding?_enter h.structured.forms hsplit] at hstep
  refine Eq.trans (show m.emptyOffset c = _ from hstep) ?_
  cases before.getLast? with
  | some d => rfl
  | none => cases m.isRoot p <;> rfl

theorem leafRange?_eq_some {range : TextRange} (hrange : m.leafRange? n = some range) :
    ∃ hidden error, m.content? n = some (.leaf range hidden error) := by
  obtain ⟨content, hcontent, hrange⟩ := Option.bind_eq_some_iff.1 hrange
  cases content with
  | leaf own hidden error =>
    obtain rfl := Option.some.inj hrange
    exact ⟨hidden, error, hcontent⟩
  | _ => cases hrange

theorem totalEnd_of_leafRange? {range : TextRange} (hrange : m.leafRange? n = some range) :
    m.totalEnd n = range.stop := by
  obtain ⟨hidden, error, hcontent⟩ := leafRange?_eq_some hrange
  rw [totalEnd, searchSteps, endWithin, hcontent]

/-- Every leaf has a range. -/
theorem exists_leafRange? (hleaf : m.isLeaf n = true) : ∃ range, m.leafRange? n = some range := by
  rw [isLeaf, kind?] at hleaf
  rw [leafRange?, content?]
  cases hnode : m.get? n with
  | none =>
    rw [hnode] at hleaf
    cases hleaf
  | some node =>
    rw [hnode, Option.map_some, Option.any_some, Node.kind, Content.isLeaf_kind] at hleaf
    cases hcontent : node.content with
    | leaf range hidden error => exact ⟨range, by rw [Option.map_some, hcontent]; rfl⟩
    | _ =>
      rw [hcontent] at hleaf
      cases hleaf

/-! ## Starts -/

/-- The node whose start decides that of the given one. -/
def opening? (m : Model) (n : NodeId) : Option NodeId :=
  match m.content? n with
  | some (.composite _ _) | some (.bindable _ _ _) => m.firstChild? n
  | _ => none

/-- The start of a node that no other one decides. -/
def ownStart (m : Model) (n : NodeId) : Nat :=
  match m.content? n with
  | some (.leaf range _ _) => range.start
  | some (.composite _ _) | some (.bindable _ _ _) => m.emptyOffset n
  | _ => 0

theorem startWithin_succ (steps : Nat) (n : NodeId) :
    m.startWithin (steps + 1) n = (m.opening? n).elim (m.ownStart n) (m.startWithin steps) := by
  rw [startWithin, opening?, ownStart]
  cases m.content? n with
  | none => rfl
  | some content =>
    cases content with
    | leaf range hidden error => rfl
    | root branch slot => rfl
    | composite branch error => cases m.firstChild? n <;> rfl
    | bindable branch slot error => cases m.firstChild? n <;> rfl

theorem firstChild?_of_opening? (hstep : m.opening? n = some c) : m.firstChild? n = some c := by
  rw [opening?] at hstep
  split at hstep
  · exact hstep
  · exact hstep
  · cases hstep

theorem WellFormed.grounded_opening? (h : m.WellFormed) : Grounded m.opening? := by
  intro n
  induction n using descend h.structured.forms h.structured.grounded with
  | step n ih =>
  cases hstep : m.opening? n with
  | none => exact ⟨[], hstep⟩
  | some c =>
    have hfirst := (h.head?_children n).trans (firstChild?_of_opening? hstep)
    obtain ⟨chain, hchain⟩ := ih c (List.mem_of_mem_head? hfirst)
    exact ⟨c :: chain, hstep, hchain⟩

theorem WellFormed.lt_size_of_opening? (h : m.WellFormed) (hstep : m.opening? n = some c) : c < m.size :=
  h.lt_size_of_mem (List.mem_of_mem_head? ((h.head?_children n).trans (firstChild?_of_opening? hstep)))

/-- No node is passed twice on the way down. -/
theorem WellFormed.length_lt_size_of_opening? (h : m.WellFormed) (hn : n < m.size) {chain : List NodeId}
    (hchain : Climbs m.opening? n chain) : chain.length < m.size :=
  length_le_size hchain.nodup (hchain.forall_mem (fun _ hstep => h.lt_size_of_opening? hstep) hn)

/-- The search for the start of a node ends, without leaving the store. -/
theorem WellFormed.concludes_start (h : m.WellFormed) (hn : n < m.size) :
    Concludes m.opening? (· < m.size) m.startWithin n (m.totalStart n) := by
  obtain ⟨chain, hchain⟩ := h.grounded_opening? n
  exact hchain.concludes startWithin_succ (h.length_lt_size_of_opening? hn hchain)
    (fun _ hstep => h.lt_size_of_opening? hstep) hn

/-- A composite starts with its first child. An empty one starts where it stands. -/
theorem WellFormed.totalStart_eq (h : m.WellFormed) (hn : n < m.size) (hleaf : m.isLeaf n = false)
    (hroot : m.isRoot n = false) :
    m.totalStart n = (m.children n).head?.elim (m.emptyOffset n) m.totalStart := by
  obtain ⟨chain, hchain⟩ := h.grounded_opening? n
  have hopening : m.opening? n = (m.children n).head? ∧ m.ownStart n = m.emptyOffset n := by
    rw [opening?, ownStart, h.head?_children]
    rcases content?_of_inner hn hleaf hroot with ⟨branch, error, hcontent⟩ | ⟨branch, slot, error, hcontent⟩
    · rw [hcontent]
      exact ⟨rfl, rfl⟩
    · rw [hcontent]
      exact ⟨rfl, rfl⟩
  rw [← hopening.1, ← hopening.2]
  exact hchain.search_up startWithin_succ (h.length_lt_size_of_opening? hn hchain)

theorem totalStart_of_leafRange? {range : TextRange} (hrange : m.leafRange? n = some range) :
    m.totalStart n = range.start := by
  obtain ⟨hidden, error, hcontent⟩ := leafRange?_eq_some hrange
  obtain ⟨steps, hsteps⟩ : ∃ steps, m.size = steps + 1 := by
    obtain ⟨node, hnode, -⟩ := Option.map_eq_some_iff.1 hcontent
    exact Nat.exists_eq_succ_of_ne_zero (Nat.ne_of_gt (Nat.zero_lt_of_lt (lt_size_of_get? hnode)))
  rw [totalStart, hsteps, startWithin, hcontent]

end SyntaxTree.Model
