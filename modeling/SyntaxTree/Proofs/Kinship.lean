import SyntaxTree.Proofs.DocumentOrder
import SyntaxTree.Proofs.Reachable

/-!
# Going down and going up agree

A store knows twice where a node stands: the node knows its parent, and the parent's list knows the node. Readers go
down by the one and up by the other. In a well-formed model both ways end, and they agree: what a walk from a node
enters is the node and the nodes that it is above (`mem_descendants_iff`).

So every live node is in exactly one of the trees of the forest, the one whose top its way up leads to
(`existsUnique_top`).
-/

namespace SyntaxTree.Model

variable {m : Model} {text : String} {n p c x top start : NodeId}

/-! ## Walks end -/

/-- A walk whose last event has nothing after it was not cut off. -/
theorem climbs_eventsFrom {last : WalkEvent} (hstop : last.following? m start = none) :
    ∀ (steps : Nat) (event : WalkEvent), (m.eventsFrom start steps event).getLast? = some last →
      ∃ rest, m.eventsFrom start steps event = event :: rest ∧ Climbs (WalkEvent.following? m start) event rest := by
  intro steps
  induction steps with
  | zero =>
    intro event hlast
    cases hlast
  | succ steps ih =>
    intro event hlast
    rw [eventsFrom] at hlast ⊢
    cases hnext : event.following? m start with
    | none => exact ⟨[], rfl, hnext⟩
    | some following =>
      rw [hnext] at hlast
      cases steps with
      | zero =>
        -- the only event would be the last one, but something follows it
        obtain rfl : event = last := Option.some.inj hlast
        rw [hstop] at hnext
        cases hnext
      | succ steps =>
        have hnonempty : m.eventsFrom start (steps + 1) following ≠ [] := by
          rw [eventsFrom]
          split <;> exact List.cons_ne_nil _ _
        rw [List.getLast?_cons_of_ne_nil hnonempty] at hlast
        obtain ⟨rest, hrest, hclimbs⟩ := ih following hlast
        exact ⟨following :: rest, congrArg _ hrest, hnext, hclimbs⟩

/-- A walk ends by itself, with leaving the node that it started from. -/
theorem WellFormed.climbs_events (h : m.WellFormed) (hn : n < m.size) :
    ∃ rest, m.events n = .enter n :: rest ∧ Climbs (WalkEvent.following? m n) (.enter n) rest := by
  have hstop : (WalkEvent.leave n).following? m n = none := if_pos rfl
  refine climbs_eventsFrom hstop (2 * m.size) (.enter n) ?_
  rw [← events, h.events_eq hn, ← List.cons_append, List.getLast?_concat]

/-! ## Descendants and ancestors -/

/-- What is below a node includes the children of all that is below it. -/
theorem WellFormed.mem_descendants_of_child (h : m.WellFormed) (hc : c ∈ m.children p) (n : NodeId) : n < m.size →
    p ∈ m.descendants n → c ∈ m.descendants n := by
  induction n using descend h.structured.forms h.structured.grounded with
  | step n ih =>
  intro hn hp
  rw [h.descendants_eq hn] at hp ⊢
  refine List.mem_cons_of_mem _ (List.mem_flatMap.2 ?_)
  rcases List.mem_cons.1 hp with rfl | hp
  · exact ⟨c, hc, h.mem_descendants_self (h.lt_size_of_mem hc)⟩
  · obtain ⟨d, hd, hp⟩ := List.mem_flatMap.1 hp
    exact ⟨d, hd, ih d hd (h.lt_size_of_mem hd) hp⟩

/-- A node is below another if its way up leads there. The induction is on the way up. -/
theorem WellFormed.mem_descendants_of_climbs (h : m.WellFormed) (hn : n < m.size) :
    ∀ {chain : List NodeId} {x : NodeId}, Climbs m.parent? x chain → n ∈ x :: chain → x ∈ m.descendants n := by
  intro chain
  induction chain with
  | nil =>
    intro x _ hmem
    obtain rfl := List.mem_singleton.1 hmem
    exact h.mem_descendants_self hn
  | cons p chain ih =>
    intro x hclimb hmem
    obtain ⟨hparent, hclimb⟩ := hclimb
    rcases List.mem_cons.1 hmem with rfl | hmem
    · exact h.mem_descendants_self hn
    · exact h.mem_descendants_of_child (h.structured.forms.listed hparent) n hn (ih hclimb hmem)

/-- The nodes below a node are itself and those that it is above. -/
theorem WellFormed.mem_descendants_iff (h : m.WellFormed) (hn : n < m.size) :
    x ∈ m.descendants n ↔ x = n ∨ n ∈ m.ancestors x := by
  constructor
  · intro hmem
    have habove : n ∈ x :: m.ancestors x := by
      refine h.forall_descendants (motive := fun y => n ∈ y :: m.ancestors y) (fun {p c} hc hp => ?_) n hn
        (List.mem_cons_self ..) x hmem
      rw [h.ancestors_of_mem hc]
      exact List.mem_cons_of_mem _ hp
    exact (List.mem_cons.1 habove).imp_left Eq.symm
  · intro habove
    exact h.mem_descendants_of_climbs hn (climbs_ancestors h.structured.forms h.structured.grounded x)
      (List.mem_cons.2 (habove.imp_left Eq.symm))

/-! ## One tree for each node -/

/-- The way up from a node ends at one top. -/
theorem WellFormed.eq_of_tops_above (h : m.WellFormed) {root : NodeId} (htop : m.parent? top = none)
    (hroot : m.parent? root = none) (hmem : top ∈ n :: m.ancestors n) (hmem' : root ∈ n :: m.ancestors n) :
    top = root := by
  rcases (climbs_ancestors h.structured.forms h.structured.grounded n).comparable hmem hmem' with
    he | ⟨above, habove, hin⟩ | ⟨above, habove, hin⟩
  · exact he
  · have hnil : Climbs m.parent? top [] := htop
    rw [habove.unique hnil] at hin
    cases hin
  · have hnil : Climbs m.parent? root [] := hroot
    rw [habove.unique hnil] at hin
    cases hin

/-- What hangs below a live node is live. -/
theorem WellFormed.live_of_mem_descendants (h : m.WellFormed) (hn : m.Live n) (hx : x ∈ m.descendants n) : m.Live x :=
  h.forall_descendants (fun hc _ => h.live_of_mem hc) n hn.lt_size hn x hx

/-- Every live node hangs below one top, where its way up ends, and below no other. -/
theorem WellFormed.existsUnique_top (h : m.WellFormed) (hx : m.Live x) :
    ∃! top, (m.Live top ∧ m.parent? top = none) ∧ x ∈ m.descendants top := by
  obtain ⟨top, hlast, hlive, htop, -⟩ := h.exists_top hx
  have habove := List.mem_of_getLast? hlast
  refine ⟨top, ⟨⟨hlive, htop⟩, (h.mem_descendants_iff hlive.lt_size).2 ((List.mem_cons.1 habove).imp_left Eq.symm)⟩, ?_⟩
  rintro other ⟨⟨hlive', htop'⟩, hmem⟩
  have habove' := (h.mem_descendants_iff hlive'.lt_size).1 hmem
  exact h.eq_of_tops_above htop' htop (List.mem_cons.2 (habove'.imp_left Eq.symm)) habove

/-- Going down and going up agree, and every live node is in one tree. -/
structure Kinship (m : Model) : Prop where
  /-- The walk that finds the descendants ends by itself. -/
  walk_ends : ∀ {n}, m.Live n →
    ∃ rest, m.events n = .enter n :: rest ∧ Climbs (WalkEvent.following? m n) (.enter n) rest
  nodup_descendants : ∀ {n}, m.Live n → (m.descendants n).Nodup
  /-- Below a node are itself and the nodes that it is above. -/
  mem_descendants_iff : ∀ {n x}, m.Live n → m.Live x → (x ∈ m.descendants n ↔ x = n ∨ n ∈ m.ancestors x)
  /-- The way up ends by itself, and the ancestors are all that it meets. -/
  climb_ends : ∀ {n}, m.Live n → Climbs m.parent? n (m.ancestors n)
  nodup_ancestors : ∀ {n}, m.Live n → (m.ancestors n).Nodup
  not_mem_ancestors : ∀ {n}, m.Live n → n ∉ m.ancestors n
  /-- The root is one of the tops. -/
  root : m.Live rootId ∧ m.parent? rootId = none
  /-- The trees below the tops part the live nodes among them. -/
  one_tree : ∀ {x}, m.Live x ↔ ∃! top, (m.Live top ∧ m.parent? top = none) ∧ x ∈ m.descendants top
  /-- The other tops are composites. -/
  composite : ∀ {top}, m.Live top → m.parent? top = none → top ≠ rootId →
    (m.kind? top).any NodeKind.isComposite = true

theorem WellFormed.kinship (h : m.WellFormed) : m.Kinship where
  walk_ends hn := h.climbs_events hn.lt_size
  nodup_descendants hn := h.nodup_descendants hn.lt_size
  mem_descendants_iff hn _ := h.mem_descendants_iff hn.lt_size
  climb_ends {n} _ := climbs_ancestors h.structured.forms h.structured.grounded n
  nodup_ancestors {n} _ := (List.nodup_cons.1 (climbs_ancestors h.structured.forms h.structured.grounded n).nodup).2
  not_mem_ancestors {n} _ := (climbs_ancestors h.structured.forms h.structured.grounded n).not_mem
  root := ⟨h.live_root, h.structured.root_loose⟩
  one_tree {x} := by
    refine ⟨h.existsUnique_top, fun htop => ?_⟩
    obtain ⟨top, ⟨⟨hlive, -⟩, hmem⟩, -⟩ := htop
    exact h.live_of_mem_descendants hlive hmem
  composite {top} hlive htop hroot := by
    obtain ⟨b, hb, hb'⟩ := live_iff_bare?.1 hlive
    rw [kind?_eq_bare?, hb, Option.map_some, (h.settled top b hb hb' htop).resolve_left hroot]
    rfl

/-- In every reachable model going down and going up agree, and every live node is in one tree. -/
theorem reachable_kinship (h : Reachable text m) : m.Kinship :=
  h.coherent.kinship

/-- Two trees, one of them detached. A node of the main tree was wrapped and compressed on the way, and one of the
detached tree was marked, so two of the nine nodes are stale and in no tree. -/
theorem reachable_kinship_detached : ∃ m, Reachable "ab" m ∧ m.descendants rootId = [0, 6, 7, 2] ∧
    m.descendants 3 = [3, 8, 5] ∧ m.ancestors 2 = [7, 6, 0] ∧ m.ancestors 5 = [8, 3] ∧ m.isStale 1 = true ∧
    m.isStale 4 = true ∧ m.Kinship := by
  have h : Reachable "ab" (initial "ab") := .opened (ofText_eq_ok_iff.2 ⟨by decide, rfl⟩)
  have h := h.edited (.newComposite none 0 (some 0)) (by decide) rfl
  have h := h.edited (.newLeaf 0 1 none false none 1) (by decide) rfl
  have h := h.edited (.newComposite none 0 none) (by decide) rfl
  have h := h.edited (.newComposite none 0 (some 3)) (by decide) rfl
  have h := h.edited (.newLeaf 1 1 none false none 4) (by decide) rfl
  have h := h.edited (.wrap none 0 1) (by decide) rfl
  have h := h.edited (.setSyntaxError 4 ⟨"late", none, []⟩) (by decide) rfl
  exact ⟨_, h, rfl, rfl, rfl, rfl, rfl, rfl, reachable_kinship h⟩

end SyntaxTree.Model
