import SyntaxTree.Proofs.Kinship

/-!
# How deep nodes lie

The level of a node below another one is the number of steps that lead up from it. A child is one level further down than
its parent, so levels can be followed down the tree.

There is no bound on them. A chain has a single node on every level, and a builder can make it as long as it likes
(`exists_chain`), with a hidden leaf as its last node if it wants to (`exists_chain_hidden`).
-/

namespace SyntaxTree.Model

open Function (update update_self update_of_ne)

variable {m m' : Model} {n p c x : NodeId} {text : String} {k : Nat}

/-- How many levels a node is below another one. -/
def levelBelow (m : Model) (n x : NodeId) : Nat :=
  (x :: m.ancestors x).idxOf n

theorem levelBelow_self (n : NodeId) : m.levelBelow n n = 0 :=
  List.idxOf_cons_self

/-- A child is one level further down than its parent. -/
theorem WellFormed.levelBelow_of_mem (h : m.WellFormed) (hc : c ∈ m.children p) (hn : n ∈ p :: m.ancestors p) :
    m.levelBelow n c = m.levelBelow n p + 1 := by
  have hne : c ≠ n := fun e => h.not_mem_ancestors_of_mem hc (e ▸ hn)
  rw [levelBelow, h.ancestors_of_mem hc, List.idxOf_cons_ne _ hne]
  rfl

/-- What is below a child is one level further below its parent. -/
theorem WellFormed.levelBelow_child (h : m.WellFormed) (hc : c ∈ m.children n) (hx : x ∈ m.descendants c) :
    m.levelBelow n x = m.levelBelow c x + 1 := by
  refine (h.forall_descendants (motive := fun y => c ∈ y :: m.ancestors y ∧ n ∈ y :: m.ancestors y ∧
    m.levelBelow n y = m.levelBelow c y + 1) (fun {p q} hq hp => ?_) c (h.lt_size_of_mem hc) ?_ x hx).2.2
  · obtain ⟨hcp, hnp, hlevel⟩ := hp
    rw [h.levelBelow_of_mem hq hcp, h.levelBelow_of_mem hq hnp, hlevel, h.ancestors_of_mem hq]
    exact ⟨List.mem_cons_of_mem _ hcp, List.mem_cons_of_mem _ hnp, rfl⟩
  · rw [h.levelBelow_of_mem hc (List.mem_cons_self ..), levelBelow_self, levelBelow_self, h.ancestors_of_mem hc]
    exact ⟨List.mem_cons_self .., List.mem_cons_of_mem _ (List.mem_cons_self ..), rfl⟩

/-! ## Chains -/

/-- The nodes of the model are one chain, from the root down to `k`. -/
structure Chain (m : Model) (k : Nat) : Prop where
  size : m.size = k + 1
  children : ∀ x < k, m.children x = [x + 1]
  last : m.children k = []

theorem Chain.le_of_mem (hchain : m.Chain k) (h : m.WellFormed) (hx : x ∈ m.descendants rootId) : x ≤ k := by
  have hlt := h.lt_size_of_mem_descendants h.labelled.size_pos hx
  exact Nat.le_of_lt_succ (Nat.lt_of_lt_of_eq hlt hchain.size)

/-- In a chain the names of the nodes are their levels. -/
theorem Chain.levelBelow_root (hchain : m.Chain k) (h : m.WellFormed) (hx : x ≤ k) :
    x ∈ m.descendants rootId ∧ rootId ∈ x :: m.ancestors x ∧ m.levelBelow rootId x = x := by
  induction x with
  | zero => exact ⟨h.mem_descendants_self h.labelled.size_pos, List.mem_cons_self .., levelBelow_self rootId⟩
  | succ x ih =>
    obtain ⟨hmem, habove, hlevel⟩ := ih (Nat.le_of_succ_le hx)
    have hc : x + 1 ∈ m.children x := by
      rw [hchain.children x hx]
      exact List.mem_singleton_self _
    refine ⟨h.mem_descendants_of_child hc rootId h.labelled.size_pos hmem, ?_, ?_⟩
    · rw [h.ancestors_of_mem hc]
      exact List.mem_cons_of_mem _ habove
    · rw [h.levelBelow_of_mem hc habove, hlevel]

/-- A node that is created under the last one makes the chain longer. -/
theorem Chain.created {content : Content} {grammar : Option String} (hchain : m.Chain k)
    (hc : Created m m' content grammar (some k)) (h : m.WellFormed) : m'.Chain (k + 1) := by
  have hchildren : m'.children = update m.children k (m.children k ++ [m.size]) := hc.children
  refine ⟨by rw [hc.size, hchain.size], fun x hx => ?_, ?_⟩
  · rw [hchildren]
    rcases Nat.lt_succ_iff_lt_or_eq.1 hx with hx | rfl
    · rw [update_of_ne (Nat.ne_of_lt hx), hchain.children x hx]
    · rw [update_self, hchain.last, hchain.size]
      rfl
  · rw [hchildren, update_of_ne (Nat.succ_ne_self k), Nat.succ_eq_add_one, ← hchain.size, h.children_size]

/-- The nodes that were there are of the kind that they were. -/
theorem Created.isLeaf_of_lt {content : Content} {grammar : Option String} {parent : Option NodeId}
    (hc : Created m m' content grammar parent) (hx : x < m.size) : m'.isLeaf x = m.isLeaf x := by
  rw [isLeaf_eq_bare?, hc.bare, update_of_ne (Nat.ne_of_lt hx), ← isLeaf_eq_bare?]

/-- There are chains of composites of every length. -/
theorem exists_chain (htext : (initial text).textLength < UInt32.size) (k : Nat) :
    ∃ m, Reachable text m ∧ m.Chain k ∧ m.Live k ∧ ∀ x ≤ k, m.isLeaf x = false := by
  induction k with
  | zero =>
    have h : Reachable text (initial text) := .opened (ofText_eq_ok_iff.2 ⟨htext, rfl⟩)
    refine ⟨_, h, ⟨rfl, nofun, rfl⟩, h.coherent.live_root, fun x hx => ?_⟩
    obtain rfl := Nat.le_zero.1 hx
    rfl
  | succ k ih =>
    obtain ⟨m, h, hchain, hlive, hcomposites⟩ := ih
    have hparent : ∀ p ∈ some k, m.Live p ∧ m.isLeaf p = false :=
      fun p hp => Option.some.inj hp ▸ ⟨hlive, hcomposites k (Nat.le_refl k)⟩
    obtain ⟨m', hok, -, hcreated⟩ := h.coherent.newComposite_eq_ok none 0 hparent
    have happly : (Edit.newComposite none 0 (some k)).apply m = .ok (m', some m.size) := by
      rw [Edit.apply, hok]
      rfl
    have hallocated : (Edit.newComposite none 0 (some k)).Allocated m := List.forall_mem_singleton.2 hlive.lt_size
    refine ⟨m', h.edited _ hallocated happly, hchain.created hcreated h.coherent.toWellFormed, ?_, fun x hx => ?_⟩
    · rw [← hchain.size]
      exact (live_update hcreated.bare rfl).2 (Or.inr rfl)
    · rcases Nat.le_succ_iff.1 hx with hx | rfl
      · rw [hcreated.isLeaf_of_lt (hchain.size ▸ Nat.lt_succ_of_le hx), hcomposites x hx]
      · rw [isLeaf_eq_bare?, hcreated.bare, Nat.succ_eq_add_one, ← hchain.size, update_self]
        rfl

/-- A chain may end with a hidden leaf. -/
theorem exists_chain_hidden (htext : (initial text).textLength < UInt32.size) (k : Nat) :
    ∃ m, Reachable text m ∧ m.Chain (k + 1) ∧ (∀ x ≤ k, m.isLeaf x = false) ∧ m.isHidden (k + 1) = true := by
  obtain ⟨m, h, hchain, hlive, hcomposites⟩ := exists_chain htext k
  have hrange : m.leafRange 0 0 = .ok ⟨0, 0, Nat.le_refl 0⟩ :=
    (leafRange_eq_ok_iff h.coherent.labelled.short).2
      ⟨⟨Nat.zero_le _, Text.isBoundary_zero _, Text.isBoundary_zero _⟩, rfl, rfl⟩
  obtain ⟨m', hok, -, hcreated⟩ :=
    h.coherent.newLeaf_eq_ok none true none hrange hlive (hcomposites k (Nat.le_refl k))
  have happly : (Edit.newLeaf 0 0 none true none k).apply m = .ok (m', some m.size) := by
    rw [Edit.apply, hok]
    rfl
  have hallocated : (Edit.newLeaf 0 0 none true none k).Allocated m := List.forall_mem_singleton.2 hlive.lt_size
  refine ⟨m', h.edited _ hallocated happly, hchain.created hcreated h.coherent.toWellFormed, fun x hx => ?_, ?_⟩
  · rw [hcreated.isLeaf_of_lt (hchain.size ▸ Nat.lt_succ_of_le hx), hcomposites x hx]
  · rw [isHidden, kind?_eq_bare?, hcreated.bare, ← hchain.size, update_self]
    rfl

end SyntaxTree.Model
