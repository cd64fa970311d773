import SyntaxTree.Proofs.Coherence

/-!
# Following successors

A replaced node names its successor, which may have been replaced in turn. Successors are always younger, so the
search ends, and where it ends is a live node (`live_resolve`). A live node stands for itself.
-/

namespace SyntaxTree.Model

variable {m : Model} {n s : NodeId}

/-- The node that replaced a node. -/
def successor? (m : Model) (n : NodeId) : Option NodeId :=
  (m.get? n).bind (·.replacedBy)

theorem successor?_eq_bare? (m : Model) (n : NodeId) :
    m.successor? n = (m.bare? n).bind (·.replacedBy) := by
  rw [successor?, bare?]
  cases m.get? n <;> rfl

theorem live_iff_successor? : m.Live n ↔ n < m.size ∧ m.successor? n = none := by
  rw [lt_size_iff, Live, successor?]
  cases m.get? n with
  | none => simp
  | some node => simp

/-- One step of the search. -/
theorem resolveWithin_succ (steps : Nat) (n : NodeId) :
    m.resolveWithin (steps + 1) n = (m.successor? n).elim n (m.resolveWithin steps) := by
  rw [resolveWithin, successor?]
  cases (m.get? n).bind (·.replacedBy) <;> rfl

theorem resolveWithin_of_live (hn : m.Live n) (steps : Nat) : m.resolveWithin steps n = n := by
  cases steps with
  | zero => rfl
  | succ steps => rw [resolveWithin_succ, (live_iff_successor?.1 hn).2, Option.elim_none]

/-- A live node stands for itself. -/
theorem resolve_of_live (hn : m.Live n) : m.resolve n = n :=
  resolveWithin_of_live hn m.size

/-- A node that was replaced by a live node is represented by that node. -/
theorem resolve_of_successor? (hn : m.successor? n = some s) (hs : m.Live s) : m.resolve n = s := by
  obtain ⟨steps, hsteps⟩ := Nat.exists_eq_succ_of_ne_zero (Nat.ne_of_gt (Nat.zero_lt_of_lt hs.lt_size))
  rw [resolve, hsteps, Nat.succ_eq_add_one, resolveWithin_succ, hn, Option.elim_some,
    resolveWithin_of_live hs]

/-- A successor is younger than the node it replaced. -/
theorem Labelled.lt_successor? (h : m.Labelled) (hn : m.successor? n = some s) : n < s ∧ s < m.size := by
  rw [successor?_eq_bare?] at hn
  obtain ⟨b, hb, hs⟩ := Option.bind_eq_some_iff.1 hn
  exact (h.proper hb).successor hs

/-- The search ends at a live node. The steps that are left bound how many younger nodes there are. -/
theorem Labelled.live_resolveWithin (h : m.Labelled) : ∀ (steps n : Nat), n < m.size →
    m.size - n ≤ steps → m.Live (m.resolveWithin steps n) := by
  intro steps
  induction steps with
  | zero =>
    intro n hn hsteps
    omega
  | succ steps ih =>
    intro n hn hsteps
    rw [resolveWithin_succ]
    cases hs : m.successor? n with
    | none => exact live_iff_successor?.2 ⟨hn, hs⟩
    | some s =>
      obtain ⟨hlt, hsize⟩ := h.lt_successor? hs
      have hlt : n + 1 ≤ s := hlt
      refine ih s hsize ?_
      omega

/-- What stands for a node of the store is live. -/
theorem Labelled.live_resolve (h : m.Labelled) (hn : n < m.size) : m.Live (m.resolve n) :=
  h.live_resolveWithin m.size n hn (Nat.sub_le ..)

end SyntaxTree.Model
