import SyntaxTree.Proofs.Offsets

/-!
# Local order is leaf order

Two ways to say that a tree lies in the text as it should. Globally: each leaf starts where the leaf before it ends,
or later. Locally: no node ends before it starts, and none starts before the sibling before it ends. The local way
compares derived offsets, which for empty nodes are borrowed from elsewhere in the tree.

The bridge is `emptyOffset`, the place where a node stands. It is the end of the last leaf before the node in the
document (`emptyOffset_eq_lastEnd`), so leaves that follow each other from there on are nodes that do
(`ordered_leaves_iff`).
-/

namespace SyntaxTree.Model

variable {m : Model} {n p c : NodeId} {before after : List NodeId}

/-! ## Lists of leaves -/

/-- The end of the last leaf of a list, or `offset` if there is none. -/
def lastEnd (m : Model) (offset : Nat) (leaves : List NodeId) : Nat :=
  leaves.getLast?.elim offset m.totalEnd

/-- Leaves that follow each other, the first of them not before `offset`. -/
def Ordered (m : Model) : Nat → List NodeId → Prop
  | _, [] => True
  | offset, leaf :: leaves => offset ≤ m.totalStart leaf ∧ m.Ordered (m.totalEnd leaf) leaves

theorem lastEnd_append (offset : Nat) (xs ys : List NodeId) :
    m.lastEnd offset (xs ++ ys) = m.lastEnd (m.lastEnd offset xs) ys := by
  rw [lastEnd, lastEnd, lastEnd, List.getLast?_append]
  cases ys.getLast? <;> rfl

theorem ordered_append {offset : Nat} {xs ys : List NodeId} :
    m.Ordered offset (xs ++ ys) ↔ m.Ordered offset xs ∧ m.Ordered (m.lastEnd offset xs) ys := by
  induction xs generalizing offset with
  | nil => exact ⟨fun h => ⟨trivial, h⟩, fun h => h.2⟩
  | cons x xs ih =>
    have hlast : m.lastEnd offset (x :: xs) = m.lastEnd (m.totalEnd x) xs := by
      rw [lastEnd, lastEnd, List.getLast?_cons]
      cases xs.getLast? <;> rfl
    rw [List.cons_append, Ordered, Ordered, ih, hlast, and_assoc]

/-- The leaves of several nodes follow each other if those of each node do, from the end of what was before. -/
theorem ordered_flatMap {offset : Nat} {ids : List NodeId} : m.Ordered offset (ids.flatMap m.leaves) ↔
    ∀ before c after, ids = before ++ c :: after →
      m.Ordered (m.lastEnd offset (before.flatMap m.leaves)) (m.leaves c) := by
  induction ids generalizing offset with
  | nil => exact ⟨fun _ before c after h => by simp at h, fun _ => trivial⟩
  | cons x ids ih =>
    rw [List.flatMap_cons, ordered_append, ih]
    constructor
    · intro h before c after hsplit
      cases before with
      | nil =>
        obtain ⟨rfl, rfl⟩ := List.cons.inj hsplit
        exact h.1
      | cons y before =>
        obtain ⟨rfl, hrest⟩ := List.cons.inj hsplit
        rw [List.flatMap_cons, lastEnd_append]
        exact h.2 before c after hrest
    · intro h
      refine ⟨h [] x ids rfl, fun before c after hsplit => ?_⟩
      have hc := h (x :: before) c after (by rw [hsplit, List.cons_append])
      rwa [List.flatMap_cons, lastEnd_append] at hc

/-! ## Where nodes stand -/

/-- Where the first child of a node stands. -/
def origin (m : Model) (p : NodeId) : Nat :=
  if m.isRoot p then 0 else m.emptyOffset p

/-- A child stands at the end of the last leaf before it, if the children before it end with their leaves. -/
theorem WellFormed.emptyOffset_eq_of_children (h : m.WellFormed)
    (hends : ∀ d ∈ m.children p, m.totalEnd d = m.lastEnd (m.emptyOffset d) (m.leaves d)) :
    ∀ (before after : List NodeId) (c : NodeId), m.children p = before ++ c :: after →
      m.emptyOffset c = m.lastEnd (m.origin p) (before.flatMap m.leaves) := by
  intro before
  induction before using List.reverseRecOn with
  | nil =>
    intro after c hsplit
    exact h.emptyOffset_eq hsplit
  | append_singleton before d ih =>
    intro after c hsplit
    have hd : m.children p = before ++ d :: c :: after := by simpa using hsplit
    rw [h.emptyOffset_eq hsplit, List.getLast?_concat, Option.elim_some, hends d (by rw [hd]; simp),
      ih (c :: after) d hd, List.flatMap_append, lastEnd_append, List.flatMap_singleton]

/-- A child is not the root. -/
theorem WellFormed.isRoot_of_mem (h : m.WellFormed) (hc : c ∈ m.children p) : m.isRoot c = false := by
  rw [Bool.eq_false_iff]
  exact fun hroot => h.ne_root (h.structured.forms.mem_iff.1 hc) (h.isRoot_iff.1 hroot)

theorem origin_of_not_root (hp : m.isRoot p = false) : m.origin p = m.emptyOffset p := by
  rw [origin, hp]
  rfl

/-- A node ends with its last leaf. If it has none, it ends where it stands. -/
theorem WellFormed.totalEnd_eq_lastEnd (h : m.WellFormed) (n : NodeId) : n < m.size → m.isRoot n = false →
    m.totalEnd n = m.lastEnd (m.emptyOffset n) (m.leaves n) := by
  induction n using descend h.structured.forms h.structured.grounded with
  | step n ih =>
  intro hn hroot
  have hends : ∀ d ∈ m.children n, m.totalEnd d = m.lastEnd (m.emptyOffset d) (m.leaves d) :=
    fun d hd => ih d hd (h.lt_size_of_mem hd) (h.isRoot_of_mem hd)
  rw [h.leaves_eq hn]
  cases hleaf : m.isLeaf n with
  | true => rfl
  | false =>
    rw [if_neg Bool.false_ne_true, h.totalEnd_eq hn hleaf hroot]
    rcases List.eq_nil_or_concat' (m.children n) with hkids | ⟨before, c, hkids⟩
    · rw [hkids]
      rfl
    · have hc : c ∈ m.children n := by rw [hkids]; simp
      rw [hkids, List.getLast?_concat, Option.elim_some, hends c hc,
        h.emptyOffset_eq_of_children hends before [] c hkids, origin_of_not_root hroot, List.flatMap_append,
        lastEnd_append, List.flatMap_singleton]

/-- A child stands at the end of the last leaf before it. -/
theorem WellFormed.emptyOffset_eq_lastEnd (h : m.WellFormed) (hsplit : m.children p = before ++ c :: after) :
    m.emptyOffset c = m.lastEnd (m.origin p) (before.flatMap m.leaves) :=
  h.emptyOffset_eq_of_children
    (fun d hd => h.totalEnd_eq_lastEnd d (h.lt_size_of_mem hd) (h.isRoot_of_mem hd)) before after c hsplit

/-! ## Local order -/

/-- A node that does not end before it starts, nor start before the sibling before it ends. -/
structure InOrder (m : Model) (c : NodeId) : Prop where
  not_reversed : m.totalStart c ≤ m.totalEnd c
  after_previous : ∀ {d}, m.previousSibling? c = some d → m.totalEnd d ≤ m.totalStart c

/-- All nodes below a node are in order. -/
def OrderedBelow (m : Model) (n : NodeId) : Prop :=
  ∀ x ∈ (m.children n).flatMap m.descendants, m.InOrder x

/-- The tree of a node lies in the text as it should, from where it stands. -/
structure Fits (m : Model) (c : NodeId) : Prop where
  below : m.OrderedBelow c
  starts : m.emptyOffset c ≤ m.totalStart c
  not_reversed : m.totalStart c ≤ m.totalEnd c

theorem WellFormed.orderedBelow_iff (h : m.WellFormed) :
    m.OrderedBelow n ↔ ∀ c ∈ m.children n, m.InOrder c ∧ m.OrderedBelow c := by
  constructor
  · intro hbelow c hc
    have hdown : ∀ x ∈ c :: (m.children c).flatMap m.descendants, m.InOrder x := by
      intro x hx
      rw [← h.descendants_eq (h.lt_size_of_mem hc)] at hx
      exact hbelow x (List.mem_flatMap.2 ⟨c, hc, hx⟩)
    exact ⟨hdown c (List.mem_cons_self ..), fun x hx => hdown x (List.mem_cons_of_mem _ hx)⟩
  · intro hchildren x hx
    obtain ⟨c, hc, hx⟩ := List.mem_flatMap.1 hx
    rw [h.descendants_eq (h.lt_size_of_mem hc)] at hx
    rcases List.mem_cons.1 hx with rfl | hx
    · exact (hchildren x hc).1
    · exact (hchildren c hc).2 x hx

/-- For the first child there is nothing to compare with. Any other one stands where the sibling before it ends. -/
theorem WellFormed.inOrder_iff (h : m.WellFormed) (hsplit : m.children p = before ++ c :: after) :
    m.InOrder c ↔ m.totalStart c ≤ m.totalEnd c ∧ (before ≠ [] → m.emptyOffset c ≤ m.totalStart c) := by
  have hprevious := previousSibling?_eq h.structured.forms hsplit
  have hstands := h.emptyOffset_eq hsplit
  rcases List.eq_nil_or_concat' before with rfl | ⟨before, d, rfl⟩
  · refine ⟨fun hc => ⟨hc.not_reversed, fun hne => absurd rfl hne⟩, fun hc => ⟨hc.1, fun {d} hd => ?_⟩⟩
    rw [hprevious] at hd
    cases hd
  · rw [List.getLast?_concat] at hprevious hstands
    rw [hstands]
    refine ⟨fun hc => ⟨hc.not_reversed, fun _ => hc.after_previous hprevious⟩, fun hc => ⟨hc.1, fun {e} he => ?_⟩⟩
    rw [hprevious] at he
    obtain rfl := Option.some.inj he
    exact hc.2 (by simp)

/-- The nodes below a node are in order if its children fit. The converse asks where the first child starts. -/
theorem WellFormed.orderedBelow_iff_fits (h : m.WellFormed) :
    (m.OrderedBelow p ∧ ∀ c, (m.children p).head? = some c → m.emptyOffset c ≤ m.totalStart c) ↔
      ∀ c ∈ m.children p, m.Fits c := by
  rw [h.orderedBelow_iff]
  constructor
  · intro hp c hc
    obtain ⟨hchildren, hfirst⟩ := hp
    obtain ⟨before, after, hsplit⟩ := List.append_of_mem hc
    obtain ⟨hinOrder, hbelow⟩ := hchildren c hc
    obtain ⟨hrev, hstarts⟩ := (h.inOrder_iff hsplit).1 hinOrder
    refine ⟨hbelow, ?_, hrev⟩
    by_cases hnil : before = []
    · refine hfirst c ?_
      rw [hsplit, hnil]
      rfl
    · exact hstarts hnil
  · intro hfits
    refine ⟨fun c hc => ?_, fun c hc => (hfits c (List.mem_of_mem_head? hc)).starts⟩
    obtain ⟨before, after, hsplit⟩ := List.append_of_mem hc
    exact ⟨(h.inOrder_iff hsplit).2 ⟨(hfits c hc).not_reversed, fun _ => (hfits c hc).starts⟩, (hfits c hc).below⟩

/-! ## The two orders are one -/

/-- The leaves below a node follow each other from where its first child stands exactly if all children fit, given
that the leaves of each child follow each other exactly if it fits. -/
theorem WellFormed.ordered_children_iff (h : m.WellFormed)
    (hchildren : ∀ c ∈ m.children p, m.Ordered (m.emptyOffset c) (m.leaves c) ↔ m.Fits c) :
    m.Ordered (m.origin p) ((m.children p).flatMap m.leaves) ↔ ∀ c ∈ m.children p, m.Fits c := by
  rw [ordered_flatMap]
  constructor
  · intro hordered c hc
    obtain ⟨before, after, hsplit⟩ := List.append_of_mem hc
    rw [← hchildren c hc, h.emptyOffset_eq_lastEnd hsplit]
    exact hordered before c after hsplit
  · intro hfits before c after hsplit
    have hc : c ∈ m.children p := h.structured.forms.mem_of_split hsplit
    rw [← h.emptyOffset_eq_lastEnd hsplit, hchildren c hc]
    exact hfits c hc

/-- Children that fit lead from the start of the first one to the end of each. -/
theorem WellFormed.totalStart_le_of_fits (h : m.WellFormed) {first : NodeId}
    (hfirst : (m.children p).head? = some first) (hfits : ∀ c ∈ m.children p, m.Fits c) :
    ∀ (before after : List NodeId) (c : NodeId), m.children p = before ++ c :: after →
      m.totalStart first ≤ m.totalEnd c := by
  intro before
  induction before using List.reverseRecOn with
  | nil =>
    intro after c hsplit
    rw [hsplit] at hfirst
    obtain rfl := Option.some.inj hfirst
    exact (hfits c (h.structured.forms.mem_of_split hsplit)).not_reversed
  | append_singleton before d ih =>
    intro after c hsplit
    have hd : m.children p = before ++ d :: c :: after := by simpa using hsplit
    have hc := hfits c (h.structured.forms.mem_of_split hsplit)
    have hstands := h.emptyOffset_eq hsplit
    rw [List.getLast?_concat, Option.elim_some] at hstands
    calc m.totalStart first ≤ m.totalEnd d := ih (c :: after) d hd
      _ = m.emptyOffset c := hstands.symm
      _ ≤ m.totalStart c := hc.starts
      _ ≤ m.totalEnd c := hc.not_reversed

/-- A composite other than the root fits exactly if its children do. -/
theorem WellFormed.fits_iff (h : m.WellFormed) (hn : n < m.size) (hleaf : m.isLeaf n = false)
    (hroot : m.isRoot n = false) : m.Fits n ↔ ∀ c ∈ m.children n, m.Fits c := by
  have hstart := h.totalStart_eq hn hleaf hroot
  have hend := h.totalEnd_eq hn hleaf hroot
  -- the first child stands where its parent does
  have hfirst : ∀ c, (m.children n).head? = some c → m.emptyOffset c = m.emptyOffset n := by
    intro c hc
    obtain ⟨after, hkids⟩ := List.head?_eq_some_iff.1 hc
    have hstands := h.emptyOffset_eq (show m.children n = [] ++ c :: after from hkids)
    rw [hroot] at hstands
    exact hstands
  rw [← h.orderedBelow_iff_fits]
  constructor
  · intro hfits
    refine ⟨hfits.below, fun c hc => ?_⟩
    rw [hc, Option.elim_some] at hstart
    rw [hfirst c hc, ← hstart]
    exact hfits.starts
  · intro hordered
    have hfits := h.orderedBelow_iff_fits.1 hordered
    cases hkids : (m.children n).head? with
    | none =>
      rw [List.head?_eq_none_iff] at hkids
      rw [hkids] at hstart hend
      refine ⟨hordered.1, Nat.le_of_eq hstart.symm, ?_⟩
      rw [hstart, hend]
      exact Nat.le_refl _
    | some c =>
      rw [hkids, Option.elim_some] at hstart
      refine ⟨hordered.1, ?_, ?_⟩
      · rw [hstart, ← hfirst c hkids]
        exact hordered.2 c hkids
      · obtain ⟨before, last, hlast⟩ : ∃ before last, m.children n = before ++ [last] := by
          rcases List.eq_nil_or_concat' (m.children n) with hnil | hsplit
          · rw [hnil] at hkids
            cases hkids
          · exact hsplit
        rw [hlast, List.getLast?_concat, Option.elim_some] at hend
        rw [hstart, hend]
        exact h.totalStart_le_of_fits hkids hfits before [] last hlast

/-- The leaves of a node follow each other, from where it stands, exactly if its tree fits. -/
theorem WellFormed.ordered_leaves_iff (h : m.WellFormed) (n : NodeId) : n < m.size → m.isRoot n = false →
    (m.Ordered (m.emptyOffset n) (m.leaves n) ↔ m.Fits n) := by
  induction n using descend h.structured.forms h.structured.grounded with
  | step n ih =>
  intro hn hroot
  rw [h.leaves_eq hn]
  cases hleaf : m.isLeaf n with
  | true =>
    obtain ⟨range, hrange⟩ := exists_leafRange? hleaf
    have hkids := h.children_of_isLeaf hleaf
    refine ⟨fun hordered => ⟨?_, hordered.1, ?_⟩, fun hfits => ⟨hfits.starts, trivial⟩⟩
    · intro x hx
      rw [hkids] at hx
      cases hx
    · rw [totalStart_of_leafRange? hrange, totalEnd_of_leafRange? hrange]
      exact range.start_le_stop
  | false =>
    rw [if_neg Bool.false_ne_true, ← origin_of_not_root hroot, h.fits_iff hn hleaf hroot]
    exact h.ordered_children_iff fun c hc => ih c hc (h.lt_size_of_mem hc) (h.isRoot_of_mem hc)

/-- One leaf ends before the other starts. -/
def Follows (m : Model) (a b : NodeId) : Prop :=
  ∀ {r s : TextRange}, m.leafRange? a = some r → m.leafRange? b = some s → r.stop ≤ s.start

/-- Every leaf of the tree starts at or after the end of the leaf before it. -/
def LeavesInSequence (m : Model) : Prop :=
  (m.leaves rootId).IsChain m.Follows

theorem follows_iff {a b : NodeId} (ha : m.isLeaf a = true) (hb : m.isLeaf b = true) :
    m.Follows a b ↔ m.totalEnd a ≤ m.totalStart b := by
  obtain ⟨r, hr⟩ := exists_leafRange? ha
  obtain ⟨s, hs⟩ := exists_leafRange? hb
  rw [totalEnd_of_leafRange? hr, totalStart_of_leafRange? hs]
  constructor
  · intro h
    exact h hr hs
  · intro h r' s' hr' hs'
    rw [← Option.some.inj (hr.symm.trans hr'), ← Option.some.inj (hs.symm.trans hs')]
    exact h

theorem ordered_iff_isChain {leaves : List NodeId} (hleaves : ∀ x ∈ leaves, m.isLeaf x = true) {offset : Nat} :
    m.Ordered offset leaves ↔ (∀ first ∈ leaves.head?, offset ≤ m.totalStart first) ∧ leaves.IsChain m.Follows := by
  induction leaves generalizing offset with
  | nil => simp [Ordered]
  | cons a leaves ih =>
    rw [Ordered, ih fun x hx => hleaves x (List.mem_cons_of_mem _ hx), List.isChain_cons]
    refine and_congr (by simp) (and_congr_left fun _ => forall₂_congr fun b hb => ?_)
    exact (follows_iff (hleaves a (List.mem_cons_self ..))
      (hleaves b (List.mem_cons_of_mem _ (List.mem_of_mem_head? hb)))).symm

theorem WellFormed.isLeaf_root (h : m.WellFormed) : m.isLeaf rootId = false := by
  obtain ⟨slot, hbare⟩ := h.labelled.root
  rw [isLeaf_eq_bare?, hbare]
  rfl

/-- All nodes below the root are in order exactly if all leaves are. -/
theorem WellFormed.orderedBelow_root_iff (h : m.WellFormed) : m.OrderedBelow rootId ↔ m.LeavesInSequence := by
  have hroot : m.isRoot rootId = true := h.isRoot_iff.2 rfl
  have horigin : m.origin rootId = 0 := by rw [origin, hroot]; rfl
  have hkids := h.leaves_eq h.labelled.size_pos
  rw [h.isLeaf_root, if_neg Bool.false_ne_true] at hkids
  have hordered := h.ordered_children_iff fun c (hc : c ∈ m.children rootId) =>
    h.ordered_leaves_iff c (h.lt_size_of_mem hc) (h.isRoot_of_mem hc)
  have hleaves : ∀ x ∈ m.leaves rootId, m.isLeaf x = true := fun x hx => (List.mem_filter.1 hx).2
  rw [← hkids, horigin, ordered_iff_isChain hleaves, ← h.orderedBelow_iff_fits] at hordered
  -- nothing starts before the text
  have hfirst : ∀ c, (m.children rootId).head? = some c → m.emptyOffset c ≤ m.totalStart c := by
    intro c hc
    obtain ⟨after, hsplit⟩ := List.head?_eq_some_iff.1 hc
    have hstands := h.emptyOffset_eq (show m.children rootId = [] ++ c :: after from hsplit)
    rw [hroot] at hstands
    rw [show m.emptyOffset c = 0 from hstands]
    exact Nat.zero_le _
  constructor
  · intro hbelow
    exact (hordered.2 ⟨hbelow, hfirst⟩).2
  · intro hsequence
    exact (hordered.1 ⟨fun _ _ => Nat.zero_le _, hsequence⟩).1

end SyntaxTree.Model
