import SyntaxTree.Proofs.Replacing
import SyntaxTree.Proofs.Siblings

/-!
# Going up and going down

`Climbs up n chain` says that the way up from `n` meets the nodes of `chain`, in this order, and ends there, and
`Grounded up` that every way up ends. A grounded store has no cycles: a chain never repeats a node
(`Climbs.nodup`), so it is no longer than the store is large, and `ancestors` gives all of it
(`climbs_ancestors`). Going down ends as well, which `descend` turns into an induction principle: what holds
of a node whenever it holds of its children holds of every node.

The three lemmas `Grounded.linked`, `Grounded.renamed` and `Grounded.wrapped` say which changes of parents keep
a store grounded.
-/

namespace SyntaxTree

open Function (update update_self update_of_ne)
open Links (rename rename_self rename_of_ne)

/-- The way up from `x` meets the things of a list and ends there. What is followed may be parents of nodes, or any
other way of going on. -/
def Climbs {α : Type} (up : α → Option α) : α → List α → Prop
  | x, [] => up x = none
  | x, y :: chain => up x = some y ∧ Climbs up y chain

/-- Every way up ends. -/
def Grounded {α : Type} (up : α → Option α) : Prop :=
  ∀ x, ∃ chain, Climbs up x chain

/-! ## Chains -/

section Chains

variable {α : Type} {up : α → Option α}

/-- There is only one way up. -/
theorem Climbs.unique : ∀ {chain chain' : List α} {x : α}, Climbs up x chain →
    Climbs up x chain' → chain = chain'
  | [], [], _, _, _ => rfl
  | [], _ :: _, _, h, h' => by
    rw [Climbs] at h
    rw [Climbs, h] at h'
    cases h'.1
  | _ :: _, [], _, h, h' => by
    rw [Climbs] at h'
    rw [Climbs, h'] at h
    cases h.1
  | y :: chain, z :: chain', _, h, h' => by
    obtain ⟨hy, h⟩ := h
    obtain ⟨hz, h'⟩ := h'
    rw [hy] at hz
    obtain rfl := Option.some.inj hz
    rw [h.unique h']

/-- The way up from a member of the chain is the rest of the chain. -/
theorem Climbs.above {above : List α} {a : α} : ∀ (below : List α) {x : α},
    Climbs up x (below ++ a :: above) → Climbs up a above
  | [], _, h => h.2
  | _ :: below, _, h => Climbs.above below h.2

/-- Nothing is above itself. -/
theorem Climbs.not_mem {x : α} {chain : List α} (h : Climbs up x chain) : x ∉ chain := by
  intro hmem
  obtain ⟨below, above, rfl⟩ := List.append_of_mem hmem
  -- the way up from `x` would be a proper part of itself
  have hlength := congrArg List.length ((h.above below).unique h)
  simp only [List.length_append, List.length_cons] at hlength
  omega

/-- Nothing is met twice. -/
theorem Climbs.nodup : ∀ {chain : List α} {x : α}, Climbs up x chain → (x :: chain).Nodup
  | [], x, _ => List.nodup_singleton x
  | _ :: _, _, h => List.nodup_cons.2 ⟨h.not_mem, h.2.nodup⟩

/-- All but the first are above something. -/
theorem Climbs.exists_below : ∀ {chain : List α} {x a : α}, Climbs up x chain → a ∈ chain →
    ∃ y, up y = some a
  | _ :: _, x, a, h, ha => by
    rcases List.mem_cons.1 ha with rfl | ha
    · exact ⟨x, h.1⟩
    · exact h.2.exists_below ha

/-- Of two members of a chain one is above the other. -/
theorem Climbs.comparable {a b : α} : ∀ {chain : List α} {x : α}, Climbs up x chain → a ∈ x :: chain →
    b ∈ x :: chain → a = b ∨ (∃ above, Climbs up a above ∧ b ∈ above) ∨ ∃ above, Climbs up b above ∧ a ∈ above := by
  intro chain
  induction chain with
  | nil =>
    intro x _ ha hb
    exact Or.inl ((List.mem_singleton.1 ha).trans (List.mem_singleton.1 hb).symm)
  | cons y chain ih =>
    intro x h ha hb
    rcases List.mem_cons.1 ha with rfl | ha'
    · rcases List.mem_cons.1 hb with rfl | hb'
      · exact Or.inl rfl
      · exact Or.inr (Or.inl ⟨y :: chain, h, hb'⟩)
    · rcases List.mem_cons.1 hb with rfl | hb'
      · exact Or.inr (Or.inr ⟨y :: chain, h, ha'⟩)
      · exact ih h.2 ha' hb'

/-- The way up ends where nothing is above. -/
theorem Climbs.exists_top : ∀ {chain : List α} {x : α}, Climbs up x chain →
    ∃ top, (x :: chain).getLast? = some top ∧ up top = none
  | [], x, h => ⟨x, rfl, h⟩
  | y :: chain, x, h => by
    obtain ⟨top, hlast, htop⟩ := h.2.exists_top
    exact ⟨top, by rw [List.getLast?_cons_cons]; exact hlast, htop⟩

/-- A search that goes one step up at a time gives the same answer with any number of steps that is larger than the
chain is long. -/
theorem Climbs.search_eq {β : Type} {search : Nat → α → β} {stop : α → β}
    (hsearch : ∀ steps x, search (steps + 1) x = (up x).elim (stop x) (search steps)) :
    ∀ {chain : List α} {x : α} {steps steps' : Nat}, Climbs up x chain → chain.length < steps →
      chain.length < steps' → search steps x = search steps' x := by
  intro chain
  induction chain with
  | nil =>
    intro x steps steps' h hsteps hsteps'
    obtain ⟨k, rfl⟩ := Nat.exists_eq_succ_of_ne_zero (Nat.ne_of_gt hsteps)
    obtain ⟨k', rfl⟩ := Nat.exists_eq_succ_of_ne_zero (Nat.ne_of_gt hsteps')
    rw [Climbs] at h
    rw [Nat.succ_eq_add_one, Nat.succ_eq_add_one, hsearch, hsearch, h, Option.elim_none, Option.elim_none]
  | cons y chain ih =>
    intro x steps steps' h hsteps hsteps'
    obtain ⟨k, rfl⟩ := Nat.exists_eq_succ_of_ne_zero (Nat.ne_of_gt (Nat.zero_lt_of_lt hsteps))
    obtain ⟨k', rfl⟩ := Nat.exists_eq_succ_of_ne_zero (Nat.ne_of_gt (Nat.zero_lt_of_lt hsteps'))
    rw [Nat.succ_eq_add_one, Nat.succ_eq_add_one, hsearch, hsearch, h.1, Option.elim_some, Option.elim_some]
    exact ih h.2 (Nat.lt_of_succ_lt_succ hsteps) (Nat.lt_of_succ_lt_succ hsteps')

/-- With enough steps, what such a search finds from `x` is what it finds one step further up. -/
theorem Climbs.search_up {β : Type} {search : Nat → α → β} {stop : α → β}
    (hsearch : ∀ steps x, search (steps + 1) x = (up x).elim (stop x) (search steps)) {chain : List α} {x : α}
    {steps : Nat} (h : Climbs up x chain) (hsteps : chain.length < steps) :
    search steps x = (up x).elim (stop x) (search steps) := by
  obtain ⟨k, rfl⟩ := Nat.exists_eq_succ_of_ne_zero (Nat.ne_of_gt (Nat.zero_lt_of_lt hsteps))
  rw [Nat.succ_eq_add_one, hsearch]
  cases chain with
  | nil =>
    rw [Climbs] at h
    rw [h, Option.elim_none, Option.elim_none]
  | cons y chain =>
    rw [h.1, Option.elim_some, Option.elim_some]
    exact h.2.search_eq hsearch (Nat.lt_of_succ_lt_succ hsteps) (Nat.lt_of_succ_lt hsteps)

/-- What passes up from one to the next holds of all that is met. -/
theorem Climbs.forall_mem {known : α → Prop} (hup : ∀ {y z}, known y → up y = some z → known z) :
    ∀ {chain : List α} {x : α}, Climbs up x chain → known x → ∀ y ∈ x :: chain, known y
  | [], _, _, hx => List.forall_mem_singleton.2 hx
  | _ :: _, _, h, hx => List.forall_mem_cons.2 ⟨hx, h.2.forall_mem hup (hup hx h.1)⟩

/-- A search that goes one step up at a time from `x` meets only what is `known`, comes to its last step by itself, and
has the same answer with any more steps. -/
def Concludes {β : Type} (up : α → Option α) (known : α → Prop) (search : Nat → α → β) (x : α) (answer : β) : Prop :=
  ∃ trail, Climbs up x trail ∧ (∀ y ∈ x :: trail, known y) ∧ ∀ steps, trail.length < steps → search steps x = answer

/-- The answer of a search is what it finds in more steps than the way up is long. -/
theorem Climbs.concludes {β : Type} {search : Nat → α → β} {stop : α → β} {known : α → Prop}
    (hsearch : ∀ steps x, search (steps + 1) x = (up x).elim (stop x) (search steps)) {chain : List α} {x : α}
    {steps : Nat} (h : Climbs up x chain) (hsteps : chain.length < steps)
    (hup : ∀ {y z}, known y → up y = some z → known z) (hx : known x) : Concludes up known search x (search steps x) :=
  ⟨chain, h, h.forall_mem hup hx, fun _ hmore => h.search_eq hsearch hmore hsteps⟩

end Chains

variable {up up' : NodeId → Option NodeId} {n p c : NodeId} {chain : List NodeId}

/-! ## Changes that keep a store grounded -/

/-- A node may be put under any node that is not below it. -/
theorem Grounded.linked (h : Grounded up) (hclimb : Climbs up p chain)
    (hcp : c ≠ p) (hcc : c ∉ chain) : Grounded (update up c (some p)) := by
  -- the way up from the new parent does not pass through `c`, so it is what it was
  have hkeep : ∀ (chain : List NodeId) (n : NodeId), c ≠ n → c ∉ chain → Climbs up n chain →
      Climbs (update up c (some p)) n chain := by
    intro chain
    induction chain with
    | nil =>
      intro n hn _ hup
      rw [Climbs, update_of_ne hn.symm]
      exact hup
    | cons q chain ih =>
      intro n hn hnot hup
      rw [Climbs, update_of_ne hn.symm]
      obtain ⟨hq, hnot⟩ := List.ne_and_not_mem_of_not_mem_cons hnot
      exact ⟨hup.1, ih q hq hnot hup.2⟩
  have hnew : Climbs (update up c (some p)) p chain := hkeep chain p hcp hcc hclimb
  intro n
  obtain ⟨way, hway⟩ := h n
  induction way generalizing n with
  | nil =>
    by_cases hn : n = c
    · exact ⟨p :: chain, by rw [hn, update_self], hnew⟩
    · exact ⟨[], by rw [Climbs, update_of_ne hn]; exact hway⟩
  | cons q way ih =>
    by_cases hn : n = c
    · exact ⟨p :: chain, by rw [hn, update_self], hnew⟩
    · obtain ⟨way', hway'⟩ := ih q hway.2
      exact ⟨q :: way', by rw [update_of_ne hn]; exact hway.1, hway'⟩

/-- Renaming a node to a fresh one keeps all ways up, up to the name. -/
theorem Grounded.renamed (h : Grounded up) {old new : NodeId} (hne : old ≠ new)
    (hfresh : ∀ x, up x ≠ some new)
    (hup : ∀ x, x ≠ new → up' (rename old new x) = (up x).map (rename old new))
    (hold : up' old = none) : Grounded up' := by
  -- the old way up from a node is the new one, renamed; only `new` itself had none
  have hkeep : ∀ (chain : List NodeId) (n : NodeId), n ≠ new → Climbs up n chain →
      Climbs up' (rename old new n) (chain.map (rename old new)) := by
    intro chain
    induction chain with
    | nil =>
      intro n hn hclimb
      rw [Climbs] at hclimb
      rw [List.map_nil, Climbs, hup n hn, hclimb]
      rfl
    | cons q chain ih =>
      intro n hn hclimb
      obtain ⟨hq, hclimb⟩ := hclimb
      refine ⟨by rw [hup n hn, hq]; rfl, ih q ?_ hclimb⟩
      exact fun e => hfresh n (e ▸ hq)
  intro n
  by_cases hno : n = old
  · exact ⟨[], hno ▸ hold⟩
  by_cases hnn : n = new
  · obtain ⟨chain, hchain⟩ := h old
    have := hkeep chain old hne hchain
    rw [rename_self, ← hnn] at this
    exact ⟨_, this⟩
  · obtain ⟨chain, hchain⟩ := h n
    have := hkeep chain n hnn hchain
    rw [rename_of_ne hno] at this
    exact ⟨_, this⟩

/-- A fresh node may be put between a node and its parent. -/
theorem Grounded.wrapped (h : Grounded up) {wrapper : NodeId} (hne : n ≠ wrapper)
    (hn : up n = some p) (hfresh : ∀ x, up x ≠ some wrapper)
    (hup : up' = update (update up wrapper (some p)) n (some wrapper)) : Grounded up' := by
  -- nobody was below the wrapper, so every other way up is what it was, or passes `n` and gets longer by one
  have hkeep : ∀ (chain : List NodeId) (x : NodeId), x ≠ wrapper → Climbs up x chain →
      ∃ chain', Climbs up' x chain' := by
    intro chain
    induction chain with
    | nil =>
      intro x hx hclimb
      rw [Climbs] at hclimb
      have hxn : x ≠ n := by
        rintro rfl
        rw [hn] at hclimb
        cases hclimb
      exact ⟨[], by rw [Climbs, hup, update_of_ne hxn, update_of_ne hx]; exact hclimb⟩
    | cons q chain ih =>
      intro x hx hclimb
      obtain ⟨hq, hclimb⟩ := hclimb
      obtain ⟨chain', hchain'⟩ := ih q (fun e => hfresh x (e ▸ hq)) hclimb
      by_cases hxn : x = n
      · -- one step more: over the new node
        subst hxn
        rw [hn] at hq
        obtain rfl := Option.some.inj hq
        refine ⟨wrapper :: p :: chain', by rw [hup, update_self], ?_, hchain'⟩
        rw [hup, update_of_ne hx.symm, update_self]
      · exact ⟨q :: chain', by rw [hup, update_of_ne hxn, update_of_ne hx]; exact hq, hchain'⟩
  intro x
  by_cases hx : x = wrapper
  · obtain ⟨chain, hchain⟩ := h p
    obtain ⟨chain', hchain'⟩ := hkeep chain p (fun e => hfresh n (e ▸ hn)) hchain
    exact ⟨p :: chain', by rw [hup, hx, update_of_ne hne.symm, update_self], hchain'⟩
  · obtain ⟨chain, hchain⟩ := h x
    exact hkeep chain x hx hchain

/-! ## Ancestors -/

namespace Model

variable {m : Model} {kids : NodeId → List NodeId}

/-- A parent is a node of the store. -/
theorem lt_size_of_parent (h : m.links.Forms kids) (hn : m.parent? n = some p) : p < m.size :=
  (isLeaf_of_mem h (h.listed hn)).2

/-- With enough steps the search for ancestors finds the whole chain. -/
theorem ancestorsWithin_eq : ∀ {chain : List NodeId} {n : NodeId} {steps : Nat},
    Climbs m.parent? n chain → chain.length ≤ steps → m.ancestorsWithin steps n = chain
  | [], n, 0, _, _ => rfl
  | [], n, steps + 1, h, _ => by
    rw [Climbs] at h
    rw [ancestorsWithin, h]
  | p :: chain, n, 0, _, hsteps => by simp at hsteps
  | p :: chain, n, steps + 1, h, hsteps => by
    rw [ancestorsWithin, h.1]
    simp only
    rw [ancestorsWithin_eq h.2 (Nat.le_of_succ_le_succ hsteps)]

/-- A chain is no longer than the store is large: it repeats no node. -/
theorem length_le_of_climbs (h : m.links.Forms kids) (hclimb : Climbs m.parent? n chain) :
    chain.length ≤ m.size := by
  refine length_le_size (List.nodup_cons.1 hclimb.nodup).2 fun a ha => ?_
  obtain ⟨x, hx⟩ := hclimb.exists_below ha
  exact lt_size_of_parent h hx

/-- The ancestors are all nodes on the way up. -/
theorem climbs_ancestors (h : m.links.Forms kids) (hg : Grounded m.parent?) (n : NodeId) :
    Climbs m.parent? n (m.ancestors n) := by
  obtain ⟨chain, hchain⟩ := hg n
  rw [ancestors, ancestorsWithin_eq hchain (length_le_of_climbs h hchain)]
  exact hchain

/-- The ancestors of a child are its parent and the parent's ancestors. -/
theorem ancestors_of_parent? (h : m.links.Forms kids) (hg : Grounded m.parent?)
    (hn : m.parent? n = some p) : m.ancestors n = p :: m.ancestors p :=
  (climbs_ancestors h hg n).unique ⟨hn, climbs_ancestors h hg p⟩

/-- A parent is an ancestor. -/
theorem mem_ancestors_of_parent? (h : m.links.Forms kids) (hg : Grounded m.parent?)
    (hn : m.parent? n = some p) : p ∈ m.ancestors n := by
  rw [ancestors_of_parent? h hg hn]
  exact List.mem_cons_self ..

/-- Ancestors of ancestors are ancestors. -/
theorem mem_ancestors_trans (h : m.links.Forms kids) (hg : Grounded m.parent?) {a : NodeId}
    (ha : a ∈ m.ancestors p) (hp : p ∈ m.ancestors n) : a ∈ m.ancestors n := by
  obtain ⟨below, above, hsplit⟩ := List.append_of_mem hp
  have hclimb := climbs_ancestors h hg n
  rw [hsplit] at hclimb ⊢
  rw [(climbs_ancestors h hg p).unique (hclimb.above below)] at ha
  simp [ha]

/-- A node is not its own child. -/
theorem not_mem_kids_self (h : m.links.Forms kids) (hg : Grounded m.parent?) (n : NodeId) :
    n ∉ kids n := by
  intro hmem
  exact (climbs_ancestors h hg n).not_mem (mem_ancestors_of_parent? h hg (h.mem_iff.1 hmem))

/-- No child of a node is above another. -/
theorem not_mem_ancestors_sibling (h : m.links.Forms kids) (hg : Grounded m.parent?) {d : NodeId}
    (hc : m.parent? c = some p) (hd : m.parent? d = some p) : d ∉ m.ancestors c := by
  intro hmem
  rw [ancestors_of_parent? h hg hc] at hmem
  rcases List.mem_cons.1 hmem with rfl | hmem
  · exact not_mem_kids_self h hg d (h.listed hd)
  · -- the parent would be above itself
    exact (climbs_ancestors h hg p).not_mem (mem_ancestors_trans h hg (mem_ancestors_of_parent? h hg hd) hmem)

/-- No node is below two children of one node. -/
theorem eq_of_mem_ancestors (h : m.links.Forms kids) (hg : Grounded m.parent?) {d x : NodeId}
    (hc : m.parent? c = some p) (hd : m.parent? d = some p) (hxc : c ∈ x :: m.ancestors x)
    (hxd : d ∈ x :: m.ancestors x) : c = d := by
  rcases (climbs_ancestors h hg x).comparable hxc hxd with he | ⟨above, hclimb, hmem⟩ | ⟨above, hclimb, hmem⟩
  · exact he
  · rw [hclimb.unique (climbs_ancestors h hg c)] at hmem
    exact absurd hmem (not_mem_ancestors_sibling h hg hc hd)
  · rw [hclimb.unique (climbs_ancestors h hg d)] at hmem
    exact absurd hmem (not_mem_ancestors_sibling h hg hd hc)

/-- A node of the store has fewer ancestors than the store has nodes. -/
theorem length_ancestors_lt (h : m.links.Forms kids) (hg : Grounded m.parent?) (hn : n < m.size) :
    (m.ancestors n).length < m.size := by
  have hclimb := climbs_ancestors h hg n
  exact length_le_size hclimb.nodup (hclimb.forall_mem (fun _ hup => lt_size_of_parent h hup) hn)

/-- Induction down the tree. A child has one ancestor more than its parent, and no node has as many as there are
nodes, so going down ends. -/
theorem descend (h : m.links.Forms kids) (hg : Grounded m.parent?) {motive : NodeId → Prop}
    (step : ∀ n, (∀ c ∈ kids n, motive c) → motive n) (n : NodeId) : motive n := by
  have hbound : ∀ (k : Nat) (n : NodeId), m.size - (m.ancestors n).length ≤ k → motive n := by
    intro k
    induction k with
    | zero =>
      intro n hk
      refine step n fun c hc => ?_
      -- a node with so many ancestors has no child
      have hcn := h.mem_iff.1 hc
      have hlength := length_ancestors_lt h hg (lt_size_of_parent? hcn)
      rw [ancestors_of_parent? h hg hcn, List.length_cons] at hlength
      omega
    | succ k ih =>
      intro n hk
      refine step n fun c hc => ih c ?_
      rw [ancestors_of_parent? h hg (h.mem_iff.1 hc), List.length_cons]
      omega
  exact hbound _ n (Nat.le_refl _)

end Model

end SyntaxTree
