import Mathlib.Data.List.Chain
import Mathlib.Data.List.Nodup
import Mathlib.Logic.Function.Basic
import SyntaxTree.NodeKind

/-!
# Sibling rings and child lists

The links of a store say where each node points: up to its parent, sideways to its two neighbours,
down to its first child. This file is the theory of such links on their own, without the nodes that
carry them. `Links.Forms kids` says that the links form the child lists `kids`: each list is one closed
ring, every node of it knows its parent, and a node that is in no list has no links at all.

Neighbours are described by a split of the list. In `before ++ c :: after` the ring goes on from `c`
with `after` and then `before`, so the next neighbour of `c` is the head of `after ++ before ++ [c]` and
its previous neighbour is the last of `c :: after ++ before`. First, last, middle and only children need
no separate treatment.

The results are the three ways in which a ring changes:

- `Forms.append_only` and `Forms.append_last`: a node is added at the end of a list;
- `Forms.renamed`: a node takes over the place of another;
- `Forms.adopted`: a whole list gets another parent.
-/

namespace SyntaxTree

open Function (update update_self update_of_ne)

/-- Where the links of each node point. -/
@[ext]
structure Links where
  parent : NodeId → Option NodeId
  next : NodeId → Option NodeId
  previous : NodeId → Option NodeId
  firstChild : NodeId → Option NodeId

namespace Links

/-! ## Changes of links -/

/-- A node is put under a parent, between two neighbours. -/
def place (l : Links) (id parent previous next : NodeId) : Links :=
  { l with
    parent := update l.parent id (some parent)
    next := update l.next id (some next)
    previous := update l.previous id (some previous) }

/-- A node loses its parent and its neighbours. -/
def detach (l : Links) (id : NodeId) : Links :=
  { l with
    parent := update l.parent id none
    next := update l.next id none
    previous := update l.previous id none }

def setParent (l : Links) (id parent : NodeId) : Links :=
  { l with parent := update l.parent id (some parent) }

def setNext (l : Links) (id next : NodeId) : Links :=
  { l with next := update l.next id (some next) }

def setPrevious (l : Links) (id previous : NodeId) : Links :=
  { l with previous := update l.previous id (some previous) }

def setFirstChild (l : Links) (id : NodeId) (child : Option NodeId) : Links :=
  { l with firstChild := update l.firstChild id child }

/-! ## Links that form child lists -/

/-- The links form the child lists `kids`. -/
structure Forms (l : Links) (kids : NodeId → List NodeId) : Prop where
  /-- A node knows the head of its list. -/
  firstChild : ∀ p, l.firstChild p = (kids p).head?
  /-- No node is in a list twice. -/
  nodup : ∀ p, (kids p).Nodup
  /-- A node is in the list of its parent. -/
  listed : ∀ {p c}, l.parent c = some p → c ∈ kids p
  /-- The nodes of a list know their parent and their neighbours in the ring. -/
  ring : ∀ {p before c after}, kids p = before ++ c :: after →
    l.parent c = some p ∧ l.next c = (after ++ before ++ [c]).head? ∧
      l.previous c = (c :: after ++ before).getLast?
  /-- A node without a parent has no neighbours. -/
  unlinked : ∀ {c}, l.parent c = none → l.next c = none ∧ l.previous c = none

variable {l l' : Links} {kids : NodeId → List NodeId} {p c : NodeId}

/-- Lists and parents say the same. -/
theorem Forms.mem_iff (h : l.Forms kids) : c ∈ kids p ↔ l.parent c = some p := by
  refine ⟨fun hc => ?_, h.listed⟩
  obtain ⟨before, after, hsplit⟩ := List.append_of_mem hc
  exact (h.ring hsplit).1

/-- A node at which a list splits is in the list. -/
theorem Forms.mem_of_split (h : l.Forms kids) {before after : List NodeId} (hsplit : kids p = before ++ c :: after) :
    c ∈ kids p :=
  h.listed (h.ring hsplit).1

/-- No node is in the lists of two parents. -/
theorem Forms.parent_unique (h : l.Forms kids) {q : NodeId} (hp : c ∈ kids p) (hq : c ∈ kids q) :
    p = q := by
  have hcp := h.mem_iff.1 hp
  rw [h.mem_iff.1 hq] at hcp
  exact (Option.some.inj hcp).symm

/-- A node without a parent is in no list. -/
theorem Forms.not_mem (h : l.Forms kids) (hc : l.parent c = none) (p : NodeId) : c ∉ kids p := by
  intro hmem
  rw [h.mem_iff.1 hmem] at hc
  cases hc

/-- A node with a parent stands somewhere in the parent's list. -/
theorem Forms.exists_split (h : l.Forms kids) (hc : l.parent c = some p) :
    ∃ before after, kids p = before ++ c :: after :=
  List.append_of_mem (h.listed hc)

/-- A node with a parent has two neighbours. -/
theorem Forms.exists_neighbours (h : l.Forms kids) (hc : l.parent c = some p) :
    ∃ next previous, l.next c = some next ∧ l.previous c = some previous := by
  obtain ⟨before, after, hsplit⟩ := h.exists_split hc
  obtain ⟨-, hnext, hprevious⟩ := h.ring hsplit
  rw [hnext, hprevious]
  exact ⟨_, _, List.head?_eq_some_head (by simp), List.getLast?_eq_some_getLast (by simp)⟩

/-- A neighbour has the same parent, and both directions agree: if `d` comes after `c` then `c` comes
before `d`. -/
theorem Forms.previous_of_next (h : l.Forms kids) {d : NodeId} (hc : l.next c = some d) :
    l.previous d = some c ∧ l.parent d = l.parent c := by
  cases hp : l.parent c with
  | none =>
    rw [(h.unlinked hp).1] at hc
    cases hc
  | some p =>
    obtain ⟨before, after, hsplit⟩ := h.exists_split hp
    rw [(h.ring hsplit).2.1] at hc
    -- `d` follows `c` in the list, or `c` is the last node and `d` the first
    cases after with
    | cons a after =>
      obtain rfl : a = d := by simpa using hc
      have hd := h.ring (show kids p = before ++ [c] ++ a :: after by simpa using hsplit)
      exact ⟨by rw [hd.2.2]; simp [List.getLast?_cons], hd.1⟩
    | nil =>
      cases before with
      | nil =>
        obtain rfl : c = d := by simpa using hc
        exact ⟨by rw [(h.ring hsplit).2.2]; rfl, hp⟩
      | cons b before =>
        obtain rfl : b = d := by simpa using hc
        have hd := h.ring (show kids p = [] ++ b :: (before ++ [c]) by simpa using hsplit)
        exact ⟨by rw [hd.2.2]; simp [List.getLast?_cons], hd.1⟩

/-- The converse of `previous_of_next`. -/
theorem Forms.next_of_previous (h : l.Forms kids) {d : NodeId} (hd : l.previous d = some c) :
    l.next c = some d ∧ l.parent d = l.parent c := by
  cases hp : l.parent d with
  | none =>
    rw [(h.unlinked hp).2] at hd
    cases hd
  | some p =>
    obtain ⟨before, after, hsplit⟩ := h.exists_split hp
    rw [(h.ring hsplit).2.2] at hd
    rcases List.eq_nil_or_concat before with rfl | ⟨before, b, rfl⟩
    · -- `d` is the first node, so `c` is the last one
      rcases List.eq_nil_or_concat after with rfl | ⟨after, a, rfl⟩
      · obtain rfl : d = c := by simpa using hd
        exact ⟨by rw [(h.ring hsplit).2.1]; rfl, hp.symm⟩
      · obtain rfl : a = c := by simpa [List.getLast?_cons] using hd
        have hc := h.ring (show kids p = d :: after ++ a :: [] by simpa using hsplit)
        exact ⟨by rw [hc.2.1]; rfl, hc.1.symm⟩
    · obtain rfl : b = c := by simpa [List.getLast?_cons] using hd
      have hc := h.ring (show kids p = before ++ b :: d :: after by simpa using hsplit)
      exact ⟨by rw [hc.2.1]; rfl, hc.1.symm⟩

/-- The first node of a list has nothing before it. -/
theorem Forms.eq_first_iff (h : l.Forms kids) {first : NodeId} {before after : List NodeId}
    (hsplit : kids p = before ++ c :: after) (hfirst : (kids p).head? = some first) :
    c = first ↔ before = [] := by
  have hnodup := h.nodup p
  rw [hsplit] at hnodup hfirst
  cases before with
  | nil => exact ⟨fun _ => rfl, fun _ => Option.some.inj hfirst⟩
  | cons b before =>
    obtain rfl : b = first := Option.some.inj hfirst
    refine ⟨fun e => ?_, nofun⟩
    rw [e] at hnodup
    simp at hnodup

/-- The last node of a list has nothing after it. -/
theorem Forms.eq_last_iff (h : l.Forms kids) {last : NodeId} {before after : List NodeId}
    (hsplit : kids p = before ++ c :: after) (hlast : (kids p).getLast? = some last) :
    c = last ↔ after = [] := by
  have hnodup := h.nodup p
  rw [hsplit] at hnodup hlast
  rcases List.eq_nil_or_concat after with rfl | ⟨after, a, rfl⟩
  · exact ⟨fun _ => rfl, fun _ => by simpa [List.getLast?_cons] using hlast⟩
  · obtain rfl : a = last := by simpa [List.getLast?_cons] using hlast
    refine ⟨fun e => ?_, fun e => by simp at e⟩
    rw [e] at hnodup
    simp [List.nodup_append] at hnodup

/-- Past the end the ring goes on with the first node. -/
theorem Forms.next_eq_head? (h : l.Forms kids) {first : NodeId} {before after : List NodeId}
    (hfirst : (kids p).head? = some first) (hsplit : kids p = before ++ c :: after) :
    l.next c = (after ++ [first]).head? := by
  rw [(h.ring hsplit).2.1]
  cases after with
  | cons a after => rfl
  | nil =>
    rw [hsplit] at hfirst
    exact hfirst

/-- Only the node before it points forward to a node. -/
theorem Forms.next_eq_some_iff (h : l.Forms kids) {previous : NodeId} (hprevious : l.previous c = some previous)
    (x : NodeId) : l.next x = some c ↔ x = previous := by
  constructor
  · intro hx
    exact Option.some.inj ((h.previous_of_next hx).1.symm.trans hprevious)
  · intro e
    rw [e]
    exact (h.next_of_previous hprevious).1

/-- Only the node after it points back to a node. -/
theorem Forms.previous_eq_some_iff (h : l.Forms kids) {next : NodeId} (hnext : l.next c = some next)
    (x : NodeId) : l.previous x = some c ↔ x = next := by
  constructor
  · intro hx
    exact Option.some.inj ((h.next_of_previous hx).1.symm.trans hnext)
  · intro e
    rw [e]
    exact (h.previous_of_next hnext).1

/-- Following `next` from a node leads through the rest of its list and back to the first node. -/
theorem Forms.isChain (h : l.Forms kids) {first : NodeId} (hfirst : (kids p).head? = some first) :
    ∀ (after before : List NodeId) (c : NodeId), kids p = before ++ c :: after →
      (c :: after ++ [first]).IsChain fun a b => l.next a = some b ∧ l.previous b = some a := by
  intro after
  induction after with
  | nil =>
    intro before c hsplit
    have hnext : l.next c = some first := h.next_eq_head? hfirst hsplit
    exact List.isChain_pair.2 ⟨hnext, (h.previous_of_next hnext).1⟩
  | cons a after ih =>
    intro before c hsplit
    have hnext : l.next c = some a := h.next_eq_head? hfirst hsplit
    exact List.isChain_cons_cons.2
      ⟨⟨hnext, (h.previous_of_next hnext).1⟩, ih (before ++ [c]) a (by simpa using hsplit)⟩

/-! ## Adding a node at the end of a list -/

/-- The lists after `c` is added to the list of `p`. -/
def appended (kids : NodeId → List NodeId) (p c : NodeId) : NodeId → List NodeId :=
  update kids p (kids p ++ [c])

theorem mem_appended {q x : NodeId} :
    x ∈ appended kids p c q ↔ x ∈ kids q ∨ q = p ∧ x = c := by
  unfold appended
  by_cases hq : q = p
  · subst hq
    simp
  · simp [hq]

/-- What holds of every list, for a list that a node was added to. -/
theorem Forms.nodup_appended (h : l.Forms kids) (hc : l.parent c = none) (q : NodeId) :
    (appended kids p c q).Nodup := by
  unfold appended
  by_cases hq : q = p
  · subst hq
    rw [update_self]
    exact List.nodup_append.2 ⟨h.nodup q, List.nodup_singleton c, fun a ha b hb => by
      obtain rfl : b = c := by simpa using hb
      exact fun hab => h.not_mem hc q (hab ▸ ha)⟩
  · rw [update_of_ne hq]
    exact h.nodup q

theorem Forms.listed_appended (h : l.Forms kids) {q x : NodeId} (hx : update l.parent c (some p) x = some q) :
    x ∈ appended kids p c q := by
  rw [mem_appended]
  by_cases hxc : x = c
  · subst hxc
    rw [update_self] at hx
    exact Or.inr ⟨(Option.some.inj hx).symm, rfl⟩
  · rw [update_of_ne hxc] at hx
    exact Or.inl (h.listed hx)

/-- An only child is its own neighbour. -/
theorem Forms.append_only (h : l.Forms kids) (hp : kids p = []) (hc : l.parent c = none) :
    ((l.place c p c c).setFirstChild p (some c)).Forms (appended kids p c) where
  firstChild q := by
    simp only [setFirstChild, place, appended, hp]
    by_cases hq : q = p
    · subst hq
      simp
    · rw [update_of_ne hq, update_of_ne hq]
      exact h.firstChild q
  nodup := h.nodup_appended hc
  listed hx := h.listed_appended hx
  ring {q before x after} hsplit := by
    simp only [setFirstChild, place]
    by_cases hq : q = p
    · subst hq
      simp only [appended, hp, update_self, List.nil_append] at hsplit
      obtain ⟨rfl, rfl, rfl⟩ : before = [] ∧ x = c ∧ after = [] := by
        cases before with
        | nil => simpa [eq_comm] using hsplit
        | cons b before => simp at hsplit
      simp
    · rw [appended, update_of_ne hq] at hsplit
      have hxc : x ≠ c := by
        rintro rfl
        exact h.not_mem hc q (by simp [hsplit])
      rw [update_of_ne hxc, update_of_ne hxc, update_of_ne hxc]
      exact h.ring hsplit
  unlinked {x} hx := by
    simp only [setFirstChild, place] at hx ⊢
    have hxc : x ≠ c := by
      rintro rfl
      simp at hx
    rw [update_of_ne hxc] at hx ⊢
    rw [update_of_ne hxc]
    exact h.unlinked hx

/-- A further child comes between the last one and the first. -/
theorem Forms.append_last (h : l.Forms kids) {first last : NodeId}
    (hfirst : (kids p).head? = some first) (hlast : (kids p).getLast? = some last)
    (hc : l.parent c = none) :
    (((l.place c p last first).setNext last c).setPrevious first c).Forms (appended kids p c) where
  firstChild q := by
    simp only [setPrevious, setNext, place, appended]
    by_cases hq : q = p
    · subst hq
      rw [update_self, h.firstChild, hfirst, List.head?_append, hfirst]
      rfl
    · rw [update_of_ne hq]
      exact h.firstChild q
  nodup := h.nodup_appended hc
  listed hx := h.listed_appended hx
  ring {q before x after} hsplit := by
    simp only [setPrevious, setNext, place]
    have hfirstMem : first ∈ kids p := List.mem_of_mem_head? hfirst
    have hlastMem : last ∈ kids p := List.mem_of_getLast? hlast
    have hlastc : last ≠ c := fun e => h.not_mem hc p (e ▸ hlastMem)
    have hfirstc : first ≠ c := fun e => h.not_mem hc p (e ▸ hfirstMem)
    by_cases hq : q = p
    · subst hq
      rw [appended, update_self] at hsplit
      rcases List.eq_nil_or_concat after with rfl | ⟨after, a, rfl⟩
      · -- the new node itself
        obtain ⟨rfl, rfl⟩ : kids q = before ∧ c = x := by simpa using hsplit
        rw [update_self, update_of_ne hlastc.symm, update_self, update_of_ne hfirstc.symm,
          update_self]
        refine ⟨rfl, ?_, ?_⟩
        · rw [List.nil_append, List.head?_append, hfirst]
          rfl
        · rw [List.cons_append, List.nil_append, List.getLast?_cons, hlast]
          rfl
      · -- a node that was there before
        obtain ⟨hold, hca⟩ : kids q = before ++ x :: after ∧ [c] = [a] :=
          List.append_inj' (by simpa using hsplit) rfl
        obtain rfl : c = a := by simpa using hca
        have hxc : x ≠ c := by
          rintro rfl
          exact h.not_mem hc q (by simp [hold])
        obtain ⟨hparent, hnext, hprevious⟩ := h.ring hold
        rw [update_of_ne hxc]
        refine ⟨hparent, ?_, ?_⟩
        · by_cases hxl : x = last
          · rw [hxl, update_self, (h.eq_last_iff hold hlast).1 hxl]
            rfl
          · obtain ⟨a, after, rfl⟩ := List.exists_cons_of_ne_nil fun e => hxl ((h.eq_last_iff hold hlast).2 e)
            rw [update_of_ne hxl, update_of_ne hxc, hnext]
            rfl
        · by_cases hxf : x = first
          · rw [hxf, update_self, (h.eq_first_iff hold hfirst).1 hxf]
            simp [List.getLast?_cons]
          · obtain ⟨b, before, rfl⟩ := List.exists_cons_of_ne_nil fun e => hxf ((h.eq_first_iff hold hfirst).2 e)
            rw [update_of_ne hxf, update_of_ne hxc, hprevious]
            simp [List.getLast?_cons]
    · rw [appended, update_of_ne hq] at hsplit
      have hxq : x ∈ kids q := by simp [hsplit]
      have hxc : x ≠ c := fun e => h.not_mem hc q (e ▸ hxq)
      have hxl : x ≠ last := fun e => hq (h.parent_unique (e ▸ hxq) hlastMem)
      have hxf : x ≠ first := fun e => hq (h.parent_unique (e ▸ hxq) hfirstMem)
      rw [update_of_ne hxc, update_of_ne hxl, update_of_ne hxc, update_of_ne hxf,
        update_of_ne hxc]
      exact h.ring hsplit
  unlinked {x} hx := by
    simp only [setPrevious, setNext, place] at hx ⊢
    have hxc : x ≠ c := by
      rintro rfl
      simp at hx
    rw [update_of_ne hxc] at hx
    have hxp : x ∉ kids p := h.not_mem hx p
    have hxl : x ≠ last := fun e => hxp (e ▸ List.mem_of_getLast? hlast)
    have hxf : x ≠ first := fun e => hxp (e ▸ List.mem_of_mem_head? hfirst)
    rw [update_of_ne hxl, update_of_ne hxc, update_of_ne hxf, update_of_ne hxc]
    exact h.unlinked hx

/-! ## Taking over a place -/

/-- `new` where `old` was. -/
def rename (old new x : NodeId) : NodeId :=
  if x = old then new else x

@[simp] theorem rename_self (old new : NodeId) : rename old new old = new := if_pos rfl

theorem rename_of_ne {old new x : NodeId} (hx : x ≠ old) : rename old new x = x := if_neg hx

/-- Nodes other than the new one stay apart. -/
theorem rename_injective {old new x y : NodeId} (hx : x ≠ new) (hy : y ≠ new)
    (hxy : rename old new x = rename old new y) : x = y := by
  by_cases hxo : x = old
  · by_cases hyo : y = old
    · rw [hxo, hyo]
    · rw [hxo, rename_self, rename_of_ne hyo] at hxy
      exact absurd hxy.symm hy
  · by_cases hyo : y = old
    · rw [hyo, rename_self, rename_of_ne hxo] at hxy
      exact absurd hxy hx
    · rwa [rename_of_ne hxo, rename_of_ne hyo] at hxy

/-- A list without the old node stays as it is. -/
theorem map_rename {old new : NodeId} {ids : List NodeId} (h : old ∉ ids) :
    ids.map (rename old new) = ids := by
  have hfix : ∀ x ∈ ids, rename old new x = x := by
    intro x hx
    exact rename_of_ne fun e => h (e ▸ hx)
  rw [List.map_congr_left hfix, List.map_id']

theorem option_map_rename {old new : NodeId} {id : Option NodeId} (h : id ≠ some old) :
    id.map (rename old new) = id := by
  cases id with
  | none => rfl
  | some x => rw [Option.map_some, rename_of_ne fun e => h (congrArg some e)]

/-- If the new links are the old ones up to the name of one node, they form the old lists up to that
name. -/
theorem Forms.renamed (h : l.Forms kids) {old new : NodeId} (hne : old ≠ new)
    (hnew : l.parent new = none)
    (hparent : ∀ x, x ≠ new → l'.parent (rename old new x) = l.parent x)
    (hnext : ∀ x, x ≠ new → l'.next (rename old new x) = (l.next x).map (rename old new))
    (hprevious : ∀ x, x ≠ new → l'.previous (rename old new x) = (l.previous x).map (rename old new))
    (hfirst : ∀ p, l'.firstChild p = (l.firstChild p).map (rename old new))
    (hold : l'.parent old = none ∧ l'.next old = none ∧ l'.previous old = none) :
    l'.Forms fun p => (kids p).map (rename old new) where
  firstChild p := by rw [hfirst, h.firstChild, List.head?_map]
  nodup p := by
    refine (h.nodup p).map_on fun x hx y hy => rename_injective ?_ ?_
    · exact fun e => h.not_mem hnew p (e ▸ hx)
    · exact fun e => h.not_mem hnew p (e ▸ hy)
  listed {p c} hc := by
    have hco : c ≠ old := by
      rintro rfl
      rw [hold.1] at hc
      cases hc
    by_cases hcn : c = new
    · have hp := hparent old hne
      rw [rename_self, ← hcn, hc] at hp
      exact List.mem_map.2 ⟨old, h.listed hp.symm, hcn ▸ rename_self old new⟩
    · have hp := hparent c hcn
      rw [rename_of_ne hco, hc] at hp
      exact List.mem_map.2 ⟨c, h.listed hp.symm, rename_of_ne hco⟩
  ring {p before c after} hsplit := by
    obtain ⟨before', rest, hkids, rfl, hrest⟩ := List.map_eq_append_iff.1 hsplit
    obtain ⟨c', after', rfl, rfl, rfl⟩ := List.map_eq_cons_iff.1 hrest
    obtain ⟨hp, hn, hv⟩ := h.ring hkids
    have hcn : c' ≠ new := by
      rintro rfl
      exact h.not_mem hnew p (by simp [hkids])
    refine ⟨by rw [hparent c' hcn, hp], ?_, ?_⟩
    · rw [hnext c' hcn, hn, ← List.head?_map]
      simp
    · rw [hprevious c' hcn, hv, ← List.getLast?_map]
      simp
  unlinked {c} hc := by
    by_cases hco : c = old
    · exact hco ▸ hold.2
    by_cases hcn : c = new
    · have hp := hparent old hne
      have hn := hnext old hne
      have hv := hprevious old hne
      rw [rename_self, ← hcn] at hp hn hv
      rw [hc] at hp
      obtain ⟨hnone, hnone'⟩ := h.unlinked hp.symm
      rw [hn, hv, hnone, hnone']
      exact ⟨rfl, rfl⟩
    · have hp := hparent c hcn
      have hn := hnext c hcn
      have hv := hprevious c hcn
      rw [rename_of_ne hco] at hp hn hv
      rw [hc] at hp
      obtain ⟨hnone, hnone'⟩ := h.unlinked hp.symm
      rw [hn, hv, hnone, hnone']
      exact ⟨rfl, rfl⟩

/-! ## Handing over a list -/

/-- The lists after `new` got the list of `old`. -/
def adopted (kids : NodeId → List NodeId) (old new : NodeId) : NodeId → List NodeId :=
  update (update kids old []) new (kids old)

theorem adopted_new (kids : NodeId → List NodeId) (old new : NodeId) :
    adopted kids old new new = kids old :=
  update_self ..

theorem adopted_old {old new : NodeId} (hne : old ≠ new) : adopted kids old new old = [] := by
  rw [adopted, update_of_ne hne, update_self]

theorem adopted_of_ne {old new q : NodeId} (ho : q ≠ old) (hn : q ≠ new) :
    adopted kids old new q = kids q := by
  rw [adopted, update_of_ne hn, update_of_ne ho]

/-- The ring itself stays; only the parents and the two first-child links change. -/
theorem Forms.adopted (h : l.Forms kids) {old new : NodeId} (hne : old ≠ new)
    (hnew : kids new = [])
    (hparent : ∀ x, l'.parent x = if l.parent x = some old then some new else l.parent x)
    (hnext : l'.next = l.next) (hprevious : l'.previous = l.previous)
    (hfirst : l'.firstChild = update (update l.firstChild old none) new (kids old).head?) :
    l'.Forms (adopted kids old new) where
  firstChild p := by
    rw [hfirst]
    by_cases hpn : p = new
    · subst hpn
      rw [update_self, adopted_new]
    · rw [update_of_ne hpn]
      by_cases hpo : p = old
      · subst hpo
        rw [update_self, adopted_old hne]
        rfl
      · rw [update_of_ne hpo, adopted_of_ne hpo hpn]
        exact h.firstChild p
  nodup p := by
    by_cases hpn : p = new
    · rw [hpn, adopted_new]
      exact h.nodup old
    by_cases hpo : p = old
    · rw [hpo, adopted_old hne]
      exact List.nodup_nil
    · rw [adopted_of_ne hpo hpn]
      exact h.nodup p
  listed {p c} hc := by
    rw [hparent] at hc
    split at hc
    · next hco =>
      obtain rfl := Option.some.inj hc
      rw [adopted_new]
      exact h.listed hco
    · next hco =>
      have hmem := h.listed hc
      have hpn : p ≠ new := by
        rintro rfl
        rw [hnew] at hmem
        cases hmem
      have hpo : p ≠ old := by
        rintro rfl
        exact hco hc
      rwa [adopted_of_ne hpo hpn]
  ring {p before c after} hsplit := by
    rw [hparent, hnext, hprevious]
    by_cases hpn : p = new
    · subst hpn
      rw [adopted_new] at hsplit
      obtain ⟨hp, hn, hv⟩ := h.ring hsplit
      exact ⟨if_pos hp, hn, hv⟩
    by_cases hpo : p = old
    · rw [hpo, adopted_old hne] at hsplit
      simp at hsplit
    · rw [adopted_of_ne hpo hpn] at hsplit
      obtain ⟨hp, hn, hv⟩ := h.ring hsplit
      refine ⟨?_, hn, hv⟩
      rw [if_neg (by rw [hp]; simpa using hpo), hp]
  unlinked {c} hc := by
    rw [hparent] at hc
    rw [hnext, hprevious]
    split at hc
    · cases hc
    · exact h.unlinked hc

end Links

end SyntaxTree
