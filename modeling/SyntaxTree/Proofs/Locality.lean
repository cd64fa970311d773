import Mathlib.Data.List.Find
import SyntaxTree.Proofs.Offsets
import SyntaxTree.Model.Check

/-!
# Readers see what they can reach

A reader that starts at a node sees that node and what its links lead to, and nothing else. If two models have the same
nodes below some bound and no link leads from these nodes out (`AgreeBelow`), then they look the same from every node
below the bound: spans, leaves, and the outcome of the check.

Nothing is asked of the rest of the models, which may hold nodes that no reader would survive, such as one that is its
own parent. So there is nothing to say about where a search ends. Each reader has one lemma, by induction on its steps,
and the lemmas say besides that the reader stays below the bound.
-/

namespace SyntaxTree

/-- Two sequences that start alike and go on alike after what the start can give. -/
theorem bind_congr_ok {ε α β : Type} {x : Except ε α} {f g : α → Except ε β} (h : ∀ a, x = .ok a → f a = g a) :
    x >>= f = x >>= g := by
  cases x with
  | error e => rfl
  | ok a => exact h a rfl

namespace Model

open ChildCursor (drain)

variable {m m' : Model} {bound : Nat} {n x start : NodeId} {event : WalkEvent}

/-- The models have the same nodes below the bound, and links from there lead to such nodes again. -/
structure AgreeBelow (m m' : Model) (bound : Nat) : Prop where
  text : m'.text = m.text
  index : m'.index = m.index
  size : m'.size = m.size
  get : ∀ {n}, n < bound → m'.get? n = m.get? n
  parent : ∀ {n x}, n < bound → m.parent? n = some x → x < bound
  next : ∀ {n x}, n < bound → m.nextInRing? n = some x → x < bound
  previous : ∀ {n x}, n < bound → m.previousInRing? n = some x → x < bound
  firstChild : ∀ {n x}, n < bound → m.firstChild? n = some x → x < bound

namespace AgreeBelow

variable (h : AgreeBelow m m' bound) (hn : n < bound)

/-! ## Single nodes -/

include h

theorem textLength : m'.textLength = m.textLength := by
  rw [Model.textLength, Model.textLength, chars, chars, h.text]

include hn

theorem content? : m'.content? n = m.content? n := by rw [Model.content?, Model.content?, h.get hn]

theorem kind? : m'.kind? n = m.kind? n := by rw [Model.kind?, Model.kind?, h.get hn]

theorem isLeaf : m'.isLeaf n = m.isLeaf n := by rw [Model.isLeaf, Model.isLeaf, h.kind? hn]

theorem isHidden : m'.isHidden n = m.isHidden n := by rw [Model.isHidden, Model.isHidden, h.kind? hn]

theorem isRoot : m'.isRoot n = m.isRoot n := by rw [Model.isRoot, Model.isRoot, h.kind? hn]

theorem parent? : m'.parent? n = m.parent? n := by rw [Model.parent?, Model.parent?, h.get hn]

theorem nextInRing? : m'.nextInRing? n = m.nextInRing? n := by rw [Model.nextInRing?, Model.nextInRing?, h.get hn]

theorem previousInRing? : m'.previousInRing? n = m.previousInRing? n := by
  rw [Model.previousInRing?, Model.previousInRing?, h.get hn]

theorem firstChild? : m'.firstChild? n = m.firstChild? n := by rw [Model.firstChild?, Model.firstChild?, h.get hn]

theorem lookup : m'.lookup n = m.lookup n := by rw [Model.lookup, Model.lookup, h.get hn, h.size]

theorem lastChild? : m'.lastChild? n = m.lastChild? n ∧ ∀ x, m.lastChild? n = some x → x < bound := by
  rw [Model.lastChild?, Model.lastChild?, h.firstChild? hn]
  cases hfirst : m.firstChild? n with
  | none => exact ⟨rfl, fun _ hx => by cases hx⟩
  | some first =>
    have hlt := h.firstChild hn hfirst
    exact ⟨h.previousInRing? hlt, fun x hx => h.previous hlt hx⟩

theorem nextSibling? : m'.nextSibling? n = m.nextSibling? n ∧ ∀ x, m.nextSibling? n = some x → x < bound := by
  rw [Model.nextSibling?, Model.nextSibling?, h.nextInRing? hn, h.parent? hn]
  cases hnext : m.nextInRing? n with
  | none => exact ⟨rfl, fun _ hx => by cases hx⟩
  | some next =>
    cases hparent : m.parent? n with
    | none => exact ⟨rfl, fun _ hx => by cases hx⟩
    | some parent =>
      simp only [Option.bind_eq_bind, Option.bind_some, h.firstChild? (h.parent hn hparent)]
      refine ⟨trivial, fun x hx => ?_⟩
      obtain ⟨first, -, hx⟩ := Option.bind_eq_some_iff.1 hx
      split at hx
      · cases hx
      · obtain rfl := Option.some.inj hx
        exact h.next hn hnext

theorem previousSibling? :
    m'.previousSibling? n = m.previousSibling? n ∧ ∀ x, m.previousSibling? n = some x → x < bound := by
  rw [Model.previousSibling?, Model.previousSibling?, h.parent? hn, h.previousInRing? hn]
  cases hparent : m.parent? n with
  | none => exact ⟨rfl, fun _ hx => by cases hx⟩
  | some parent =>
    simp only [Option.bind_eq_bind, Option.bind_some, h.firstChild? (h.parent hn hparent)]
    refine ⟨trivial, fun x hx => ?_⟩
    obtain ⟨first, -, hx⟩ := Option.bind_eq_some_iff.1 hx
    split at hx
    · cases hx
    · exact h.previous hn hx

omit hn

/-! ## Ends -/

/-- One step back. -/
theorem preceding? (hevent : event.node < bound) : m'.preceding? event = m.preceding? event ∧
    ∀ earlier, m.preceding? event = some earlier → earlier.node < bound := by
  cases event with
  | leave n =>
    replace hevent : n < bound := hevent
    obtain ⟨hlast, hlt⟩ := h.lastChild? hevent
    have hlater : ((m.lastChild? n).elim (WalkEvent.enter n) .leave).node < bound := by
      cases hx : m.lastChild? n with
      | none => exact hevent
      | some x => exact hlt x hx
    rw [Model.preceding?, Model.preceding?, h.content? hevent, hlast]
    refine ⟨rfl, fun earlier hstep => ?_⟩
    split at hstep <;> cases hstep <;> exact hlater
  | enter n =>
    replace hevent : n < bound := hevent
    obtain ⟨hprevious, hlt⟩ := h.previousSibling? hevent
    rw [Model.preceding?, Model.preceding?, hprevious, h.parent? hevent]
    cases hx : m.previousSibling? n with
    | some previous =>
      refine ⟨rfl, fun earlier hstep => ?_⟩
      obtain rfl := Option.some.inj hstep
      exact hlt previous hx
    | none =>
      cases hparent : m.parent? n with
      | none => exact ⟨rfl, fun _ hx => by cases hx⟩
      | some parent =>
        simp only [Option.bind_some, h.isRoot (h.parent hevent hparent)]
        refine ⟨trivial, fun earlier hstep => ?_⟩
        split at hstep
        · cases hstep
        · obtain rfl := Option.some.inj hstep
          exact h.parent hevent hparent

theorem ownOffset (hevent : event.node < bound) : m'.ownOffset event = m.ownOffset event := by
  cases event with
  | leave n => rw [Model.ownOffset, Model.ownOffset, h.content? (show n < bound from hevent), h.textLength]
  | enter n => rfl

theorem offsetWithin : ∀ (steps : Nat) (event : WalkEvent), event.node < bound →
    m'.offsetWithin steps event = m.offsetWithin steps event := by
  intro steps
  induction steps with
  | zero => intro event _; cases event <;> rfl
  | succ steps ih =>
    intro event hevent
    obtain ⟨hstep, hlt⟩ := h.preceding? hevent
    rw [offsetWithin_succ, offsetWithin_succ, hstep, h.ownOffset hevent]
    cases hearlier : m.preceding? event with
    | none => rfl
    | some earlier => exact ih earlier (hlt earlier hearlier)

include hn in
theorem totalEnd : m'.totalEnd n = m.totalEnd n := by
  rw [Model.totalEnd, Model.totalEnd, searchSteps, searchSteps, h.size]
  exact h.offsetWithin (2 * m.size + 1) (.leave n) hn

include hn in
theorem emptyOffset : m'.emptyOffset n = m.emptyOffset n := by
  rw [Model.emptyOffset, Model.emptyOffset, searchSteps, searchSteps, h.size]
  exact h.offsetWithin (2 * m.size + 1) (.enter n) hn

theorem startWithin : ∀ (steps : Nat) (n : NodeId), n < bound → m'.startWithin steps n = m.startWithin steps n := by
  intro steps
  induction steps with
  | zero => intro n _; rfl
  | succ steps ih =>
    intro n hn
    have hopening : m'.opening? n = m.opening? n := by
      rw [opening?, opening?, h.content? hn, h.firstChild? hn]
    have hown : m'.ownStart n = m.ownStart n := by
      rw [ownStart, ownStart, h.content? hn, h.emptyOffset hn]
    rw [startWithin_succ, startWithin_succ, hopening, hown]
    cases hstep : m.opening? n with
    | none => rfl
    | some c => exact ih c (h.firstChild hn (firstChild?_of_opening? hstep))

include hn in
theorem totalStart : m'.totalStart n = m.totalStart n := by
  rw [Model.totalStart, Model.totalStart, h.size]
  exact h.startWithin _ n hn

include hn in
theorem totalRange : m'.totalRange n = m.totalRange n := by
  rw [Model.totalRange, Model.totalRange, h.totalStart hn, h.totalEnd hn]

/-! ## Children and leaves -/

theorem drain_next : ∀ (steps : Nat) (cursor : ChildCursor), (∀ x, cursor.front = some x → x < bound) →
    drain (ChildCursor.next m') steps cursor = drain (ChildCursor.next m) steps cursor ∧
      ∀ x ∈ drain (ChildCursor.next m) steps cursor, x < bound := by
  intro steps
  induction steps with
  | zero => intro cursor _; exact ⟨rfl, nofun⟩
  | succ steps ih =>
    intro cursor hfront
    obtain ⟨front, back⟩ := cursor
    cases front with
    | none => exact ⟨rfl, nofun⟩
    | some child =>
      have hchild := hfront child rfl
      have hrest := ih (if back = some child then .exhausted else ⟨m.nextInRing? child, back⟩) (by
        intro x hx
        split at hx
        · cases hx
        · exact h.next hchild hx)
      simp only [drain, ChildCursor.next, h.nextInRing? hchild]
      exact ⟨congrArg _ hrest.1, List.forall_mem_cons.2 ⟨hchild, hrest.2⟩⟩

include hn in
theorem children : m'.children n = m.children n ∧ ∀ x ∈ m.children n, x < bound := by
  rw [Model.children, Model.children, ChildCursor.toList, ChildCursor.toList, childCursor, childCursor,
    h.firstChild? hn, (h.lastChild? hn).1, h.size]
  exact h.drain_next _ _ fun x hx => h.firstChild hn hx

/-- One step on. -/
theorem following? (hevent : event.node < bound) : event.following? m' start = event.following? m start ∧
    ∀ later, event.following? m start = some later → later.node < bound := by
  cases event with
  | enter n =>
    replace hevent : n < bound := hevent
    rw [WalkEvent.following?, WalkEvent.following?, h.firstChild? hevent]
    cases hfirst : m.firstChild? n with
    | none =>
      refine ⟨rfl, fun later hstep => ?_⟩
      obtain rfl := Option.some.inj hstep
      exact hevent
    | some child =>
      refine ⟨rfl, fun later hstep => ?_⟩
      obtain rfl := Option.some.inj hstep
      exact h.firstChild hevent hfirst
  | leave n =>
    replace hevent : n < bound := hevent
    obtain ⟨hnext, hlt⟩ := h.nextSibling? hevent
    rw [WalkEvent.following?, WalkEvent.following?, hnext, h.parent? hevent]
    refine ⟨rfl, fun later hstep => ?_⟩
    split at hstep
    · cases hstep
    · cases hx : m.nextSibling? n with
      | some sibling =>
        rw [hx] at hstep
        obtain rfl := Option.some.inj hstep
        exact hlt sibling hx
      | none =>
        rw [hx] at hstep
        obtain ⟨parent, hparent, rfl⟩ := Option.map_eq_some_iff.1 hstep
        exact h.parent hevent hparent

theorem eventsFrom : ∀ (steps : Nat) (event : WalkEvent), event.node < bound →
    m'.eventsFrom start steps event = m.eventsFrom start steps event ∧
      ∀ e ∈ m.eventsFrom start steps event, e.node < bound := by
  intro steps
  induction steps with
  | zero => intro event _; exact ⟨rfl, nofun⟩
  | succ steps ih =>
    intro event hevent
    obtain ⟨hstep, hlt⟩ := h.following? hevent
    rw [Model.eventsFrom, Model.eventsFrom, hstep]
    cases hlater : event.following? m start with
    | none => exact ⟨rfl, List.forall_mem_singleton.2 hevent⟩
    | some later =>
      obtain ⟨hrest, hbelow⟩ := ih later (hlt later hlater)
      exact ⟨congrArg _ hrest, List.forall_mem_cons.2 ⟨hevent, hbelow⟩⟩

include hn in
theorem leaves : m'.leaves n = m.leaves n ∧ ∀ x ∈ m.leaves n, x < bound := by
  obtain ⟨hevents, hlt⟩ := h.eventsFrom (2 * m.size) (.enter n) hn
  have hbelow : ∀ x ∈ m.descendants n, x < bound := by
    intro x hx
    obtain ⟨e, he, hx⟩ := List.mem_filterMap.1 hx
    have hnode := hlt e he
    cases e with
    | enter y =>
      obtain rfl := Option.some.inj hx
      exact hnode
    | leave y => cases hx
  have hdescendants : m'.descendants n = m.descendants n := by
    rw [descendants, descendants, events, events, h.size, hevents]
  refine ⟨?_, fun x hx => hbelow x (List.mem_filter.1 hx).1⟩
  rw [Model.leaves, Model.leaves, hdescendants]
  exact List.filter_congr fun x hx => h.isLeaf (hbelow x hx)

/-! ## Ranges -/

theorem lastVisibleWithin : ∀ (steps : Nat) (stack : List NodeId), (∀ x ∈ stack, x < bound) →
    m'.lastVisibleWithin steps stack = m.lastVisibleWithin steps stack ∧
      ∀ x, m.lastVisibleWithin steps stack = some x → x < bound := by
  intro steps
  induction steps with
  | zero => intro stack _; exact ⟨rfl, nofun⟩
  | succ steps ih =>
    intro stack hstack
    cases stack with
    | nil => exact ⟨rfl, nofun⟩
    | cons n stack =>
      obtain ⟨hn, hrest⟩ := List.forall_mem_cons.1 hstack
      obtain ⟨hkids, hbelow⟩ := h.children hn
      rw [Model.lastVisibleWithin, Model.lastVisibleWithin, h.isLeaf hn, h.isHidden hn, hkids]
      split
      · split
        · exact ih stack hrest
        · refine ⟨rfl, fun x hx => ?_⟩
          obtain rfl := Option.some.inj hx
          exact hn
      · refine ih _ fun x hx => ?_
        rcases List.mem_append.1 hx with hx | hx
        · exact hbelow x (List.mem_reverse.1 hx)
        · exact hrest x hx

include hn in
theorem range : m'.range n = m.range n := by
  obtain ⟨hleaves, hlt⟩ := h.leaves hn
  obtain ⟨hlast, hlastLt⟩ := h.lastVisibleWithin (m.size + 1) [n] (List.forall_mem_singleton.2 hn)
  have hfirst : m'.firstVisibleLeaf? n = m.firstVisibleLeaf? n := by
    rw [firstVisibleLeaf?, firstVisibleLeaf?, hleaves]
    exact List.find?_congr fun x hx => by rw [h.isHidden (hlt x hx)]
  rw [Model.range, Model.range, h.isLeaf hn, h.totalRange hn, hfirst, lastVisibleLeaf?, lastVisibleLeaf?, h.size, hlast]
  split
  · rfl
  · cases hx : m.firstVisibleLeaf? n with
    | none => rfl
    | some first =>
      have hfirstLt : first < bound := hlt first (List.mem_of_find?_eq_some hx)
      have hends : (m.lastVisibleWithin (m.size + 1) [n]).getD first < bound := by
        cases hy : m.lastVisibleWithin (m.size + 1) [n] with
        | none => exact hfirstLt
        | some last => exact hlastLt last hy
      simp only [h.totalStart hfirstLt, h.totalEnd hends]

/-! ## The check -/

include hn in
theorem checkNode : m'.checkNode n = m.checkNode n := by
  rw [Model.checkNode, Model.checkNode, h.lookup hn, h.textLength, h.index]

include hn in
theorem checkLinks (parent : NodeId) (seen : List NodeId) : m'.checkLinks parent n seen = m.checkLinks parent n seen ∧
    ∀ x, m.checkLinks parent n seen = .ok x → x < bound := by
  rw [Model.checkLinks, Model.checkLinks, h.lookup hn]
  split
  · exact ⟨rfl, nofun⟩
  · cases hnode : m.lookup n with
    | error fault => exact ⟨rfl, nofun⟩
    | ok node =>
      have hget := lookup_eq_ok_iff.1 hnode
      obtain ⟨content, grammar, up, next, previous, successor⟩ := node
      simp only [asking, ok_bind]
      split
      · exact ⟨rfl, nofun⟩
      · cases next with
        | none => exact ⟨rfl, nofun⟩
        | some next =>
          cases previous with
          | none => exact ⟨rfl, nofun⟩
          | some previous =>
            have hnext : next < bound := h.next hn (by rw [Model.nextInRing?, hget]; rfl)
            simp only [h.lookup hnext]
            refine ⟨trivial, fun x hx => ?_⟩
            obtain ⟨neighbour, -, hx⟩ := bind_eq_ok_iff.1 hx
            split at hx
            · cases hx
            · obtain rfl := Except.ok.inj hx
              exact hnext

theorem checkChildren (parent first : NodeId) : ∀ (steps : Nat) (child : NodeId) (previousEnd : Option Nat)
    (seen stack : List NodeId), child < bound → (∀ x ∈ stack, x < bound) →
    m'.checkChildren parent first steps child previousEnd seen stack =
        m.checkChildren parent first steps child previousEnd seen stack ∧
      ∀ r, m.checkChildren parent first steps child previousEnd seen stack = .ok r → ∀ x ∈ r.2, x < bound := by
  intro steps
  induction steps with
  | zero => intro child previousEnd seen stack _ _; exact ⟨rfl, nofun⟩
  | succ steps ih =>
    intro child previousEnd seen stack hchild hstack
    have hstack' : ∀ x ∈ child :: stack, x < bound := List.forall_mem_cons.2 ⟨hchild, hstack⟩
    obtain ⟨hlinks, hlt⟩ := h.checkLinks hchild parent seen
    have horder : m'.checkOrder child previousEnd = m.checkOrder child previousEnd := by
      rw [checkOrder, checkOrder, h.totalRange hchild]
    rw [Model.checkChildren, Model.checkChildren, hlinks, horder]
    refine ⟨bind_congr_ok fun next hnext => bind_congr_ok fun stop _ => ?_, fun r hr => ?_⟩
    · split
      · rfl
      · exact (ih next (some stop) (child :: seen) (child :: stack) (hlt next hnext) hstack').1
    · obtain ⟨next, hnext, hr⟩ := bind_eq_ok_iff.1 hr
      obtain ⟨stop, -, hr⟩ := bind_eq_ok_iff.1 hr
      split at hr
      · obtain rfl := Except.ok.inj hr
        exact hstack'
      · exact (ih next (some stop) (child :: seen) (child :: stack) (hlt next hnext) hstack').2 r hr

theorem checkStack : ∀ (steps : Nat) (seen stack : List NodeId), (∀ x ∈ stack, x < bound) →
    m'.checkStack steps seen stack = m.checkStack steps seen stack := by
  intro steps
  induction steps with
  | zero => intro seen stack _; rfl
  | succ steps ih =>
    intro seen stack hstack
    cases stack with
    | nil => rfl
    | cons n stack =>
      obtain ⟨hn, hrest⟩ := List.forall_mem_cons.1 hstack
      rw [Model.checkStack, Model.checkStack, h.checkNode hn, h.firstChild? hn, h.size]
      refine bind_congr_ok fun _ _ => ?_
      cases hfirst : m.firstChild? n with
      | none => exact ih seen stack hrest
      | some first =>
        obtain ⟨hchildren, hlt⟩ :=
          h.checkChildren n first (m.size + 1) first none seen stack (h.firstChild hn hfirst) hrest
        simp only [hchildren]
        exact bind_congr_ok fun r hr => ih r.1 r.2 (hlt r hr)

theorem checkIndex (entries : List (Element × NodeId)) (hentries : ∀ entry ∈ entries, entry.2 < bound) :
    m'.checkIndex entries = m.checkIndex entries := by
  induction entries with
  | nil => rfl
  | cons entry entries ih =>
    obtain ⟨hentry, hrest⟩ := List.forall_mem_cons.1 hentries
    rw [Model.checkIndex, Model.checkIndex, h.lookup hentry, ih hrest]

/-- The check of a tree whose root and whose index stay below the bound. -/
theorem check (hroot : rootId < bound) (hindex : ∀ entry ∈ m.index.entries, entry.2 < bound) :
    m'.check = m.check := by
  rw [Model.check, Model.check, h.size, h.checkStack _ _ _ (List.forall_mem_singleton.2 hroot), h.index,
    h.checkIndex _ hindex]

end AgreeBelow

end Model

end SyntaxTree
