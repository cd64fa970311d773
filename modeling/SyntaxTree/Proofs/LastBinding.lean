import SyntaxTree.Proofs.Recorded

/-!
# The last binding wins

An element is bound to one node at a time, and a node to one element. Both can be overwritten: the element by binding
it to another node, and the node by binding another element to it. The index keeps account of all that while nodes are
replaced under their handles. Over a whole script the account is simple. Only the calls that bind count; an element is
with the handle that it was bound to last, unless the handle was given another element since.

The lists of bindings are read from the end, since a binding that comes last decides (`holds_append_singleton_iff`).
-/

namespace SyntaxTree

/-- A handle and the element that is bound to it. -/
abbrev Binding := Nat × Element

namespace Binding

variable {bindings after after' : List Binding} {i j : Nat} {e f : Element}

/-- The last binding of the element is to the handle, and the bindings after it are given. -/
def LastBound (bindings : List Binding) (e : Element) (i : Nat) (after : List Binding) : Prop :=
  ∃ before, bindings = before ++ (i, e) :: after ∧ ∀ b ∈ after, b.2 ≠ e

/-- Another element is bound to the handle. -/
def Overwritten (after : List Binding) (e : Element) (i : Nat) : Prop :=
  ∃ b ∈ after, b.1 = i ∧ b.2 ≠ e

/-- The element was bound to the handle last, and the handle to no other element since. -/
def Holds (bindings : List Binding) (e : Element) (i : Nat) : Prop :=
  ∃ after, LastBound bindings e i after ∧ ¬ Overwritten after e i

theorem not_lastBound_nil : ¬ LastBound [] e i after := by
  intro h
  obtain ⟨before, hbefore, -⟩ := h
  simp at hbefore

/-- The last binding of all is the element's, or it is of another element and comes after. -/
theorem lastBound_append_singleton_iff : LastBound (bindings ++ [(j, f)]) e i after ↔
    after = [] ∧ i = j ∧ e = f ∨ ∃ after', after = after' ++ [(j, f)] ∧ LastBound bindings e i after' ∧ e ≠ f := by
  constructor
  · intro h
    obtain ⟨before, hbefore, hafter⟩ := h
    rcases List.eq_nil_or_concat after with rfl | ⟨after', last, rfl⟩
    · obtain ⟨-, hlast⟩ := List.append_inj' hbefore rfl
      obtain ⟨rfl, rfl⟩ := Prod.mk.inj (List.singleton_inj.1 hlast)
      exact Or.inl ⟨rfl, rfl, rfl⟩
    · rw [List.concat_eq_append] at hbefore hafter ⊢
      rw [← List.cons_append, ← List.append_assoc] at hbefore
      obtain ⟨hinit, hlast⟩ := List.append_inj' hbefore rfl
      obtain rfl := List.singleton_inj.1 hlast
      refine Or.inr ⟨after', rfl, ⟨before, hinit, fun b hb => hafter b (List.mem_append_left _ hb)⟩, ?_⟩
      exact (hafter (j, f) (List.mem_append_right _ (List.mem_singleton_self _))).symm
  · intro h
    obtain ⟨rfl, rfl, rfl⟩ | ⟨after', rfl, ⟨before, rfl, hafter⟩, hne⟩ := h
    · exact ⟨bindings, rfl, nofun⟩
    · refine ⟨before, by simp, fun b hb => ?_⟩
      rcases List.mem_append.1 hb with hb | hb
      · exact hafter b hb
      · obtain rfl := List.mem_singleton.1 hb
        exact hne.symm

/-- One more binding: its handle holds its element and nothing else, and its element is nowhere else. -/
theorem holds_append_singleton_iff : Holds (bindings ++ [(j, f)]) e i ↔
    if i = j then e = f else Holds bindings e i ∧ e ≠ f := by
  unfold Holds
  simp only [lastBound_append_singleton_iff]
  by_cases hij : i = j
  · subst hij
    rw [if_pos rfl]
    constructor
    · intro h
      obtain ⟨after, ⟨-, -, he⟩ | ⟨after', rfl, -, hne⟩, hkept⟩ := h
      · exact he
      · exact absurd ⟨(i, f), List.mem_append_right _ (List.mem_singleton_self _), rfl, hne.symm⟩ hkept
    · intro he
      exact ⟨[], Or.inl ⟨rfl, rfl, he⟩, fun h => nomatch h⟩
  · rw [if_neg hij]
    constructor
    · intro h
      obtain ⟨after, ⟨-, he, -⟩ | ⟨after', rfl, hlast, hne⟩, hkept⟩ := h
      · exact absurd he hij
      · refine ⟨⟨after', hlast, fun hover => hkept ?_⟩, hne⟩
        obtain ⟨b, hb, hover⟩ := hover
        exact ⟨b, List.mem_append_left _ hb, hover⟩
    · intro h
      obtain ⟨⟨after, hlast, hkept⟩, hne⟩ := h
      refine ⟨after ++ [(j, f)], Or.inr ⟨after, rfl, hlast, hne⟩, fun hover => ?_⟩
      obtain ⟨b, hb, hb₁, hb₂⟩ := hover
      rcases List.mem_append.1 hb with hb | hb
      · exact hkept ⟨b, hb, hb₁, hb₂⟩
      · obtain rfl := List.mem_singleton.1 hb
        exact hij hb₁.symm

theorem LastBound.mem (h : LastBound bindings e i after) : (i, e) ∈ bindings := by
  obtain ⟨before, rfl, -⟩ := h
  exact List.mem_append_right _ (List.mem_cons_self ..)

/-- An element that was bound was bound somewhere last. -/
theorem exists_lastBound (h : ∃ b ∈ bindings, b.2 = e) : ∃ i after, LastBound bindings e i after := by
  obtain ⟨⟨j, f⟩, hb, rfl⟩ := h
  induction bindings using List.reverseRecOn with
  | nil => cases hb
  | append_singleton bindings last ih =>
    by_cases he : f = last.2
    · exact ⟨last.1, [], lastBound_append_singleton_iff.2 (Or.inl ⟨rfl, rfl, he⟩)⟩
    · rcases List.mem_append.1 hb with hb | hb
      · obtain ⟨i, after, hlast⟩ := ih hb
        exact ⟨i, after ++ [last], lastBound_append_singleton_iff.2 (Or.inr ⟨after, rfl, hlast, he⟩)⟩
      · exact absurd (congrArg Prod.snd (List.mem_singleton.1 hb)) he

/-- There is one last binding. -/
theorem LastBound.unique (h : LastBound bindings e i after) (h' : LastBound bindings e j after') :
    i = j ∧ after = after' := by
  induction bindings using List.reverseRecOn generalizing after after' with
  | nil => exact absurd h not_lastBound_nil
  | append_singleton bindings last ih =>
    obtain ⟨k, f⟩ := last
    rcases lastBound_append_singleton_iff.1 h with ⟨rfl, rfl, he⟩ | ⟨rest, rfl, h, hne⟩ <;>
      rcases lastBound_append_singleton_iff.1 h' with ⟨rfl, rfl, he'⟩ | ⟨rest', rfl, h', hne'⟩
    · exact ⟨rfl, rfl⟩
    · exact absurd he hne'
    · exact absurd he' hne
    · obtain ⟨rfl, rfl⟩ := ih h h'
      exact ⟨rfl, rfl⟩

/-- An element that is nowhere was never bound, or its last binding was overwritten. -/
theorem forall_not_holds_iff : (∀ i, ¬ Holds bindings e i) ↔
    (∀ b ∈ bindings, b.2 ≠ e) ∨ ∃ i after, LastBound bindings e i after ∧ Overwritten after e i := by
  constructor
  · intro h
    by_cases hbound : ∃ b ∈ bindings, b.2 = e
    · obtain ⟨i, after, hlast⟩ := exists_lastBound hbound
      refine Or.inr ⟨i, after, hlast, ?_⟩
      by_contra hkept
      exact h i ⟨after, hlast, hkept⟩
    · exact Or.inl fun b hb he => hbound ⟨b, hb, he⟩
  · intro h i hholds
    obtain ⟨after, hlast, hkept⟩ := hholds
    obtain hnever | ⟨j, after', hlast', hover⟩ := h
    · exact hnever _ hlast.mem rfl
    · obtain ⟨rfl, rfl⟩ := hlast.unique hlast'
      exact hkept hover

end Binding

namespace Edit

variable {edit : Edit} {n : NodeId} {content : Content}

/-- The binding that an edit asks for. -/
def binding? : Edit → Option Binding
  | associate node element => some (node, element)
  | _ => none

/-- Only bindings move elements. -/
theorem element?_remake_of_none (h : edit.binding? = none) (n : NodeId) (content : Content) :
    (edit.remake n content).element? = content.element? := by
  cases edit with
  | associate => cases h
  | wrap => simp only [remake]; split <;> simp
  | setSyntaxError => simp only [remake]; split <;> simp
  | compress => simp only [remake]; split <;> simp
  | _ => rfl

/-- A binding fills the slot of its node, and empties any other slot that held the element. -/
theorem element?_remake_associate {node : NodeId} {f : Element} (h : n = node → content.kind.isBindable = true) :
    ((associate node f).remake n content).element?
      = if n = node then some f else if content.element? = some f then none else content.element? := by
  rw [remake]
  by_cases hn : n = node
  · rw [if_pos hn, Content.element?_withSlot (h hn)]
  · rw [if_neg hn]
    split
    · exact Content.element?_withSlot_none content
    · rw [Content.withSlot_element?]

theorem element?_createdNode? {node : Node} (h : edit.createdNode? = some node) : node.content.element? = none := by
  cases edit with
  | newComposite => obtain rfl := Option.some.inj h; rfl
  | newLeaf => obtain rfl := Option.some.inj h; rfl
  | wrap => obtain rfl := Option.some.inj h; rfl
  | _ => cases h

end Edit

namespace Replay

open Binding (LastBound Overwritten Holds)

variable {r r' : Replay} {call : Call} {calls : List Call} {text : String} {m : Model} {i : Nat} {e : Element}

/-- The bindings that calls ask for, in order. -/
def bindings (calls : List Call) : List Binding :=
  calls.filterMap (·.byHandle.binding?)

theorem bindings_append_singleton (calls : List Call) (call : Call) :
    bindings (calls ++ [call]) = bindings calls ++ call.byHandle.binding?.toList := by
  unfold bindings
  cases hbinding : call.byHandle.binding? <;> simp [hbinding]

/-- Bindings name handles that are there. -/
theorem Replayed.lt_size_of_holds (h : Replayed text calls r) (hholds : Holds (bindings calls) e i) :
    i < r.handles.size := by
  obtain ⟨after, hlast, -⟩ := hholds
  obtain ⟨call, hmem, hbinding⟩ := List.mem_filterMap.1 hlast.mem
  refine h.known call hmem i ?_
  cases hedit : call.byHandle with
  | associate node element =>
    rw [hedit] at hbinding
    obtain ⟨rfl, -⟩ := Prod.mk.inj (Option.some.inj hbinding)
    exact List.mem_singleton_self _
  | _ =>
    rw [hedit] at hbinding
    cases hbinding

/-- A slot loses the element that is bound elsewhere now. -/
theorem released_eq_some_iff {slot : Option Element} {f : Element} :
    (if slot = some f then none else slot) = some e ↔ slot = some e ∧ e ≠ f := by
  split
  · next hslot =>
    rw [hslot, Option.some.injEq]
    exact iff_of_false nofun fun h => h.2 h.1.symm
  · next hslot =>
    refine ⟨fun he => ⟨he, fun hef => hslot (hef ▸ he)⟩, fun h => h.1⟩

/-- One accepted call: what the node of an old handle holds. -/
theorem Advances.element?_eq_some_iff (ha : r.Advances call r') (h : Reached text r) (hi : i < r.handles.size)
    (hheld : ∀ e, r.model.element? (r.nodeAt i) = some e ↔ Holds (bindings calls) e i) :
    r'.model.element? (r'.nodeAt i) = some e ↔ Holds (bindings (calls ++ [call])) e i := by
  obtain ⟨b, hb, hb'⟩ := ha.exists_bare h hi
  simp only [Model.element?_eq_bare?, hb, Option.bind_some] at hheld
  rw [Model.element?_eq_bare?, hb', Option.bind_some, bindings_append_singleton]
  cases hbinding : call.byHandle.binding? with
  | none => rw [Edit.element?_remake_of_none hbinding, hheld, Option.toList_none, List.append_nil]
  | some binding =>
    cases call with
    | associate node element =>
      obtain rfl := Option.some.inj hbinding
      have hbindable : i = node.toNat → b.content.kind.isBindable = true := by
        intro he
        have hask := ha.admissible.2
        rw [← he, Model.kind?_eq_bare?, hb] at hask
        exact hask
      rw [Option.toList_some, Binding.holds_append_singleton_iff, ← hheld]
      simp only [Call.byHandle, Edit.element?_remake_associate hbindable]
      by_cases hn : i = node.toNat
      · simp [hn, eq_comm]
      · rw [if_neg hn, if_neg hn, released_eq_some_iff]
    | _ => cases hbinding

/-- The node of a handle holds the element that was bound to the handle last, if it was not bound elsewhere since. By
induction on the calls; a new node holds nothing, and no binding names its handle. -/
theorem Replayed.element?_eq_some_iff (h : Replayed text calls r) (hi : i < r.handles.size) (e : Element) :
    r.model.element? (r.nodeAt i) = some e ↔ Holds (bindings calls) e i := by
  induction h using Replayed.induction generalizing e with
  | started m hm =>
    obtain ⟨-, rfl⟩ := Model.ofText_eq_ok_iff.1 hm
    obtain rfl : i = 0 := Nat.lt_one_iff.1 hi
    refine iff_of_false nofun fun hholds => ?_
    obtain ⟨after, hlast, -⟩ := hholds
    exact Binding.not_lastBound_nil hlast
  | accepted calls r call r' h hcall ih =>
    have ha := h.reached.advances hcall
    rcases ha.cases hi with hold | ⟨rfl, hcreates⟩
    · exact ha.element?_eq_some_iff h.reached hold (ih hold)
    · obtain ⟨hnode, created, hcreated, hbare⟩ := ha.created hcreates
      rw [hnode, Model.element?_eq_bare?, hbare, Option.bind_some, Edit.element?_createdNode? hcreated]
      refine iff_of_false nofun fun hholds => ?_
      have hnone : call.byHandle.binding? = none := by
        cases call with
        | associate => cases hcreates
        | _ => rfl
      rw [bindings_append_singleton, hnone, Option.toList_none, List.append_nil] at hholds
      exact Nat.lt_irrefl _ (h.lt_size_of_holds hholds)

/-- In the model of every script that can be replayed, an element is found at the node of the handle that it was bound
to last, unless the handle was bound to another element since; and it is not found exactly if it was never bound or
its last binding was overwritten so. Calls that bind nothing do not matter. -/
theorem replay_bindsLast {script : Script} (h : script.replay text = .ok m) :
    ∃ r, Replayed text script.calls r ∧ r.model = m ∧ ∀ e,
      (∀ i, i < r.handles.size → (m.nodeOfElement? e = some (r.nodeAt i) ↔
        ∃ after, LastBound (bindings script.calls) e i after ∧ ¬ Overwritten after e i)) ∧
      (m.nodeOfElement? e = none ↔ (∀ b ∈ bindings script.calls, b.2 ≠ e) ∨
        ∃ i after, LastBound (bindings script.calls) e i after ∧ Overwritten after e i) := by
  obtain ⟨-, r, hr, rfl⟩ := replay_eq_ok_iff.1 h
  have hcoherent := hr.reached.sound.coherent
  have hfound : ∀ e i, i < r.handles.size →
      (r.model.nodeOfElement? e = some (r.nodeAt i) ↔ Holds (bindings script.calls) e i) := by
    intro e i hi
    unfold Model.nodeOfElement?
    rw [hcoherent.indexed.bound, hr.element?_eq_some_iff hi]
  refine ⟨r, hr, rfl, fun e => ⟨hfound e, ?_⟩⟩
  rw [← Binding.forall_not_holds_iff]
  constructor
  · intro hnone i hholds
    have hsome := (hfound e i (hr.lt_size_of_holds hholds)).2 hholds
    rw [hnone] at hsome
    cases hsome
  · intro hnot
    cases hsome : r.model.nodeOfElement? e with
    | none => rfl
    | some n =>
      -- the node is live, so it has a handle
      have hlive := hcoherent.labelled.live_of_element? ((hcoherent.indexed.bound e n).1 hsome)
      obtain ⟨i, hi, rfl⟩ := hr.reached.exists_nodeAt hlive
      exact absurd ((hfound e i hi).1 hsome) (hnot i)

/-- An element goes from one composite to another, which is marked and asked to give up its slot. The first one is bound
twice more and wrapped, so that it loses the element that it was bound to in between. -/
theorem replay_bindsLast_overwritten : ∃ (script : Script) (m : Model) (r : Replay),
    script.calls = [.composite none 0 (some 0), .composite none 0 (some 0), .associate 1 7, .associate 2 7,
      .error 2 "late" none [], .associate 1 8, .compress 2, .associate 1 9, .wrap none 0 1] ∧
    script.replay "a" = .ok m ∧ Replayed "a" script.calls r ∧ r.model = m ∧
    bindings script.calls = [(1, 7), (2, 7), (1, 8), (1, 9)] ∧
    (r.nodeAt 2 = 3 ∧ m.nodeOfElement? 7 = some (r.nodeAt 2) ∧
      ∃ after, LastBound (bindings script.calls) 7 2 after ∧ ¬ Overwritten after 7 2) ∧
    (m.nodeOfElement? 8 = none ∧ ∃ i after, LastBound (bindings script.calls) 8 i after ∧ Overwritten after 8 i) ∧
    m.nodeOfElement? 5 = none := by
  have h : Replayed "a" [] (start (Model.initial "a")) := .started (Model.ofText_eq_ok_iff.2 ⟨by decide, rfl⟩)
  have h := h.accepted (.composite none 0 (some 0)) rfl
  have h := h.accepted (.composite none 0 (some 0)) rfl
  have h := h.accepted (.associate 1 7) rfl
  have h := h.accepted (.associate 2 7) rfl
  have h := h.accepted (.error 2 "late" none []) rfl
  have h := h.accepted (.associate 1 8) rfl
  have h := h.accepted (.compress 2) rfl
  have h := h.accepted (.associate 1 9) rfl
  have h := h.accepted (.wrap none 0 1) rfl
  have hreplay : Script.replay ⟨none, _⟩ "a" = .ok _ := replay_eq_ok_iff.2 ⟨rfl, _, h, rfl⟩
  obtain ⟨r, hr, -, hbinds⟩ := replay_bindsLast hreplay
  obtain rfl := hr.unique h
  have hseven := ((hbinds 7).1 2 (by rw [h.size]; decide)).1 rfl
  have height := ((hbinds 8).2.1 rfl).resolve_left fun hnever => hnever (1, 8) (.tail _ (.tail _ (.head _))) rfl
  have hfive := (hbinds 5).2.2 (Or.inl (by decide))
  exact ⟨_, _, _, rfl, hreplay, hr, rfl, rfl, ⟨rfl, rfl, hseven⟩, ⟨rfl, height⟩, hfive⟩

end Replay

end SyntaxTree
