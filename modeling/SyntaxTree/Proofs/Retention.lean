import SyntaxTree.Proofs.Recorded

/-!
# What a node keeps from the calls that name it

A call that creates a node says what the node is, and later calls only add to that. However often the node was replaced
since, what stands for its handle is a leaf for the same piece of text or a composite with the same look-ahead, for the
same grammar element. Its error is the last one that it was marked with, and it still has its slot unless it was asked
to give the slot up at a time when the slot was empty. `Retains` says this of a handle, and `replay_retains` of all
handles of all scripts.
-/

namespace SyntaxTree

namespace Edit

variable {edit : Edit} {n : NodeId} {content : Content}

/-- The error that an edit marks a node with. -/
def errorOn? (n : NodeId) : Edit → Option SyntaxError
  | setSyntaxError node error => if n = node then some error else none
  | _ => none

/-- The edit asks a node to give up its slot, if the slot is empty. -/
def Slims (n : NodeId) : Edit → Prop
  | wrap _ _ node | compress node => n = node
  | _ => False

theorem errorOn?_of_not_mem (h : n ∉ edit.arguments) : edit.errorOn? n = none := by
  cases edit with
  | setSyntaxError node => exact if_neg fun he => h (List.mem_singleton.2 he)
  | _ => rfl

theorem Slims.mem_arguments (h : edit.Slims n) : n ∈ edit.arguments := by
  cases edit with
  | wrap _ _ node => exact List.mem_singleton.2 h
  | compress node => exact List.mem_singleton.2 h
  | _ => exact h.elim

/-- An error takes the place of the one before. -/
theorem syntaxError?_remake (h : content.kind ≠ .root) (n : NodeId) (edit : Edit) :
    (edit.remake n content).syntaxError? = (edit.errorOn? n).or content.syntaxError? := by
  cases edit with
  | setSyntaxError node error =>
    simp only [remake, errorOn?]
    split
    · exact Content.syntaxError?_marked h error
    · rfl
  | associate => simp [remake, errorOn?]
  | wrap => simp only [remake, errorOn?]; split <;> simp
  | compress => simp only [remake, errorOn?]; split <;> simp
  | _ => rfl

theorem remake_of_slims (h : edit.Slims n) (content : Content) : edit.remake n content = content.compressed := by
  cases edit with
  | wrap => exact if_pos h
  | compress => exact if_pos h
  | _ => exact h.elim

theorem isBindable_remake_of_not_slims (h : ¬ edit.Slims n) (content : Content) :
    (edit.remake n content).kind.isBindable = content.kind.isBindable := by
  cases edit with
  | wrap _ _ node => rw [remake, if_neg (show ¬ n = node from h)]
  | compress node => rw [remake, if_neg (show ¬ n = node from h)]
  | associate => simp [remake]
  | setSyntaxError => simp only [remake]; split <;> simp
  | _ => rfl

/-- A new node is a leaf or a composite with a slot. -/
theorem kind_createdNode? {node : Node} (h : edit.createdNode? = some node) :
    node.content.kind ≠ .root ∧ (node.kind.isLeaf = false → node.kind.isBindable = true) := by
  cases edit with
  | newLeaf _ _ _ hidden error =>
    obtain rfl := Option.some.inj h
    cases hidden <;> cases error <;> exact ⟨nofun, nofun⟩
  | newComposite =>
    obtain rfl := Option.some.inj h
    exact ⟨nofun, fun _ => rfl⟩
  | wrap =>
    obtain rfl := Option.some.inj h
    exact ⟨nofun, fun _ => rfl⟩
  | _ => cases h

end Edit

namespace Replay

variable {r r' : Replay} {call : Call} {calls : List Call} {text : String} {m : Model} {i : Nat} {n : NodeId}
  {created : Node}

/-- Some call asked the node of the handle to give up its slot when the slot was empty. -/
def GaveUpSlot (text : String) (calls : List Call) (i : Nat) : Prop :=
  ∃ k call r, calls[k]? = some call ∧ call.byHandle.Slims i ∧ Replayed text (calls.take k) r ∧
    r.model.element? (r.nodeAt i) = none

/-- What the node of the handle has from the calls: it was created as `created`, and it was named by calls since. -/
structure Retains (text : String) (calls : List Call) (i : Nat) (created : Node) (m : Model) (n : NodeId) :
    Prop where
  notRoot : m.isRoot n = false
  isLeaf : m.isLeaf n = created.kind.isLeaf
  leafRange : m.leafRange? n = created.content.leafRange?
  isHidden : m.isHidden n = created.kind.isHidden
  grammar : m.grammar? n = created.grammar
  lookahead : m.lookahead? n = created.content.lookahead?
  syntaxError : m.syntaxError? n
    = (calls.filterMap (·.byHandle.errorOn? i)).getLast?.or created.content.syntaxError?
  bindable : m.isLeaf n = false → ((m.kind? n).any NodeKind.isBindable = true ↔ ¬ GaveUpSlot text calls i)

/-! ## One call -/

theorem gaveUpSlot_append_singleton_iff (h : Replayed text calls r) : GaveUpSlot text (calls ++ [call]) i ↔
    GaveUpSlot text calls i ∨ call.byHandle.Slims i ∧ r.model.element? (r.nodeAt i) = none := by
  constructor
  · intro hgave
    obtain ⟨k, c, r₀, hc, hslims, hr₀, hnone⟩ := hgave
    rcases Nat.lt_trichotomy k calls.length with hk | rfl | hk
    · rw [List.getElem?_append_left hk] at hc
      rw [List.take_append_of_le_length (Nat.le_of_lt hk)] at hr₀
      exact Or.inl ⟨k, c, r₀, hc, hslims, hr₀, hnone⟩
    · rw [List.getElem?_concat_length] at hc
      rw [List.take_left] at hr₀
      obtain rfl := Option.some.inj hc
      obtain rfl := h.unique hr₀
      exact Or.inr ⟨hslims, hnone⟩
    · rw [List.getElem?_eq_none (by simp only [List.length_append, List.length_singleton]; omega)] at hc
      cases hc
  · intro hgave
    obtain ⟨k, c, r₀, hc, hslims, hr₀, hnone⟩ | ⟨hslims, hnone⟩ := hgave
    · have hk : k < calls.length := (List.getElem?_eq_some_iff.1 hc).1
      refine ⟨k, c, r₀, ?_, hslims, ?_, hnone⟩
      · rw [List.getElem?_append_left hk, hc]
      · rwa [List.take_append_of_le_length (Nat.le_of_lt hk)]
    · refine ⟨calls.length, call, r, List.getElem?_concat_length, hslims, ?_, hnone⟩
      rwa [List.take_left]

/-- An accepted call adds to what the nodes of old handles have. -/
theorem Retains.step (hretains : Retains text calls i created r.model (r.nodeAt i)) (h : Replayed text calls r)
    (ha : r.Advances call r') (hi : i < r.handles.size) :
    Retains text (calls ++ [call]) i created r'.model (r'.nodeAt i) := by
  obtain ⟨b, hb, hb'⟩ := ha.exists_bare h.reached hi
  have hroot : b.content.kind ≠ .root := by
    have hroot := hretains.notRoot
    rw [Model.isRoot_eq_bare?, hb] at hroot
    simpa [Node.kind] using hroot
  have htoken : r'.model.token? (r'.nodeAt i) = r.model.token? (r.nodeAt i) := by
    rw [Model.token?_eq_bare?, Model.token?_eq_bare?, hb, hb', Option.bind_some, Option.bind_some, Edit.token?_remake]
  have hleaf : r'.model.isLeaf (r'.nodeAt i) = r.model.isLeaf (r.nodeAt i) := by
    rw [Model.isLeaf_eq_token?, Model.isLeaf_eq_token?, htoken]
  refine ⟨?_, ?_, ?_, ?_, ?_, ?_, ?_, fun hcomposite => ?_⟩
  · rw [Model.isRoot_eq_bare?, hb']
    simpa [Node.kind, Edit.kind_remake_eq_root_iff] using hroot
  · rw [hleaf, hretains.isLeaf]
  · rw [Model.leafRange?_eq_token?, htoken, ← Model.leafRange?_eq_token?, hretains.leafRange]
  · rw [Model.isHidden_eq_token?, htoken, ← Model.isHidden_eq_token?, hretains.isHidden]
  · rw [← hretains.grammar, Model.grammar?_eq_bare?, Model.grammar?_eq_bare?, hb, hb']
    rfl
  · rw [← hretains.lookahead, Model.lookahead?_eq_bare?, Model.lookahead?_eq_bare?, hb, hb', Option.bind_some,
      Option.bind_some, Edit.lookahead?_remake]
  · have herror := hretains.syntaxError
    rw [Model.syntaxError?_eq_bare?, hb, Option.bind_some] at herror
    rw [Model.syntaxError?_eq_bare?, hb', Option.bind_some, Edit.syntaxError?_remake hroot, herror,
      List.filterMap_append, List.getLast?_append, Option.or_assoc]
    cases hmark : call.byHandle.errorOn? i <;> simp [hmark]
  · have hbindable := hretains.bindable (hleaf.symm.trans hcomposite)
    have helement : r.model.element? (r.nodeAt i) = b.content.element? := by
      rw [Model.element?_eq_bare?, hb, Option.bind_some]
    rw [Model.kind?_eq_bare?, hb, Option.map_some, Option.any_some] at hbindable
    rw [Model.kind?_eq_bare?, hb', Option.map_some, Option.any_some, gaveUpSlot_append_singleton_iff h, helement]
    rw [Node.kind] at hbindable ⊢
    by_cases hslims : call.byHandle.Slims i
    · rw [Edit.remake_of_slims hslims, Content.isBindable_compressed hroot]
      cases he : b.content.element? with
      | none => simp [hslims]
      | some e =>
        -- what is filled is there
        simpa using hbindable.1 (Content.isBindable_of_element? he)
    · rw [Edit.isBindable_remake_of_not_slims hslims]
      simpa [hslims] using hbindable

/-- A new node is what its call says, since no call named it before. -/
theorem Replayed.retains_new (h : Replayed text calls r) (ha : r.Advances call r')
    (hcreates : createsHandle call = true) : ∃ created, call.byHandle.createdNode? = some created ∧
      Retains text (calls ++ [call]) r.handles.size created r'.model (r'.nodeAt r.handles.size) := by
  obtain ⟨hnode, created, hcreated, hbare⟩ := ha.created hcreates
  refine ⟨created, hcreated, ?_⟩
  rw [hnode]
  have hunnamed : ∀ c ∈ calls ++ [call], r.handles.size ∉ c.byHandle.arguments := by
    intro c hc hmem
    rcases List.mem_append.1 hc with hc | hc
    · exact Nat.lt_irrefl _ (h.known c hc _ hmem)
    · obtain rfl := List.mem_singleton.1 hc
      exact Nat.lt_irrefl _ (ha.lt_of_mem_arguments hmem)
  have herrors : (calls ++ [call]).filterMap (·.byHandle.errorOn? r.handles.size) = [] :=
    List.filterMap_eq_nil_iff.2 fun c hc => Edit.errorOn?_of_not_mem (hunnamed c hc)
  have hslot : ¬ GaveUpSlot text (calls ++ [call]) r.handles.size := by
    intro hgave
    obtain ⟨k, c, r₀, hc, hslims, -⟩ := hgave
    exact hunnamed c (List.mem_of_getElem? hc) hslims.mem_arguments
  obtain ⟨hroot, hslotted⟩ := Edit.kind_createdNode? hcreated
  have hkind : r'.model.kind? r.model.size = some created.kind := by rw [Model.kind?_eq_bare?, hbare, Option.map_some]
  have hleaf : r'.model.isLeaf r.model.size = created.kind.isLeaf := by rw [Model.isLeaf, hkind, Option.any_some]
  refine ⟨?_, hleaf, ?_, ?_, ?_, ?_, ?_, fun hcomposite => ?_⟩
  · rw [Model.isRoot, hkind]
    simpa [Node.kind] using hroot
  · rw [Model.leafRange?_eq_bare?, hbare, Option.bind_some]
  · rw [Model.isHidden, hkind, Option.any_some]
  · rw [Model.grammar?_eq_bare?, hbare, Option.bind_some]
  · rw [Model.lookahead?_eq_bare?, hbare, Option.bind_some]
  · rw [Model.syntaxError?_eq_bare?, hbare, Option.bind_some, herrors, List.getLast?_nil, Option.none_or]
  · rw [hkind, Option.any_some, hslotted (hleaf.symm.trans hcomposite)]
    exact iff_of_true rfl hslot

/-! ## Whole scripts -/

/-- The node of every handle but the root's retains what its calls said. -/
theorem Replayed.retains (h : Replayed text calls r) (hpos : 0 < i) (hi : i < r.handles.size) :
    ∃ creator created, (calls.filter createsHandle)[i - 1]? = some creator ∧
      creator.byHandle.createdNode? = some created ∧ Retains text calls i created r.model (r.nodeAt i) := by
  induction h using Replayed.induction with
  | started m hm => exact absurd hi (Nat.not_lt_of_le hpos)
  | accepted calls r call r' h hcall ih =>
    have ha := h.reached.advances hcall
    rw [List.filter_append]
    rcases ha.cases hi with hold | ⟨rfl, hcreates⟩
    · obtain ⟨creator, created, hcreator, hcreated, hretains⟩ := ih hold
      refine ⟨creator, created, ?_, hcreated, hretains.step h ha hold⟩
      rw [List.getElem?_append_left (List.getElem?_eq_some_iff.1 hcreator).1, hcreator]
    · obtain ⟨created, hcreated, hretains⟩ := h.retains_new ha hcreates
      refine ⟨call, created, ?_, hcreated, hretains⟩
      rw [h.size, Nat.add_sub_cancel, List.getElem?_append_right (Nat.le_refl _)]
      simp [hcreates]

end Replay

end SyntaxTree
