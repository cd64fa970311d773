import SyntaxTree.Proofs.Preservation

/-!
# What edits make of nodes

Links aside, a node is its content and its grammar element. An edit may move both to a fresh node of another kind, and
may do so several times in a run; but seen from the node that stands for the old one, all that happens is that some
content changes in place. `Edit.remake` says how: by a slot that is filled or emptied, by an error, or by a slot that
is given up. `Outcome.bare?_resolve` is the step lemma that everything about the attributes of nodes is derived from,
and the lemmas on `Edit.remake` say which attributes no edit touches.
-/

namespace SyntaxTree

open Function (update update_self update_of_ne)
open Links (rename rename_self rename_of_ne)

/-! ## Content -/

namespace Content

/-- The content without its slot, if the slot is empty and not the root's. -/
def compressed (content : Content) : Content :=
  content.compressed?.getD content

/-- The content with an error in place of any that it had. The root has none. -/
def marked (error : SyntaxError) (content : Content) : Content :=
  (content.marked? error).getD content

/-- The look-ahead of a composite. -/
def lookahead? (content : Content) : Option Nat :=
  content.branch?.map (·.lookahead)

@[simp] theorem token?_compressed (content : Content) : content.compressed.token? = content.token? := by
  rcases content with _ | _ | _ | ⟨_, _ | _, _⟩ <;> rfl

@[simp] theorem token?_marked (error : SyntaxError) (content : Content) :
    (content.marked error).token? = content.token? := by
  cases content <;> rfl

@[simp] theorem lookahead?_withFirstChild (child : Option NodeId) (content : Content) :
    (content.withFirstChild child).lookahead? = content.lookahead? := by
  cases content <;> rfl

@[simp] theorem lookahead?_withSlot (slot : Option Element) (content : Content) :
    (content.withSlot slot).lookahead? = content.lookahead? := by
  cases content <;> rfl

@[simp] theorem lookahead?_compressed (content : Content) : content.compressed.lookahead? = content.lookahead? := by
  rcases content with _ | _ | _ | ⟨_, _ | _, _⟩ <;> rfl

@[simp] theorem lookahead?_marked (error : SyntaxError) (content : Content) :
    (content.marked error).lookahead? = content.lookahead? := by
  cases content <;> rfl

@[simp] theorem syntaxError?_withFirstChild (child : Option NodeId) (content : Content) :
    (content.withFirstChild child).syntaxError? = content.syntaxError? := by
  cases content <;> rfl

@[simp] theorem syntaxError?_withSlot (slot : Option Element) (content : Content) :
    (content.withSlot slot).syntaxError? = content.syntaxError? := by
  cases content <;> rfl

@[simp] theorem syntaxError?_compressed (content : Content) :
    content.compressed.syntaxError? = content.syntaxError? := by
  rcases content with _ | _ | _ | ⟨_, _ | _, _⟩ <;> rfl

theorem syntaxError?_marked {content : Content} (h : content.kind ≠ .root) (error : SyntaxError) :
    (content.marked error).syntaxError? = some error := by
  cases content with
  | root => exact absurd rfl h
  | _ => rfl

@[simp] theorem element?_compressed (content : Content) : content.compressed.element? = content.element? := by
  rcases content with _ | _ | _ | ⟨_, _ | _, _⟩ <;> rfl

@[simp] theorem element?_marked (error : SyntaxError) (content : Content) :
    (content.marked error).element? = content.element? := by
  cases content <;> rfl

@[simp] theorem isBindable_marked (error : SyntaxError) (content : Content) :
    (content.marked error).kind.isBindable = content.kind.isBindable := by
  rcases content with ⟨_, _ | _, _ | _⟩ | ⟨_, _⟩ | ⟨_, _ | _⟩ | ⟨_, _, _ | _⟩ <;> rfl

/-- What is not the root has a slot after compression exactly if the slot is filled. -/
theorem isBindable_compressed {content : Content} (h : content.kind ≠ .root) :
    content.compressed.kind.isBindable = content.element?.isSome := by
  rcases content with ⟨_, _ | _, _ | _⟩ | _ | ⟨_, _ | _⟩ | ⟨_, _ | _, _ | _⟩ <;>
    first | rfl | exact absurd rfl h

end Content

namespace Model

variable {m m' : Model} {n x : NodeId} {b : Node} {content : Content}

/-! ## Reading bare nodes -/

theorem leafRange?_eq_bare? (m : Model) (n : NodeId) :
    m.leafRange? n = (m.bare? n).bind (·.content.leafRange?) := by
  rw [leafRange?, content?, bare?]
  cases m.get? n <;> simp

theorem syntaxError?_eq_bare? (m : Model) (n : NodeId) :
    m.syntaxError? n = (m.bare? n).bind (·.content.syntaxError?) := by
  rw [syntaxError?, bare?]
  cases m.get? n <;> simp

theorem grammar?_eq_bare? (m : Model) (n : NodeId) : m.grammar? n = (m.bare? n).bind (·.grammar) := by
  rw [grammar?, bare?]
  cases m.get? n <;> rfl

theorem lookahead?_eq_bare? (m : Model) (n : NodeId) :
    m.lookahead? n = (m.bare? n).bind (·.content.lookahead?) := by
  rw [lookahead?, bare?]
  cases m.get? n with
  | none => rfl
  | some node => exact (Content.lookahead?_withFirstChild none node.content).symm

theorem Live.replacedBy_eq (hn : m.Live n) (hb : m.bare? n = some b) : b.replacedBy = none := by
  obtain ⟨b', hb', hlive⟩ := live_iff_bare?.1 hn
  obtain rfl := Option.some.inj (hb.symm.trans hb')
  exact hlive

/-- Links aside, a live node is its content and its grammar element. -/
theorem eq_unlinked_of_bare? (hb : m.bare? n = some b) (hlive : b.replacedBy = none) :
    b = .unlinked b.content b.grammar := by
  obtain ⟨node, -, rfl⟩ := get?_of_bare? hb
  rw [Node.bare_replacedBy] at hlive
  simp [Node.bare, Node.detached, Node.unlinked, hlive]

/-! ## Replacements -/

/-- A fresh node took over for another: seen from the nodes that stand for the old ones, only content changed. -/
theorem bare?_rename {stale : Node} (hb : m.bare? n = some b) (hlive : b.replacedBy = none)
    (hbare : m'.bare? = update (update m.bare? m.size (some (.unlinked content b.grammar))) n (some stale))
    (hx : m.Live x) : m'.bare? (rename n m.size x)
      = (m.bare? x).map fun b => { b with content := if x = n then content else b.content } := by
  by_cases hxn : x = n
  · subst hxn
    rw [rename_self, hbare, update_of_ne (Nat.ne_of_gt (lt_size_of_bare? hb)), update_self, hb, Option.map_some,
      eq_unlinked_of_bare? hb hlive]
    simp [Node.unlinked]
  · rw [rename_of_ne hxn, hbare, update_of_ne hxn, update_of_ne hx.ne_size]
    simp [hxn]

theorem Marked.bare?_resolve (hm : Marked m m' n b content) (hb : m.bare? n = some b) (hlive : b.replacedBy = none)
    {error : SyntaxError} (hcontent : b.content.marked? error = some content) (hx : m.Live x) :
    m'.bare? (m'.resolve x)
      = (m.bare? x).map fun b => { b with content := if x = n then b.content.marked error else b.content } := by
  have hrenamed := hm.renamed hb (Content.token?_of_marked? hcontent)
  rw [hrenamed.resolve_eq hx, bare?_rename hb hlive hm.bare hx]
  by_cases hxn : x = n
  · subst hxn
    rw [hb, Option.map_some, Option.map_some, Content.marked, hcontent, Option.getD_some]
  · simp [hxn]

theorem Compressed.bare?_resolve (hc : Compressed m n b m') (hb : m.bare? n = some b) (hlive : b.replacedBy = none)
    (hx : m.Live x) : m'.bare? (m'.resolve x)
      = (m.bare? x).map fun b => { b with content := if x = n then b.content.compressed else b.content } := by
  cases hc with
  | unchanged hnone =>
    rw [resolve_of_live hx]
    by_cases hxn : x = n
    · subst hxn
      rw [hb, Option.map_some, Content.compressed, hnone, if_pos rfl, Option.getD_none]
    · simp [hxn]
  | replaced hsome _ hr =>
    have hrenamed := hr.renamed hb (Content.token?_of_compressed? hsome)
    rw [hrenamed.resolve_eq hx, bare?_rename hb hlive hr.bare hx]
    by_cases hxn : x = n
    · subst hxn
      rw [hb, Option.map_some, Option.map_some, Content.compressed, hsome, Option.getD_some]
    · simp [hxn]

end Model

/-! ## Edits -/

namespace Edit

variable {m m' : Model} {edit : Edit} {answer : Option NodeId} {n : NodeId}

/-- What an edit makes of the content of a node. -/
def remake (n : NodeId) : Edit → Content → Content
  | associate node element, content => content.withSlot
      (if n = node then some element else if content.element? = some element then none else content.element?)
  | wrap _ _ node, content | compress node, content => if n = node then content.compressed else content
  | setSyntaxError node error, content => if n = node then content.marked error else content
  | newComposite .., content | newLeaf .., content | addChild .., content => content

/-- The node that an edit creates for its caller, apart from its links. -/
def createdNode? : Edit → Option Node
  | newComposite grammar lookahead _ | wrap grammar lookahead _ =>
    some (.unlinked (.freshComposite lookahead) grammar)
  | newLeaf offset length grammar hidden error _ =>
    some (.unlinked (.leaf ⟨offset, offset + length, Nat.le_add_right offset length⟩ hidden error) grammar)
  | addChild .. | associate .. | setSyntaxError .. | compress .. => none

/-- The edit with other names for the nodes. -/
def rename (f : NodeId → NodeId) : Edit → Edit
  | newComposite grammar lookahead parent => newComposite grammar lookahead (parent.map f)
  | newLeaf offset length grammar hidden error parent => newLeaf offset length grammar hidden error (f parent)
  | addChild parent child => addChild (f parent) (f child)
  | associate node element => associate (f node) element
  | wrap grammar lookahead node => wrap grammar lookahead (f node)
  | setSyntaxError node error => setSyntaxError (f node) error
  | compress node => compress (f node)

/-! ### What no edit touches -/

@[simp] theorem token?_remake (n : NodeId) (edit : Edit) (content : Content) :
    (edit.remake n content).token? = content.token? := by
  cases edit <;> simp only [remake] <;> first | rfl | (split <;> simp)

@[simp] theorem lookahead?_remake (n : NodeId) (edit : Edit) (content : Content) :
    (edit.remake n content).lookahead? = content.lookahead? := by
  cases edit <;> simp only [remake] <;> first | rfl | (split <;> simp)

theorem kind_remake_eq_root_iff (n : NodeId) (edit : Edit) (content : Content) :
    (edit.remake n content).kind = .root ↔ content.kind = .root := by
  have hcompressed : content.compressed.kind = .root ↔ content.kind = .root := by
    rcases content with ⟨_, _ | _, _ | _⟩ | ⟨_, _⟩ | ⟨_, _ | _⟩ | ⟨_, _ | _, _ | _⟩ <;>
      simp [Content.compressed, Content.compressed?, Content.kind]
  have hmarked : ∀ error, (content.marked error).kind = .root ↔ content.kind = .root := fun error => by
    rcases content with ⟨_, _ | _, _ | _⟩ | ⟨_, _⟩ | ⟨_, _ | _⟩ | ⟨_, _ | _, _ | _⟩ <;>
      simp [Content.marked, Content.marked?, Content.kind]
  cases edit <;> simp only [remake] <;> first | rfl | (split <;> simp [hcompressed, hmarked])

@[simp] theorem createdNode?_rename (f : NodeId → NodeId) (edit : Edit) :
    (edit.rename f).createdNode? = edit.createdNode? := by
  cases edit <;> rfl

/-- Other names make no difference, as long as different nodes have different names. -/
theorem remake_rename {f : NodeId → NodeId} (hf : ∀ node ∈ edit.arguments, f n = f node → n = node)
    (content : Content) : (edit.rename f).remake (f n) content = edit.remake n content := by
  have hiff : ∀ node ∈ edit.arguments, (f n = f node ↔ n = node) := fun node hnode =>
    ⟨hf node hnode, congrArg f⟩
  cases edit with
  | newComposite => rfl
  | newLeaf => rfl
  | addChild => rfl
  | associate node => simp only [rename, remake, hiff node (List.mem_singleton_self node)]
  | wrap _ _ node => simp only [rename, remake, hiff node (List.mem_singleton_self node)]
  | setSyntaxError node => simp only [rename, remake, hiff node (List.mem_singleton_self node)]
  | compress node => simp only [rename, remake, hiff node (List.mem_singleton_self node)]

/-! ### One edit -/

/-- Whatever an edit does to a node, it is the content of what stands for the node that is remade. -/
theorem Outcome.bare?_resolve (h : m.Coherent) (ho : edit.Outcome m m' answer) (hn : m.Live n) :
    m'.bare? (m'.resolve n) = (m.bare? n).map fun b => { b with content := edit.remake n b.content } := by
  -- most edits leave the bare nodes of live nodes alone
  have hsame : m'.bare? n = m.bare? n →
      m'.bare? (m'.resolve n) = (m.bare? n).map fun b => { b with content := b.content } := by
    intro he
    rw [Model.resolve_of_live ((Model.live_congr he).2 hn), he]
    exact Option.map_id'.symm
  cases ho with
  | newComposite hcreated => exact hsame (by rw [hcreated.bare, update_of_ne hn.ne_size])
  | newLeaf _ hcreated => exact hsame (by rw [hcreated.bare, update_of_ne hn.ne_size])
  | addChild _ hadded => exact hsame (by rw [hadded.data.bare])
  | associate hbound =>
    obtain ⟨b, hb, hlive⟩ := Model.live_iff_bare?.1 hn
    have hbare := hbound.bare n
    rw [Model.resolve_of_live, hbare]
    · rfl
    · exact Model.live_iff_bare?.2 ⟨_, hbare.trans (congrArg _ hb), hlive⟩
  | @wrap _ _ _ _ _ m₁ _ hb hnode hwrapped _ hcompressed =>
    have hbare : m₁.bare? n = m.bare? n := by rw [hwrapped.bare, update_of_ne hn.ne_size]
    have hlive := (h.live_of_parent? hnode).replacedBy_eq hb
    rw [hcompressed.bare?_resolve (hwrapped.bare?_old hb) hlive ((Model.live_congr hbare).2 hn), hbare]
    rfl
  | setSyntaxError hb hnode hcontent hmarked =>
    exact hmarked.bare?_resolve hb ((h.live_of_parent? hnode).replacedBy_eq hb) hcontent hn
  | compress hb hlive hcompressed => exact hcompressed.bare?_resolve hb hlive hn

/-- The node that an edit creates is there and was not replaced. -/
theorem Outcome.bare?_created (h : m.Coherent) (ho : edit.Outcome m m' answer) {node : Node}
    (hcreated : edit.createdNode? = some node) : m'.bare? m.size = some node ∧ m'.resolve m.size = m.size := by
  have hfresh : ∀ {content grammar}, m'.bare? m.size = some (.unlinked content grammar) →
      m'.bare? m.size = some (.unlinked content grammar) ∧ m'.resolve m.size = m.size := fun hbare =>
    ⟨hbare, Model.resolve_of_live (Model.live_iff_bare?.2 ⟨_, hbare, rfl⟩)⟩
  cases ho with
  | newComposite hnew =>
    obtain rfl := Option.some.inj hcreated
    exact hfresh (by rw [hnew.bare, update_self])
  | @newLeaf offset length grammar hidden error parent range m' hrange hnew =>
    obtain rfl := Option.some.inj hcreated
    obtain ⟨-, hstart, hstop⟩ := (Model.leafRange_eq_ok_iff h.labelled.short).1 hrange
    obtain rfl : range = ⟨offset, offset + length, Nat.le_add_right offset length⟩ := by
      cases range
      simp_all
    exact hfresh (by rw [hnew.bare, update_self])
  | @wrap grammar lookahead node p b m₁ m' hb hnode hwrapped _ hcompressed =>
    obtain rfl := Option.some.inj hcreated
    have hne : m.size ≠ node := (h.live_of_parent? hnode).ne_size.symm
    have hbare : m₁.bare? m.size = some (.unlinked (.freshComposite lookahead) grammar) := by
      rw [hwrapped.bare, update_self]
    have hlive : m₁.Live m.size := Model.live_iff_bare?.2 ⟨_, hbare, rfl⟩
    -- compressing the wrapped node does not touch the wrapper
    have hresolve := Model.resolve_of_live (hcompressed.live_of_ne (hwrapped.bare?_old hb) hlive hne)
    have hkept := hcompressed.bare?_resolve (hwrapped.bare?_old hb) ((h.live_of_parent? hnode).replacedBy_eq hb) hlive
    rw [hresolve, hbare, Option.map_some, if_neg hne] at hkept
    exact ⟨hkept, hresolve⟩
  | addChild => cases hcreated
  | associate => cases hcreated
  | setSyntaxError => cases hcreated
  | compress => cases hcreated

end Edit

end SyntaxTree
