import SyntaxTree.Proofs.Reachable

/-!
# Edits that name nodes from elsewhere

An edit is meant to name nodes that are there. What it does with any other name is decided by the look-ups it makes,
and these come at different points. All edits but two look at the nodes they name before anything else. A new composite
and a new leaf are allocated first, so for them the name of the new node itself is one more name that is found.

A leaf cannot be a parent, which leaves a single foreign name that is accepted: `NamesItself` is the edit that creates a
composite as its own child. It leads to a node that is above itself (`NamesItself.apply_eq`). Every other edit that goes
through names nodes that are there (`allocated_of_apply`), and so no node is above itself afterwards.
-/

namespace SyntaxTree

namespace Model

open Function (update update_self update_of_ne)

variable {m m' : Model} {p : NodeId} {content : Content} {grammar : Option String}

/-- The new node itself is found as a parent, unless it is a leaf. No other foreign node is. -/
theorem WellFormed.lt_size_of_push_link (h : m.WellFormed) (hcontent : content.firstChild? = none)
    (hok : (m.push (.unlinked content grammar)).link p m.size = .ok m') :
    p < m.size ∨ p = m.size ∧ content.kind.isLeaf = false := by
  have hbare := bare?_push_unlinked m hcontent grammar
  have hlinkable := h.linkable_of_push_link hcontent hok
  rcases (live_update hbare rfl).1 hlinkable.parent_live with hlive | rfl
  · exact Or.inl hlive.lt_size
  · have hleaf := hlinkable.parent_composite
    rw [isLeaf_eq_bare?, hbare, update_self] at hleaf
    exact Or.inr ⟨rfl, hleaf⟩

/-- A composite that is its own parent, its own neighbour and its own child. -/
def ownParent (m : Model) (grammar : Option String) (lookahead : Nat) : Node :=
  ⟨.bindable ⟨some m.size, lookahead⟩ none none, grammar, some m.size, some m.size, some m.size, none⟩

/-- A composite that is created under itself is put there. -/
theorem newComposite_self (m : Model) (grammar : Option String) (lookahead : Nat) :
    m.newComposite grammar lookahead (some m.size) = .ok (m.push (m.ownParent grammar lookahead), m.size) := by
  have hlook : ∀ node, (m.push node).lookup m.size = .ok node := by
    intro node
    rw [lookup_eq_ok_iff, get?_push, if_pos rfl]
  have hlive : (m.push (.unlinked (.freshComposite lookahead) grammar)).lookupLive m.size =
      .ok (.unlinked (.freshComposite lookahead) grammar) := by
    rw [lookupLive, hlook]
    rfl
  have hchild : ∀ node : Node, node.content.branch? = some ⟨none, lookahead⟩ →
      (m.push node).setFirstChild m.size (some m.size) =
        .ok (m.push { node with content := node.content.withFirstChild (some m.size) }) := by
    intro node hnode
    rw [setFirstChild, hlook, ok_bind, hnode]
    exact congrArg Except.ok (modify_push_size m node _)
  have hlink : (m.push (.unlinked (.freshComposite lookahead) grammar)).link m.size m.size =
      .ok (m.push (m.ownParent grammar lookahead)) := by
    rw [link, hlive, ok_bind, appendChild, lookupUnlinked, hlive, hlook]
    show Model.setFirstChild (Model.modify _ _ _) _ _ = _
    rw [modify_push_size, hchild _ rfl]
    rfl
  rw [newComposite]
  simp only [hlink]
  rfl

theorem mem_ancestors_push_ownParent (m : Model) (grammar : Option String) (lookahead : Nat) :
    m.size ∈ (m.push (m.ownParent grammar lookahead)).ancestors m.size := by
  have hparent : (m.push (m.ownParent grammar lookahead)).parent? m.size = some m.size := by
    rw [parent?, get?_push, if_pos rfl]
    rfl
  rw [ancestors, size_push, ancestorsWithin, hparent]
  exact List.mem_cons_self ..

end Model

namespace Edit

variable {m m' : Model} {edit : Edit} {answer : Option NodeId}

/-- The edit creates a composite as its own child. -/
def NamesItself (m : Model) : Edit → Prop
  | newComposite _ _ parent => parent = some m.size
  | _ => False

/-- Any other edit that goes through names nodes that are there. -/
theorem allocated_of_apply (h : m.Coherent) (hself : ¬ edit.NamesItself m) {r : Model × Option NodeId}
    (hok : edit.apply m = .ok r) : edit.Allocated m := by
  have hone : ∀ {n : NodeId}, m.Live n → ∀ x ∈ [n], x < m.size := by
    intro n hn x hx
    rw [List.mem_singleton.1 hx]
    exact hn.lt_size
  cases edit with
  | newComposite grammar lookahead parent =>
    obtain ⟨r, hok, -⟩ := bind_eq_ok_iff.1 hok
    intro n hn
    obtain rfl : parent = some n := by simpa [arguments] using hn
    obtain ⟨m₁, hlink, -⟩ := bind_eq_ok_iff.1 hok
    rcases h.lt_size_of_push_link rfl hlink with hlt | ⟨rfl, -⟩
    · exact hlt
    · exact absurd rfl hself
  | newLeaf offset length grammar hidden error parent =>
    obtain ⟨r, hok, -⟩ := bind_eq_ok_iff.1 hok
    obtain ⟨range, -, hok⟩ := bind_eq_ok_iff.1 hok
    obtain ⟨m₁, hlink, -⟩ := bind_eq_ok_iff.1 hok
    intro n hn
    rw [List.mem_singleton.1 hn]
    rcases h.lt_size_of_push_link rfl hlink with hlt | ⟨-, hleaf⟩
    · exact hlt
    · rw [Content.isLeaf_kind] at hleaf
      cases hleaf
  | addChild parent child =>
    obtain ⟨r, hok, -⟩ := bind_eq_ok_iff.1 hok
    obtain ⟨hlinkable, -⟩ := h.linkable_of_addChild hok
    intro n hn
    rcases List.mem_cons.1 hn with rfl | hn
    · exact hlinkable.parent_live.lt_size
    · exact hone hlinkable.child_live n hn
  | associate node element =>
    obtain ⟨r, hok, -⟩ := bind_eq_ok_iff.1 hok
    exact hone (Model.live_of_associate hok).1
  | wrap grammar lookahead node =>
    obtain ⟨r, hok, -⟩ := bind_eq_ok_iff.1 hok
    exact hone (Model.live_of_wrap hok).1
  | setSyntaxError node error =>
    obtain ⟨r, hok, -⟩ := bind_eq_ok_iff.1 hok
    exact hone (Model.live_of_setSyntaxError hok).1
  | compress node =>
    obtain ⟨b, hb, hlive, -⟩ := Model.live_of_compress hok
    exact hone (Model.live_iff_bare?.2 ⟨b, hb, hlive⟩)

/-- What the edit that names itself does. -/
theorem NamesItself.apply_eq (hself : edit.NamesItself m) : ∃ grammar lookahead,
    edit = .newComposite grammar lookahead (some m.size) ∧
      edit.apply m = .ok (m.push (m.ownParent grammar lookahead), some m.size) := by
  cases edit with
  | newComposite grammar lookahead parent =>
    obtain rfl := hself
    refine ⟨grammar, lookahead, rfl, ?_⟩
    rw [apply, Model.newComposite_self]
    rfl
  | _ => exact hself.elim

/-- An edit of a reachable model that names a node from elsewhere is refused, unless it creates a composite as its own
child; and no edit at all leads to a node above itself but that one. -/
theorem reachable_foreign_iff {text : String} (h : Model.Reachable text m) (edit : Edit) :
    (¬ edit.Allocated m → ((∃ fault, edit.apply m = .error fault) ↔ ¬ edit.NamesItself m)) ∧
      ∀ m' answer, edit.apply m = .ok (m', answer) → ((∃ n, n ∈ m'.ancestors n) ↔ edit.NamesItself m) := by
  have hcoherent := h.coherent
  refine ⟨fun hforeign => ⟨fun hfault hself => ?_, fun hself => ?_⟩,
    fun m' answer hok => ⟨fun hcycle => ?_, fun hself => ?_⟩⟩
  · obtain ⟨fault, hfault⟩ := hfault
    obtain ⟨grammar, lookahead, -, hok⟩ := hself.apply_eq
    rw [hfault] at hok
    cases hok
  · cases hok : edit.apply m with
    | error fault => exact ⟨fault, rfl⟩
    | ok r => exact absurd (allocated_of_apply hcoherent hself hok) hforeign
  · by_contra hself
    obtain ⟨n, hn⟩ := hcycle
    have hcoherent' := (apply_outcome hcoherent (allocated_of_apply hcoherent hself hok) hok).1
    exact (Model.climbs_ancestors hcoherent'.structured.forms hcoherent'.structured.grounded n).not_mem hn
  · obtain ⟨grammar, lookahead, -, hself⟩ := hself.apply_eq
    rw [hok] at hself
    obtain ⟨rfl, -⟩ := Prod.mk.inj (Except.ok.inj hself)
    exact ⟨m.size, Model.mem_ancestors_push_ownParent m grammar lookahead⟩

/-- The first two names that are not taken: a leaf is refused as a child of either, and so is a composite under the
second. -/
theorem reachable_foreign_iff_refused : ∃ m, Model.Reachable "a" m ∧ m.size = 2 ∧
    (∃ fault, apply m (.newLeaf 0 1 none false none 2) = .error fault) ∧
    (∃ fault, apply m (.newLeaf 0 1 none false none 3) = .error fault) ∧
    (∃ fault, apply m (.newComposite none 0 (some 3)) = .error fault) ∧
    ∃ m', apply m (.newComposite none 0 (some 1)) = .ok (m', some 2) ∧ ¬ ∃ n, n ∈ m'.ancestors n := by
  have h : Model.Reachable "a" (.initial "a") := .opened (Model.ofText_eq_ok_iff.2 ⟨by decide, rfl⟩)
  have h := h.edited (.newComposite none 0 (some 0)) (by decide) rfl
  refine ⟨_, h, rfl, ((reachable_foreign_iff h _).1 (by decide)).2 nofun,
    ((reachable_foreign_iff h _).1 (by decide)).2 nofun, ((reachable_foreign_iff h _).1 (by decide)).2 ?_, _, rfl, ?_⟩
  · intro hself
    cases hself
  · rw [(reachable_foreign_iff h (.newComposite none 0 (some 1))).2 _ _ rfl]
    intro hself
    cases hself

/-- In the model of the empty text the first name that is not taken is accepted as the parent of a composite, and the
composite is above itself. -/
theorem newComposite_accepts_itself : Model.Reachable "" (.initial "") ∧
    ¬ Allocated (.initial "") (.newComposite none 0 (some 1)) ∧
    ∃ m', apply (.initial "") (.newComposite none 0 (some 1)) = .ok (m', some 1) ∧ m'.parent? 1 = some 1 ∧
      1 ∈ m'.ancestors 1 :=
  ⟨.opened (Model.ofText_eq_ok_iff.2 ⟨by decide, rfl⟩), by decide, _, rfl, rfl, by decide⟩

end Edit

end SyntaxTree
