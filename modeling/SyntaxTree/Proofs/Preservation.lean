import SyntaxTree.Proofs.Checking
import SyntaxTree.Proofs.ForeignNodes
import SyntaxTree.Proofs.Forest
import SyntaxTree.Proofs.Locality
import SyntaxTree.Proofs.Reshaping

/-!
# Edits that move nothing in the text

Edits that put no leaf into a tree leave all nodes where they are in the text. Each of them is a reshaping: a new
composite is empty and stands at the end of a list, a node that is marked or compressed goes on under another name, and
a wrapper has the wrapped node as its only child. `Outcome.kept` puts the cases together, by what each edit makes of
the model.

One edit is left over. A composite that is created as its own child spoils the invariant that all this rests on. But no
link leads to it from the nodes that were there before, and what readers cannot reach they do not see
(`Coherent.keepsSpans_push`).
-/

namespace SyntaxTree

namespace Content

theorem token?_of_compressed? {content small : Content} (h : content.compressed? = some small) :
    small.token? = content.token? := by
  rcases content with _ | _ | _ | ⟨_, _ | _, _⟩ <;> cases h
  rfl

theorem token?_of_marked? {content marked : Content} {error : SyntaxError} (h : content.marked? error = some marked) :
    marked.token? = content.token? := by
  cases content <;> cases h <;> rfl

end Content

namespace Model

open Function (update update_self update_of_ne)
open Links (appended rename rename_self rename_of_ne adopted_new adopted_of_ne)

variable {m m' : Model} {n p w c x : NodeId} {b : Node} {grammar : Option String} {lookahead : Nat}

/-! ## Reshapings -/

theorem token?_congr (h : m'.bare? n = m.bare? n) : m'.token? n = m.token? n := by
  rw [token?_eq_bare?, token?_eq_bare?, h]

/-- A new composite is empty and stands at the end. -/
theorem Created.reshaped (h : m.WellFormed) (h' : m'.WellFormed) {parent : Option NodeId}
    (hc : Created m m' (.freshComposite lookahead) grammar parent) : Reshaped m m' id id := by
  have hbare : ∀ {n}, m.Live n → m'.bare? n = m.bare? n := fun hn => by rw [hc.bare, update_of_ne hn.ne_size]
  refine ⟨hc.text, fun hn => (live_congr (hbare hn)).2 hn, fun _ => Iff.rfl, fun hn => token?_congr (hbare hn),
    fun hn htop => ?_, fun {n} hn => ?_, fun _ => Or.inl rfl⟩
  · rw [id, hc.parent, update_of_ne hn.ne_size]
    exact htop
  · rw [id, List.map_id]
    cases parent with
    | none => exact ⟨[], by rw [hc.children, List.append_nil]; rfl, nofun⟩
    | some p =>
      have hparent : m'.parent? m.size = some p := by rw [hc.parent, update_self]
      have hps : m.size ≠ p := (h'.parent?_ne_self hparent).symm
      by_cases hnp : n = p
      · refine ⟨[m.size], ?_, List.forall_mem_singleton.2 ⟨?_, ?_⟩⟩
        · rw [hc.children, Option.elim_some, appended, hnp, update_self]
        · rw [isLeaf_eq_bare?, hc.bare, update_self]
          rfl
        · rw [hc.children, Option.elim_some, appended, update_of_ne hps]
          exact h.children_size
      · exact ⟨[], by rw [hc.children, Option.elim_some, appended, update_of_ne hnp, List.append_nil], nofun⟩

/-- Binding touches slots only. -/
theorem Bound.reshaped (h : m.WellFormed) {e : Element} (hbound : Bound m m' n e) : Reshaped m m' id id := by
  have hparent : m'.parent? = m.parent? := congrArg Links.parent hbound.links
  have hkids : m'.children = m.children := by
    have hforms := h.structured.forms
    rw [← hbound.links] at hforms
    exact Model.children_eq hforms
  refine ⟨hbound.text, fun hx => ?_, fun _ => Iff.rfl, fun {x} _ => ?_, fun _ htop => ?_,
    fun _ => ⟨[], by rw [id, hkids, List.map_id, List.append_nil], nofun⟩, fun _ => Or.inl rfl⟩
  · obtain ⟨b, hb, hlive⟩ := live_iff_bare?.1 hx
    rw [live_iff_bare?, id, hbound.bare, hb]
    exact ⟨_, rfl, hlive⟩
  · rw [id, token?_eq_bare?, token?_eq_bare?, hbound.bare]
    cases m.bare? x <;> simp
  · rw [id, hparent]
    exact htop

/-- The wrapped node is the only child of its wrapper. -/
theorem Wrapped.children_new (h : m.WellFormed) (hw : Wrapped m m' n p lookahead grammar) :
    m'.children m.size = [n] := by
  rw [hw.children, wrapped, appended, update_self, h.children_size]
  rfl

theorem Wrapped.bare?_old (hb : m.bare? n = some b) (hw : Wrapped m m' n p lookahead grammar) :
    m'.bare? n = some b := by
  rw [hw.bare, update_of_ne (Nat.ne_of_lt (lt_size_of_bare? hb))]
  exact hb

/-- A wrapper stands in the place of the node that it wraps. -/
theorem Wrapped.reshaped (h : m.WellFormed) (hn : m.parent? n = some p) (hw : Wrapped m m' n p lookahead grammar) :
    Reshaped m m' id (rename n m.size) := by
  have hbare : ∀ {x}, m.Live x → m'.bare? x = m.bare? x := fun hx => by rw [hw.bare, update_of_ne hx.ne_size]
  refine ⟨hw.text, fun hx => (live_congr (hbare hx)).2 hx, fun _ => Iff.rfl, fun hx => token?_congr (hbare hx),
    fun {x} hx htop => ?_, fun {x} hx => ⟨[], ?_, nofun⟩, fun {q c} _ => ?_⟩
  · have hxn : x ≠ n := by
      rintro rfl
      rw [hn] at htop
      cases htop
    rw [id, hw.parent, update_of_ne hxn, update_of_ne hx.ne_size]
    exact htop
  · rw [id, hw.children, wrapped, appended, update_of_ne hx.ne_size, List.append_nil]
  · by_cases hcn : c = n
    · right
      rw [hcn, rename_self]
      exact hw.children_new h
    · exact Or.inl (rename_of_ne hcn)

/-- A node was replaced by a fresh one with the same token. -/
structure Renamed (m m' : Model) (n : NodeId) (b : Node) : Prop where
  text : m'.text = m.text
  children : m'.children = replaced m.children n m.size
  parent : ∀ x, x ≠ m.size → m'.parent? (rename n m.size x) = (m.parent? x).map (rename n m.size)
  fresh : ∃ new, m'.bare? m.size = some new ∧ new.replacedBy = none ∧ new.content.token? = b.content.token?
  old : m'.successor? n = some m.size
  other : ∀ x, x ≠ n → x ≠ m.size → m'.bare? x = m.bare? x

theorem Replaced.renamed {content : Content} (hr : Replaced m m' m.children n b content) (hb : m.bare? n = some b)
    (htoken : content.token? = b.content.token?) : Renamed m m' n b where
  text := hr.text
  children := Model.children_eq hr.forms
  parent := hr.parent
  fresh := ⟨_, by rw [hr.bare, update_of_ne (Nat.ne_of_gt (lt_size_of_bare? hb)), update_self], rfl, htoken⟩
  old := by
    rw [successor?_eq_bare?, hr.bare, update_self]
    rfl
  other x hxn hxs := by rw [hr.bare, update_of_ne hxn, update_of_ne hxs]

theorem Marked.renamed {content : Content} (hm : Marked m m' n b content) (hb : m.bare? n = some b)
    (htoken : content.token? = b.content.token?) : Renamed m m' n b where
  text := hm.text
  children := hm.children
  parent := hm.parent
  fresh := ⟨_, by rw [hm.bare, update_of_ne (Nat.ne_of_gt (lt_size_of_bare? hb)), update_self], rfl, htoken⟩
  old := by
    rw [successor?_eq_bare?, hm.bare, update_self]
    rfl
  other x hxn hxs := by rw [hm.bare, update_of_ne hxn, update_of_ne hxs]

theorem Renamed.live_new (hr : Renamed m m' n b) : m'.Live m.size := by
  obtain ⟨new, hnew, hlive, -⟩ := hr.fresh
  exact live_iff_bare?.2 ⟨new, hnew, hlive⟩

theorem Renamed.live_of_ne (hr : Renamed m m' n b) (hx : m.Live x) (hxn : x ≠ n) : m'.Live x :=
  (live_congr (hr.other x hxn hx.ne_size)).2 hx

theorem Renamed.live_rename (hr : Renamed m m' n b) (hx : m.Live x) : m'.Live (rename n m.size x) := by
  by_cases hxn : x = n
  · rw [hxn, rename_self]
    exact hr.live_new
  · rw [rename_of_ne hxn]
    exact hr.live_of_ne hx hxn

/-- The new name of a node is what it resolves to. -/
theorem Renamed.resolve_eq (hr : Renamed m m' n b) (hx : m.Live x) : m'.resolve x = rename n m.size x := by
  by_cases hxn : x = n
  · rw [hxn, rename_self]
    exact resolve_of_successor? hr.old hr.live_new
  · rw [rename_of_ne hxn]
    exact resolve_of_live (hr.live_of_ne hx hxn)

/-- All lists have the new name. -/
theorem Renamed.children_rename (hr : Renamed m m' n b) (hx : m.Live x) :
    m'.children (rename n m.size x) = (m.children x).map (rename n m.size) := by
  rw [hr.children, replaced]
  by_cases hxn : x = n
  · rw [hxn, rename_self, adopted_new]
  · rw [rename_of_ne hxn, adopted_of_ne hxn hx.ne_size]

theorem Renamed.reshaped (h : m.WellFormed) (hb : m.bare? n = some b) (hn : m.parent? n = some p)
    (hr : Renamed m m' n b) : Reshaped m m' (rename n m.size) (rename n m.size) := by
  refine ⟨hr.text, hr.live_rename, fun {x} _ => ?_, fun {x} hx => ?_, fun {x} hx htop => ?_,
    fun {x} hx => ⟨[], ?_, nofun⟩, fun _ => Or.inl rfl⟩
  · by_cases hxn : x = n
    · rw [hxn, rename_self]
      exact ⟨fun e => absurd e (Nat.ne_of_gt h.labelled.size_pos), fun e => absurd e (h.ne_root hn)⟩
    · rw [rename_of_ne hxn]
  · by_cases hxn : x = n
    · obtain ⟨new, hnew, -, htoken⟩ := hr.fresh
      rw [hxn, rename_self, token?_eq_bare?, token?_eq_bare?, hnew, hb]
      exact htoken
    · rw [rename_of_ne hxn]
      exact token?_congr (hr.other x hxn hx.ne_size)
  · rw [hr.parent x hx.ne_size, htop]
    rfl
  · rw [List.append_nil, hr.children_rename hx]

theorem Renamed.kept (h : m.WellFormed) (h' : m'.WellFormed) (hb : m.bare? n = some b) (hn : m.parent? n = some p)
    (hr : Renamed m m' n b) : Kept m m' m'.resolve :=
  ((hr.reshaped h hb hn).kept h h').congr h fun hx => (hr.resolve_eq hx).symm

/-! ## Wrapping and compressing -/

/-- A change after which live nodes have their old names. -/
theorem Kept.resolve (hk : Kept m m' id) (h : m.WellFormed) : Kept m m' m'.resolve :=
  hk.congr h fun hn => (resolve_of_live (hk.live hn)).symm

theorem Compressed.kept (h : m.WellFormed) (h' : m'.WellFormed) (hb : m.bare? n = some b)
    (hc : Compressed m n b m') : Kept m m' m'.resolve := by
  cases hc with
  | unchanged _ => exact (Kept.refl m).resolve h
  | replaced hcontent hn hr =>
    exact (hr.renamed hb (Content.token?_of_compressed? hcontent)).kept h h' hb hn

/-- Compressing a node leaves all others alone. -/
theorem Compressed.live_of_ne (hc : Compressed m n b m') (hb : m.bare? n = some b) (hx : m.Live x) (hxn : x ≠ n) :
    m'.Live x := by
  cases hc with
  | unchanged _ => exact hx
  | replaced hcontent _ hr =>
    exact (hr.renamed hb (Content.token?_of_compressed? hcontent)).live_of_ne hx hxn

theorem SameSpan.trans {m'' : Model} {n' n'' : NodeId} (hs : SameSpan m n m' n') (hs' : SameSpan m' n' m'' n'') :
    SameSpan m n m'' n'' :=
  ⟨hs'.totalStart.trans hs.totalStart, hs'.totalEnd.trans hs.totalEnd, hs'.range.trans hs.range⟩

/-- A composite has the span of its only child. -/
theorem WellFormed.sameSpan_of_only (h : m.WellFormed) (hw : m.children w = [c]) (hroot : m.isRoot w = false) :
    SameSpan m c m w := by
  obtain ⟨hleaves, -, hstart, hend⟩ := h.only_child hw hroot
  have hc : c ∈ m.children w := by rw [hw]; exact List.mem_cons_self ..
  refine ⟨hstart, hend, ?_⟩
  rw [h.range_eq (h.structured.live_of_mem hc).lt_size, h.range_eq (h.lt_size_of_mem hc), visibleLeaves, visibleLeaves,
    hleaves, totalRange, totalRange, hstart, hend]

/-- A wrapper has the span of the node that was wrapped. -/
theorem sameSpan_wrapper {m₁ : Model} (h : m.WellFormed) (h₁ : m₁.WellFormed) (h' : m'.WellFormed)
    (hb : m.bare? n = some b) (hn : m.parent? n = some p) (hw : Wrapped m m₁ n p lookahead grammar)
    (hc : Compressed m₁ n b m') : SameSpan m n m' m.size := by
  have hlive := h.live_of_parent? hn
  have hb₁ := hw.bare?_old hb
  have hparent : m₁.parent? m.size = some p := by rw [hw.parent, update_of_ne hlive.ne_size.symm, update_self]
  have hroot : m₁.isRoot m.size = false := h₁.isRoot_of_mem (h₁.structured.forms.listed hparent)
  have hlive₁ : m₁.Live m.size := h₁.live_of_parent? hparent
  -- from the node to itself, then up to its wrapper, and from there on through the compression
  have hnode := ((hw.reshaped h hn).kept h h₁).sameSpan h h₁ hlive
  have honly := h₁.sameSpan_of_only (hw.children_new h) hroot
  have hwrapper := (hc.kept h₁ h' hb₁).sameSpan h₁ h' hlive₁
  rw [resolve_of_live (hc.live_of_ne hb₁ hlive₁ hlive.ne_size.symm)] at hwrapper
  exact (hnode.trans honly).trans hwrapper

/-! ## What readers see -/

/-- Every node that was live reports the same places, the leaves are the same, and so is the verdict of the check. -/
structure KeepsSpans (m m' : Model) : Prop where
  span : ∀ {n}, m.Live n → SameSpan m n m' (m'.resolve n)
  leafSpans : m'.leafSpans = m.leafSpans
  check : m'.check = .ok () ↔ m.check = .ok ()

theorem Kept.keepsSpans (hk : Kept m m' m'.resolve) (h : m.Coherent) (h' : m'.Coherent) : KeepsSpans m m' where
  span hn := hk.sameSpan h.toWellFormed h'.toWellFormed hn
  leafSpans := hk.leafSpans h.toWellFormed h'.toWellFormed
  check := by
    rw [h.check_decides.eq_ok_iff, h'.check_decides.eq_ok_iff]
    exact hk.leavesInSequence_iff h.toWellFormed

/-- What is allocated cannot be seen from the nodes that were there before, whatever its own links are. -/
theorem Coherent.agreeBelow_push (h : m.Coherent) (node : Node) (lookahead : Nat) (grammar : Option String) :
    AgreeBelow (m.push (.unlinked (.freshComposite lookahead) grammar)) (m.push node) m.size := by
  have hlinks := links_push_unlinked m (fresh_freshComposite m lookahead).loose grammar
  have hleads := @h.wellLinked.leads
  refine ⟨rfl, rfl, by rw [size_push, size_push], fun hn => ?_, fun {n x} _ hx => ?_, fun {n x} _ hx => ?_,
    fun {n x} _ hx => ?_, fun {n x} _ hx => ?_⟩
  · rw [get?_push, get?_push, if_neg (Nat.ne_of_lt hn), if_neg (Nat.ne_of_lt hn)]
  · rw [← links_parent, hlinks] at hx
    exact (hleads (Or.inl hx)).lt_size
  · rw [← links_next, hlinks] at hx
    exact (hleads (Or.inr (Or.inl hx))).lt_size
  · rw [← links_previous, hlinks] at hx
    exact (hleads (Or.inr (Or.inr (Or.inl hx)))).lt_size
  · rw [← links_firstChild, hlinks] at hx
    exact (hleads (Or.inr (Or.inr (Or.inr (Or.inl hx))))).lt_size

/-- So allocating a node keeps all spans, whatever the node is. It is enough to compare with an empty composite. -/
theorem Coherent.keepsSpans_push (h : m.Coherent) (node : Node) : KeepsSpans m (m.push node) := by
  obtain ⟨h₁, hcreated⟩ := h.push 0 none
  have hkept := (hcreated.reshaped h.toWellFormed h₁.toWellFormed).kept h.toWellFormed h₁.toWellFormed
  have hkeeps := (hkept.resolve h.toWellFormed).keepsSpans h h₁
  have hagree := h.agreeBelow_push node 0 none
  obtain ⟨hleaves, hlt⟩ := hagree.leaves h.labelled.size_pos
  refine ⟨fun {n} hn => ?_, ?_, ?_⟩
  · have hlive : (m.push node).Live n := by
      rw [Live, get?_push, if_neg hn.ne_size]
      exact hn
    have hspan := hkeeps.span hn
    rw [resolve_of_live (n := n) (hkept.live hn)] at hspan
    rw [resolve_of_live hlive]
    exact ⟨(hagree.totalStart hn.lt_size).trans hspan.totalStart, (hagree.totalEnd hn.lt_size).trans hspan.totalEnd,
      (hagree.range hn.lt_size).trans hspan.range⟩
  · rw [← hkeeps.leafSpans, leafSpans, leafSpans, hleaves]
    exact List.map_congr_left fun x hx => by rw [hagree.range (hlt x hx), hagree.isHidden (hlt x hx)]
  · rw [hagree.check h.labelled.size_pos, hkeeps.check]
    intro entry hentry
    exact (h.labelled.live_of_element? (h.indexed.element?_of_mem hentry)).lt_size

end Model

namespace Edit

variable {m m' : Model} {edit : Edit} {answer : Option NodeId}

/-- The edits that put no leaf into a tree, neither a new one nor one of a tree that is linked. -/
def AddsNoLeaf : Edit → Prop
  | newLeaf .. | addChild .. => False
  | _ => True

/-- An edit that puts no leaf into a tree keeps all spans. -/
theorem Outcome.kept (h : m.Coherent) (h' : m'.Coherent) (hedit : edit.AddsNoLeaf) (ho : edit.Outcome m m' answer) :
    Model.Kept m m' m'.resolve := by
  have hwf := h.toWellFormed
  have hwf' := h'.toWellFormed
  cases ho with
  | newComposite hcreated => exact ((hcreated.reshaped hwf hwf').kept hwf hwf').resolve hwf
  | newLeaf _ _ => exact hedit.elim
  | addChild _ _ => exact hedit.elim
  | associate hbound => exact ((hbound.reshaped hwf).kept hwf hwf').resolve hwf
  | wrap hb hn hwrapped h₁ hcompressed =>
    have hinner := hcompressed.kept h₁.toWellFormed hwf' (hwrapped.bare?_old hb)
    exact ((hwrapped.reshaped hwf hn).kept hwf h₁.toWellFormed).trans hinner
  | setSyntaxError hb hn hcontent hmarked =>
    exact (hmarked.renamed hb (Content.token?_of_marked? hcontent)).kept hwf hwf' hb hn
  | compress hb _ hcompressed => exact hcompressed.kept hwf hwf' hb

/-- An edit of a reachable model that puts no leaf into a tree moves nothing in the text, and a wrapper takes the span
of the node that it wraps. That holds also of a composite that is created as its own child. -/
theorem reachable_keepsSpans {text : String} (h : Model.Reachable text m) (edit : Edit) (hedit : edit.AddsNoLeaf)
    (hok : edit.apply m = .ok (m', answer)) : m.KeepsSpans m' ∧
      ∀ grammar lookahead n, edit = .wrap grammar lookahead n → ∃ wrapper, answer = some wrapper ∧
        Model.SameSpan m n m' wrapper := by
  have hcoherent := h.coherent
  by_cases hself : edit.NamesItself m
  · obtain ⟨grammar, lookahead, rfl, hself⟩ := hself.apply_eq
    rw [hok] at hself
    obtain ⟨rfl, -⟩ := Prod.mk.inj (Except.ok.inj hself)
    exact ⟨hcoherent.keepsSpans_push _, nofun⟩
  · obtain ⟨hcoherent', ho⟩ := apply_outcome hcoherent (allocated_of_apply hcoherent hself hok) hok
    refine ⟨(ho.kept hcoherent hcoherent' hedit).keepsSpans hcoherent hcoherent', ?_⟩
    rintro grammar lookahead n rfl
    cases ho with
    | wrap hb hn hwrapped h₁ hcompressed =>
      exact ⟨m.size, rfl, Model.sameSpan_wrapper hcoherent.toWellFormed h₁.toWellFormed hcoherent'.toWellFormed hb hn
        hwrapped hcompressed⟩

/-- A composite that ends with a hidden leaf and an empty composite is wrapped, and a composite is created as its own
child. The empty composite stands at the end of the hidden leaf, which its parent's range leaves out. -/
theorem reachable_keepsSpans_wrap : ∃ m m₁ m₂, Model.Reachable "a b" m ∧ m.children 1 = [2, 3, 4] ∧
    m.totalStart 4 = 2 ∧ m.range 1 = .ok ⟨0, 1, by decide⟩ ∧ apply m (.wrap none 0 1) = .ok (m₁, some 6) ∧
    m₁.children 6 = [7] ∧ m₁.resolve 1 = 7 ∧ m.KeepsSpans m₁ ∧ Model.SameSpan m 1 m₁ 6 ∧
    apply m (.newComposite none 0 (some 6)) = .ok (m₂, some 6) ∧ m₂.parent? 6 = some 6 ∧ m.KeepsSpans m₂ := by
  have h : Model.Reachable "a b" (.initial "a b") := .opened (Model.ofText_eq_ok_iff.2 ⟨by decide, rfl⟩)
  have h := h.edited (.newComposite none 0 (some 0)) (by decide) rfl
  have h := h.edited (.newLeaf 0 1 none false none 1) (by decide) rfl
  have h := h.edited (.newLeaf 1 1 none true none 1) (by decide) rfl
  have h := h.edited (.newComposite none 0 (some 1)) (by decide) rfl
  have h := h.edited (.newLeaf 2 1 none false none 0) (by decide) rfl
  obtain ⟨hwrap, hwrapper⟩ := reachable_keepsSpans h (.wrap none 0 1) trivial rfl
  obtain ⟨wrapper, hanswer, hspan⟩ := hwrapper none 0 1 rfl
  obtain rfl := Option.some.inj hanswer
  exact ⟨_, _, _, h, rfl, rfl, rfl, rfl, rfl, rfl, hwrap, hspan, rfl, rfl,
    (reachable_keepsSpans h (.newComposite none 0 (some 6)) trivial rfl).1⟩

end Edit

end SyntaxTree
