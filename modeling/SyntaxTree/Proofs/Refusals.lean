import SyntaxTree.Proofs.Reachable
import SyntaxTree.Proofs.Succession

/-!
# What the builder refuses

The calls of the builder ask many things of their arguments, and they ask them in different places: some before a node
is allocated, some while it is linked, some only when it is to take the place of another. `Edit.Violates` says in one
place what can be wrong with the arguments of a call, without saying when it is noticed, and `Edit.Breach` says which
fault reports which wrong.

The main result is that these are the only faults. On a reachable model a call fails exactly if its arguments violate
what is asked, and it fails with the fault of one of its violations. So the faults that speak of the builder's own
links, such as a child without neighbours, never come up.
-/

namespace SyntaxTree

open Function (update_of_ne)

/-- Whether the fault would be the builder's own. -/
def Fault.isInternal : Fault → Bool
  | notInSiblingRing _ | parentIsLeaf | noNextSibling | wrappedWithoutParent => true
  | _ => false

/-- Nodes with a slot are composites. -/
theorem NodeKind.isLeaf_of_isBindable {kind : NodeKind} (h : kind.isBindable = true) : kind.isLeaf = false := by
  cases kind <;> first | rfl | cases h

namespace Edit

variable {m : Model} {edit : Edit} {fault : Fault}

/-- The node that is to get a child. -/
def parent? : Edit → Option NodeId
  | newComposite _ _ parent => parent
  | newLeaf _ _ _ _ _ parent | addChild parent _ => some parent
  | associate _ _ | wrap _ _ _ | setSyntaxError _ _ | compress _ => none

/-- The arguments of an edit are not what it asks for. -/
def Violates (m : Model) : Edit → Prop
  | newComposite _ _ parent => ∃ p, parent = some p ∧ (m.isStale p = true ∨ m.isLeaf p = true)
  | newLeaf offset length _ _ _ parent =>
    m.textLength < offset + length ∨ UInt32.size ≤ offset + length ∨ Text.isBoundary m.chars offset = false ∨
      Text.isBoundary m.chars (offset + length) = false ∨ m.isStale parent = true ∨ m.isLeaf parent = true
  | addChild parent child =>
    child = parent ∨ child ∈ m.ancestors parent ∨ m.isStale parent = true ∨ m.isLeaf parent = true ∨
      m.isStale child = true ∨ (∃ p, m.parent? child = some p) ∨ child = Model.rootId
  | associate node _ => m.isStale node = true ∨ (m.kind? node).any NodeKind.isBindable = false
  | wrap _ _ node | setSyntaxError node _ => m.isStale node = true ∨ m.parent? node = none
  | compress node =>
    m.isStale node = true ∨
      m.parent? node = none ∧ node ≠ Model.rootId ∧ m.isLeaf node = false ∧ m.element? node = none

/-- The fault that a violation is reported with. -/
inductive Breach (m : Model) : Edit → Fault → Prop where
  | stale {edit : Edit} {n s : NodeId} : n ∈ edit.arguments → m.successor? n = some s →
      Breach m edit (.replaced n s)
  | leafParent {edit : Edit} {p : NodeId} : edit.parent? = some p → m.isLeaf p = true →
      Breach m edit (.leafAsParent p)
  | overflow {offset length : Nat} {grammar : Option String} {hidden : Bool} {error : Option SyntaxError}
      {parent : NodeId} : UInt32.size ≤ offset + length →
      Breach m (.newLeaf offset length grammar hidden error parent) .leafEndOverflow
  | outside {offset length : Nat} {grammar : Option String} {hidden : Bool} {error : Option SyntaxError}
      {parent : NodeId} : m.textLength < offset + length →
      Breach m (.newLeaf offset length grammar hidden error parent)
        (.leafOutsideText offset (offset + length) m.textLength)
  | split {offset length : Nat} {grammar : Option String} {hidden : Bool} {error : Option SyntaxError}
      {parent : NodeId} :
      Text.isBoundary m.chars offset = false ∨ Text.isBoundary m.chars (offset + length) = false →
      Breach m (.newLeaf offset length grammar hidden error parent) (.leafSplitsCharacter offset (offset + length))
  | cycle {parent child : NodeId} : child = parent ∨ child ∈ m.ancestors parent →
      Breach m (.addChild parent child) (.cycle parent child)
  | linked {parent child p : NodeId} : m.parent? child = some p →
      Breach m (.addChild parent child) (.alreadyLinked child (m.nextInRing? child) (m.previousInRing? child))
  | rootChild {parent : NodeId} : Breach m (.addChild parent Model.rootId) .rootAsChild
  | unbindable {node : NodeId} {element : Element} {kind : NodeKind} : m.kind? node = some kind →
      kind.isBindable = false → Breach m (.associate node element) (.notBindable node kind)
  | unwrappable {grammar : Option String} {lookahead : Nat} {node : NodeId} : m.parent? node = none →
      Breach m (.wrap grammar lookahead node) (.noParent node)
  | markedRoot {error : SyntaxError} : m.parent? Model.rootId = none →
      Breach m (.setSyntaxError Model.rootId error) .rootWithSyntaxError
  | unmarkable {node : NodeId} {error : SyntaxError} : m.parent? node = none → node ≠ Model.rootId →
      Breach m (.setSyntaxError node error) (.noParent node)
  | incompressible {node : NodeId} : m.parent? node = none → node ≠ Model.rootId → m.isLeaf node = false →
      m.element? node = none → Breach m (.compress node) (.noParent node)

end Edit

namespace Model

open Edit (Breach)

variable {m : Model} {kids : NodeId → List NodeId} {n p c s : NodeId}

/-! ## Refused look-ups -/

theorem isStale_of_successor? (hs : m.successor? n = some s) : m.isStale n = true := by
  obtain ⟨node, hnode, hr⟩ := Option.bind_eq_some_iff.1 hs
  rw [isStale, hnode, Option.any_some, hr]
  rfl

theorem exists_successor? (hn : n < m.size) (hdead : ¬ m.Live n) : ∃ s, m.successor? n = some s := by
  refine Option.ne_none_iff_exists'.1 fun hnone => hdead ?_
  exact live_iff_successor?.2 ⟨hn, hnone⟩

/-- A replaced node is refused. -/
theorem lookupLive_eq_error (hs : m.successor? n = some s) : m.lookupLive n = .error (.replaced n s) := by
  obtain ⟨node, hnode, hr⟩ := Option.bind_eq_some_iff.1 hs
  rw [lookupLive, lookup_eq_ok_iff.2 hnode, ok_bind, hr]
  rfl

/-- A linked node is refused, with its neighbours. -/
theorem lookupUnlinked_eq_error (h : m.links.Forms kids) (hn : m.Live n) (hp : m.parent? n = some p) :
    m.lookupUnlinked n = .error (.alreadyLinked n (m.nextInRing? n) (m.previousInRing? n)) := by
  obtain ⟨node, hnode, -, hlook⟩ := hn.exists_lookupLive
  have hlinked : ¬ node.isUnlinked = true := by
    rw [isUnlinked_iff h hnode, hp]
    nofun
  rw [lookupUnlinked, hlook, ok_bind, if_neg hlinked, nextInRing?, previousInRing?, hnode]
  rfl

/-! ## Refused links -/

theorem link_of_live (hp : m.Live p) : m.link p c = m.appendChild p c := by
  obtain ⟨node, -, -, hlook⟩ := hp.exists_lookupLive
  rw [link, hlook, ok_bind]

theorem link_stale (hs : m.successor? p = some s) : m.link p c = .error (.replaced p s) := by
  rw [link, lookupLive_eq_error hs]
  rfl

/-- A leaf is refused as a parent, once the child is found to be in order. -/
theorem link_leaf (h : m.links.Forms kids) (hp : m.Live p) (hleaf : m.isLeaf p = true) (hc : m.Live c)
    (hloose : m.parent? c = none) (hroot : m.isRoot c = false) : m.link p c = .error (.leafAsParent p) := by
  obtain ⟨parent, hparent, -, -⟩ := hp.exists_lookupLive
  obtain ⟨node, hnode, hlive, -⟩ := hc.exists_lookupLive
  have hunlinked := lookupUnlinked_eq_ok_iff.2 ⟨hnode, hlive, (isUnlinked_iff h hnode).2 hloose⟩
  have hbranch : parent.content.branch? = none := (branch?_isNone_iff hparent).2 hleaf
  rw [link_of_live hp, appendChild, hunlinked, ok_bind, if_neg ((isRoot_eq_false_iff hnode).1 hroot),
    lookup_eq_ok_iff.2 hparent]
  simp only [bind, Except.bind, hbranch]
  rfl

/-- What cannot be linked is refused for what is wrong with it. -/
theorem WellFormed.link_eq_error (h : m.WellFormed) (hp : p < m.size) (hc : c < m.size) (hno : ¬ m.Linkable p c) :
    ∃ fault, m.link p c = .error fault ∧ Breach m (.addChild p c) fault := by
  have hforms := h.structured.forms
  by_cases hpl : m.Live p
  · by_cases hcl : m.Live c
    · cases hloose : m.parent? c with
      | some q =>
        refine ⟨_, ?_, .linked hloose⟩
        rw [link_of_live hpl, appendChild, lookupUnlinked_eq_error hforms hcl hloose]
        rfl
      | none =>
        cases hroot : m.isRoot c with
        | true =>
          obtain rfl := h.isRoot_iff.1 hroot
          obtain ⟨node, hnode, hlive, -⟩ := hcl.exists_lookupLive
          have hunlinked := lookupUnlinked_eq_ok_iff.2 ⟨hnode, hlive, (isUnlinked_iff hforms hnode).2 hloose⟩
          have hkind : node.kind = .root := by
            rw [isRoot, kind?, hnode] at hroot
            simpa using hroot
          refine ⟨_, ?_, .rootChild⟩
          rw [link_of_live hpl, appendChild, hunlinked, ok_bind, if_pos hkind]
          rfl
        | false =>
          cases hleaf : m.isLeaf p with
          | true => exact ⟨_, link_leaf hforms hpl hleaf hcl hloose hroot, .leafParent rfl hleaf⟩
          | false => exact absurd ⟨hpl, hleaf, hcl, hloose, hroot⟩ hno
    · obtain ⟨s, hs⟩ := exists_successor? hc hcl
      refine ⟨_, ?_, .stale (List.mem_cons_of_mem _ (List.mem_singleton_self _)) hs⟩
      rw [link_of_live hpl, appendChild, lookupUnlinked, lookupLive_eq_error hs]
      rfl
  · obtain ⟨s, hs⟩ := exists_successor? hp hpl
    exact ⟨_, link_stale hs, .stale (List.mem_cons_self ..) hs⟩

/-- With a fresh child only the parent can be wrong. -/
theorem WellFormed.push_link_eq_error (h : m.WellFormed) (content : Content) (hcontent : content.firstChild? = none)
    (hkind : content.kind ≠ .root) (grammar : Option String) (hp : p < m.size)
    (hno : ¬ (m.Live p ∧ m.isLeaf p = false)) (edit : Edit) (hargs : p ∈ edit.arguments)
    (hparent : edit.parent? = some p) :
    ∃ fault, (m.push (.unlinked content grammar)).link p m.size = .error fault ∧ Breach m edit fault := by
  have hps : p ≠ m.size := Nat.ne_of_lt hp
  have hbare := bare?_push_unlinked m hcontent grammar
  have hlinks := links_push_unlinked m hcontent grammar
  by_cases hpl : m.Live p
  · have hleaf : m.isLeaf p = true := by
      cases hleaf : m.isLeaf p with
      | true => rfl
      | false => exact absurd ⟨hpl, hleaf⟩ hno
    have hforms : (m.push (.unlinked content grammar)).links.Forms m.children := by
      rw [hlinks]
      exact h.structured.forms
    refine ⟨_, link_leaf hforms ((live_update hbare rfl).2 (Or.inl hpl)) ?_
      ((live_update hbare rfl).2 (Or.inr rfl)) ?_ ?_, .leafParent hparent hleaf⟩
    · rwa [isLeaf_eq_bare?, hbare, update_of_ne hps, ← isLeaf_eq_bare?]
    · rw [← links_parent, hlinks]
      exact (links_of_size_le (Nat.le_refl _)).1
    · rw [isRoot_eq_bare?, hbare, Function.update_self]
      simpa [Node.kind, Node.unlinked] using hkind
  · obtain ⟨s, hs⟩ := exists_successor? hp hpl
    refine ⟨_, link_stale ?_, .stale hargs hs⟩
    rw [successor?_eq_bare?, hbare, update_of_ne hps, ← successor?_eq_bare?]
    exact hs

/-! ## Refused replacements -/

/-- A node without a parent has no place to give. -/
theorem takePlace_eq_error (hn : n < m.size) (hp : m.parent? n = none) (new : NodeId) :
    m.takePlace n new = .error (.noParent n) := by
  obtain ⟨node, hnode⟩ := lt_size_iff.1 hn
  rw [parent?, hnode, Option.bind_some] at hp
  rw [takePlace, lookup_eq_ok_iff.2 hnode, ok_bind, hp]
  rfl

theorem replace_eq_error (hn : n < m.size) (hp : m.parent? n = none) {content : Content}
    (hcontent : content.firstChild? = none) : m.replace n content = .error (.noParent n) := by
  obtain ⟨node, hnode⟩ := lt_size_iff.1 hn
  have htake : (m.allocated n content node.grammar).takePlace n m.size = .error (.noParent n) := by
    refine takePlace_eq_error (by rw [size_allocated]; exact Nat.lt_succ_of_lt hn) ?_ _
    rw [← links_parent, links_allocated m n hcontent]
    exact hp
  rw [replace, lookup_eq_ok_iff.2 hnode, ok_bind]
  show ((m.allocated n content node.grammar).takePlace n m.size >>= _) = _
  rw [htake]
  rfl

/-- Where a leaf may not stand. -/
theorem exists_leafRange_eq_error {offset length : Nat} (hno : ∀ range, m.leafRange offset length ≠ .ok range)
    (grammar : Option String) (hidden : Bool) (error : Option SyntaxError) (parent : NodeId) :
    ∃ fault, m.leafRange offset length = .error fault ∧
      Breach m (.newLeaf offset length grammar hidden error parent) fault := by
  by_cases hover : UInt32.size ≤ offset + length
  · exact ⟨_, if_pos hover, .overflow hover⟩
  by_cases hout : m.textLength < offset + length
  · exact ⟨_, by rw [leafRange, if_neg hover, if_pos hout], .outside hout⟩
  by_cases hcut : (Text.isBoundary m.chars offset && Text.isBoundary m.chars (offset + length)) = true
  · refine absurd ?_ (hno ⟨offset, offset + length, Nat.le_add_right ..⟩)
    rw [leafRange, if_neg hover, if_neg hout, if_pos hcut]
  · refine ⟨_, by rw [leafRange, if_neg hover, if_neg hout, if_neg hcut], .split ?_⟩
    rwa [Bool.not_eq_true, Bool.and_eq_false_iff] at hcut

end Model

namespace Edit

open Model (isStale_of_successor? exists_successor? lookupLive_eq_error takePlace_eq_error replace_eq_error)

variable {m : Model} {edit : Edit} {fault : Fault}

/-! ## Violations and faults -/

/-- What is reported is a violation. -/
theorem Breach.violates (hbreach : edit.Breach m fault) : edit.Violates m := by
  cases hbreach with
  | stale hn hs =>
    have hstale := isStale_of_successor? hs
    cases edit with
    | newComposite grammar lookahead parent => exact ⟨_, by simpa [arguments] using hn, Or.inl hstale⟩
    | newLeaf offset length grammar hidden error parent =>
      obtain rfl := List.mem_singleton.1 hn
      exact Or.inr (Or.inr (Or.inr (Or.inr (Or.inl hstale))))
    | addChild parent child =>
      rcases List.mem_pair.1 hn with rfl | rfl
      · exact Or.inr (Or.inr (Or.inl hstale))
      · exact Or.inr (Or.inr (Or.inr (Or.inr (Or.inl hstale))))
    | associate node _ | wrap _ _ node | setSyntaxError node _ | compress node =>
      obtain rfl := List.mem_singleton.1 hn
      exact Or.inl hstale
  | leafParent hp hleaf =>
    cases edit with
    | newComposite grammar lookahead parent => exact ⟨_, hp, Or.inr hleaf⟩
    | newLeaf offset length grammar hidden error parent =>
      obtain rfl := Option.some.inj hp
      exact Or.inr (Or.inr (Or.inr (Or.inr (Or.inr hleaf))))
    | addChild parent child =>
      obtain rfl := Option.some.inj hp
      exact Or.inr (Or.inr (Or.inr (Or.inl hleaf)))
    | associate | wrap | setSyntaxError | compress => cases hp
  | overflow hover => exact Or.inr (Or.inl hover)
  | outside hout => exact Or.inl hout
  | split hcut =>
    rcases hcut with hstart | hstop
    · exact Or.inr (Or.inr (Or.inl hstart))
    · exact Or.inr (Or.inr (Or.inr (Or.inl hstop)))
  | cycle hcycle =>
    rcases hcycle with hself | habove
    · exact Or.inl hself
    · exact Or.inr (Or.inl habove)
  | linked hp => exact Or.inr (Or.inr (Or.inr (Or.inr (Or.inr (Or.inl ⟨_, hp⟩)))))
  | rootChild => exact Or.inr (Or.inr (Or.inr (Or.inr (Or.inr (Or.inr rfl)))))
  | unbindable hkind hbindable =>
    refine Or.inr ?_
    rw [hkind]
    exact hbindable
  | unwrappable hp => exact Or.inr hp
  | markedRoot hp => exact Or.inr hp
  | unmarkable hp _ => exact Or.inr hp
  | incompressible hp hroot hleaf hempty => exact Or.inr ⟨hp, hroot, hleaf, hempty⟩

/-- No fault that reports a violation is the builder's own. -/
theorem Breach.isInternal_eq_false (hbreach : edit.Breach m fault) : fault.isInternal = false := by
  cases hbreach <;> rfl

/-- What violates what is asked is not what is asked. -/
theorem Violates.not_admissible (h : m.Coherent) (hviolates : edit.Violates m) : ¬ edit.Admissible m := by
  intro hedit
  have hfresh : ∀ {n}, m.isStale n = true → ¬ m.Live n := fun hstale => (Model.isStale_eq_true_iff.1 hstale).2
  cases edit with
  | newComposite grammar lookahead parent =>
    obtain ⟨p, rfl, hp⟩ := hviolates
    obtain ⟨hlive, hcomposite⟩ := hedit p rfl
    rcases hp with hstale | hleaf
    · exact hfresh hstale hlive
    · rw [hleaf] at hcomposite
      cases hcomposite
  | newLeaf offset length grammar hidden error parent =>
    obtain ⟨⟨hend, hstart, hstop⟩, hlive, hcomposite⟩ := hedit
    have hshort := h.labelled.short
    rcases hviolates with hout | hover | hcut | hcut | hstale | hleaf
    · omega
    · omega
    · rw [hstart] at hcut
      cases hcut
    · rw [hstop] at hcut
      cases hcut
    · exact hfresh hstale hlive
    · rw [hleaf] at hcomposite
      cases hcomposite
  | addChild parent child =>
    obtain ⟨hlinkable, hne, hcycle⟩ := hedit
    rcases hviolates with hself | habove | hstale | hleaf | hstale | ⟨p, hp⟩ | hroot
    · exact hne hself.symm
    · exact hcycle habove
    · exact hfresh hstale hlinkable.parent_live
    · rw [hlinkable.parent_composite] at hleaf
      cases hleaf
    · exact hfresh hstale hlinkable.child_live
    · rw [hlinkable.child_loose] at hp
      cases hp
    · have hnot := hlinkable.child_not_root
      rw [h.isRoot_iff.2 hroot] at hnot
      cases hnot
  | associate node element =>
    obtain ⟨hlive, hbindable⟩ := hedit
    rcases hviolates with hstale | hkind
    · exact hfresh hstale hlive
    · rw [hbindable] at hkind
      cases hkind
  | wrap _ _ node | setSyntaxError node _ =>
    obtain ⟨hlive, p, hp⟩ := hedit
    rcases hviolates with hstale | hloose
    · exact hfresh hstale hlive
    · rw [hp] at hloose
      cases hloose
  | compress node =>
    obtain ⟨b, hb, hlive, hneed⟩ := hedit
    rcases hviolates with hstale | ⟨hloose, hroot, -, hempty⟩
    · exact hfresh hstale (Model.live_iff_bare?.2 ⟨b, hb, hlive⟩)
    rcases hneed with hcontent | ⟨p, hp⟩
    · -- a node without a parent is the root or still has its slot
      have hkind := (h.settled node b hb hlive hloose).resolve_left hroot
      rw [Model.element?_eq_bare?, hb, Option.bind_some] at hempty
      have hsome : b.content.compressed?.isSome = true := by
        rw [Content.compressed?_isSome_iff, show b.content.kind = _ from hkind]
        exact ⟨rfl, hempty, nofun⟩
      rw [hcontent] at hsome
      cases hsome
    · rw [hp] at hloose
      cases hloose

/-! ## What each call reports -/

theorem newComposite_eq_error (h : m.Coherent) {grammar : Option String} {lookahead : Nat} {p : NodeId}
    (hp : p < m.size) (hno : ¬ (m.Live p ∧ m.isLeaf p = false)) :
    ∃ fault, (newComposite grammar lookahead (some p)).apply m = .error fault ∧
      Breach m (newComposite grammar lookahead (some p)) fault := by
  obtain ⟨fault, hlink, hbreach⟩ := h.push_link_eq_error (.freshComposite lookahead) rfl nofun grammar hp hno
    (newComposite grammar lookahead (some p)) (List.mem_singleton_self p) rfl
  refine ⟨fault, ?_, hbreach⟩
  simp only [apply, Model.newComposite, hlink, bind, Except.bind]

theorem newLeaf_eq_error (h : m.Coherent) {offset length : Nat} {grammar : Option String} {hidden : Bool}
    {error : Option SyntaxError} {p : NodeId} (hp : p < m.size)
    (hno : ¬ (newLeaf offset length grammar hidden error p).Admissible m) :
    ∃ fault, (newLeaf offset length grammar hidden error p).apply m = .error fault ∧
      Breach m (newLeaf offset length grammar hidden error p) fault := by
  by_cases hrange : ∃ range, m.leafRange offset length = .ok range
  · obtain ⟨range, hrange⟩ := hrange
    have hplace := ((Model.leafRange_eq_ok_iff h.labelled.short).1 hrange).1
    obtain ⟨fault, hlink, hbreach⟩ := h.push_link_eq_error (.leaf range hidden error) rfl
      (by cases hidden <;> cases error <;> nofun) grammar hp (fun hparent => hno ⟨hplace, hparent⟩)
      (newLeaf offset length grammar hidden error p) (List.mem_singleton_self p) rfl
    refine ⟨fault, ?_, hbreach⟩
    simp only [apply, Model.newLeaf, hrange, hlink, bind, Except.bind]
  · obtain ⟨fault, hfault, hbreach⟩ := Model.exists_leafRange_eq_error (not_exists.1 hrange) grammar hidden error p
    refine ⟨fault, ?_, hbreach⟩
    rw [apply, Model.newLeaf, hfault]
    rfl

theorem addChild_eq_error (h : m.Coherent) {p c : NodeId} (hp : p < m.size) (hc : c < m.size)
    (hno : ¬ (addChild p c).Admissible m) :
    ∃ fault, (addChild p c).apply m = .error fault ∧ Breach m (addChild p c) fault := by
  obtain ⟨node, hnode⟩ := Model.lt_size_iff.1 hp
  have hstart : m.locate p = .ok node := by rw [Model.locate, hnode]
  by_cases hcycle : p = c ∨ c ∈ m.ancestors p
  · refine ⟨_, ?_, .cycle (hcycle.imp_left Eq.symm)⟩
    rw [apply, Model.addChild, hstart, ok_bind, if_pos hcycle]
    rfl
  · obtain ⟨fault, hlink, hbreach⟩ := h.link_eq_error hp hc fun hlinkable => hno ⟨hlinkable, not_or.1 hcycle⟩
    refine ⟨fault, ?_, hbreach⟩
    rw [apply, Model.addChild, hstart, ok_bind, if_neg hcycle]
    simp only [hlink, bind, Except.bind]

/-- The calls that change one node refuse it at once if it was replaced. -/
theorem apply_eq_error_of_not_live {n : NodeId} (hnode : edit.arguments = [n]) (hparent : edit.parent? = none)
    (hn : n < m.size) (hdead : ¬ m.Live n) : ∃ fault, edit.apply m = .error fault ∧ Breach m edit fault := by
  obtain ⟨s, hs⟩ := exists_successor? hn hdead
  refine ⟨.replaced n s, ?_, .stale (by rw [hnode]; exact List.mem_singleton_self n) hs⟩
  have hlook := lookupLive_eq_error hs
  cases edit with
  | newComposite grammar lookahead parent =>
    obtain rfl : parent = none := hparent
    cases hnode
  | newLeaf | addChild => cases hparent
  | associate node element =>
    obtain rfl := List.singleton_inj.1 hnode
    rw [apply, Model.associate, hlook]
    rfl
  | wrap grammar lookahead node =>
    obtain rfl := List.singleton_inj.1 hnode
    rw [apply, Model.wrap, hlook]
    rfl
  | setSyntaxError node error =>
    obtain rfl := List.singleton_inj.1 hnode
    rw [apply, Model.setSyntaxError, hlook]
    rfl
  | compress node =>
    obtain rfl := List.singleton_inj.1 hnode
    rw [apply, Model.compress, hlook]
    rfl

theorem associate_eq_error {n : NodeId} {element : Element} (hn : m.Live n)
    (hno : ¬ (m.kind? n).any NodeKind.isBindable = true) :
    ∃ fault, (associate n element).apply m = .error fault ∧ Breach m (associate n element) fault := by
  obtain ⟨node, hnode, -, hlook⟩ := hn.exists_lookupLive
  have hkind : m.kind? n = some node.kind := by rw [Model.kind?, hnode, Option.map_some]
  rw [hkind, Option.any_some, Bool.not_eq_true] at hno
  refine ⟨_, ?_, .unbindable hkind hno⟩
  rw [apply, Model.associate, hlook, ok_bind, hno]
  rfl

theorem wrap_eq_error {n : NodeId} (hn : m.Live n) (hloose : m.parent? n = none) (grammar : Option String)
    (lookahead : Nat) : (wrap grammar lookahead n).apply m = .error (.noParent n) := by
  obtain ⟨node, -, -, hlook⟩ := hn.exists_lookupLive
  have htake : (m.push (.unlinked (.freshComposite lookahead) grammar)).takePlace n m.size = .error (.noParent n) := by
    refine takePlace_eq_error (by rw [Model.size_push]; exact Nat.lt_succ_of_lt hn.lt_size) ?_ _
    rw [← Model.links_parent, Model.links_push_unlinked m rfl grammar]
    exact hloose
  rw [apply, Model.wrap, hlook, ok_bind]
  simp only [htake, bind, Except.bind]

theorem setSyntaxError_eq_error (h : m.Coherent) {n : NodeId} (hn : m.Live n) (hloose : m.parent? n = none)
    (error : SyntaxError) :
    ∃ fault, (setSyntaxError n error).apply m = .error fault ∧ Breach m (setSyntaxError n error) fault := by
  obtain ⟨node, hnode, -, hlook⟩ := hn.exists_lookupLive
  have hroot : node.content.marked? error = none ↔ n = Model.rootId := by
    rw [Content.marked?_eq_none_iff, ← h.isRoot_iff, Model.isRoot, Model.kind?, hnode]
    simp [Node.kind]
  cases hcontent : node.content.marked? error with
  | none =>
    obtain rfl := hroot.1 hcontent
    refine ⟨_, ?_, .markedRoot hloose⟩
    rw [apply, Model.setSyntaxError, hlook, ok_bind, hcontent]
    rfl
  | some content =>
    have hreplace : (m.setSlot n none).replace n content = .error (.noParent n) := by
      refine replace_eq_error ?_ ?_ (Content.marked?_eq_some hcontent).2.1
      · rw [Model.setSlot, Model.size_modify]
        exact hn.lt_size
      · rw [← Model.links_parent, Model.links_setSlot]
        exact hloose
    rw [Model.setSlot] at hreplace
    refine ⟨_, ?_, .unmarkable hloose fun e => ?_⟩
    · simp only [apply, Model.setSyntaxError, hlook, hcontent, hreplace, bind, Except.bind]
    · rw [hroot.2 e] at hcontent
      cases hcontent

theorem compress_eq_error (h : m.Coherent) {n : NodeId} (hn : m.Live n) (hno : ¬ (compress n).Admissible m) :
    ∃ fault, (compress n).apply m = .error fault ∧ Breach m (compress n) fault := by
  obtain ⟨node, hnode, hunreplaced, hlook⟩ := hn.exists_lookupLive
  have hbare := Model.bare?_of_get? hnode
  have hloose : m.parent? n = none :=
    Option.eq_none_iff_forall_ne_some.2 fun p hp => hno ⟨_, hbare, hunreplaced, Or.inr ⟨p, hp⟩⟩
  obtain ⟨content, hcontent⟩ : ∃ content, node.content.compressed? = some content := by
    refine Option.ne_none_iff_exists'.1 fun hnone => hno ⟨_, hbare, hunreplaced, Or.inl ?_⟩
    rwa [Node.bare_content, Content.compressed?_withFirstChild]
  obtain ⟨hbindable, hempty, hkind⟩ := (Content.compressed?_isSome_iff node.content).1 (by rw [hcontent]; rfl)
  have hreplace : m.replace n content = .error (.noParent n) := by
    refine replace_eq_error hn.lt_size hloose ?_
    rw [(Content.compressed?_eq_some hcontent).2]
    rfl
  refine ⟨.noParent n, ?_, .incompressible hloose ?_ ?_ ?_⟩
  · simp only [apply, Model.compress, hlook, hcontent, hreplace, bind, Except.bind]
  · rw [Ne, ← h.isRoot_iff, Model.isRoot, Model.kind?, hnode]
    simpa [Node.kind] using hkind
  · rw [Model.isLeaf, Model.kind?, hnode, Option.map_some, Option.any_some]
    exact NodeKind.isLeaf_of_isBindable hbindable
  · rw [Model.element?, hnode, Option.bind_some]
    exact hempty

/-- Whatever is missing, some violation is reported. -/
theorem exists_breach (h : m.Coherent) (hargs : edit.Allocated m) (hno : ¬ edit.Admissible m) :
    ∃ fault, edit.apply m = .error fault ∧ edit.Breach m fault := by
  cases edit with
  | newComposite grammar lookahead parent =>
    obtain ⟨p, hnot⟩ := not_forall.1 hno
    obtain ⟨rfl, hp⟩ := Classical.not_imp.1 hnot
    exact newComposite_eq_error h (hargs p (List.mem_singleton_self p)) hp
  | newLeaf offset length grammar hidden error p =>
    exact newLeaf_eq_error h (hargs p (List.mem_singleton_self p)) hno
  | addChild p c =>
    exact addChild_eq_error h (hargs p (List.mem_cons_self ..))
      (hargs c (List.mem_cons_of_mem _ (List.mem_singleton_self c))) hno
  | associate n element =>
    by_cases hn : m.Live n
    · exact associate_eq_error hn fun hkind => hno ⟨hn, hkind⟩
    · exact apply_eq_error_of_not_live rfl rfl (hargs n (List.mem_singleton_self n)) hn
  | wrap grammar lookahead n =>
    by_cases hn : m.Live n
    · have hloose := Option.eq_none_iff_forall_ne_some.2 fun p hp => hno ⟨hn, p, hp⟩
      exact ⟨_, wrap_eq_error hn hloose grammar lookahead, .unwrappable hloose⟩
    · exact apply_eq_error_of_not_live rfl rfl (hargs n (List.mem_singleton_self n)) hn
  | setSyntaxError n error =>
    by_cases hn : m.Live n
    · exact setSyntaxError_eq_error h hn (Option.eq_none_iff_forall_ne_some.2 fun p hp => hno ⟨hn, p, hp⟩) error
    · exact apply_eq_error_of_not_live rfl rfl (hargs n (List.mem_singleton_self n)) hn
  | compress n =>
    by_cases hn : m.Live n
    · exact compress_eq_error h hn hno
    · exact apply_eq_error_of_not_live rfl rfl (hargs n (List.mem_singleton_self n)) hn

/-- On a reachable model a call fails exactly if its arguments violate what it asks for, and every fault reports a
violation; none is the builder's own. -/
theorem reachable_fails_iff_violates {text : String} (h : Model.Reachable text m) (hargs : edit.Allocated m) :
    ((∃ fault, edit.apply m = .error fault) ↔ edit.Violates m) ∧
      ∀ fault, edit.apply m = .error fault → edit.Breach m fault ∧ fault.isInternal = false := by
  have hfails := apply_eq_error_iff h.coherent hargs
  refine ⟨hfails.trans ⟨fun hno => ?_, Violates.not_admissible h.coherent⟩, fun fault hfault => ?_⟩
  · obtain ⟨fault, -, hbreach⟩ := exists_breach h.coherent hargs hno
    exact hbreach.violates
  · obtain ⟨fault', hfault', hbreach⟩ := exists_breach h.coherent hargs (hfails.1 ⟨fault, hfault⟩)
    obtain rfl := Except.error.inj (hfault'.symm.trans hfault)
    exact ⟨hbreach, hbreach.isInternal_eq_false⟩

/-- A leaf that was marked is asked to be marked once more. -/
theorem reachable_fails_iff_violates_stale : ∃ m, Model.Reachable "a" m ∧
    (setSyntaxError 1 ⟨"late", none, []⟩).apply m = .error (.replaced 1 2) ∧
    (setSyntaxError 1 ⟨"late", none, []⟩).Violates m ∧
    Breach m (setSyntaxError 1 ⟨"late", none, []⟩) (.replaced 1 2) := by
  have h : Model.Reachable "a" (.initial "a") := .opened (Model.ofText_eq_ok_iff.2 ⟨by decide, rfl⟩)
  have h := h.edited (.newLeaf 0 1 none false none 0) (by decide) rfl
  have h := h.edited (.setSyntaxError 1 ⟨"late", none, []⟩) (by decide) rfl
  obtain ⟨hfails, hbreach⟩ :=
    reachable_fails_iff_violates h (show Allocated _ (setSyntaxError 1 ⟨"late", none, []⟩) by decide)
  exact ⟨_, h, rfl, hfails.1 ⟨_, rfl⟩, (hbreach _ rfl).1⟩

end Edit

end SyntaxTree
