import SyntaxTree.Proofs.Coherence

/-!
# Growing a coherent model

For each call of the builder three things are said: what it asks for, that it goes through on a coherent model
whenever it gets that, and what the model is afterwards. The last is said by a structure with one field for
each side of the store, and the model is coherent again. This file does so for the calls that create nodes and
link them (`Created`, `Added`); `Binding` and `Substitution` go on with the others.

A call may allocate a node before it looks at its arguments, so the arguments have to be nodes that were there
before the call.
-/

namespace SyntaxTree.Model

open Function (update update_self update_of_ne)
open Links (appended rename rename_self rename_of_ne)

variable {m m' : Model} {n p c : NodeId} {b : Node} {content : Content} {grammar : Option String}

theorem live_update (hbare : m'.bare? = update m.bare? c (some b)) (hb : b.replacedBy = none) :
    m'.Live n ↔ m.Live n ∨ n = c := by
  rw [live_iff_bare?, live_iff_bare?, hbare]
  by_cases hn : n = c
  · rw [hn, update_self]
    exact ⟨fun _ => Or.inr rfl, fun _ => ⟨b, rfl, hb⟩⟩
  · rw [update_of_ne hn]
    exact ⟨Or.inl, fun h => h.resolve_right hn⟩

/-! ## New nodes -/

/-- A node was allocated, and put at the end of a parent's list if one was given. -/
structure Created (m m' : Model) (content : Content) (grammar : Option String) (p : Option NodeId) :
    Prop where
  bare : m'.bare? = update m.bare? m.size (some (.unlinked content grammar))
  parent : m'.parent? = update m.parent? m.size p
  children : m'.children = p.elim m.children (appended m.children · m.size)
  text : m'.text = m.text
  size : m'.size = m.size + 1

theorem Created.element? {p : Option NodeId} (h : Created m m' content grammar p) (hcontent : content.element? = none) :
    m'.element? = m.element? := by
  funext x
  rw [element?_eq_bare?, element?_eq_bare?, h.bare]
  by_cases hx : x = m.size
  · rw [hx, update_self, bare?_eq_none_iff.2 (Nat.le_refl _)]
    exact hcontent
  · rw [update_of_ne hx]

/-- A new composite may stand alone. -/
theorem Coherent.push (h : m.Coherent) (lookahead : Nat) (grammar : Option String) :
    (m.push (.unlinked (.freshComposite lookahead) grammar)).Coherent ∧
      Created m (m.push (.unlinked (.freshComposite lookahead) grammar)) (.freshComposite lookahead)
        grammar none := by
  have hfresh := fresh_freshComposite m lookahead
  have hstructured := h.structured.push hfresh.loose grammar
  have hcreated : Created m (m.push (.unlinked (.freshComposite lookahead) grammar))
      (.freshComposite lookahead) grammar none := by
    refine ⟨bare?_push_unlinked m hfresh.loose grammar, ?_, hstructured.children_eq, rfl, size_push ..⟩
    rw [← links_parent, links_push_unlinked m hfresh.loose grammar]
    refine (Function.update_eq_self_iff.2 ?_).symm
    exact (links_of_size_le (Nat.le_refl _)).1.symm
  refine ⟨⟨⟨hstructured.of_children, h.labelled.push hfresh grammar, ?_⟩,
    h.indexed.of_elements rfl (hcreated.element? rfl)⟩, hcreated⟩
  refine h.settled.step fun n b hb _ hloose => ?_
  rw [hcreated.bare] at hb
  rw [hcreated.parent] at hloose
  by_cases hn : n = m.size
  · rw [hn, update_self] at hb
    obtain rfl := Option.some.inj hb
    exact Or.inr rfl
  · rw [update_of_ne hn] at hb hloose
    exact Or.inl ⟨hb, hloose⟩

/-- The other new nodes go under a parent at once. -/
theorem Coherent.push_link_eq_ok (h : m.Coherent) (hfresh : m.Fresh content) (helement : content.element? = none)
    (grammar : Option String) (hp : m.Live p) (hleaf : m.isLeaf p = false) :
    ∃ m', (m.push (.unlinked content grammar)).link p m.size = .ok m' ∧ m'.Coherent ∧
      Created m m' content grammar (some p) := by
  have hps : p ≠ m.size := Nat.ne_of_lt hp.lt_size
  let m₁ := m.push (.unlinked content grammar)
  have hbare : m₁.bare? = update m.bare? m.size (some (.unlinked content grammar)) :=
    bare?_push_unlinked m hfresh.loose grammar
  have hlinks : m₁.links = m.links := links_push_unlinked m hfresh.loose grammar
  have hparent : m₁.parent? = m.parent? := congrArg Links.parent hlinks
  have hstructured : m₁.Structured m.children := h.structured.push hfresh.loose grammar
  have hloose : m₁.parent? m.size = none := by
    rw [hparent]
    exact (links_of_size_le (Nat.le_refl _)).1
  have hlive : m₁.Live p := (live_update hbare rfl).2 (Or.inl hp)
  have hnew : m₁.Live m.size := (live_update hbare rfl).2 (Or.inr rfl)
  have hlinkable : m₁.Linkable p m.size := by
    refine ⟨hlive, ?_, hnew, hloose, ?_⟩
    · rw [isLeaf_eq_bare?, hbare, update_of_ne hps, ← isLeaf_eq_bare?]
      exact hleaf
    · rw [isRoot_eq_bare?, hbare, update_self]
      simpa [Node.kind, Node.unlinked] using hfresh.not_root
  obtain ⟨m', hok, hdata, hforms, hparent'⟩ := link_eq_ok hstructured.forms hlinkable
  have hcycle : m.size ∉ m₁.ancestors p := by
    intro hmem
    obtain ⟨x, hx⟩ := (climbs_ancestors hstructured.forms hstructured.grounded p).exists_below hmem
    rw [hparent] at hx
    exact h.structured.parent?_ne_size x hx
  have hstructured' := hstructured.appended hdata hforms hparent' hlive hnew
    (Nat.ne_of_gt h.labelled.size_pos) hps.symm hcycle
  have hcreated : Created m m' content grammar (some p) :=
    ⟨hdata.bare.trans hbare, hparent'.trans (by rw [hparent]), hstructured'.children_eq, hdata.text,
      hdata.size.trans (size_push ..)⟩
  refine ⟨m', hok, ⟨⟨hstructured'.of_children, (h.labelled.push hfresh grammar).of_sameData hdata, ?_⟩,
    h.indexed.of_elements hdata.index (hcreated.element? helement)⟩, hcreated⟩
  refine h.settled.step fun n b hb _ hl => ?_
  rw [hcreated.bare] at hb
  rw [hcreated.parent] at hl
  by_cases hn : n = m.size
  · rw [hn, update_self] at hl
    cases hl
  · rw [update_of_ne hn] at hb hl
    exact Or.inl ⟨hb, hl⟩

/-- What was linked right after it was allocated could be linked. -/
theorem WellFormed.linkable_of_push_link (h : m.WellFormed) (hcontent : content.firstChild? = none)
    (hok : (m.push (.unlinked content grammar)).link p m.size = .ok m') :
    (m.push (.unlinked content grammar)).Linkable p m.size := by
  have hforms : (m.push (.unlinked content grammar)).links.Forms m.children := by
    rw [links_push_unlinked m hcontent grammar]
    exact h.structured.forms
  exact linkable_of_link hforms hok

/-- What a new node's parent must be. -/
theorem WellFormed.live_of_push_link (h : m.WellFormed) (hcontent : content.firstChild? = none)
    (hp : p < m.size) (hok : (m.push (.unlinked content grammar)).link p m.size = .ok m') :
    m.Live p ∧ m.isLeaf p = false := by
  have hps : p ≠ m.size := Nat.ne_of_lt hp
  have hbare := bare?_push_unlinked m hcontent grammar
  have hlinkable := h.linkable_of_push_link hcontent hok
  refine ⟨((live_update hbare rfl).1 hlinkable.parent_live).resolve_right hps, ?_⟩
  have hleaf := hlinkable.parent_composite
  rwa [isLeaf_eq_bare?, hbare, update_of_ne hps, ← isLeaf_eq_bare?] at hleaf

/-- A composite can be created alone, or under a live composite. -/
theorem Coherent.newComposite_eq_ok (h : m.Coherent) (grammar : Option String) (lookahead : Nat)
    {parent : Option NodeId} (hp : ∀ p ∈ parent, m.Live p ∧ m.isLeaf p = false) :
    ∃ m', m.newComposite grammar lookahead parent = .ok (m', m.size) ∧ m'.Coherent ∧
      Created m m' (.freshComposite lookahead) grammar parent := by
  cases parent with
  | none => exact ⟨_, rfl, h.push lookahead grammar⟩
  | some p =>
    obtain ⟨hlive, hleaf⟩ := hp p rfl
    obtain ⟨m', hok, hrest⟩ :=
      h.push_link_eq_ok (fresh_freshComposite m lookahead) rfl grammar hlive hleaf
    refine ⟨m', ?_, hrest⟩
    simp only [newComposite, hok, bind, Except.bind]
    rfl

theorem WellFormed.live_of_newComposite (h : m.WellFormed) {lookahead : Nat} {parent : Option NodeId}
    {r : Model × NodeId} (hsize : ∀ p ∈ parent, p < m.size)
    (hok : m.newComposite grammar lookahead parent = .ok r) :
    ∀ p ∈ parent, m.Live p ∧ m.isLeaf p = false := by
  rintro p rfl
  obtain ⟨m₁, hlink, -⟩ := bind_eq_ok_iff.1 hok
  exact h.live_of_push_link rfl (hsize p rfl) hlink

/-- Where a leaf may stand. In a text that is not too long the end of a leaf cannot overflow. -/
theorem leafRange_eq_ok_iff (hshort : m.textLength < UInt32.size) {offset length : Nat} {range : TextRange} :
    m.leafRange offset length = .ok range ↔
      (offset + length ≤ m.textLength ∧ Text.isBoundary m.chars offset = true ∧
        Text.isBoundary m.chars (offset + length) = true) ∧
        range.start = offset ∧ range.stop = offset + length := by
  obtain ⟨start, stop, hle⟩ := range
  unfold leafRange
  by_cases hout : m.textLength < offset + length
  · have hno : ¬ offset + length ≤ m.textLength := Nat.not_le_of_lt hout
    split <;> simp [hno]
  · rw [if_neg (by omega), if_neg hout]
    split
    · next hcut =>
      simp only [Bool.and_eq_true] at hcut
      simp only [Except.ok.injEq, TextRange.mk.injEq]
      exact ⟨fun he => ⟨⟨Nat.le_of_not_lt hout, hcut⟩, he.1.symm, he.2.symm⟩,
        fun he => ⟨he.2.1.symm, he.2.2.symm⟩⟩
    · next hcut =>
      simp only [Bool.and_eq_true] at hcut
      refine ⟨fun he => ?_, fun he => absurd he.1.2 hcut⟩
      cases he

/-- A leaf can be created under a live composite, for any piece of the text. -/
theorem Coherent.newLeaf_eq_ok (h : m.Coherent) {offset length : Nat} {range : TextRange}
    (grammar : Option String) (hidden : Bool) (error : Option SyntaxError)
    (hrange : m.leafRange offset length = .ok range) (hp : m.Live p) (hleaf : m.isLeaf p = false) :
    ∃ m', m.newLeaf offset length grammar hidden error p = .ok (m', m.size) ∧ m'.Coherent ∧
      Created m m' (.leaf range hidden error) grammar (some p) := by
  obtain ⟨⟨hend, hstart, hstop⟩, hrs, hre⟩ := (leafRange_eq_ok_iff h.labelled.short).1 hrange
  have hfresh : m.Fresh (.leaf range hidden error) := by
    refine ⟨?_, rfl, fun hr => ?_⟩
    · cases hidden <;> cases error <;> simp [Content.kind]
    · obtain rfl := Option.some.inj hr
      rw [hrs, hre]
      exact ⟨hend, hstart, hstop⟩
  obtain ⟨m', hok, hrest⟩ := h.push_link_eq_ok hfresh rfl grammar hp hleaf
  refine ⟨m', ?_, hrest⟩
  simp only [newLeaf, hrange, hok, bind, Except.bind]
  rfl

theorem WellFormed.live_of_newLeaf (h : m.WellFormed) {offset length : Nat} {hidden : Bool}
    {error : Option SyntaxError} {r : Model × NodeId} (hsize : p < m.size)
    (hok : m.newLeaf offset length grammar hidden error p = .ok r) :
    (∃ range, m.leafRange offset length = .ok range) ∧ m.Live p ∧ m.isLeaf p = false := by
  obtain ⟨range, hrange, hok⟩ := bind_eq_ok_iff.1 hok
  obtain ⟨m₁, hlink, -⟩ := bind_eq_ok_iff.1 hok
  exact ⟨⟨range, hrange⟩, h.live_of_push_link rfl hsize hlink⟩

/-! ## Adding a child -/

/-- A node was put at the end of a parent's list. -/
structure Added (m m' : Model) (p c : NodeId) : Prop where
  data : SameData m m'
  parent : m'.parent? = update m.parent? c (some p)
  children : m'.children = appended m.children p c

/-- A child can be added unless its new parent hangs below it. -/
theorem Coherent.addChild_eq_ok (h : m.Coherent) (hl : m.Linkable p c) (hpc : p ≠ c)
    (hcycle : c ∉ m.ancestors p) :
    ∃ m', m.addChild p c = .ok m' ∧ m'.Coherent ∧ Added m m' p c := by
  obtain ⟨m', hok, hdata, hforms, hparent⟩ := link_eq_ok h.structured.forms hl
  have hroot : c ≠ rootId := by
    intro e
    have := hl.child_not_root
    rw [h.isRoot_iff.2 e] at this
    cases this
  have hstructured := h.structured.appended hdata hforms hparent hl.parent_live hl.child_live hroot hpc.symm
    hcycle
  have helement : m'.element? = m.element? := by
    funext x
    rw [element?_eq_bare?, element?_eq_bare?, hdata.bare]
  refine ⟨m', ?_, ⟨⟨hstructured.of_children, h.labelled.of_sameData hdata, ?_⟩,
    h.indexed.of_elements hdata.index helement⟩, hdata, hparent, hstructured.children_eq⟩
  · obtain ⟨node, hnode⟩ := lt_size_iff.1 hl.parent_live.lt_size
    rw [addChild, locate, hnode]
    simp only [bind, Except.bind]
    rw [if_neg (by simp [hpc, hcycle])]
    exact hok
  · refine h.settled.step fun n b hb _ hloose => Or.inl ?_
    rw [hdata.bare] at hb
    rw [hparent] at hloose
    by_cases hn : n = c
    · rw [hn, update_self] at hloose
      cases hloose
    · rw [update_of_ne hn] at hloose
      exact ⟨hb, hloose⟩

theorem WellFormed.linkable_of_addChild (h : m.WellFormed) (hok : m.addChild p c = .ok m') :
    m.Linkable p c ∧ p ≠ c ∧ c ∉ m.ancestors p := by
  obtain ⟨node, -, hok⟩ := bind_eq_ok_iff.1 hok
  by_cases hcycle : p = c ∨ c ∈ m.ancestors p
  · rw [if_pos hcycle] at hok
    cases hok
  · rw [if_neg hcycle] at hok
    exact ⟨linkable_of_link h.structured.forms hok, not_or.1 hcycle⟩

end SyntaxTree.Model
