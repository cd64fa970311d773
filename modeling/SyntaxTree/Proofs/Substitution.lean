import SyntaxTree.Proofs.Binding

/-!
# Replacing nodes in a coherent model

The three calls that put a fresh node into the place of another: compressing a composite that needs no slot,
marking a node with a syntax error, and wrapping a node. They go through for every live node that has a parent,
and compressing also where there is nothing to do.
-/

namespace SyntaxTree

namespace Content

@[simp] theorem compressed?_withFirstChild (child : Option NodeId) (content : Content) :
    (content.withFirstChild child).compressed? = content.compressed? := by
  rcases content with _ | _ | _ | ⟨_, _ | _, _⟩ <;> rfl

@[simp] theorem marked?_withFirstChild (child : Option NodeId) (error : SyntaxError) (content : Content) :
    (content.withFirstChild child).marked? error = content.marked? error := by
  cases content <;> rfl

/-- A slot is given up exactly if it is empty and not the root's. -/
theorem compressed?_isSome_iff (content : Content) : content.compressed?.isSome = true ↔
    content.kind.isBindable = true ∧ content.element? = none ∧ content.kind ≠ .root := by
  rcases content with ⟨_, _ | _, _ | _⟩ | ⟨_, _ | _⟩ | ⟨_, _ | _⟩ | ⟨_, _ | _, _ | _⟩ <;>
    simp [compressed?, kind, NodeKind.isBindable, element?]

/-- With the slot goes nothing else. -/
theorem compressed?_eq_some {content small : Content} (h : content.compressed? = some small) :
    content.element? = none ∧
      small = .composite ⟨none, (content.branch?.map (·.lookahead)).getD 0⟩ content.syntaxError? := by
  rcases content with _ | _ | _ | ⟨_, _ | _, _ | _⟩ <;> cases h <;> simp [element?, branch?, syntaxError?]

/-- Everything but the root can be marked. -/
theorem marked?_eq_none_iff {content : Content} (error : SyntaxError) :
    content.marked? error = none ↔ content.kind = .root := by
  rcases content with ⟨_, _ | _, _ | _⟩ | ⟨_, _⟩ | ⟨_, _ | _⟩ | ⟨_, _, _ | _⟩ <;> simp [marked?, kind]

/-- A marked node is what it was, with an error and without children. -/
theorem marked?_eq_some {content marked : Content} {error : SyntaxError}
    (h : content.marked? error = some marked) :
    marked.kind ≠ .root ∧ marked.firstChild? = none ∧ marked.element? = content.element? ∧
      marked.leafRange? = content.leafRange? ∧ marked.kind.isLeaf = content.kind.isLeaf := by
  rcases content with ⟨_, _ | _, _ | _⟩ | ⟨_, _⟩ | ⟨_, _ | _⟩ | ⟨_, _, _ | _⟩ <;> cases h <;>
    simp [kind, element?, firstChild?, branch?, leafRange?, NodeKind.isLeaf]

end Content

namespace Model

open Function (update update_self update_of_ne)
open Links (appended rename rename_self rename_of_ne)

variable {m m' : Model} {n p : NodeId} {b : Node}

/-! ## Compressing -/

/-- Where there is nothing to compress, nothing happens. -/
theorem compress_of_none (hb : m.bare? n = some b) (hlive : b.replacedBy = none)
    (hcontent : b.content.compressed? = none) : m.compress n = .ok (m, m.parent? n) := by
  obtain ⟨node, hnode, rfl⟩ := get?_of_bare? hb
  rw [Node.bare_content, Content.compressed?_withFirstChild] at hcontent
  rw [compress, lookupLive_eq_ok_iff.2 ⟨hnode, hlive⟩, parent?, hnode]
  simp only [bind, Except.bind, hcontent]
  rfl

/-- A composite with an empty slot is replaced by one without a slot. -/
theorem Coherent.compress_of_some (h : m.Coherent) (hb : m.bare? n = some b) (hlive : b.replacedBy = none)
    {content : Content} (hcontent : b.content.compressed? = some content) (hn : m.parent? n = some p) :
    ∃ m', m.compress n = .ok (m', some p) ∧ m'.Coherent ∧ Replaced m m' m.children n b content := by
  obtain ⟨hempty, hsmall⟩ := Content.compressed?_eq_some hcontent
  have hfresh : m.Fresh content := by
    rw [hsmall]
    refine ⟨?_, rfl, nofun⟩
    cases b.content.syntaxError? <;> simp [Content.kind]
  obtain ⟨m', hok, hr⟩ := replace_eq_ok h.structured.forms hb hn hfresh.loose (fun _ => by
    rw [hsmall]
    cases b.content.syntaxError? <;> rfl)
  have hne : n ≠ m.size := Nat.ne_of_lt (lt_size_of_parent? hn)
  have hparent : m'.parent? m.size = some p := by
    have hparent := hr.parent n hne
    have hpn : p ≠ n := by
      rintro rfl
      exact not_mem_kids_self h.structured.forms h.structured.grounded p (h.structured.forms.listed hn)
    rwa [rename_self, hn, Option.map_some, rename_of_ne hpn] at hparent
  refine ⟨m', ?_, ⟨h.toWellFormed.replaced hr hb hn hempty hfresh, ?_⟩, hr⟩
  · obtain ⟨node, hnode, rfl⟩ := get?_of_bare? hb
    rw [Node.bare_content, Content.compressed?_withFirstChild] at hcontent
    rw [compress, lookupLive_eq_ok_iff.2 ⟨hnode, hlive⟩]
    simp only [bind, Except.bind, hcontent, hok, hparent]
    rfl
  · refine h.indexed.of_elements hr.index (funext fun x => ?_)
    rw [element?_eq_bare?, element?_eq_bare?, hr.bare]
    by_cases hxn : x = n
    · rw [hxn, update_self, hb]
      rfl
    rw [update_of_ne hxn]
    by_cases hxs : x = m.size
    · rw [hxs, update_self, bare?_eq_none_iff.2 (Nat.le_refl _), hsmall]
      rfl
    · rw [update_of_ne hxs]

/-- A node was replaced by one without a slot, or nothing had to be done. -/
inductive Compressed (m : Model) (n : NodeId) (b : Node) : Model → Prop where
  | unchanged : b.content.compressed? = none → Compressed m n b m
  | replaced {m' : Model} {content : Content} {p : NodeId} : b.content.compressed? = some content →
      m.parent? n = some p → Replaced m m' m.children n b content → Compressed m n b m'

theorem Compressed.size_le (h : Compressed m n b m') : m.size ≤ m'.size := by
  cases h with
  | unchanged _ => exact Nat.le_refl _
  | replaced _ _ hr =>
    rw [hr.size]
    exact Nat.le_succ _

theorem Compressed.text (h : Compressed m n b m') : m'.text = m.text := by
  cases h with
  | unchanged _ => rfl
  | replaced _ _ hr => exact hr.text

/-- Every live node can be compressed if it has a parent or needs none. -/
theorem Coherent.compress_eq_ok (h : m.Coherent) (hb : m.bare? n = some b) (hlive : b.replacedBy = none)
    (hn : b.content.compressed? = none ∨ ∃ p, m.parent? n = some p) :
    ∃ m', m.compress n = .ok (m', m.parent? n) ∧ m'.Coherent ∧ Compressed m n b m' := by
  cases hcontent : b.content.compressed? with
  | none => exact ⟨m, compress_of_none hb hlive hcontent, h, .unchanged hcontent⟩
  | some content =>
    rw [hcontent] at hn
    obtain ⟨p, hp⟩ := hn.resolve_left nofun
    obtain ⟨m', hok, hcoherent, hr⟩ := h.compress_of_some hb hlive hcontent hp
    exact ⟨m', hp ▸ hok, hcoherent, .replaced hcontent hp hr⟩

/-- Compressing asks for a live node, and for a parent if there is something to do. -/
theorem live_of_compress {r : Model × Option NodeId} (hok : m.compress n = .ok r) :
    ∃ b, m.bare? n = some b ∧ b.replacedBy = none ∧
      (b.content.compressed? = none ∨ ∃ p, m.parent? n = some p) := by
  obtain ⟨node, hlook, hok⟩ := bind_eq_ok_iff.1 hok
  obtain ⟨hnode, hlive⟩ := lookupLive_eq_ok_iff.1 hlook
  refine ⟨node.bare, bare?_of_get? hnode, hlive, ?_⟩
  rw [Node.bare_content, Content.compressed?_withFirstChild]
  cases hcontent : node.content.compressed? with
  | none => exact Or.inl rfl
  | some content =>
    simp only [hcontent] at hok
    obtain ⟨r, hreplace, -⟩ := bind_eq_ok_iff.1 hok
    obtain ⟨-, rfl⟩ := Content.compressed?_eq_some hcontent
    exact Or.inr (parent?_of_replace rfl hreplace)

/-! ## Marking -/

/-- A node was replaced by one that carries an error, and its element moved on to the new node. -/
structure Marked (m m' : Model) (n : NodeId) (b : Node) (content : Content) : Prop where
  children : m'.children = replaced m.children n m.size
  parent : ∀ x, x ≠ m.size → m'.parent? (rename n m.size x) = (m.parent? x).map (rename n m.size)
  bare : m'.bare? = update (update m.bare? m.size (some (.unlinked content b.grammar))) n
    (some { b with content := b.content.withSlot none, grammar := none, replacedBy := some m.size })
  find : ∀ f, m'.index.find? f = if content.element? = some f then some m.size else m.index.find? f
  text : m'.text = m.text
  size : m'.size = m.size + 1

/-- The index after the element of a marked node moved on. -/
def indexMarked (index : SemanticIndex) (held : Option Element) (new : NodeId) : SemanticIndex :=
  held.elim index (index.insert · new)

theorem find?_indexMarked (index : SemanticIndex) (held : Option Element) (new : NodeId) (f : Element) :
    (indexMarked index held new).find? f = if held = some f then some new else index.find? f := by
  cases held with
  | none => rfl
  | some e =>
    rw [indexMarked, Option.elim_some, SemanticIndex.find?_insert]
    simp only [Option.some.injEq, eq_comm]

/-- The new node holds what the old one held, and all others hold what they held. -/
theorem Marked.element? {content : Content} (h : Marked m m' n b content) (hne : n ≠ m.size) (x : NodeId) :
    m'.element? x = if x = m.size then content.element? else if x = n then none else m.element? x := by
  rw [element?_eq_bare?, h.bare, element?_eq_bare?]
  by_cases hx : x = n
  · rw [hx, update_self, if_neg hne, if_pos rfl]
    exact Content.element?_withSlot_none _
  rw [update_of_ne hx, if_neg hx]
  by_cases hxs : x = m.size
  · rw [hxs, update_self, if_pos rfl]
    rfl
  · rw [update_of_ne hxs, if_neg hxs]

/-- The index follows the element to the new node. -/
theorem Marked.indexed {content : Content} (h : Marked m m' n b content) (hindexed : m.Indexed)
    (hb : m.bare? n = some b) (helement : content.element? = b.content.element?)
    (hindex : m'.index = indexMarked m.index content.element? m.size) : m'.Indexed := by
  have hmoved := h.element? (Nat.ne_of_lt (lt_size_of_bare? hb))
  have hnew : m.element? m.size = none := by
    rw [element?_eq_bare?, bare?_eq_none_iff.2 (Nat.le_refl _)]
    rfl
  have hheld : m.element? n = content.element? := by
    rw [element?_eq_bare?, hb, helement]
    rfl
  cases he : content.element? with
  | none =>
    rw [he] at hheld hmoved hindex
    refine hindexed.of_elements hindex (funext fun x => ?_)
    rw [hmoved]
    split
    · next hx => rw [hx, hnew]
    · split
      · next hx => rw [hx, hheld]
      · rfl
  | some e =>
    rw [he] at hheld hmoved hindex
    refine hindexed.rebound e m.size ?_ (fun f => ?_) fun x => ?_
    · rw [hindex]
      exact nodup_keys_insert hindexed.nodup e m.size
    · rw [h.find, he, hnew]
      simp [eq_comm]
    · rw [hmoved]
      -- only the old node held the element
      have hholder : m.element? x = some e ↔ x = n := by
        rw [← hindexed.bound, (hindexed.bound e n).2 hheld, Option.some.injEq, eq_comm]
      simp only [hholder]

/-- First the slot is emptied, which breaks only the index, and the node is replaced. Then the element moves on to
the new node. -/
theorem Coherent.replace_marked_eq_ok (h : m.Coherent) (hb : m.bare? n = some b) {error : SyntaxError}
    (hn : m.parent? n = some p) {content : Content} (hcontent : b.content.marked? error = some content) :
    ∃ m₂, (m.setSlot n none).replace n content = .ok (m₂, m.size) ∧ m₂.WellFormed ∧ m₂.index = m.index ∧
      Marked m { m₂ with index := indexMarked m.index content.element? m.size } n b content := by
  obtain ⟨hnotRoot, hloose, -, hrange, hleaf⟩ := Content.marked?_eq_some hcontent
  have hproper := h.labelled.proper hb
  have hb₁ : (m.setSlot n none).bare? n = some { b with content := b.content.withSlot none } := by
    rw [bare?_setSlot hb, update_self]
  have hwf₁ : (m.setSlot n none).WellFormed := h.setSlot hb (Or.inr rfl)
  have hkids : (m.setSlot n none).children = m.children := (h.structured.setSlot n none).children_eq
  have hparent : (m.setSlot n none).parent? = m.parent? := congrArg Links.parent (links_setSlot m n none)
  have hsize : (m.setSlot n none).size = m.size := size_modify ..
  have hfresh : (m.setSlot n none).Fresh content := ⟨hnotRoot, hloose, fun hr => hproper.in_text (hrange ▸ hr)⟩
  have hcomposite : (m.setSlot n none).children n ≠ [] → content.kind.isLeaf = false := by
    intro hk
    obtain ⟨c, hc⟩ := List.exists_mem_of_ne_nil _ hk
    have hinner := (isLeaf_of_mem hwf₁.structured.forms hc).1
    rw [isLeaf_eq_bare?, hb₁, Option.any_some] at hinner
    rw [hleaf, ← hinner]
    exact congrArg _ (Content.kind_withSlot ..).symm
  have hn₁ : (m.setSlot n none).parent? n = some p := by rw [hparent]; exact hn
  obtain ⟨m₂, hok, hr⟩ := replace_eq_ok hwf₁.structured.forms hb₁ hn₁ hloose hcomposite
  refine ⟨m₂, hsize ▸ hok, hwf₁.replaced hr hb₁ hn₁ (Content.element?_withSlot_none _) hfresh, hr.index, ?_⟩
  refine ⟨?_, ?_, ?_, find?_indexMarked _ _ _, hr.text, hr.size.trans (by rw [hsize])⟩
  · show m₂.children = _
    rw [Model.children_eq hr.forms, hkids, hsize]
  · rw [← hsize, ← hparent]
    exact hr.parent
  · show m₂.bare? = _
    rw [hr.bare, hsize, bare?_setSlot hb]
    funext x
    by_cases hx : x = n
    · rw [hx, update_self, update_self]
    · rw [update_of_ne hx, update_of_ne hx]
      by_cases hxs : x = m.size
      · rw [hxs, update_self, update_self]
      · rw [update_of_ne hxs, update_of_ne hxs, update_of_ne hx]

/-- Every node with a parent can be marked. -/
theorem Coherent.setSyntaxError_eq_ok (h : m.Coherent) (hb : m.bare? n = some b) (error : SyntaxError)
    (hn : m.parent? n = some p) :
    ∃ m' content, b.content.marked? error = some content ∧
      m.setSyntaxError n error = .ok (m', m.size) ∧ m'.Coherent ∧ Marked m m' n b content := by
  have hkind : b.content.kind ≠ .root := fun hk => h.ne_root hn ((h.labelled.proper hb).root_only hk)
  obtain ⟨content, hcontent⟩ := Option.ne_none_iff_exists'.1 fun he =>
    hkind ((Content.marked?_eq_none_iff error).1 he)
  obtain ⟨m₂, hok, hwf, hindex, hmarked⟩ := h.replace_marked_eq_ok hb hn hcontent
  have hindexed := hmarked.indexed h.indexed hb (Content.marked?_eq_some hcontent).2.2.1 rfl
  refine ⟨_, content, hcontent, ?_, ⟨hwf.of_index _, hindexed⟩, hmarked⟩
  obtain ⟨node, hnode, -, hlook⟩ := (h.live_of_parent? hn).exists_lookupLive
  obtain rfl : node.bare = b := Option.some.inj ((bare?_of_get? hnode).symm.trans hb)
  rw [Node.bare_content, Content.marked?_withFirstChild] at hcontent
  rw [setSlot] at hok
  rw [setSyntaxError, hlook]
  simp only [bind, Except.bind, hcontent, hok]
  cases content.element? with
  | none =>
    rw [indexMarked, Option.elim_none, ← hindex]
    rfl
  | some e =>
    rw [indexMarked, Option.elim_some, ← hindex]
    rfl

/-- Marking asks for a live node with a parent. -/
theorem live_of_setSyntaxError {error : SyntaxError} {r : Model × NodeId}
    (hok : m.setSyntaxError n error = .ok r) : m.Live n ∧ ∃ p, m.parent? n = some p := by
  obtain ⟨node, hlook, hok⟩ := bind_eq_ok_iff.1 hok
  obtain ⟨hnode, hlive⟩ := lookupLive_eq_ok_iff.1 hlook
  refine ⟨⟨node, hnode, hlive⟩, ?_⟩
  cases hcontent : node.content.marked? error with
  | none =>
    rw [hcontent] at hok
    cases hok
  | some content =>
    simp only [hcontent] at hok
    obtain ⟨r, hreplace, -⟩ := bind_eq_ok_iff.1 hok
    obtain ⟨p, hp⟩ := parent?_of_replace (Content.marked?_eq_some hcontent).2.1 hreplace
    have hlinks := links_setSlot m n none
    rw [← links_parent] at hp
    exact ⟨p, (congrFun (congrArg Links.parent hlinks) n).symm.trans hp⟩

/-! ## Wrapping -/

/-- A fresh composite was put between a node and its parent. -/
structure Wrapped (m m' : Model) (n p : NodeId) (lookahead : Nat) (grammar : Option String) : Prop where
  bare : m'.bare? = update m.bare? m.size (some (.unlinked (.freshComposite lookahead) grammar))
  parent : m'.parent? = update (update m.parent? m.size (some p)) n (some m.size)
  children : m'.children = wrapped m.children n m.size
  text : m'.text = m.text
  size : m'.size = m.size + 1

/-- The new composite steps into the place of the node and gets it as its only child. -/
theorem Coherent.wrap_place_eq_ok (h : m.Coherent) (lookahead : Nat) (grammar : Option String)
    (hn : m.parent? n = some p) :
    ∃ m₁ m', (m.push (.unlinked (.freshComposite lookahead) grammar)).takePlace n m.size = .ok m₁ ∧
      m₁.appendChild m.size n = .ok m' ∧ m'.Coherent ∧ Wrapped m m' n p lookahead grammar := by
  have hne : n ≠ m.size := Nat.ne_of_lt (lt_size_of_parent? hn)
  obtain ⟨hcoherent₀, hcreated⟩ := h.push lookahead grammar
  let m₀ := m.push (.unlinked (.freshComposite lookahead) grammar)
  have hkids₀ : m₀.children = m.children := hcreated.children
  have hparent₀ : m₀.parent? = m.parent? := hcreated.parent.trans
    (Function.update_eq_self_iff.2 (links_of_size_le (Nat.le_refl _)).1.symm)
  have hnew : m₀.Live m.size := (live_update hcreated.bare rfl).2 (Or.inr rfl)
  have hold : m₀.Live n := (live_update hcreated.bare rfl).2 (Or.inl (h.live_of_parent? hn))
  obtain ⟨m₁, htake, hdata₁, hforms₁, hparent₁⟩ := takePlace_eq_ok hcoherent₀.structured.forms hne
    (by rw [hparent₀]; exact hn) hnew.lt_size (by
      rw [hparent₀]
      exact (links_of_size_le (Nat.le_refl _)).1)
  obtain ⟨m', happend, hdata₂, hforms₂, hparent₂⟩ := appendChild_eq_ok (p := m.size) hforms₁
    (by rw [hdata₁.size]; exact hnew.lt_size)
    (by rw [isLeaf_eq_bare?, hdata₁.bare, hcreated.bare, update_self]; rfl)
    (hdata₁.live_iff.2 hold) (by rw [hparent₁, update_self])
    (by
      rw [isRoot_eq_bare?, hdata₁.bare, ← isRoot_eq_bare?, Bool.eq_false_iff]
      exact fun hroot => h.ne_root hn (hcoherent₀.isRoot_iff.1 hroot))
  have hdata := hdata₁.trans hdata₂
  have hparent : m'.parent? = update (update m.parent? m.size (some p)) n (some m.size) := by
    rw [hparent₂, hparent₁, hparent₀, Function.update_idem]
  have hstructured : m'.Structured (wrapped m₀.children n m.size) := by
    refine hcoherent₀.structured.wrapped hdata hforms₂ hne (by rw [hparent₀]; exact hn)
      (hparent.trans (by rw [hparent₀])) hnew (Nat.ne_of_gt h.labelled.size_pos) ?_
    rw [hparent₀]
    exact h.structured.parent?_ne_size
  rw [hkids₀] at hstructured
  refine ⟨m₁, m', htake, happend, ⟨⟨hstructured.of_children, hcoherent₀.labelled.of_sameData hdata, ?_⟩,
    hcoherent₀.indexed.of_elements hdata.index (funext fun x => ?_)⟩,
    ⟨hdata.bare.trans hcreated.bare, hparent, hstructured.children_eq, hdata.text,
      hdata.size.trans hcreated.size⟩⟩
  · refine hcoherent₀.settled.step fun x b hb _ hloose => Or.inl ?_
    rw [hdata.bare] at hb
    rw [hparent] at hloose
    by_cases hxn : x = n
    · rw [hxn, update_self] at hloose
      cases hloose
    rw [update_of_ne hxn] at hloose
    by_cases hxs : x = m.size
    · rw [hxs, update_self] at hloose
      cases hloose
    · rw [update_of_ne hxs] at hloose
      exact ⟨hb, hparent₀ ▸ hloose⟩
  · rw [element?_eq_bare?, element?_eq_bare?, hdata.bare]

/-- Every node with a parent can be wrapped. It is compressed afterwards, as far as it needs no slot. -/
theorem Coherent.wrap_eq_ok (h : m.Coherent) (grammar : Option String) (lookahead : Nat)
    (hb : m.bare? n = some b) (hn : m.parent? n = some p) :
    ∃ m₁ m', m.wrap grammar lookahead n = .ok (m', m.size) ∧ m'.Coherent ∧ m₁.Coherent ∧
      Wrapped m m₁ n p lookahead grammar ∧ Compressed m₁ n b m' := by
  have hne : n ≠ m.size := Nat.ne_of_lt (lt_size_of_parent? hn)
  obtain ⟨node, hnode, hlive, hlook⟩ := (h.live_of_parent? hn).exists_lookupLive
  obtain ⟨m₁, m₂, htake, happend, hcoherent, hw⟩ := h.wrap_place_eq_ok lookahead grammar hn
  have hb₂ : m₂.bare? n = some b := by rw [hw.bare, update_of_ne hne]; exact hb
  have hn₂ : m₂.parent? n = some m.size := by rw [hw.parent, update_self]
  have hlive₂ : b.replacedBy = none := by
    rw [bare?_of_get? hnode] at hb
    obtain rfl := Option.some.inj hb
    exact hlive
  obtain ⟨m', hok, hcoherent', hcompressed⟩ := hcoherent.compress_eq_ok hb₂ hlive₂ (Or.inr ⟨_, hn₂⟩)
  rw [hn₂] at hok
  refine ⟨m₂, m', ?_, hcoherent', hcoherent, hw, hcompressed⟩
  rw [wrap, hlook]
  simp only [bind, Except.bind, htake, happend, hok]
  rfl

/-- Wrapping asks for a live node with a parent. -/
theorem live_of_wrap {grammar : Option String} {lookahead : Nat} {r : Model × NodeId}
    (hok : m.wrap grammar lookahead n = .ok r) : m.Live n ∧ ∃ p, m.parent? n = some p := by
  obtain ⟨node, hlook, hok⟩ := bind_eq_ok_iff.1 hok
  obtain ⟨hnode, hlive⟩ := lookupLive_eq_ok_iff.1 hlook
  obtain ⟨m₁, htake, -⟩ := bind_eq_ok_iff.1 hok
  obtain ⟨p, hp⟩ := parent?_of_takePlace htake
  have hlinks := links_push_unlinked m (fresh_freshComposite m lookahead).loose grammar
  rw [← links_parent, hlinks] at hp
  exact ⟨⟨node, hnode, hlive⟩, p, hp⟩

end Model

end SyntaxTree
