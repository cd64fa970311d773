import SyntaxTree.Proofs.Substitution

/-!
# Edits on coherent models

All calls of the builder together. `Edit.Admissible` is what an edit asks of the model, and it is exactly what
decides whether the edit goes through: `apply_eq_ok` and `admissible_of_apply`. `Edit.Outcome` is what the model
is afterwards. Whatever is to be proved about runs of edits starts from these.
-/

namespace SyntaxTree.Edit

variable {m m' : Model} {edit : Edit} {answer : Option NodeId}

/-- The nodes that an edit names. -/
def arguments : Edit → List NodeId
  | newComposite _ _ parent => parent.toList
  | newLeaf _ _ _ _ _ parent => [parent]
  | addChild parent child => [parent, child]
  | associate node _ | wrap _ _ node | setSyntaxError node _ | compress node => [node]

/-- All nodes that the edit names are there. -/
def Allocated (m : Model) (edit : Edit) : Prop :=
  ∀ n ∈ edit.arguments, n < m.size

instance (m : Model) (edit : Edit) : Decidable (edit.Allocated m) :=
  inferInstanceAs (Decidable (∀ n ∈ edit.arguments, n < m.size))

/-- What an edit asks of the model. -/
def Admissible (m : Model) : Edit → Prop
  | newComposite _ _ parent => ∀ p ∈ parent, m.Live p ∧ m.isLeaf p = false
  | newLeaf offset length _ _ _ parent =>
    (offset + length ≤ m.textLength ∧ Text.isBoundary m.chars offset = true ∧
      Text.isBoundary m.chars (offset + length) = true) ∧ m.Live parent ∧ m.isLeaf parent = false
  | addChild parent child => m.Linkable parent child ∧ parent ≠ child ∧ child ∉ m.ancestors parent
  | associate node _ => m.Live node ∧ (m.kind? node).any NodeKind.isBindable = true
  | wrap _ _ node | setSyntaxError node _ => m.Live node ∧ ∃ p, m.parent? node = some p
  | compress node => ∃ b, m.bare? node = some b ∧ b.replacedBy = none ∧
      (b.content.compressed? = none ∨ ∃ p, m.parent? node = some p)

/-- What an edit makes of the model, and what it answers. -/
inductive Outcome (m : Model) : Edit → Model → Option NodeId → Prop where
  | newComposite {grammar : Option String} {lookahead : Nat} {parent : Option NodeId} {m' : Model} :
      m.Created m' (.freshComposite lookahead) grammar parent →
      Outcome m (.newComposite grammar lookahead parent) m' (some m.size)
  | newLeaf {offset length : Nat} {grammar : Option String} {hidden : Bool} {error : Option SyntaxError}
      {parent : NodeId} {range : TextRange} {m' : Model} : m.leafRange offset length = .ok range →
      m.Created m' (.leaf range hidden error) grammar (some parent) →
      Outcome m (.newLeaf offset length grammar hidden error parent) m' (some m.size)
  | addChild {parent child : NodeId} {m' : Model} : m.Linkable parent child → m.Added m' parent child →
      Outcome m (.addChild parent child) m' none
  | associate {node : NodeId} {element : Element} {m' : Model} : m.Bound m' node element →
      Outcome m (.associate node element) m' none
  | wrap {grammar : Option String} {lookahead : Nat} {node p : NodeId} {b : Node} {m₁ m' : Model} :
      m.bare? node = some b → m.parent? node = some p → m.Wrapped m₁ node p lookahead grammar →
      m₁.Coherent → m₁.Compressed node b m' → Outcome m (.wrap grammar lookahead node) m' (some m.size)
  | setSyntaxError {node p : NodeId} {error : SyntaxError} {b : Node} {content : Content} {m' : Model} :
      m.bare? node = some b → m.parent? node = some p → b.content.marked? error = some content →
      m.Marked m' node b content → Outcome m (.setSyntaxError node error) m' (some m.size)
  | compress {node : NodeId} {b : Node} {m' : Model} : m.bare? node = some b → b.replacedBy = none →
      m.Compressed node b m' → Outcome m (.compress node) m' (m.parent? node)

/-- An edit that gets what it asks for goes through. -/
theorem apply_eq_ok (h : m.Coherent) (hedit : edit.Admissible m) :
    ∃ m' answer, edit.apply m = .ok (m', answer) ∧ m'.Coherent ∧ edit.Outcome m m' answer := by
  cases edit with
  | newComposite grammar lookahead parent =>
    obtain ⟨m', hok, hcoherent, hcreated⟩ := h.newComposite_eq_ok grammar lookahead hedit
    refine ⟨m', some m.size, ?_, hcoherent, .newComposite hcreated⟩
    rw [apply, hok]
    rfl
  | newLeaf offset length grammar hidden error parent =>
    obtain ⟨hplace, hlive, hleaf⟩ := hedit
    have hrange : m.leafRange offset length = .ok ⟨offset, offset + length, Nat.le_add_right ..⟩ :=
      (Model.leafRange_eq_ok_iff h.labelled.short).2 ⟨hplace, rfl, rfl⟩
    obtain ⟨m', hok, hcoherent, hcreated⟩ := h.newLeaf_eq_ok grammar hidden error hrange hlive hleaf
    refine ⟨m', some m.size, ?_, hcoherent, .newLeaf hrange hcreated⟩
    rw [apply, hok]
    rfl
  | addChild parent child =>
    obtain ⟨hlinkable, hne, hcycle⟩ := hedit
    obtain ⟨m', hok, hcoherent, hadded⟩ := h.addChild_eq_ok hlinkable hne hcycle
    refine ⟨m', none, ?_, hcoherent, .addChild hlinkable hadded⟩
    rw [apply, hok]
    rfl
  | associate node element =>
    obtain ⟨m', hok, hcoherent, hbound⟩ := h.associate_eq_ok hedit.1 hedit.2 element
    refine ⟨m', none, ?_, hcoherent, .associate hbound⟩
    rw [apply, hok]
    rfl
  | wrap grammar lookahead node =>
    obtain ⟨hlive, p, hp⟩ := hedit
    obtain ⟨b, hb, -⟩ := Model.live_iff_bare?.1 hlive
    obtain ⟨m₁, m', hok, hcoherent, hcoherent₁, hwrapped, hcompressed⟩ := h.wrap_eq_ok grammar lookahead hb hp
    refine ⟨m', some m.size, ?_, hcoherent, .wrap hb hp hwrapped hcoherent₁ hcompressed⟩
    rw [apply, hok]
    rfl
  | setSyntaxError node error =>
    obtain ⟨hlive, p, hp⟩ := hedit
    obtain ⟨b, hb, -⟩ := Model.live_iff_bare?.1 hlive
    obtain ⟨m', content, hcontent, hok, hcoherent, hmarked⟩ := h.setSyntaxError_eq_ok hb error hp
    refine ⟨m', some m.size, ?_, hcoherent, .setSyntaxError hb hp hcontent hmarked⟩
    rw [apply, hok]
    rfl
  | compress node =>
    obtain ⟨b, hb, hlive, hneed⟩ := hedit
    obtain ⟨m', hok, hcoherent, hcompressed⟩ := h.compress_eq_ok hb hlive hneed
    exact ⟨m', m.parent? node, hok, hcoherent, .compress hb hlive hcompressed⟩

/-- An edit that goes through got what it asked for. -/
theorem admissible_of_apply (h : m.Coherent) (hargs : edit.Allocated m) {r : Model × Option NodeId}
    (hok : edit.apply m = .ok r) : edit.Admissible m := by
  cases edit with
  | newComposite grammar lookahead parent =>
    obtain ⟨r, hok, -⟩ := bind_eq_ok_iff.1 hok
    exact h.live_of_newComposite (fun p hp => hargs p (by simpa [arguments] using hp)) hok
  | newLeaf offset length grammar hidden error parent =>
    obtain ⟨r, hok, -⟩ := bind_eq_ok_iff.1 hok
    obtain ⟨⟨range, hrange⟩, hparent⟩ := h.live_of_newLeaf (hargs parent (by simp [arguments])) hok
    exact ⟨((Model.leafRange_eq_ok_iff h.labelled.short).1 hrange).1, hparent⟩
  | addChild parent child =>
    obtain ⟨r, hok, -⟩ := bind_eq_ok_iff.1 hok
    exact h.linkable_of_addChild hok
  | associate node element =>
    obtain ⟨r, hok, -⟩ := bind_eq_ok_iff.1 hok
    exact Model.live_of_associate hok
  | wrap grammar lookahead node =>
    obtain ⟨r, hok, -⟩ := bind_eq_ok_iff.1 hok
    exact Model.live_of_wrap hok
  | setSyntaxError node error =>
    obtain ⟨r, hok, -⟩ := bind_eq_ok_iff.1 hok
    exact Model.live_of_setSyntaxError hok
  | compress node => exact Model.live_of_compress hok

/-- What one edit does to a coherent model. -/
theorem apply_outcome (h : m.Coherent) (hargs : edit.Allocated m) (hok : edit.apply m = .ok (m', answer)) :
    m'.Coherent ∧ edit.Outcome m m' answer := by
  obtain ⟨m₁, answer₁, hok₁, hcoherent, houtcome⟩ := apply_eq_ok h (admissible_of_apply h hargs hok)
  rw [hok] at hok₁
  obtain ⟨rfl, rfl⟩ := Prod.mk.inj (Except.ok.inj hok₁)
  exact ⟨hcoherent, houtcome⟩

/-- An edit that fails does so because it did not get what it asked for. -/
theorem apply_eq_error_iff (h : m.Coherent) (hargs : edit.Allocated m) :
    (∃ fault, edit.apply m = .error fault) ↔ ¬ edit.Admissible m := by
  constructor
  · intro hfault hedit
    obtain ⟨fault, hfault⟩ := hfault
    obtain ⟨m', answer, hok, -⟩ := apply_eq_ok h hedit
    rw [hfault] at hok
    cases hok
  · intro hedit
    cases hok : edit.apply m with
    | error fault => exact ⟨fault, rfl⟩
    | ok r => exact absurd (admissible_of_apply h hargs hok) hedit

/-- Nodes are never removed, and what an edit answers with is a node of the store. -/
theorem Outcome.size_le (h : m.Coherent) (ho : edit.Outcome m m' answer) :
    m.size ≤ m'.size ∧ ∀ n, answer = some n → n < m'.size := by
  -- most edits answer with the node they create, which is the first of the new ones
  have hfresh : m.size < m'.size → m.size ≤ m'.size ∧ ∀ n, some m.size = some n → n < m'.size := by
    intro hlt
    refine ⟨Nat.le_of_lt hlt, fun n hn => ?_⟩
    rw [← Option.some.inj hn]
    exact hlt
  cases ho with
  | newComposite hcreated => exact hfresh (by rw [hcreated.size]; omega)
  | newLeaf _ hcreated => exact hfresh (by rw [hcreated.size]; omega)
  | addChild _ hadded => exact ⟨Nat.le_of_eq hadded.data.size.symm, nofun⟩
  | associate hbound => exact ⟨Nat.le_of_eq hbound.size.symm, nofun⟩
  | wrap _ _ hwrapped _ hcompressed =>
    have hsize := hwrapped.size
    have hle := hcompressed.size_le
    exact hfresh (by omega)
  | setSyntaxError _ _ _ hmarked => exact hfresh (by rw [hmarked.size]; omega)
  | compress _ _ hcompressed =>
    refine ⟨hcompressed.size_le, fun n hn => ?_⟩
    exact Nat.lt_of_lt_of_le (Model.lt_size_of_parent h.structured.forms hn) hcompressed.size_le

/-- No edit touches the text. -/
theorem Outcome.text (ho : edit.Outcome m m' answer) : m'.text = m.text := by
  cases ho with
  | newComposite hcreated => exact hcreated.text
  | newLeaf _ hcreated => exact hcreated.text
  | addChild _ hadded => exact hadded.data.text
  | associate hbound => exact hbound.text
  | wrap _ _ hwrapped _ hcompressed => exact hcompressed.text.trans hwrapped.text
  | setSyntaxError _ _ _ hmarked => exact hmarked.text
  | compress _ _ hcompressed => exact hcompressed.text

end SyntaxTree.Edit
