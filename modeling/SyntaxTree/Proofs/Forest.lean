import SyntaxTree.Proofs.Reachable
import SyntaxTree.Proofs.Succession

/-!
# A model is an ordered forest

Seen from outside a model is a forest: trees that hang from the live nodes without a parent, and for each node
the list of its children in order. Rings, neighbours and stale nodes do not show. The calls of the builder are
five operations on such forests, and one that does nothing; each says in one line which lists change and how,
and by its definition all other lists stay as they are. The main result is that every edit of a reachable model
does exactly what its operation says.
-/

namespace SyntaxTree

open Function (update update_self update_of_ne)
open Links (appended rename rename_self rename_of_ne map_rename)

/-- An ordered forest: which nodes its trees hang from, and the children of each node in order. -/
@[ext]
structure Forest where
  tops : NodeId → Prop
  children : NodeId → List NodeId

namespace Forest

/-- A node of the forest: a top or a child. -/
def Holds (f : Forest) (n : NodeId) : Prop :=
  f.tops n ∨ ∃ p, n ∈ f.children p

/-- A node that is nowhere in the forest and has nothing below it. -/
def Fresh (f : Forest) (n : NodeId) : Prop :=
  ¬ f.Holds n ∧ f.children n = []

/-- A tree of one node is added. -/
def plant (f : Forest) (n : NodeId) : Forest :=
  { f with tops := fun x => f.tops x ∨ x = n }

/-- A node is added at the end of a list. -/
def append (f : Forest) (p n : NodeId) : Forest :=
  { f with children := update f.children p (f.children p ++ [n]) }

/-- A whole tree is moved to the end of a list. -/
def graft (f : Forest) (p c : NodeId) : Forest :=
  { tops := fun x => f.tops x ∧ x ≠ c, children := update f.children p (f.children p ++ [c]) }

/-- The list of `p` with another node at the index of `n`. -/
def exchanged (f : Forest) (p n new : NodeId) : List NodeId :=
  (f.children p).set ((f.children p).idxOf n) new

/-- Another node stands where `n` stood below `p`, and the list of `n` is below it. -/
def substitute (f : Forest) (p n new : NodeId) : Forest :=
  { f with children := update (update (update f.children p (f.exchanged p n new)) n []) new (f.children n) }

/-- A wrapper stands where `n` stood below `p`, below it stands only `inner`, and the list of `n` is below that.
`inner` may be `n` itself. -/
def interpose (f : Forest) (p n wrapper inner : NodeId) : Forest :=
  { f with
    children := update (update (update (update f.children p (f.exchanged p n wrapper)) n []) wrapper [inner])
      inner (f.children n) }

end Forest

namespace Model

variable {m m' : Model} {n p new : NodeId}

/-- The forest that a model stands for. -/
def forest (m : Model) : Forest :=
  ⟨fun n => m.Live n ∧ m.parent? n = none, m.children⟩

/-- The first name that is not taken yet is nowhere in the forest. -/
theorem WellFormed.fresh_size (h : m.WellFormed) : m.forest.Fresh m.size := by
  have hnot := m.not_live_size
  refine ⟨?_, (h.structured.cut hnot).2⟩
  intro hholds
  rcases hholds with ⟨hlive, -⟩ | ⟨p, hmem⟩
  · exact hnot hlive
  · exact hnot (h.live_of_parent? (h.structured.forms.mem_iff.1 hmem))

/-- In a list without repetitions, renaming a node is putting another one at its index. -/
theorem map_rename_eq_set {ids : List NodeId} (hnodup : ids.Nodup) (hn : n ∈ ids) :
    ids.map (rename n new) = ids.set (ids.idxOf n) new := by
  induction ids with
  | nil => cases hn
  | cons x ids ih =>
    obtain ⟨hx, hnodup⟩ := List.nodup_cons.1 hnodup
    by_cases hxn : x = n
    · subst hxn
      rw [List.map_cons, rename_self, map_rename hx, List.idxOf_cons_self, List.set_cons_zero]
    · have hn : n ∈ ids := by
        rcases List.mem_cons.1 hn with he | hn
        · exact absurd he.symm hxn
        · exact hn
      rw [List.map_cons, rename_of_ne hxn, ih hnodup hn, List.idxOf_cons_ne ids hxn, List.set_cons_succ]

/-- Renaming a node in all lists changes only the list that holds it. -/
theorem WellFormed.map_rename_eq (h : m.WellFormed) (hn : m.parent? n = some p) (new : NodeId) :
    (fun q => (m.children q).map (rename n new)) = update m.children p (m.forest.exchanged p n new) := by
  funext q
  by_cases hq : q = p
  · subst hq
    rw [update_self]
    exact map_rename_eq_set (h.structured.forms.nodup q) (h.structured.forms.listed hn)
  · rw [update_of_ne hq]
    refine map_rename fun hmem => hq ?_
    exact h.structured.forms.parent_unique hmem (h.structured.forms.listed hn)

/-- A node is not its own parent. -/
theorem WellFormed.parent?_ne_self (h : m.WellFormed) (hn : m.parent? n = some p) : p ≠ n := by
  intro e
  subst e
  exact not_mem_kids_self h.structured.forms h.structured.grounded p (h.structured.forms.listed hn)

/-- A replacement, seen from the lists. -/
theorem WellFormed.replaced_eq (h : m.WellFormed) (hn : m.parent? n = some p) (new : NodeId) :
    Model.replaced m.children n new = (m.forest.substitute p n new).children := by
  have hself := not_mem_kids_self h.structured.forms h.structured.grounded n
  rw [Model.replaced, Links.adopted, h.map_rename_eq hn, map_rename hself]
  rfl

/-- The lists right after a wrapper took the place of a node. -/
theorem WellFormed.wrapped_eq (h : m.WellFormed) (hn : m.parent? n = some p) :
    Model.wrapped m.children n m.size
      = update (update m.children p (m.forest.exchanged p n m.size)) m.size [n] := by
  rw [Model.wrapped, Links.appended, h.map_rename_eq hn, show m.children m.size = [] from h.fresh_size.2]
  rfl

/-- A wrapping of a node that is not compressed, seen from the lists. -/
theorem WellFormed.wrapped_eq_interpose (h : m.WellFormed) (hn : m.parent? n = some p) :
    Model.wrapped m.children n m.size = (m.forest.interpose p n m.size n).children := by
  have hpn : n ≠ p := (h.parent?_ne_self hn).symm
  have hns : n ≠ m.size := Nat.ne_of_lt (lt_size_of_parent? hn)
  rw [h.wrapped_eq hn]
  funext q
  simp only [Forest.interpose, forest]
  by_cases hq : q = n
  · subst hq
    rw [update_self, update_of_ne hns, update_of_ne hpn]
  · rw [update_of_ne hq, Function.update_comm hns, update_of_ne hq]

/-- A wrapping of a node that is compressed at once, seen from the lists. -/
theorem WellFormed.substitute_wrapped_eq (h : m.WellFormed) (hn : m.parent? n = some p)
    (hkids : m'.children = Model.wrapped m.children n m.size) (inner : NodeId) :
    (m'.forest.substitute m.size n inner).children = (m.forest.interpose p n m.size inner).children := by
  have hpn : n ≠ p := (h.parent?_ne_self hn).symm
  have hns : n ≠ m.size := Nat.ne_of_lt (lt_size_of_parent? hn)
  have hone : m'.forest.exchanged m.size n inner = [inner] := by
    simp only [Forest.exchanged, forest, hkids, h.wrapped_eq hn, update_self]
    simp
  have hbelow : m'.forest.children n = m.forest.children n := by
    simp only [forest, hkids, h.wrapped_eq hn]
    rw [update_of_ne hns, update_of_ne hpn]
  simp only [Forest.substitute, Forest.interpose, hone, hbelow]
  rw [show m'.forest.children = _ from hkids, h.wrapped_eq hn, Function.update_idem,
    Function.update_comm hns.symm]
  rfl

/-! ## Tops -/

theorem Created.tops_iff {content : Content} {grammar : Option String} {parent : Option NodeId}
    (h : Created m m' content grammar parent) {x : NodeId} :
    m'.forest.tops x ↔ m.forest.tops x ∨ x = m.size ∧ parent = none := by
  show m'.Live x ∧ m'.parent? x = none ↔ (m.Live x ∧ m.parent? x = none) ∨ x = m.size ∧ parent = none
  have hnot := m.not_live_size
  rw [live_update h.bare rfl, h.parent]
  by_cases hx : x = m.size
  · subst hx
    rw [update_self]
    simp [hnot]
  · rw [update_of_ne hx]
    simp [hx]

theorem Added.tops_iff {c : NodeId} (h : Added m m' p c) {x : NodeId} :
    m'.forest.tops x ↔ m.forest.tops x ∧ x ≠ c := by
  show m'.Live x ∧ m'.parent? x = none ↔ (m.Live x ∧ m.parent? x = none) ∧ x ≠ c
  rw [h.data.live_iff, h.parent]
  by_cases hx : x = c
  · subst hx
    rw [update_self]
    simp
  · rw [update_of_ne hx]
    simp [hx]

theorem Bound.tops_iff {e : Element} (h : Bound m m' n e) {x : NodeId} :
    m'.forest.tops x ↔ m.forest.tops x := by
  show m'.Live x ∧ m'.parent? x = none ↔ m.Live x ∧ m.parent? x = none
  rw [show m'.parent? = m.parent? from congrArg Links.parent h.links, live_iff_bare?, live_iff_bare?, h.bare]
  cases m.bare? x <;> simp

theorem Wrapped.tops_iff {lookahead : Nat} {grammar : Option String} (h : Wrapped m m' n p lookahead grammar)
    (hn : m.parent? n = some p) {x : NodeId} : m'.forest.tops x ↔ m.forest.tops x := by
  show m'.Live x ∧ m'.parent? x = none ↔ m.Live x ∧ m.parent? x = none
  have hnot := m.not_live_size
  rw [live_update h.bare rfl, h.parent]
  by_cases hxn : x = n
  · subst hxn
    rw [update_self, hn]
    simp
  rw [update_of_ne hxn]
  by_cases hxs : x = m.size
  · subst hxs
    rw [update_self]
    simp [hnot]
  · rw [update_of_ne hxs]
    simp [hxs]

/-- A replacement moves no top: the old node had a parent, and the new one has it now. -/
theorem tops_iff_of_renamed (hn : m.parent? n = some p) (hstale : ¬ m'.Live n)
    (hbare : ∀ x, x ≠ n → x ≠ m.size → m'.bare? x = m.bare? x)
    (hparent : ∀ x, x ≠ m.size → m'.parent? (rename n m.size x) = (m.parent? x).map (rename n m.size))
    {x : NodeId} : m'.forest.tops x ↔ m.forest.tops x := by
  show m'.Live x ∧ m'.parent? x = none ↔ m.Live x ∧ m.parent? x = none
  have hnot := m.not_live_size
  have hne : n ≠ m.size := Nat.ne_of_lt (lt_size_of_parent? hn)
  by_cases hxn : x = n
  · subst hxn
    simp [hstale, hn]
  by_cases hxs : x = m.size
  · subst hxs
    have hnew := hparent n hne
    rw [rename_self, hn] at hnew
    simp [hnot, hnew]
  · have hother := hparent x hxs
    rw [rename_of_ne hxn] at hother
    rw [live_congr (hbare x hxn hxs), hother, Option.map_eq_none_iff]

theorem Replaced.tops_iff {kids : NodeId → List NodeId} {b : Node} {content : Content}
    (h : Replaced m m' kids n b content) (hn : m.parent? n = some p) {x : NodeId} :
    m'.forest.tops x ↔ m.forest.tops x := by
  refine tops_iff_of_renamed hn ?_ (fun y hyn hys => ?_) h.parent
  · rw [live_iff_bare?, h.bare, update_self]
    simp
  · rw [h.bare, update_of_ne hyn, update_of_ne hys]

theorem Marked.tops_iff {b : Node} {content : Content} (h : Marked m m' n b content)
    (hn : m.parent? n = some p) {x : NodeId} : m'.forest.tops x ↔ m.forest.tops x := by
  refine tops_iff_of_renamed hn ?_ (fun y hyn hys => ?_) h.parent
  · rw [live_iff_bare?, h.bare, update_self]
    simp
  · rw [h.bare, update_of_ne hyn, update_of_ne hys]

/-- Two forests are the same if their tops and their lists are. -/
theorem forest_eq {f : Forest} (htops : ∀ x, m'.forest.tops x ↔ f.tops x) (hkids : m'.children = f.children) :
    m'.forest = f :=
  Forest.ext (funext fun x => propext (htops x)) hkids

end Model

/-! ## Edits -/

namespace Edit

variable {m m' : Model} {edit : Edit} {answer : Option NodeId}

/-- A composite whose slot is empty, which compressing takes away. The root keeps its slot. -/
def NeedsNoSlot (m : Model) (n : NodeId) : Prop :=
  (m.kind? n).any NodeKind.isBindable = true ∧ m.element? n = none ∧ n ≠ Model.rootId

/-- What an edit does to the forest. New nodes get the first name that is not taken. -/
def Regrows (m m' : Model) (answer : Option NodeId) : Edit → Prop
  | newComposite _ _ none => answer = some m.size ∧ m'.forest = m.forest.plant m.size
  | newComposite _ _ (some p) | newLeaf _ _ _ _ _ p =>
    answer = some m.size ∧ m'.forest = m.forest.append p m.size
  | addChild p c => m.forest.tops c ∧ m'.forest = m.forest.graft p c
  | associate _ _ => m'.forest = m.forest
  | wrap _ _ n => answer = some m.size ∧ ∃ p, n ∈ m.forest.children p ∧
      m'.forest = m.forest.interpose p n m.size (m'.resolve n)
  | setSyntaxError n _ => answer = some m.size ∧ ∃ p, n ∈ m.forest.children p ∧
      m'.forest = m.forest.substitute p n m.size
  | compress n =>
    (NeedsNoSlot m n → ∃ p, n ∈ m.forest.children p ∧ m'.forest = m.forest.substitute p n m.size) ∧
      (¬ NeedsNoSlot m n → m'.forest = m.forest)

theorem needsNoSlot_iff (h : m.WellFormed) {n : NodeId} {b : Node} (hb : m.bare? n = some b) :
    NeedsNoSlot m n ↔ b.content.compressed?.isSome = true := by
  have hroot : n ≠ Model.rootId ↔ b.content.kind ≠ .root := by
    rw [Ne, ← h.isRoot_iff, Model.isRoot_eq_bare?, hb, beq_iff_eq, Option.map_some, Option.some.injEq]
    rfl
  rw [Content.compressed?_isSome_iff, NeedsNoSlot, hroot, Model.kind?_eq_bare?, Model.element?_eq_bare?, hb]
  rfl

/-- A node that was compressed is represented by the fresh node in its place, any other by itself. The lists
below the wrapper follow. -/
theorem forest_wrap {grammar : Option String} {lookahead : Nat} {n p : NodeId} {b : Node} {m₁ : Model}
    (h : m.WellFormed) (hn : m.parent? n = some p)
    (hw : m.Wrapped m₁ n p lookahead grammar) (h₁ : m₁.WellFormed) (hc : m₁.Compressed n b m') :
    m'.forest = m.forest.interpose p n m.size (m'.resolve n) := by
  have hn₁ : m₁.parent? n = some m.size := by rw [hw.parent, update_self]
  cases hc with
  | unchanged _ =>
    rw [Model.resolve_of_live (h₁.live_of_parent? hn₁)]
    exact Model.forest_eq (fun x => hw.tops_iff hn) (hw.children.trans (h.wrapped_eq_interpose hn))
  | replaced _ _ hr =>
    have hne : n ≠ m₁.size := Nat.ne_of_lt (Model.lt_size_of_parent? hn₁)
    have hsucc : m'.successor? n = some m₁.size := by
      rw [Model.successor?_eq_bare?, hr.bare, update_self]
      rfl
    have hlive : m'.Live m₁.size := by
      rw [Model.live_iff_bare?, hr.bare, update_of_ne hne.symm, update_self]
      exact ⟨_, rfl, rfl⟩
    rw [Model.resolve_of_successor? hsucc hlive]
    refine Model.forest_eq (fun x => (hr.tops_iff hn₁).trans (hw.tops_iff hn)) ?_
    rw [Model.children_eq hr.forms, h₁.replaced_eq hn₁]
    exact h.substitute_wrapped_eq hn hw.children m₁.size

/-- Every edit of a coherent model does to the forest what it should. -/
theorem Outcome.regrows (h : m.Coherent) (ho : edit.Outcome m m' answer) : edit.Regrows m m' answer := by
  have hwf := h.toWellFormed
  cases ho with
  | @newComposite _ _ parent _ hcreated =>
    cases parent with
    | none =>
      refine ⟨rfl, Model.forest_eq (fun x => ?_) hcreated.children⟩
      simpa [Forest.plant] using hcreated.tops_iff
    | some p =>
      refine ⟨rfl, Model.forest_eq (fun x => ?_) hcreated.children⟩
      simpa [Forest.append] using hcreated.tops_iff
  | newLeaf _ hcreated =>
    refine ⟨rfl, Model.forest_eq (fun x => ?_) hcreated.children⟩
    simpa [Forest.append] using hcreated.tops_iff
  | addChild hlinkable hadded =>
    exact ⟨⟨hlinkable.child_live, hlinkable.child_loose⟩,
      Model.forest_eq (fun x => hadded.tops_iff) hadded.children⟩
  | associate hbound =>
    refine Model.forest_eq (fun x => hbound.tops_iff) ?_
    have hforms := hwf.structured.forms
    rw [← hbound.links] at hforms
    exact Model.children_eq hforms
  | wrap hb hn hwrapped hcoherent₁ hcompressed =>
    exact ⟨rfl, _, hwf.structured.forms.listed hn,
      forest_wrap hwf hn hwrapped hcoherent₁.toWellFormed hcompressed⟩
  | setSyntaxError hb hn _ hmarked =>
    refine ⟨rfl, _, hwf.structured.forms.listed hn, Model.forest_eq (fun x => hmarked.tops_iff hn) ?_⟩
    rw [hmarked.children, hwf.replaced_eq hn]
  | compress hb _ hcompressed =>
    rw [Regrows, needsNoSlot_iff hwf hb]
    cases hcompressed with
    | unchanged hnone =>
      rw [hnone]
      exact ⟨nofun, fun _ => rfl⟩
    | replaced hsome hn hr =>
      rw [hsome]
      refine ⟨fun _ => ⟨_, hwf.structured.forms.listed hn, Model.forest_eq (fun x => hr.tops_iff hn) ?_⟩,
        fun hnot => absurd rfl hnot⟩
      rw [Model.children_eq hr.forms, hwf.replaced_eq hn]

/-- Every edit of a reachable model does to the forest what it should, and the node that it creates was nowhere
in the forest before. -/
theorem reachable_regrows {text : String} (h : Model.Reachable text m) (hargs : edit.Allocated m)
    (hok : edit.apply m = .ok (m', answer)) : m.forest.Fresh m.size ∧ edit.Regrows m m' answer :=
  ⟨h.coherent.fresh_size, (apply_outcome h.coherent hargs hok).2.regrows h.coherent⟩

/-- A leaf between two others is wrapped, and then a composite with children is. The first stays, the second is
compressed on the way and its children go along. -/
theorem reachable_regrows_wrap : ∃ m m₁ m₂ answer₁ answer₂, Model.Reachable "abc" m ∧
    apply m (.wrap none 0 3) = .ok (m₁, answer₁) ∧ apply m (.wrap none 0 1) = .ok (m₂, answer₂) ∧
    m.children 1 = [2, 3, 4] ∧ m₁.children 1 = [2, 5, 4] ∧ m₁.children 5 = [3] ∧
    m₂.children Model.rootId = [5] ∧ m₂.children 5 = [6] ∧ m₂.children 6 = [2, 3, 4] ∧
    Regrows m m₁ answer₁ (.wrap none 0 3) ∧ Regrows m m₂ answer₂ (.wrap none 0 1) := by
  have h : Model.Reachable "abc" (Model.initial "abc") := .opened (Model.ofText_eq_ok_iff.2 ⟨by decide, rfl⟩)
  have h := h.edited (.newComposite none 0 (some 0)) (by decide) rfl
  have h := h.edited (.newLeaf 0 1 none false none 1) (by decide) rfl
  have h := h.edited (.newLeaf 1 1 none false none 1) (by decide) rfl
  have h := h.edited (.newLeaf 2 1 none false none 1) (by decide) rfl
  exact ⟨_, _, _, _, _, h, rfl, rfl, rfl, rfl, rfl, rfl, rfl, rfl,
    (reachable_regrows h (by decide) rfl).2, (reachable_regrows h (by decide) rfl).2⟩

end Edit

end SyntaxTree
