import Mathlib.Logic.Equiv.Basic
import SyntaxTree.Proofs.Mirroring
import SyntaxTree.Proofs.Recorded

/-!
# Drawings of replays

A replay can be drawn with numbers only: for each handle what its node is, apart from links, and the handles of its
children in order. A drawing leaves out the names of nodes, and with them all that replacing a node does to names. The
three calls that replace nodes become simple (`Drawing.redrawn`): marking and compressing change what a node is, and
wrapping puts the next number between a handle and its parent.

Two replays over one text whose drawings differ in their numbering only have models that mirror each other
(`Drawn.mirrors`).
-/

namespace SyntaxTree

open Function (update update_self update_of_ne)
open Links (appended rename rename_self rename_of_ne)

namespace Model

variable {m m' : Model} {n p x : NodeId} {b : Node} {grammar : Option String} {lookahead : Nat}

/-! ## Children after a replacement -/

theorem Renamed.children_resolve (h : m.WellFormed) (hr : Renamed m m' n b) (hx : m.Live x) :
    m'.children (m'.resolve x) = (m.children x).map m'.resolve := by
  rw [hr.resolve_eq hx, hr.children_rename hx]
  exact List.map_congr_left fun c hc => (hr.resolve_eq (h.live_of_mem hc)).symm

theorem Compressed.children_resolve (h : m.WellFormed) (hb : m.bare? n = some b) (hc : Compressed m n b m')
    (hx : m.Live x) : m'.children (m'.resolve x) = (m.children x).map m'.resolve := by
  cases hc with
  | unchanged _ =>
    have hsame : ∀ c ∈ m.children x, m.resolve c = c := fun c hc => resolve_of_live (h.live_of_mem hc)
    rw [resolve_of_live hx, List.map_congr_left hsame, List.map_id']
  | replaced hsome _ hr => exact (hr.renamed hb (Content.token?_of_compressed? hsome)).children_resolve h hx

/-- A wrapper stands in the place of its node in all lists, and the node is its only child. -/
theorem children_wrap {m₁ : Model} (h : m.WellFormed) (h₁ : m₁.WellFormed) (hb : m.bare? n = some b)
    (hn : m.parent? n = some p) (hw : Wrapped m m₁ n p lookahead grammar) (hc : Compressed m₁ n b m') :
    (∀ {x}, m.Live x → m'.children (m'.resolve x) = ((m.children x).map (rename n m.size)).map m'.resolve) ∧
      m'.children m.size = [m'.resolve n] := by
  have hne : m.size ≠ n := (h.live_of_parent? hn).ne_size.symm
  have hb₁ := hw.bare?_old hb
  have hlive₁ : ∀ {x}, m₁.Live x ↔ m.Live x ∨ x = m.size := live_update hw.bare rfl
  refine ⟨fun {x} hx => ?_, ?_⟩
  · rw [hc.children_resolve h₁ hb₁ (hlive₁.2 (Or.inl hx)), hw.children, wrapped, appended, update_of_ne hx.ne_size]
  · have hwrapper := hlive₁.2 (Or.inr rfl)
    have hchildren := hc.children_resolve h₁ hb₁ hwrapper
    rw [resolve_of_live (hc.live_of_ne hb₁ hwrapper hne), hw.children_new h, List.map_singleton] at hchildren
    exact hchildren

end Model

/-! ## Drawings -/

/-- For each handle what its node is, apart from links, and the handles of its children in order. -/
structure Drawing where
  size : Nat
  node : Nat → Option Node
  children : Nat → List Nat

namespace Drawing

variable {d d' : Drawing}

/-- Children are drawn between handles. -/
def Closed (d : Drawing) : Prop :=
  ∀ ⦃i c⦄, c ∈ d.children i → i < d.size ∧ c < d.size

/-- What the nodes are after an edit. -/
def remade (d : Drawing) (edit : Edit) (i : Nat) : Option Node :=
  (d.node i).map fun b => { b with content := edit.remake i b.content }

/-- The drawing after an edit that replaces a node. A wrapper gets the next number. -/
def redrawn (d : Drawing) : Edit → Drawing
  | .wrap grammar lookahead i =>
    { size := d.size + 1
      node := update (d.remade (.wrap grammar lookahead i)) d.size (some (.unlinked (.freshComposite lookahead) grammar))
      children := Model.wrapped d.children i d.size }
  | edit => { d with node := d.remade edit }

/-- The second drawing is the first one with other numbers for its handles. -/
structure Renumbered (d d' : Drawing) (σ : Equiv.Perm Nat) : Prop where
  size : d'.size = d.size
  lt_iff : ∀ {i}, σ i < d.size ↔ i < d.size
  node : ∀ {i}, i < d.size → d'.node (σ i) = d.node i
  children : ∀ {i}, i < d.size → d'.children (σ i) = (d.children i).map σ

theorem Renumbered.refl (d : Drawing) : d.Renumbered d (Equiv.refl Nat) :=
  ⟨rfl, Iff.rfl, fun _ => rfl, fun _ => (List.map_id _).symm⟩

theorem Closed.children_eq_nil (hd : d.Closed) {i : Nat} (hi : d.size ≤ i) : d.children i = [] := by
  refine List.eq_nil_iff_forall_not_mem.2 fun c hc => ?_
  exact Nat.not_lt_of_le hi (hd hc).1

/-- Below a wrapper is what it wraps, and nothing else. -/
theorem Closed.wrapped_new (hd : d.Closed) (j : Nat) : Model.wrapped d.children j d.size d.size = [j] := by
  unfold Model.wrapped appended
  rw [update_self]
  simp only [hd.children_eq_nil (Nat.le_refl _), List.map_nil, List.nil_append]

/-- In other lists the wrapper stands for what it wraps. -/
theorem wrapped_of_ne {i j : Nat} (hi : i ≠ d.size) :
    Model.wrapped d.children j d.size i = (d.children i).map (rename j d.size) := by
  unfold Model.wrapped appended
  rw [update_of_ne hi]

theorem Closed.redrawn {edit : Edit} (hd : d.Closed) (hargs : ∀ n ∈ edit.arguments, n < d.size) :
    (d.redrawn edit).Closed := by
  cases edit with
  | wrap grammar lookahead j =>
    have hj : j < d.size := hargs j (List.mem_singleton_self j)
    intro i c hc
    have hc : c ∈ Model.wrapped d.children j d.size i := hc
    show i < d.size + 1 ∧ c < d.size + 1
    by_cases hi : i = d.size
    · rw [hi, hd.wrapped_new] at hc
      obtain rfl := List.mem_singleton.1 hc
      exact ⟨Nat.lt_succ_of_le (Nat.le_of_eq hi), Nat.lt_succ_of_lt hj⟩
    · rw [wrapped_of_ne hi] at hc
      obtain ⟨c₀, hmem, rfl⟩ := List.mem_map.1 hc
      obtain ⟨hlt, hlt₀⟩ := hd hmem
      unfold rename
      split <;> omega
  | _ => exact hd

end Drawing

/-- The edits that put a fresh node into the place of another. -/
def Edit.Replaces : Edit → Prop
  | wrap .. | setSyntaxError .. | compress .. => True
  | newComposite .. | newLeaf .. | addChild .. | associate .. => False

namespace Replay

variable {r r' : Replay} {call : Call} {text : String} {d d' : Drawing} {i j : Nat} {n : NodeId}

/-- The drawing is one of the replay. -/
structure Drawn (r : Replay) (d : Drawing) : Prop where
  size : d.size = r.handles.size
  closed : d.Closed
  node : ∀ {i}, i < d.size → r.model.bare? (r.nodeAt i) = d.node i
  children : ∀ {i}, i < d.size → r.model.children (r.nodeAt i) = (d.children i).map r.nodeAt

/-- Every replay can be drawn: children are live, and live nodes have handles. -/
theorem Reached.exists_drawing (h : Reached text r) : ∃ d, r.Drawn d := by
  have hwf := h.sound.coherent.toWellFormed
  obtain ⟨number, hnumber, -⟩ := h.exists_number
  obtain ⟨kids, hin, hout⟩ : ∃ kids : Nat → List Nat,
      (∀ i, i < r.handles.size → kids i = (r.model.children (r.nodeAt i)).map number) ∧
        ∀ i, ¬ i < r.handles.size → kids i = [] :=
    ⟨fun i => if i < r.handles.size then (r.model.children (r.nodeAt i)).map number else [],
      fun i hi => if_pos hi, fun i hi => if_neg hi⟩
  refine ⟨⟨r.handles.size, fun i => r.model.bare? (r.nodeAt i), kids⟩, rfl, fun i c hc => ?_, fun _ => rfl,
    fun {i} hi => ?_⟩
  · have hc : c ∈ kids i := hc
    by_cases hi : i < r.handles.size
    · rw [hin i hi] at hc
      obtain ⟨n, hn, rfl⟩ := List.mem_map.1 hc
      exact ⟨hi, (hnumber (hwf.live_of_mem hn)).1⟩
    · rw [hout i hi] at hc
      cases hc
  · have hback : ∀ n ∈ r.model.children (r.nodeAt i), (r.nodeAt ∘ number) n = n := fun n hn =>
      (hnumber (hwf.live_of_mem hn)).2
    show r.model.children (r.nodeAt i) = (kids i).map r.nodeAt
    rw [hin i hi, List.map_map, List.map_congr_left hback, List.map_id']

/-- Handles hang below each other as their nodes do. -/
theorem Drawn.exists_parent?_iff (hd : r.Drawn d) (h : Reached text r) (hi : i < d.size) :
    (∃ p, r.model.parent? (r.nodeAt i) = some p) ↔ ∃ q, i ∈ d.children q := by
  have hforms := h.sound.coherent.structured.forms
  constructor
  · intro hparent
    obtain ⟨p, hp⟩ := hparent
    have hmem := hforms.listed hp
    obtain ⟨q, hq, rfl⟩ := h.exists_nodeAt (h.sound.coherent.structured.live_of_mem hmem)
    rw [← hd.size] at hq
    rw [hd.children hq] at hmem
    obtain ⟨c, hc, he⟩ := List.mem_map.1 hmem
    obtain rfl := h.nodeAt_inj (hd.size ▸ (hd.closed hc).2) (hd.size ▸ hi) he
    exact ⟨q, hc⟩
  · intro hmem
    obtain ⟨q, hmem⟩ := hmem
    refine ⟨r.nodeAt q, hforms.mem_iff.1 ?_⟩
    rw [hd.children (hd.closed hmem).1]
    exact List.mem_map_of_mem hmem

/-! ## One call -/

/-- Marking and compressing change no list. -/
theorem Drawn.relabelled (hd : r.Drawn d) (ha : r.Advances call r') (hcreates : createsHandle call = false)
    (hchildren : ∀ {x}, r.model.Live x → r'.model.children (r'.model.resolve x)
      = (r.model.children x).map r'.model.resolve) (h : Reached text r) :
    r'.Drawn { d with node := d.remade call.byHandle } := by
  have hsize : r'.handles.size = r.handles.size := by
    rw [ha.size, hcreates]
    rfl
  refine ⟨hd.size.trans hsize.symm, hd.closed, fun {i} hi => ?_, fun {i} hi => ?_⟩
  · have hi : i < d.size := hi
    rw [ha.bare (hd.size ▸ hi), hd.node hi]
    rfl
  · have hi : i < d.size := hi
    rw [ha.nodeAt (hd.size ▸ hi), hchildren (h.live_nodeAt (hd.size ▸ hi)), hd.children hi, List.map_map]
    refine List.map_congr_left fun c hc => ?_
    rw [Function.comp_apply, ha.nodeAt (hd.size ▸ (hd.closed hc).2)]

/-- A wrapper gets the next number, and stands between a handle and its parent. -/
theorem Drawn.wrapped {grammar : Option String} {lookahead : UInt32} {handle : Handle} (hd : r.Drawn d)
    (ha : r.Advances (.wrap grammar lookahead handle) r') (h : Reached text r) (h' : Reached text r') :
    r'.Drawn (d.redrawn (Call.wrap grammar lookahead handle).byHandle) := by
  have hhandle : handle.toNat < r.handles.size := ha.known handle (List.mem_singleton_self handle)
  have hsize : r'.handles.size = r.handles.size + 1 := ha.size
  obtain ⟨hnew, created, hcreated, hbare⟩ := ha.created rfl
  rw [← hd.size] at hnew
  obtain ⟨answer, ho⟩ := ha.outcome
  have ho : (Edit.wrap grammar lookahead.toNat (r.nodeAt handle.toNat)).Outcome r.model r'.model answer := ho
  cases ho with
  | wrap hb hn hwrapped h₁ hcompressed =>
    obtain ⟨hchildren, hnewChildren⟩ := Model.children_wrap h.sound.coherent.toWellFormed h₁.toWellFormed hb hn hwrapped
      hcompressed
    have hlt : d.size < r'.handles.size := by rw [hsize, hd.size]; exact Nat.lt_succ_self _
    have hresolve : r'.model.resolve r.model.size = r.model.size := by
      rw [← hnew]
      exact Model.resolve_of_live (h'.live_nodeAt hlt)
    refine ⟨by rw [hsize, ← hd.size]; rfl, hd.closed.redrawn ?_, fun {i} hi => ?_, fun {i} hi => ?_⟩
    · intro n hn
      obtain rfl := List.mem_singleton.1 hn
      exact hd.size ▸ hhandle
    · have hi : i < d.size + 1 := hi
      show r'.model.bare? (r'.nodeAt i) = update (d.remade _) d.size _ i
      by_cases his : i = d.size
      · obtain rfl := Option.some.inj hcreated
        rw [his, update_self, hnew, hbare]
      · have hold : i < d.size := by omega
        rw [update_of_ne his, ha.bare (hd.size ▸ hold), hd.node hold]
        rfl
    · have hi : i < d.size + 1 := hi
      show r'.model.children (r'.nodeAt i) = (Model.wrapped d.children handle.toNat d.size i).map r'.nodeAt
      by_cases his : i = d.size
      · rw [his, hd.closed.wrapped_new, hnew, hnewChildren, List.map_singleton, ha.nodeAt hhandle]
      · have hold : i < d.size := by omega
        rw [Drawing.wrapped_of_ne his, ha.nodeAt (hd.size ▸ hold), hchildren (h.live_nodeAt (hd.size ▸ hold)),
          hd.children hold, List.map_map, List.map_map, List.map_map]
        refine List.map_congr_left fun c hc => ?_
        have hc : c < r.handles.size := hd.size ▸ (hd.closed hc).2
        simp only [Function.comp_apply]
        by_cases hch : c = handle.toNat
        · rw [hch, rename_self, rename_self, hresolve, hnew]
        · rw [rename_of_ne hch, rename_of_ne fun he => hch (h.nodeAt_inj hc hhandle he), ha.nodeAt hc]

/-- An accepted call that replaces a node redraws the drawing. -/
theorem Drawn.redrawn (hd : r.Drawn d) (h : Reached text r) (hreplaces : call.byHandle.Replaces)
    (hcall : r.call call = .ok (.ok (), r')) : r'.Drawn (d.redrawn call.byHandle) := by
  have ha := h.advances hcall
  have hwf := h.sound.coherent.toWellFormed
  cases call with
  | wrap grammar lookahead handle => exact hd.wrapped ha h (h.accepted _ hcall)
  | error handle message issueCode issueData =>
    obtain ⟨answer, ho⟩ := ha.outcome
    have ho : (Edit.setSyntaxError (r.nodeAt handle.toNat) ⟨message, issueCode, issueData⟩).Outcome r.model r'.model
      answer := ho
    cases ho with
    | setSyntaxError hb hn hcontent hmarked =>
      have hrenamed := hmarked.renamed hb (Content.token?_of_marked? hcontent)
      exact hd.relabelled ha rfl (hrenamed.children_resolve hwf) h
  | compress handle =>
    obtain ⟨answer, ho⟩ := ha.outcome
    have ho : (Edit.compress (r.nodeAt handle.toNat)).Outcome r.model r'.model answer := ho
    cases ho with
    | compress hb hlive hcompressed => exact hd.relabelled ha rfl (hcompressed.children_resolve hwf hb) h
  | _ => exact hreplaces.elim

/-! ## Drawings and models -/

/-- Replays over one text mirror each other if their drawings differ in the numbering only. -/
theorem Drawn.mirrors {σ : Equiv.Perm Nat} (hd : r.Drawn d) (hd' : r'.Drawn d') (h : Reached text r)
    (h' : Reached text r') (hσ : d.Renumbered d' σ) : ∃ rep, r.model.Mirrors r'.model rep := by
  obtain ⟨number, hnumber, hback⟩ := h.exists_number
  have hlt : ∀ {i}, i < d.size → σ i < d'.size := fun hi => by
    rw [hσ.size]
    exact hσ.lt_iff.2 hi
  have hrep : ∀ {i}, i < d.size → r'.nodeAt (σ (number (r.nodeAt i))) = r'.nodeAt (σ i) := fun hi => by
    rw [hback (hd.size ▸ hi)]
  have hlive : ∀ {n}, r.model.Live n → ∃ i, i < d.size ∧ r.nodeAt i = n := fun hn => hd.size ▸ h.exists_nodeAt hn
  refine ⟨fun n => r'.nodeAt (σ (number n)), h'.text_eq.trans h.text_eq.symm, fun hn => ?_, fun hn => ?_,
    fun hn htop => ?_⟩
  · obtain ⟨i, hi, rfl⟩ := hlive hn
    rw [hrep hi, hd'.node (hlt hi), hσ.node hi, hd.node hi]
  · obtain ⟨i, hi, rfl⟩ := hlive hn
    rw [hrep hi, hd'.children (hlt hi), hσ.children hi, hd.children hi, List.map_map, List.map_map]
    exact List.map_congr_left fun c hc => (hrep (hd.closed hc).2).symm
  · obtain ⟨i, hi, rfl⟩ := hlive hn
    rw [hrep hi]
    by_contra hsome
    obtain ⟨q', hmem⟩ := (hd'.exists_parent?_iff h' (hlt hi)).1 (Option.ne_none_iff_exists'.1 hsome)
    -- whatever the handle hangs below has a number in the first drawing
    obtain ⟨q, rfl⟩ := σ.surjective q'
    have hq : q < d.size := hσ.lt_iff.1 (hσ.size ▸ (hd'.closed hmem).1)
    rw [hσ.children hq] at hmem
    obtain ⟨c, hc, he⟩ := List.mem_map.1 hmem
    obtain rfl := σ.injective he
    obtain ⟨p, hp⟩ := (hd.exists_parent?_iff h hi).2 ⟨q, hc⟩
    rw [htop] at hp
    cases hp

end Replay

end SyntaxTree
