import Mathlib.Data.Set.Function
import Mathlib.Logic.Relation
import SyntaxTree.Proofs.Editing
import SyntaxTree.Proofs.Succession

/-!
# Lines of successors

A node that was replaced leads to its successor, that one to its own, and so on to a live node. So the nodes of a
store fall into lines. A line is founded by a node that replaced no other, and it ends with the one live node that
stands for all of them.

`Lined` is the invariant: no node is the successor of two, and a given list holds the founders. Then founders and live
nodes belong together in pairs (`Lined.bijOn`), and two nodes are on one line exactly if one leads to the other
(`Lined.resolve_eq_iff`). An edit founds at most one line and then makes at most one line longer (`Outcome.moves`); in
both steps lines are only ever extended, so what stood for a node keeps leading to what stands for it later
(`Outcome.resolve_resolve`).
-/

namespace SyntaxTree

open Function (update update_self update_of_ne)

namespace Model

variable {m m' : Model} {a b n s : NodeId} {founders created : List NodeId}

/-- Following successors leads from one node to the other, in any number of steps. -/
def LeadsTo (m : Model) (a b : NodeId) : Prop :=
  Relation.ReflTransGen (fun x y => m.successor? x = some y) a b

/-! ## Where lines lead -/

theorem leadsTo_resolveWithin (steps : Nat) (n : NodeId) : m.LeadsTo n (m.resolveWithin steps n) := by
  induction steps generalizing n with
  | zero => exact .refl
  | succ steps ih =>
    rw [resolveWithin_succ]
    cases hs : m.successor? n with
    | none => exact .refl
    | some s => exact .head hs (ih s)

/-- A node leads to the node that stands for it. -/
theorem leadsTo_resolve (m : Model) (n : NodeId) : m.LeadsTo n (m.resolve n) :=
  leadsTo_resolveWithin m.size n

/-- A live node is the end of its line. -/
theorem LeadsTo.eq_of_live (h : m.LeadsTo a b) (ha : m.Live a) : b = a := by
  rcases Relation.ReflTransGen.cases_head h with rfl | ⟨s, hs, -⟩
  · rfl
  · rw [(live_iff_successor?.1 ha).2] at hs
    cases hs

theorem Labelled.lt_size_of_leadsTo (h : m.Labelled) (ha : a < m.size) (hab : m.LeadsTo a b) : b < m.size := by
  induction hab with
  | refl => exact ha
  | tail _ hs _ => exact (h.lt_successor? hs).2

/-- The next name to be given out is nobody's successor. -/
theorem Labelled.successor?_ne_size (h : m.Labelled) (x : NodeId) : m.successor? x ≠ some m.size :=
  fun hx => Nat.lt_irrefl _ (h.lt_successor? hx).2

/-- All nodes on a line are represented by the same node: both ends that can be reached are live, and of two nodes on
one line one leads to the other. -/
theorem Labelled.resolve_eq_of_leadsTo (h : m.Labelled) (ha : a < m.size) (hab : m.LeadsTo a b) :
    m.resolve a = m.resolve b := by
  have hunique : Relator.RightUnique fun x y => m.successor? x = some y := by
    intro x y z hy hz
    rw [hy] at hz
    exact Option.some.inj hz
  have hlive := h.live_resolve ha
  have hlive' := h.live_resolve (h.lt_size_of_leadsTo ha hab)
  rcases Relation.ReflTransGen.total_of_right_unique hunique (m.leadsTo_resolve a) (hab.trans (m.leadsTo_resolve b))
    with hto | hfrom
  · exact (LeadsTo.eq_of_live hto hlive).symm
  · exact LeadsTo.eq_of_live hfrom hlive'

/-! ## Founders -/

/-- Every node of the store founded its line and is listed for it, once, or it is the successor of exactly one
node. -/
structure Lined (m : Model) (founders : List NodeId) : Prop where
  nodup : founders.Nodup
  founder_iff : ∀ {n}, n ∈ founders ↔ n < m.size ∧ ∀ x, m.successor? x ≠ some n
  one_predecessor : ∀ {x y s}, m.successor? x = some s → m.successor? y = some s → x = y

/-- Going back along a line ends at a founder, since the nodes get older. -/
theorem Lined.exists_founder (hl : m.Lined founders) (h : m.Labelled) (n : NodeId) :
    n < m.size → ∃ f ∈ founders, m.LeadsTo f n := by
  induction n using Nat.strong_induction_on with
  | _ n ih =>
    intro hn
    by_cases hfounder : n ∈ founders
    · exact ⟨n, hfounder, .refl⟩
    · have hsome : ∃ x, m.successor? x = some n := by
        by_contra hnone
        exact hfounder (hl.founder_iff.2 ⟨hn, fun x hx => hnone ⟨x, hx⟩⟩)
      obtain ⟨x, hx⟩ := hsome
      have hlt := (h.lt_successor? hx).1
      obtain ⟨f, hf, hfx⟩ := ih x hlt (Nat.lt_trans hlt hn)
      exact ⟨f, hf, hfx.tail hx⟩

/-- Two nodes are represented by the same node exactly if they are on one line. -/
theorem Lined.resolve_eq_iff (hl : m.Lined founders) (h : m.Labelled) (ha : a < m.size) (hb : b < m.size) :
    m.resolve a = m.resolve b ↔ m.LeadsTo a b ∨ m.LeadsTo b a := by
  constructor
  · intro he
    have hunique : Relator.RightUnique (Function.swap fun x y => m.successor? x = some y) :=
      fun _ _ _ hy hz => hl.one_predecessor hy hz
    have hback := Relation.reflTransGen_swap.2 (m.leadsTo_resolve a)
    have hback' := Relation.reflTransGen_swap.2 (m.leadsTo_resolve b)
    rw [he] at hback
    rcases Relation.ReflTransGen.total_of_right_unique hunique hback hback' with hab | hba
    · exact Or.inr (Relation.reflTransGen_swap.1 hab)
    · exact Or.inl (Relation.reflTransGen_swap.1 hba)
  · rintro (hab | hba)
    · exact h.resolve_eq_of_leadsTo ha hab
    · exact (h.resolve_eq_of_leadsTo hb hba).symm

/-- A node that leads to a founder is that founder. -/
theorem Lined.eq_of_leadsTo (hl : m.Lined founders) (hb : b ∈ founders) (hab : m.LeadsTo a b) : a = b := by
  rcases Relation.ReflTransGen.cases_tail hab with he | ⟨x, -, hx⟩
  · exact he.symm
  · exact absurd hx ((hl.founder_iff.1 hb).2 x)

/-- Every line has one founder and one live end. -/
theorem Lined.bijOn (hl : m.Lined founders) (h : m.Labelled) :
    Set.BijOn m.resolve {n | n ∈ founders} {n | m.Live n} := by
  refine ⟨fun f hf => ?_, fun f hf g hg he => ?_, fun n hn => ?_⟩
  · exact h.live_resolve (hl.founder_iff.1 hf).1
  · have hlt := (hl.founder_iff.1 hf).1
    have hlt' := (hl.founder_iff.1 hg).1
    rcases (hl.resolve_eq_iff h hlt hlt').1 he with hfg | hgf
    · exact hl.eq_of_leadsTo hg hfg
    · exact (hl.eq_of_leadsTo hf hgf).symm
  · have hlive : m.Live n := hn
    obtain ⟨f, hf, hfn⟩ := hl.exists_founder h n hlive.lt_size
    refine ⟨f, hf, ?_⟩
    rw [h.resolve_eq_of_leadsTo (hl.founder_iff.1 hf).1 hfn, resolve_of_live hlive]

/-! ## Moves -/

/-- One change of the lines: none, a node that founds a line, or a successor for the live end of one. The list holds
the founder. -/
inductive Move (m m' : Model) : List NodeId → Prop where
  | still : m'.size = m.size → m'.successor? = m.successor? → Move m m' []
  | founded : m'.size = m.size + 1 → m'.successor? = m.successor? → Move m m' [m.size]
  | replaced {n : NodeId} : m.Live n → m'.size = m.size + 1 →
      m'.successor? = update m.successor? n (some m.size) → Move m m' []

/-- Lines are only extended at their live ends. -/
theorem Move.successor? (hmove : Move m m' created) (hn : m.successor? n = some s) : m'.successor? n = some s := by
  cases hmove with
  | still _ hsucc => rw [hsucc, hn]
  | founded _ hsucc => rw [hsucc, hn]
  | @replaced old hlive _ hsucc =>
    have hne : n ≠ old := by
      rintro rfl
      rw [(live_iff_successor?.1 hlive).2] at hn
      cases hn
    rw [hsucc, update_of_ne hne, hn]

/-- Whoever has a successor after a replacement had it before, or is the replaced node. -/
theorem successor?_of_update {x t : NodeId} (hsucc : m'.successor? = update m.successor? n (some m.size))
    (hx : m'.successor? x = some t) : m.successor? x = some t ∨ x = n ∧ t = m.size := by
  rw [hsucc] at hx
  by_cases hxn : x = n
  · subst hxn
    rw [update_self] at hx
    exact Or.inr ⟨rfl, (Option.some.inj hx).symm⟩
  · rw [update_of_ne hxn] at hx
    exact Or.inl hx

/-- A node that replaces another founds no line: it goes to the end of one. -/
theorem Lined.replace (hl : m.Lined founders) (h : m.Labelled) (hlive : m.Live n) (hsize : m'.size = m.size + 1)
    (hsucc : m'.successor? = update m.successor? n (some m.size)) : m'.Lined founders := by
  have hmove := Move.replaced hlive hsize hsucc
  have hnew : m'.successor? n = some m.size := by rw [hsucc, update_self]
  refine ⟨hl.nodup, fun {f} => ?_, fun {x y t} hx hy => ?_⟩
  · rw [hl.founder_iff, hsize]
    constructor
    · intro ⟨hf, hnone⟩
      refine ⟨Nat.lt_succ_of_lt hf, fun x hx => ?_⟩
      rcases successor?_of_update hsucc hx with hx | ⟨-, rfl⟩
      · exact hnone x hx
      · exact Nat.lt_irrefl _ hf
    · intro ⟨hf, hnone⟩
      have hne : f ≠ m.size := fun he => hnone n (he ▸ hnew)
      exact ⟨Nat.lt_of_le_of_ne (Nat.le_of_lt_succ hf) hne, fun x hx => hnone x (hmove.successor? hx)⟩
  · rcases successor?_of_update hsucc hx with hx | ⟨rfl, rfl⟩ <;>
      rcases successor?_of_update hsucc hy with hy | ⟨rfl, ht⟩
    · exact hl.one_predecessor hx hy
    · exact absurd (ht ▸ hx) (h.successor?_ne_size x)
    · exact absurd hy (h.successor?_ne_size y)
    · rfl

/-- Founders are listed as they come. -/
theorem Move.lined (hmove : Move m m' created) (h : m.Labelled) (hl : m.Lined founders) :
    m'.Lined (founders ++ created) := by
  cases hmove with
  | still hsize hsucc =>
    rw [List.append_nil]
    refine ⟨hl.nodup, ?_, ?_⟩
    · rw [hsize, hsucc]
      exact hl.founder_iff
    · rw [hsucc]
      exact hl.one_predecessor
  | founded hsize hsucc =>
    -- the new name is listed for the first time
    have hnew : m.size ∉ founders := fun hmem => Nat.lt_irrefl _ (hl.founder_iff.1 hmem).1
    refine ⟨?_, fun {n} => ?_, ?_⟩
    · rw [List.nodup_append_comm]
      exact List.nodup_cons.2 ⟨hnew, hl.nodup⟩
    · rw [List.mem_append, List.mem_singleton, hl.founder_iff, hsize, hsucc, Nat.lt_succ_iff_lt_or_eq,
        or_and_right]
      exact or_congr_right ⟨fun he => ⟨he, he ▸ h.successor?_ne_size⟩, fun he => he.1⟩
    · rw [hsucc]
      exact hl.one_predecessor
  | replaced hlive hsize hsucc =>
    rw [List.append_nil]
    exact hl.replace h hlive hsize hsucc

/-- The root founds the first line. -/
theorem lined_initial (text : String) : (initial text).Lined [rootId] := by
  have hnone : ∀ x, (initial text).successor? x = none := by
    intro x
    rcases x with _ | x <;> rfl
  refine ⟨List.nodup_singleton _, fun {n} => ?_, fun {x y s} hx => ?_⟩
  · rw [List.mem_singleton]
    constructor
    · rintro rfl
      refine ⟨Nat.zero_lt_one, fun x hx => ?_⟩
      rw [hnone] at hx
      cases hx
    · intro ⟨hn, _⟩
      exact Nat.lt_one_iff.1 hn
  · rw [hnone] at hx
    cases hx

/-! ## Moves of single changes -/

/-- What is known of a node without its links says what its successor is. -/
theorem successor?_update {node : Node} (h : m'.bare? = update m.bare? n (some node)) :
    m'.successor? = update m.successor? n node.replacedBy := by
  funext x
  rw [successor?_eq_bare?, h]
  by_cases hx : x = n
  · rw [hx, update_self, update_self]
    rfl
  · rw [update_of_ne hx, update_of_ne hx, successor?_eq_bare?]

/-- A fresh node that is live founds a line. -/
theorem Move.of_fresh {node : Node} (hsize : m'.size = m.size + 1) (h : m'.bare? = update m.bare? m.size (some node))
    (hlive : node.replacedBy = none) : Move m m' [m.size] := by
  refine .founded hsize ?_
  have hnone : m.successor? m.size = none := by
    rw [successor?_eq_bare?, bare?_eq_none_iff.2 (Nat.le_refl _)]
    rfl
  rw [successor?_update h, hlive, ← hnone, Function.update_eq_self]

/-- A fresh node that takes the place of another makes its line longer. -/
theorem Move.of_replaced {node old : Node} (hn : m.Live n) (hsize : m'.size = m.size + 1)
    (h : m'.bare? = update (update m.bare? m.size (some node)) n (some old)) (hlive : node.replacedBy = none)
    (hold : old.replacedBy = some m.size) : Move m m' [] := by
  refine .replaced hn hsize ?_
  funext x
  rw [successor?_eq_bare?, h]
  by_cases hxn : x = n
  · rw [hxn, update_self, update_self]
    exact hold
  rw [update_of_ne hxn, update_of_ne hxn]
  by_cases hxs : x = m.size
  · rw [hxs, update_self, successor?_eq_bare?, bare?_eq_none_iff.2 (Nat.le_refl _)]
    exact hlive
  · rw [update_of_ne hxs, successor?_eq_bare?]

/-- Compressing makes at most one line longer. -/
theorem Compressed.move {b : Node} (hc : Compressed m n b m') (hn : m.Live n) : Move m m' [] := by
  cases hc with
  | unchanged _ => exact .still rfl rfl
  | replaced _ _ hr => exact .of_replaced hn hr.size hr.bare rfl rfl

end Model

/-! ## Edits -/

namespace Edit

variable {m m' : Model} {edit : Edit} {answer : Option NodeId} {n : NodeId} {founders : List NodeId}

/-- The node that an edit creates for its caller. Nodes that it allocates to replace others do not count. -/
def created (m : Model) : Edit → List NodeId
  | newComposite .. | newLeaf .. | wrap .. => [m.size]
  | addChild .. | associate .. | setSyntaxError .. | compress .. => []

/-- An edit founds a line for the node that it creates, and then it makes at most one line longer. Only wrapping does
both. -/
theorem Outcome.moves (h : m.Coherent) (h' : m'.Coherent) (ho : edit.Outcome m m' answer) :
    ∃ m₁, m₁.Labelled ∧ Model.Move m m₁ (edit.created m) ∧ Model.Move m₁ m' [] := by
  have hone : ∀ {created}, Model.Move m m' created →
      ∃ m₁, m₁.Labelled ∧ Model.Move m m₁ created ∧ Model.Move m₁ m' [] :=
    fun hmove => ⟨m', h'.labelled, hmove, .still rfl rfl⟩
  cases ho with
  | newComposite hcreated => exact hone (.of_fresh hcreated.size hcreated.bare rfl)
  | newLeaf _ hcreated => exact hone (.of_fresh hcreated.size hcreated.bare rfl)
  | addChild _ hadded =>
    refine hone (.still hadded.data.size ?_)
    funext x
    rw [Model.successor?_eq_bare?, Model.successor?_eq_bare?, hadded.data.bare]
  | associate hbound =>
    refine hone (.still hbound.size ?_)
    funext x
    rw [Model.successor?_eq_bare?, Model.successor?_eq_bare?, hbound.bare]
    cases m.bare? x <;> rfl
  | @wrap _ _ node _ _ m₁ _ _ hn hwrapped hcoherent₁ hcompressed =>
    have hlive : m₁.Live node := (Model.live_update hwrapped.bare rfl).2 (Or.inl (h.live_of_parent? hn))
    exact ⟨m₁, hcoherent₁.labelled, .of_fresh hwrapped.size hwrapped.bare rfl, hcompressed.move hlive⟩
  | setSyntaxError _ hn _ hmarked =>
    exact hone (.of_replaced (h.live_of_parent? hn) hmarked.size hmarked.bare rfl rfl)
  | compress hb hlive hcompressed =>
    exact hone (hcompressed.move (Model.live_iff_bare?.2 ⟨_, hb, hlive⟩))

/-- An edit adds the node that it creates to the founders. -/
theorem Outcome.lined (h : m.Coherent) (h' : m'.Coherent) (ho : edit.Outcome m m' answer) (hl : m.Lined founders) :
    m'.Lined (founders ++ edit.created m) := by
  obtain ⟨m₁, h₁, hfounds, hextends⟩ := ho.moves h h'
  have hlined := hextends.lined h₁ (hfounds.lined h.labelled hl)
  rwa [List.append_nil] at hlined

/-- A line that led somewhere still leads there. -/
theorem Outcome.leadsTo (h : m.Coherent) (h' : m'.Coherent) (ho : edit.Outcome m m' answer) {a b : NodeId}
    (hab : m.LeadsTo a b) : m'.LeadsTo a b := by
  obtain ⟨m₁, -, hfounds, hextends⟩ := ho.moves h h'
  exact Relation.ReflTransGen.mono (fun x y hx => hextends.successor? (hfounds.successor? hx)) _ _ hab

/-- What stands for a node afterwards stands for what stood for it before. -/
theorem Outcome.resolve_resolve (h : m.Coherent) (h' : m'.Coherent) (ho : edit.Outcome m m' answer)
    (hn : n < m.size) : m'.resolve (m.resolve n) = m'.resolve n :=
  (h'.labelled.resolve_eq_of_leadsTo (Nat.lt_of_lt_of_le hn (ho.size_le h).1)
    (ho.leadsTo h h' (m.leadsTo_resolve n))).symm

end Edit

end SyntaxTree
