import SyntaxTree.Proofs.Kinship
import SyntaxTree.Proofs.Lineage
import SyntaxTree.Proofs.Preservation

/-!
# Tokens that come in order

A parser reads its text from left to right, so it creates leaves in the order of the text, and puts each of them at the
right edge of what it has built so far. Whatever else it does in between, the tree is then consistent, and its leaves
are the created ones in the order of their creation (`driven_leaves`).

What carries the induction is `Emitted`. Its least obvious part is that trees beside the main one hold no leaves: they
may be added anywhere later on, also in the middle of the tree, and must not bring a token with them. The three kinds
of steps are treated apart. Edits that put no leaf into a tree only rename leaves (`Kept`); a tree without leaves that
is added changes the leaves of no node (`Appended.leaves_of_leafless`); and a leaf at the right edge comes last
(`Appended.leaves_of_rightEdge`).
-/

namespace SyntaxTree

open Function (update update_self update_of_ne)
open Links (appended)

namespace Model

variable {m m' : Model} {n p c top : NodeId} {created : List NodeId} {stop : Nat}

/-- The way down along last children leads from one node to the other. -/
def RightEdge (m : Model) (n p : NodeId) : Prop :=
  Relation.ReflTransGen (fun q d => m.lastChild? q = some d) n p

theorem WellFormed.mem_ancestors_of_rightEdge (h : m.WellFormed) (hedge : m.RightEdge n p) :
    n ∈ p :: m.ancestors p := by
  induction hedge using Relation.ReflTransGen.head_induction_on with
  | refl => exact List.mem_cons_self ..
  | @head n last hlast _ ih =>
    have hmem : last ∈ m.children n := List.mem_of_getLast? ((lastChild?_eq h.structured.forms n).symm.trans hlast)
    exact List.mem_cons_of_mem _ (h.mem_ancestors_of_child hmem ih)

/-! ## A child at the end of a list -/

/-- The second model has one child more, at the end of one list. -/
structure Appended (m m' : Model) (p c : NodeId) : Prop where
  live : ∀ {n}, m.Live n → m'.Live n
  token : ∀ {n}, m.Live n → m'.token? n = m.token? n
  children : m'.children = appended m.children p c
  composite : m.isLeaf p = false

theorem Added.appended (ha : Added m m' p c) (hp : m.isLeaf p = false) : Appended m m' p c where
  live hn := ha.data.live_iff.2 hn
  token _ := token?_congr (congrFun ha.data.bare _)
  children := ha.children
  composite := hp

theorem Created.appended {content : Content} {grammar : Option String} (hc : Created m m' content grammar (some p))
    (hp : m.isLeaf p = false) : Appended m m' p m.size where
  live hn := (live_congr (by rw [hc.bare, update_of_ne hn.ne_size])).2 hn
  token hn := token?_congr (by rw [hc.bare, update_of_ne hn.ne_size])
  children := hc.children
  composite := hp

/-- A leaf that was created has the range that was asked for. -/
theorem Created.new_leaf {range : TextRange} {hidden : Bool} {error : Option SyntaxError} {grammar : Option String}
    {parent : Option NodeId} (hc : Created m m' (.leaf range hidden error) grammar parent) :
    m'.Live m.size ∧ m'.isLeaf m.size = true ∧ m'.leafRange? m.size = some range := by
  have htoken : m'.token? m.size = some (range, hidden) := by
    rw [token?_eq_bare?, hc.bare, update_self]
    rfl
  refine ⟨(live_update hc.bare rfl).2 (Or.inr rfl), ?_, ?_⟩
  · rw [isLeaf_eq_token?, htoken]
    rfl
  · rw [leafRange?_eq_token?, htoken]
    rfl

section Appended

variable (h : m.WellFormed) (h' : m'.WellFormed) (ha : Appended m m' p c)

include ha in
theorem Appended.isLeaf (hn : m.Live n) : m'.isLeaf n = m.isLeaf n := by
  rw [isLeaf_eq_token?, isLeaf_eq_token?, ha.token hn]

include ha in
theorem Appended.leafRange? (hn : m.Live n) : m'.leafRange? n = m.leafRange? n := by
  rw [leafRange?_eq_token?, leafRange?_eq_token?, ha.token hn]

include ha in
/-- Leaves that follow each other still do. -/
theorem Appended.isChain {ids : List NodeId} (hids : ∀ x ∈ ids, m.Live x) (hchain : ids.IsChain m.Follows) :
    ids.IsChain m'.Follows := by
  refine hchain.imp_of_mem_imp fun a b ha' hb' hfollows => ?_
  unfold Follows
  rw [ha.leafRange? (hids a ha'), ha.leafRange? (hids b hb')]
  exact hfollows

include ha in
theorem Appended.lastEnd {ids : List NodeId} (hids : ∀ x ∈ ids, m.Live x ∧ m.isLeaf x = true) (offset : Nat) :
    m'.lastEnd offset ids = m.lastEnd offset ids := by
  unfold Model.lastEnd
  cases hlast : ids.getLast? with
  | none => rfl
  | some x =>
    obtain ⟨hlive, hleaf⟩ := hids x (List.mem_of_getLast? hlast)
    obtain ⟨range, hrange⟩ := exists_leafRange? hleaf
    rw [Option.elim_some, Option.elim_some, totalEnd_of_leafRange? hrange,
      totalEnd_of_leafRange? ((ha.leafRange? hlive).trans hrange)]

include ha in
theorem Appended.children_of_ne (hnp : n ≠ p) : m'.children n = m.children n := by
  rw [ha.children, Links.appended, update_of_ne hnp]

include ha in
theorem Appended.children_parent : m'.children p = m.children p ++ [c] := by
  rw [ha.children, Links.appended, update_self]

include h h' ha

/-- A node has its leaves if the children that it had have theirs, unless its list is the one that changed. -/
theorem Appended.leaves_of_children (hn : m.Live n) (hnp : n ≠ p)
    (hchildren : ∀ d ∈ m.children n, m'.leaves d = m.leaves d) : m'.leaves n = m.leaves n := by
  rw [h'.leaves_eq (ha.live hn).lt_size, h.leaves_eq hn.lt_size, ha.isLeaf hn, ha.children_of_ne hnp,
    List.flatMap_congr hchildren]

/-- The list that changed has the leaves of the new child at its end. -/
theorem Appended.leaves_parent (hp : m.Live p) (hchildren : ∀ d ∈ m.children p, m'.leaves d = m.leaves d) :
    m'.leaves p = m.leaves p ++ m'.leaves c := by
  rw [h'.leaves_eq (ha.live hp).lt_size, h.leaves_eq hp.lt_size, ha.isLeaf hp, ha.composite, ha.children_parent]
  simp only [Bool.false_eq_true, if_false, List.flatMap_append, List.flatMap_singleton,
    List.flatMap_congr hchildren]

/-- A node that is not above the new child has the leaves it had. -/
theorem Appended.leaves_of_not_above (n : NodeId) : m.Live n → n ∉ p :: m.ancestors p →
    m'.leaves n = m.leaves n := by
  induction n using descend h.structured.forms h.structured.grounded with
  | step n ih =>
  intro hn habove
  have hnp : n ≠ p := fun e => habove (e ▸ List.mem_cons_self ..)
  refine ha.leaves_of_children h h' hn hnp fun d hd => ih d hd (h.live_of_mem hd) fun hmem => habove ?_
  exact List.mem_cons_of_mem _ (h.mem_ancestors_of_child hd hmem)

/-- If the tree that was added has no leaves, all nodes have the leaves they had. The induction goes down the second
model, where the new child is below its parent. -/
theorem Appended.leaves_of_leafless (hc : m.Live c) (hempty : m.leaves c = []) (n : NodeId) : m.Live n →
    m'.leaves n = m.leaves n := by
  induction n using descend h'.structured.forms h'.structured.grounded with
  | step n ih =>
  intro hn
  by_cases hnp : n = p
  · subst hnp
    have hkids := ha.children_parent
    have hnew : m'.leaves c = [] := by
      rw [ih c (by rw [hkids]; exact List.mem_append_right _ (List.mem_singleton_self c)) hc, hempty]
    rw [ha.leaves_parent h h' hn fun d hd => ?_, hnew, List.append_nil]
    exact ih d (by rw [hkids]; exact List.mem_append_left _ hd) (h.live_of_mem hd)
  · refine ha.leaves_of_children h h' hn hnp fun d hd => ih d ?_ (h.live_of_mem hd)
    rw [ha.children_of_ne hnp]
    exact hd

/-- A node from which the right edge leads to the new child has its leaves at the end. -/
theorem Appended.leaves_of_rightEdge (hp : m.Live p) (hedge : m.RightEdge n p) :
    m'.leaves n = m.leaves n ++ m'.leaves c := by
  have hforms := h.structured.forms
  have hgrounded := h.structured.grounded
  induction hedge using Relation.ReflTransGen.head_induction_on with
  | refl =>
    refine ha.leaves_parent h h' hp fun d hd => ha.leaves_of_not_above h h' d (h.live_of_mem hd) fun hmem => ?_
    exact h.not_mem_ancestors_of_mem hd hmem
  | @head n last hlast hrest ih =>
    obtain ⟨init, hkids⟩ := List.getLast?_eq_some_iff.1 ((lastChild?_eq hforms n).symm.trans hlast)
    have hmem : last ∈ m.children n := by rw [hkids]; exact List.mem_append_right _ (List.mem_singleton_self last)
    have habove := h.mem_ancestors_of_rightEdge hrest
    have hn : m.Live n := h.structured.live_of_mem hmem
    have hnp : n ≠ p := by
      rintro rfl
      exact h.not_mem_ancestors_of_mem hmem habove
    -- only the last child is above the new one
    have hinit : ∀ d ∈ init, m'.leaves d = m.leaves d := by
      intro d hd
      have hdn : d ∈ m.children n := by rw [hkids]; exact List.mem_append_left _ hd
      refine ha.leaves_of_not_above h h' d (h.live_of_mem hdn) fun hdp => ?_
      obtain rfl := eq_of_mem_ancestors hforms hgrounded (hforms.mem_iff.1 hdn) (hforms.mem_iff.1 hmem) hdp habove
      have hnodup := hforms.nodup n
      rw [hkids] at hnodup
      exact (List.nodup_append.1 hnodup).2.2 d hd d (List.mem_singleton_self d) rfl
    have hleaf : m.isLeaf n = false := (isLeaf_of_mem hforms hmem).1
    rw [h'.leaves_eq (ha.live hn).lt_size, h.leaves_eq hn.lt_size, ha.isLeaf hn, hleaf, ha.children_of_ne hnp, hkids]
    simp only [Bool.false_eq_true, if_false, List.flatMap_append, List.flatMap_singleton, ih,
      List.flatMap_congr hinit, List.append_assoc]

end Appended

/-! ## What a driver keeps to -/

/-- The leaves of the tree are the created ones, in the order of their creation and of the text, and the last one ends
no later than given. Trees beside the main one have no leaves. -/
structure Emitted (m : Model) (created : List NodeId) (stop : Nat) : Prop where
  allocated : ∀ c ∈ created, c < m.size
  leaves : m.leaves rootId = created.map m.resolve
  leafless : ∀ {top}, m.forest.tops top → top ≠ rootId → m.leaves top = []
  sequence : m.LeavesInSequence
  ends : m.lastEnd 0 (m.leaves rootId) ≤ stop

theorem emitted_initial (text : String) (h : (initial text).WellFormed) : (initial text).Emitted [] 0 := by
  have hleaves : (initial text).leaves rootId = [] := by
    rw [h.leaves_eq h.labelled.size_pos]
    rfl
  refine ⟨nofun, hleaves, fun {top} htop hroot => ?_, ?_, ?_⟩
  · exact absurd (Nat.lt_one_iff.1 htop.1.lt_size) hroot
  · rw [LeavesInSequence, hleaves]
    exact .nil
  · rw [hleaves]
    exact Nat.le_refl 0

/-- Leaves have their ends, whatever they are called. -/
theorem Kept.lastEnd {rep : NodeId → NodeId} (hk : Kept m m' rep) {ids : List NodeId} (hids : ∀ x ∈ ids, m.Live x)
    (offset : Nat) : m'.lastEnd offset (ids.map rep) = m.lastEnd offset ids := by
  rw [Model.lastEnd, Model.lastEnd, List.getLast?_map]
  cases hlast : ids.getLast? with
  | none => rfl
  | some x => exact hk.totalEnd (hids x (List.mem_of_getLast? hlast))

end Model

namespace Edit

open Model (rootId)

variable {m m' : Model} {edit : Edit} {answer : Option NodeId} {created : List NodeId} {stop : Nat}

/-- A top is one that was there before, or it is the new node and has nothing below it. -/
theorem Outcome.tops_of_addsNoLeaf (h : m.Coherent) (hedit : edit.AddsNoLeaf) (ho : edit.Outcome m m' answer)
    {top : NodeId} (htop : m'.forest.tops top) :
    m.forest.tops top ∨ m'.isLeaf top = false ∧ m'.children top = [] := by
  cases ho with
  | @newComposite _ _ parent _ hcreated =>
    rcases hcreated.tops_iff.1 htop with hold | ⟨rfl, rfl⟩
    · exact Or.inl hold
    · refine Or.inr ⟨?_, ?_⟩
      · rw [Model.isLeaf_eq_bare?, hcreated.bare, update_self]
        rfl
      · rw [hcreated.children]
        exact h.children_size
  | newLeaf _ _ => exact hedit.elim
  | addChild _ _ => exact hedit.elim
  | associate hbound => exact Or.inl (hbound.tops_iff.1 htop)
  | wrap _ hn hwrapped _ hcompressed =>
    cases hcompressed with
    | unchanged _ => exact Or.inl ((hwrapped.tops_iff hn).1 htop)
    | replaced _ hn₁ hr => exact Or.inl ((hwrapped.tops_iff hn).1 ((hr.tops_iff hn₁).1 htop))
  | setSyntaxError _ hn _ hmarked => exact Or.inl ((hmarked.tops_iff hn).1 htop)
  | compress _ _ hcompressed =>
    cases hcompressed with
    | unchanged _ => exact Or.inl htop
    | replaced _ hn hr => exact Or.inl ((hr.tops_iff hn).1 htop)

/-- An edit that puts no leaf into a tree gives leaves other names at most. -/
theorem Outcome.emitted_of_addsNoLeaf (h : m.Coherent) (h' : m'.Coherent) (hedit : edit.AddsNoLeaf)
    (ho : edit.Outcome m m' answer) (he : m.Emitted created stop) : m'.Emitted created stop := by
  have hk := ho.kept h h' hedit
  have hleaves := hk.leaves h.live_root
  rw [hk.root] at hleaves
  have hlive : ∀ x ∈ m.leaves rootId, m.Live x := fun x hx => (h.live_of_mem_leaves rootId h.live_root x hx).1
  refine ⟨fun c hc => Nat.lt_of_lt_of_le (he.allocated c hc) (ho.size_le h).1, ?_, fun {top} htop hroot => ?_,
    (hk.leavesInSequence_iff h.toWellFormed).2 he.sequence, ?_⟩
  · rw [hleaves, he.leaves, List.map_map]
    exact List.map_congr_left fun c hc => ho.resolve_resolve h h' (he.allocated c hc)
  · rcases ho.tops_of_addsNoLeaf h hedit htop with hold | ⟨hleaf, hempty⟩
    · have hsame := hk.leaves hold.1
      rw [Model.resolve_of_live htop.1, he.leafless hold hroot] at hsame
      exact hsame
    · rw [h'.leaves_eq htop.1.lt_size, hleaf, hempty]
      rfl
  · rw [hleaves, hk.lastEnd hlive]
    exact he.ends

/-- Where live nodes stay live, names lead where they led. -/
theorem Outcome.map_resolve (h : m.Coherent) (h' : m'.Coherent) (ho : edit.Outcome m m' answer)
    (hlive : ∀ {n}, m.Live n → m'.Live n) (ids : List NodeId) (hids : ∀ x ∈ ids, x < m.size) :
    ids.map m'.resolve = ids.map m.resolve := by
  refine List.map_congr_left fun x hx => ?_
  rw [← ho.resolve_resolve h h' (hids x hx)]
  exact Model.resolve_of_live (hlive (h.labelled.live_resolve (hids x hx)))

/-- A tree that is added has no leaves, so it changes none. -/
theorem Outcome.emitted_of_addChild {p c : NodeId} (h : m.Coherent) (h' : m'.Coherent)
    (ho : (Edit.addChild p c).Outcome m m' answer) (he : m.Emitted created stop) : m'.Emitted created stop := by
  have hmap := ho.map_resolve h h'
  have hsize := (ho.size_le h).1
  cases ho with
  | addChild hlinkable hadded =>
  have ha := hadded.appended hlinkable.parent_composite
  have htopc : m.forest.tops c := ⟨hlinkable.child_live, hlinkable.child_loose⟩
  have hcroot : c ≠ rootId := fun e => by
    have hroot := hlinkable.child_not_root
    rw [h.isRoot_iff.2 e] at hroot
    cases hroot
  have hsame : ∀ {n}, m.Live n → m'.leaves n = m.leaves n := fun hn =>
    ha.leaves_of_leafless h.toWellFormed h'.toWellFormed htopc.1 (he.leafless htopc hcroot) _ hn
  have hleaves := h.live_of_mem_leaves rootId h.live_root
  refine ⟨fun x hx => Nat.lt_of_lt_of_le (he.allocated x hx) hsize, ?_, fun {top} htop hroot => ?_, ?_, ?_⟩
  · rw [hsame h.live_root, hmap ha.live created he.allocated]
    exact he.leaves
  · obtain ⟨hold, -⟩ := hadded.tops_iff.1 htop
    rw [hsame hold.1]
    exact he.leafless hold hroot
  · rw [Model.LeavesInSequence, hsame h.live_root]
    exact ha.isChain (fun x hx => (hleaves x hx).1) he.sequence
  · rw [hsame h.live_root, ha.lastEnd hleaves]
    exact he.ends

/-- A leaf that is put at the right edge, behind the leaf before, comes last. -/
theorem Outcome.emitted_of_newLeaf {offset length : Nat} {grammar : Option String} {hidden : Bool}
    {error : Option SyntaxError} {p : NodeId} (h : m.Coherent) (h' : m'.Coherent)
    (hedge : m.RightEdge rootId p) (hp : m.Live p) (hleaf : m.isLeaf p = false) (hstop : stop ≤ offset)
    (ho : (Edit.newLeaf offset length grammar hidden error p).Outcome m m' answer) (he : m.Emitted created stop) :
    m'.Emitted (created ++ [m.size]) (offset + length) := by
  have hmap := ho.map_resolve h h'
  cases ho with
  | @newLeaf _ _ _ _ _ _ range _ hrange hcreated =>
  obtain ⟨-, hstart, hend⟩ := (Model.leafRange_eq_ok_iff h.labelled.short).1 hrange
  have ha := hcreated.appended hleaf
  obtain ⟨hlive, hnewLeaf, hnewRange⟩ := hcreated.new_leaf
  have hnew : m'.leaves m.size = [m.size] := by
    rw [h'.leaves_eq hlive.lt_size, hnewLeaf]
    rfl
  have hroot := ha.leaves_of_rightEdge h.toWellFormed h'.toWellFormed hp hedge
  rw [hnew] at hroot
  have hleaves := h.live_of_mem_leaves rootId h.live_root
  refine ⟨fun c hc => ?_, ?_, fun {top} htop htopRoot => ?_, ?_, ?_⟩
  · rw [hcreated.size]
    rcases List.mem_append.1 hc with hc | hc
    · exact Nat.lt_succ_of_lt (he.allocated c hc)
    · rw [List.mem_singleton.1 hc]
      exact Nat.lt_succ_self _
  · rw [hroot, he.leaves, List.map_append, hmap ha.live created he.allocated, List.map_singleton,
      Model.resolve_of_live hlive]
  · rcases hcreated.tops_iff.1 htop with hold | ⟨-, hnone⟩
    · rw [ha.leaves_of_not_above h.toWellFormed h'.toWellFormed top hold.1 fun hmem => htopRoot ?_]
      · exact he.leafless hold htopRoot
      · exact h.eq_of_tops_above hold.2 h.structured.root_loose hmem (h.mem_ancestors_of_rightEdge hedge)
    · cases hnone
  · rw [Model.LeavesInSequence, hroot, List.isChain_append]
    refine ⟨ha.isChain (fun x hx => (hleaves x hx).1) he.sequence, .singleton _, fun x hx y hy r s hr hs => ?_⟩
    -- the leaf before ended no later than where the new one starts
    obtain rfl : y = m.size := (Option.some.inj hy).symm
    obtain rfl := Option.some.inj (hnewRange.symm.trans hs)
    rw [ha.leafRange? (hleaves x (List.mem_of_getLast? hx)).1] at hr
    have hends := he.ends
    rw [Model.lastEnd, hx, Option.elim_some, Model.totalEnd_of_leafRange? hr] at hends
    omega
  · rw [hroot, Model.lastEnd_append, Model.lastEnd, List.getLast?_singleton, Option.elim_some,
      Model.totalEnd_of_leafRange? hnewRange, hend]

/-- The edit creates a leaf. -/
def EmitsToken : Edit → Prop
  | newLeaf .. => True
  | _ => False

/-- An edit that creates no leaf keeps what a driver keeps to. -/
theorem Outcome.emitted (h : m.Coherent) (h' : m'.Coherent) (hedit : ¬ edit.EmitsToken)
    (ho : edit.Outcome m m' answer) (he : m.Emitted created stop) : m'.Emitted created stop := by
  cases edit with
  | newLeaf offset length grammar hidden error parent => exact absurd trivial hedit
  | addChild parent child => exact ho.emitted_of_addChild h h' he
  | _ => exact ho.emitted_of_addsNoLeaf h h' (by trivial) he

end Edit

namespace Model

variable {m m' : Model} {text : String} {created : List NodeId} {stop : Nat}

/-- The models that a driver builds which reads its text from left to right. Every leaf goes to a node on the right edge
of the tree, and starts at or after the end of the leaf created before it; all other edits may come in between. Along
with the model go the leaves that were created so far, by the names that they got then, and the end of the last one. -/
inductive Driven (text : String) : Model → List NodeId → Nat → Prop where
  | opened {m : Model} : ofText text = .ok m → Driven text m [] 0
  | token {m m' : Model} {created : List NodeId} {stop : Nat} {leaf : NodeId} (offset length : Nat)
      (grammar : Option String) (hidden : Bool) (error : Option SyntaxError) (parent : NodeId) :
      Driven text m created stop → m.RightEdge rootId parent → stop ≤ offset →
      (Edit.newLeaf offset length grammar hidden error parent).apply m = .ok (m', some leaf) →
      Driven text m' (created ++ [leaf]) (offset + length)
  | other {m m' : Model} {created : List NodeId} {stop : Nat} {answer : Option NodeId} (edit : Edit) :
      Driven text m created stop → ¬ edit.EmitsToken → edit.Allocated m → edit.apply m = .ok (m', answer) →
      Driven text m' created stop

/-- Nodes on the right edge are there. -/
theorem WellFormed.lt_size_of_rightEdge (h : m.WellFormed) {n : NodeId} (hedge : m.RightEdge rootId n) :
    n < m.size := by
  rcases Relation.ReflTransGen.cases_tail hedge with rfl | ⟨p, -, hlast⟩
  · exact h.labelled.size_pos
  · exact h.lt_size_of_mem (List.mem_of_getLast? ((lastChild?_eq h.structured.forms p).symm.trans hlast))

theorem Driven.emitted (h : Driven text m created stop) : m.Coherent ∧ m.Emitted created stop := by
  induction h with
  | opened hm =>
    have hcoherent := coherent_of_ofText hm
    obtain ⟨-, rfl⟩ := ofText_eq_ok_iff.1 hm
    exact ⟨hcoherent, emitted_initial text hcoherent.toWellFormed⟩
  | @token m m' created stop leaf offset length grammar hidden error parent _ hedge hstop hok ih =>
    obtain ⟨h, he⟩ := ih
    have hargs : (Edit.newLeaf offset length grammar hidden error parent).Allocated m := fun n hn => by
      rw [List.mem_singleton.1 hn]
      exact h.lt_size_of_rightEdge hedge
    obtain ⟨-, hlive, hleaf⟩ := Edit.admissible_of_apply h hargs hok
    obtain ⟨h', ho⟩ := Edit.apply_outcome h hargs hok
    have hemitted := ho.emitted_of_newLeaf h h' hedge hlive hleaf hstop he
    cases ho with
    | newLeaf _ _ => exact ⟨h', hemitted⟩
  | other edit _ hedit hargs hok ih =>
    obtain ⟨h, he⟩ := ih
    obtain ⟨h', ho⟩ := Edit.apply_outcome h hargs hok
    exact ⟨h', ho.emitted h h' hedit he⟩

/-- What a driver builds that emits its tokens in order is consistent after every call, and the leaves of the tree are
the created ones, or what stands for them by now, in the order of their creation. -/
theorem driven_leaves (h : Driven text m created stop) :
    m.check = .ok () ∧ m.leaves rootId = created.map m.resolve := by
  obtain ⟨hcoherent, hemitted⟩ := h.emitted
  exact ⟨hcoherent.check_decides.eq_ok_iff.2 hemitted.sequence, hemitted.leaves⟩

/-- The operand of a sum is wrapped and compressed on the way, its leaf is marked, and at last an empty tree that stood
alone is added behind it, in the middle of the tree. -/
theorem driven_leaves_sum : ∃ m, Driven "a+" m [3, 6] 2 ∧ m.children 4 = [5, 6] ∧ m.children 5 = [7, 8] ∧
    m.children 8 = [9] ∧ m.isStale 3 = true ∧ m.leaves rootId = [7, 6] ∧ m.check = .ok () ∧
    m.leaves rootId = [3, 6].map m.resolve := by
  have h : Driven "a+" (initial "a+") [] 0 := .opened (ofText_eq_ok_iff.2 ⟨by decide, rfl⟩)
  have h := h.other (.newComposite none 0 (some 0)) id (by decide) rfl
  have h := h.other (.newComposite none 0 (some 1)) id (by decide) rfl
  have h := h.token 0 1 none false none 2 (.tail (.tail .refl (show _ = some 1 from rfl)) rfl)
    (Nat.le_refl 0) rfl
  have h := h.other (.wrap none 0 2) id (by decide) rfl
  have h := h.token 1 1 none false none 4 (.tail (.tail .refl (show _ = some 1 from rfl)) rfl)
    (Nat.le_refl 1) rfl
  have h := h.other (.setSyntaxError 3 ⟨"late", none, []⟩) id (by decide) rfl
  have h := h.other (.newComposite none 0 none) id (by decide) rfl
  have h := h.other (.newComposite none 0 (some 8)) id (by decide) rfl
  have h := h.other (.addChild 5 8) id (by decide) rfl
  obtain ⟨hcheck, hleaves⟩ := driven_leaves h
  exact ⟨_, h, rfl, rfl, rfl, rfl, rfl, hcheck, hleaves⟩

end Model

end SyntaxTree
