import SyntaxTree.Proofs.Reachable
import SyntaxTree.Proofs.Succession
import SyntaxTree.Script.Replay

/-!
# Replay and the builder agree

Replay checks a call before it makes it, with rules of its own that read only handles, kinds and parents. The
builder has its own idea of what a call may do, `Edit.Admissible`, which it finds out on the way. This file
shows that the two are the same, except in one place: replay refuses to compress a bound composite that has no
parent, where the builder has nothing to do.

`Replay.target?` is the edit that a call stands for, without any check. `edit_eq_ok_iff` says which targets replay
lets through. That the handles of a replay always lead to live nodes (`Replay.Sound`) is what makes its checks
enough.
-/

namespace SyntaxTree

open Function (update update_self update_of_ne)

/-- The handles that a call names. -/
def Call.handles : Call → List Handle
  | .composite _ _ parent => parent.toList
  | .leaf _ _ _ _ _ parent => [parent]
  | .addChild parent child => [parent, child]
  | .associate node _ | .wrap _ _ node | .error node _ _ _ | .compress node => [node]

namespace Replay

variable {r r' : Replay} {m : Model} {handle : Handle} {n : NodeId} {call : Call} {edit : Edit}

/-- The node that a handle leads to. -/
def node? (r : Replay) (handle : Handle) : Option NodeId :=
  (r.handles[handle.toNat]?).map r.model.resolve

/-- The edit that a call stands for, if all its handles are known. -/
def target? (r : Replay) : Call → Option Edit
  | .composite grammar lookahead none => some (.newComposite grammar lookahead.toNat none)
  | .composite grammar lookahead (some parent) =>
    (r.node? parent).map fun p => .newComposite grammar lookahead.toNat (some p)
  | .leaf offset length grammar hidden error parent =>
    (r.node? parent).map
      (.newLeaf offset.toNat length.toNat grammar hidden (error.map SyntaxError.ofMessage) ·)
  | .addChild parent child => do
    return .addChild (← r.node? parent) (← r.node? child)
  | .associate node element => (r.node? node).map (.associate · element.toNat)
  | .wrap grammar lookahead node => (r.node? node).map (.wrap grammar lookahead.toNat ·)
  | .error node message issueCode issueData =>
    (r.node? node).map (.setSyntaxError · ⟨message, issueCode, issueData⟩)
  | .compress node => (r.node? node).map .compress

/-- The one call that replay refuses and the builder does not: compressing a composite that holds an element and
has no parent. -/
def OverlyStrict (r : Replay) (call : Call) : Prop :=
  ∃ handle n, call = .compress handle ∧ r.node? handle = some n ∧ r.model.isRoot n = false ∧
    r.model.isLeaf n = false ∧ r.model.parent? n = none ∧ (r.model.element? n).isSome = true

/-- What replay keeps to: the model is coherent, and handles are names of nodes. -/
structure Sound (r : Replay) : Prop where
  coherent : r.model.Coherent
  allocated : ∀ {i n : Nat}, r.handles[i]? = some n → n < r.model.size

/-! ## Looking up handles -/

theorem node?_eq_none_iff : r.node? handle = none ↔ r.handles.size ≤ handle.toNat := by
  simp [node?]

theorem node_eq_ok_iff : r.node handle = .ok n ↔ r.node? handle = some n := by
  unfold node node?
  cases r.handles[handle.toNat]? <;> simp

/-- A handle leads to a live node. -/
theorem Sound.live (h : r.Sound) (hn : r.node? handle = some n) : r.model.Live n := by
  obtain ⟨id, hid, hn⟩ := Option.map_eq_some_iff.1 hn
  rw [← hn]
  exact h.coherent.labelled.live_resolve (h.allocated hid)

theorem composite_eq_ok_iff :
    r.composite handle = .ok n ↔ r.node? handle = some n ∧ r.model.isLeaf n = false := by
  rw [composite, bind_eq_ok_iff]
  simp only [node_eq_ok_iff]
  constructor
  · intro h
    obtain ⟨id, hid, h⟩ := h
    cases hleaf : r.model.isLeaf id with
    | true =>
      rw [hleaf] at h
      cases h
    | false =>
      rw [hleaf] at h
      obtain rfl := Except.ok.inj h
      exact ⟨hid, hleaf⟩
  · intro h
    obtain ⟨hid, hleaf⟩ := h
    refine ⟨n, hid, ?_⟩
    rw [hleaf]
    rfl

/-- A node with a parent is not the root, so one of the two checks would do. -/
theorem replaceable_eq_ok_iff (h : r.Sound) {action : RootAction} :
    r.replaceable handle action = .ok n ↔ r.node? handle = some n ∧ ∃ p, r.model.parent? n = some p := by
  rw [replaceable, bind_eq_ok_iff]
  simp only [node_eq_ok_iff]
  constructor
  · intro hok
    obtain ⟨id, hid, hok⟩ := hok
    cases hroot : r.model.isRoot id with
    | true =>
      rw [hroot] at hok
      cases hok
    | false =>
      rw [hroot] at hok
      cases hp : r.model.parent? id with
      | none =>
        rw [hp] at hok
        cases hok
      | some p =>
        rw [hp] at hok
        obtain rfl := Except.ok.inj hok
        exact ⟨hid, p, hp⟩
  · intro hok
    obtain ⟨hid, p, hp⟩ := hok
    refine ⟨n, hid, ?_⟩
    have hroot : r.model.isRoot n = false := by
      rw [Bool.eq_false_iff]
      exact fun hroot => h.coherent.ne_root hp (h.coherent.isRoot_iff.1 hroot)
    rw [hroot, hp]
    rfl

/-! ## The checks -/

/-- An edit that a call stands for names live nodes only. -/
theorem Sound.live_of_target? (h : r.Sound) (htarget : r.target? call = some edit) :
    ∀ n ∈ edit.arguments, r.model.Live n := by
  cases call with
  | composite grammar lookahead parent =>
    cases parent with
    | none =>
      obtain rfl := Option.some.inj htarget
      intro n hn
      cases hn
    | some parent =>
      obtain ⟨p, hp, rfl⟩ := Option.map_eq_some_iff.1 htarget
      simpa [Edit.arguments] using h.live hp
  | leaf offset length grammar hidden error parent =>
    obtain ⟨p, hp, rfl⟩ := Option.map_eq_some_iff.1 htarget
    simpa [Edit.arguments] using h.live hp
  | addChild parent child =>
    obtain ⟨p, hp, htarget⟩ := Option.bind_eq_some_iff.1 htarget
    obtain ⟨c, hc, htarget⟩ := Option.bind_eq_some_iff.1 htarget
    obtain rfl := Option.some.inj htarget
    simpa [Edit.arguments] using ⟨h.live hp, h.live hc⟩
  | associate node element =>
    obtain ⟨n, hn, rfl⟩ := Option.map_eq_some_iff.1 htarget
    simpa [Edit.arguments] using h.live hn
  | wrap grammar lookahead node =>
    obtain ⟨n, hn, rfl⟩ := Option.map_eq_some_iff.1 htarget
    simpa [Edit.arguments] using h.live hn
  | error node message issueCode issueData =>
    obtain ⟨n, hn, rfl⟩ := Option.map_eq_some_iff.1 htarget
    simpa [Edit.arguments] using h.live hn
  | compress node =>
    obtain ⟨n, hn, rfl⟩ := Option.map_eq_some_iff.1 htarget
    simpa [Edit.arguments] using h.live hn

/-- A call has a target exactly if all its handles are known. -/
theorem target?_eq_none_iff :
    r.target? call = none ↔ ∃ handle ∈ call.handles, r.handles.size ≤ handle.toNat := by
  cases call with
  | composite grammar lookahead parent =>
    cases parent <;> simp [target?, Call.handles, node?_eq_none_iff]
  | addChild parent child =>
    simp only [target?, Call.handles, Option.bind_eq_bind, Option.bind_eq_none_iff]
    cases hp : r.node? parent with
    | none => simp [node?_eq_none_iff.1 hp]
    | some p =>
      cases hc : r.node? child with
      | none => simp [node?_eq_none_iff.1 hc]
      | some c =>
        have hp : ¬ r.handles.size ≤ parent.toNat := fun hle => by rw [node?_eq_none_iff.2 hle] at hp; cases hp
        have hc : ¬ r.handles.size ≤ child.toNat := fun hle => by rw [node?_eq_none_iff.2 hle] at hc; cases hc
        simp [hp, hc]
  | _ => simp [target?, Call.handles, node?_eq_none_iff]

/-- Every other call than compressing is judged by the builder alone. -/
theorem not_overlyStrict (hcall : ∀ handle, call ≠ .compress handle) : ¬ r.OverlyStrict call := by
  intro hstrict
  obtain ⟨handle, -, he, -⟩ := hstrict
  exact hcall handle he

/-- A call with one handle is let through if the check of its node passes, so the check has to say what the
builder asks for. -/
theorem checked_iff {checked : Except Rejection Edit} {found : Option NodeId} {make : NodeId → Edit}
    (passes : NodeId → Prop) (asked : Edit → Prop)
    (hcheck : ∀ e, checked = .ok e ↔ ∃ n, found = some n ∧ passes n ∧ make n = e)
    (hasked : ∀ n, found = some n → (passes n ↔ asked (make n))) :
    checked = .ok edit ↔ found.map make = some edit ∧ asked edit := by
  rw [hcheck, Option.map_eq_some_iff]
  constructor
  · intro h
    obtain ⟨n, hn, hpass, rfl⟩ := h
    exact ⟨⟨n, hn, rfl⟩, (hasked n hn).1 hpass⟩
  · intro h
    obtain ⟨⟨n, hn, rfl⟩, hask⟩ := h
    exact ⟨n, hn, (hasked n hn).2 hask, rfl⟩

theorem edit_composite_eq_ok_iff (h : r.Sound) {grammar : Option String} {lookahead : UInt32}
    {parent : Option Handle} : r.edit (.composite grammar lookahead parent) = .ok edit ↔
      r.target? (.composite grammar lookahead parent) = some edit ∧ edit.Admissible r.model := by
  cases parent with
  | none =>
    constructor
    · intro hok
      obtain rfl := Except.ok.inj hok
      exact ⟨rfl, nofun⟩
    · intro hok
      obtain rfl := Option.some.inj hok.1
      rfl
  | some parent =>
    refine checked_iff (fun n => r.model.isLeaf n = false) (Edit.Admissible r.model) (fun e => ?_)
      fun n hn => ?_
    · rw [Replay.edit, bind_eq_ok_iff]
      simp only [composite_eq_ok_iff, and_assoc, pure, Except.pure, Except.ok.injEq]
    · simp [Edit.Admissible, h.live hn]

theorem edit_leaf_eq_ok_iff (h : r.Sound) {offset length : UInt32} {grammar : Option String} {hidden : Bool}
    {error : Option String} {parent : Handle} :
    r.edit (.leaf offset length grammar hidden error parent) = .ok edit ↔
      r.target? (.leaf offset length grammar hidden error parent) = some edit ∧ edit.Admissible r.model := by
  refine checked_iff (fun n => r.model.isLeaf n = false ∧
      offset.toNat + length.toNat ≤ r.model.textLength ∧
      Text.isBoundary r.model.chars offset.toNat = true ∧
      Text.isBoundary r.model.chars (offset.toNat + length.toNat) = true)
    (Edit.Admissible r.model) (fun e => ?_) fun n hn => ?_
  · rw [Replay.edit, bind_eq_ok_iff]
    simp only [composite_eq_ok_iff, and_assoc]
    refine exists_congr fun n => and_congr_right fun _ => and_congr_right fun _ => ?_
    by_cases hout : r.model.textLength < offset.toNat + length.toNat
    · rw [if_pos hout]
      have hnot : ¬ offset.toNat + length.toNat ≤ r.model.textLength := by omega
      simp [hnot, bind, Except.bind, throw, throwThe, MonadExceptOf.throw]
    · rw [if_neg hout]
      have hin : offset.toNat + length.toNat ≤ r.model.textLength := by omega
      cases hstart : Text.isBoundary r.model.chars offset.toNat with
      | false => simp [bind, Except.bind, throw, throwThe, MonadExceptOf.throw]
      | true =>
        cases hstop : Text.isBoundary r.model.chars (offset.toNat + length.toNat) with
        | false => simp [bind, Except.bind, throw, throwThe, MonadExceptOf.throw]
        | true => simp [hin, pure, Except.pure]
  · simp only [Edit.Admissible, h.live hn, true_and]
    exact and_comm

theorem edit_addChild_eq_ok_iff (h : r.Sound) {parent child : Handle} :
    r.edit (.addChild parent child) = .ok edit ↔
      r.target? (.addChild parent child) = some edit ∧ edit.Admissible r.model := by
  rw [Replay.edit, bind_eq_ok_iff]
  simp only [bind_eq_ok_iff, composite_eq_ok_iff, node_eq_ok_iff]
  constructor
  · intro hok
    obtain ⟨p, ⟨hp, hleaf⟩, c, hc, hok⟩ := hok
    cases hroot : r.model.isRoot c with
    | true =>
      rw [hroot] at hok
      cases hok
    | false =>
      rw [hroot] at hok
      cases hloose : r.model.parent? c with
      | some q =>
        rw [hloose] at hok
        cases hok
      | none =>
        rw [hloose] at hok
        by_cases hcycle : p = c ∨ c ∈ r.model.ancestors p
        · simp [hcycle, bind, Except.bind, throw, throwThe, MonadExceptOf.throw] at hok
        · simp only [hcycle, bind, Except.bind, pure, Except.pure] at hok
          obtain rfl := Except.ok.inj hok
          refine ⟨?_, ⟨h.live hp, hleaf, h.live hc, hloose, hroot⟩, not_or.1 hcycle⟩
          rw [target?, hp, hc]
          rfl
  · intro hok
    obtain ⟨htarget, hask⟩ := hok
    obtain ⟨p, hp, htarget⟩ := Option.bind_eq_some_iff.1 htarget
    obtain ⟨c, hc, htarget⟩ := Option.bind_eq_some_iff.1 htarget
    obtain rfl := Option.some.inj htarget
    obtain ⟨hlink, hne, hcycle⟩ := hask
    refine ⟨p, ⟨hp, hlink.parent_composite⟩, c, hc, ?_⟩
    rw [hlink.child_not_root, hlink.child_loose]
    simp [hne, hcycle, pure, Except.pure]

theorem edit_associate_eq_ok_iff (h : r.Sound) {node : Handle} {element : UInt32} :
    r.edit (.associate node element) = .ok edit ↔
      r.target? (.associate node element) = some edit ∧ edit.Admissible r.model := by
  refine checked_iff (fun n => (r.model.kind? n).any NodeKind.isBindable = true) (Edit.Admissible r.model)
    (fun e => ?_) fun n hn => ?_
  · rw [Replay.edit, bind_eq_ok_iff]
    simp only [node_eq_ok_iff]
    refine exists_congr fun n => and_congr_right fun hn => ?_
    -- a live node has a kind, so the check is never passed over
    obtain ⟨id, hid, -⟩ := h.live hn
    rw [Model.kind?, hid]
    cases hkind : id.kind.isBindable <;>
      simp [hkind, bind, Except.bind, throw, throwThe, MonadExceptOf.throw, pure, Except.pure]
  · simp [Edit.Admissible, h.live hn]

/-- Wrapping and marking are let through for nodes with a parent. -/
theorem edit_replaceable_iff (h : r.Sound) (action : RootAction) (make : NodeId → Edit) :
    (do return make (← r.replaceable handle action)) = .ok edit ↔
      ∃ n, r.node? handle = some n ∧ (∃ p, r.model.parent? n = some p) ∧ make n = edit := by
  rw [bind_eq_ok_iff]
  simp only [replaceable_eq_ok_iff h, and_assoc, pure, Except.pure, Except.ok.injEq]

/-- Wrapping and marking ask for the same. -/
theorem edit_replaceable_eq_ok_iff (h : r.Sound) {node : Handle} (action : RootAction) (make : NodeId → Edit)
    (hask : ∀ n, (make n).Admissible r.model ↔ r.model.Live n ∧ ∃ p, r.model.parent? n = some p) :
    (do return make (← r.replaceable node action)) = .ok edit ↔
      (r.node? node).map make = some edit ∧ edit.Admissible r.model := by
  refine checked_iff (fun n => ∃ p, r.model.parent? n = some p) (Edit.Admissible r.model)
    (fun e => edit_replaceable_iff h action make) fun n hn => ?_
  rw [hask]
  simp [h.live hn]

/-- Compressing is let through for the root and for nodes with a parent. -/
theorem edit_compress_iff : r.edit (.compress handle) = .ok edit ↔
    ∃ n, r.node? handle = some n ∧ (r.model.isRoot n = true ∨ ∃ p, r.model.parent? n = some p) ∧
      .compress n = edit := by
  rw [Replay.edit, bind_eq_ok_iff]
  simp only [node_eq_ok_iff]
  refine exists_congr fun n => and_congr_right fun hn => ?_
  cases r.model.isRoot n <;> cases r.model.parent? n <;>
    simp [bind, Except.bind, throw, throwThe, MonadExceptOf.throw, pure, Except.pure]

theorem overlyStrict_compress_iff (hn : r.node? handle = some n) : r.OverlyStrict (.compress handle) ↔
    r.model.isRoot n = false ∧ r.model.isLeaf n = false ∧ r.model.parent? n = none ∧
      (r.model.element? n).isSome = true := by
  constructor
  · intro hstrict
    obtain ⟨handle', x, he, hx, hrest⟩ := hstrict
    obtain rfl := Call.compress.inj he
    obtain rfl := Option.some.inj (hn.symm.trans hx)
    exact hrest
  · intro hrest
    exact ⟨handle, n, rfl, hn, hrest⟩

theorem admissible_compress_iff {b : Node} (hb : m.bare? n = some b) (hlive : b.replacedBy = none) :
    (Edit.compress n).Admissible m ↔ b.content.compressed? = none ∨ ∃ p, m.parent? n = some p := by
  constructor
  · intro hask
    obtain ⟨b', hb', -, hneed⟩ := hask
    obtain rfl := Option.some.inj (hb.symm.trans hb')
    exact hneed
  · intro hneed
    exact ⟨b, hb, hlive, hneed⟩

/-- Compressing is let through for the root and for nodes with a parent. Any other live node is a composite with a
slot: if the slot is empty the builder needs the parent, and if it is not the check is stricter than the
builder. -/
theorem edit_compress_eq_ok_iff (h : r.Sound) {node : Handle} :
    r.edit (.compress node) = .ok edit ↔
      r.target? (.compress node) = some edit ∧ edit.Admissible r.model ∧ ¬ r.OverlyStrict (.compress node) := by
  refine checked_iff (fun n => r.model.isRoot n = true ∨ ∃ p, r.model.parent? n = some p)
    (fun e => e.Admissible r.model ∧ ¬ r.OverlyStrict (.compress node)) (fun e => edit_compress_iff) fun n hn => ?_
  obtain ⟨b, hb, hlive⟩ := Model.live_iff_bare?.1 (h.live hn)
  rw [overlyStrict_compress_iff hn, admissible_compress_iff hb hlive]
  have hkind : r.model.isRoot n = true ↔ b.content.kind = .root := by
    rw [Model.isRoot_eq_bare?, hb, beq_iff_eq, Option.map_some, Option.some.injEq]
    rfl
  have hcompressed := Content.compressed?_isSome_iff b.content
  cases hp : r.model.parent? n with
  | some p => simp
  | none =>
    -- without a parent the node is the root, which is not compressed, or it has a slot
    rcases h.coherent.settled n b hb hlive hp with hroot | hslot
    · have hroot := h.coherent.isRoot_iff.2 hroot
      rw [hkind.1 hroot] at hcompressed
      simpa [hroot] using hcompressed
    · have hroot : r.model.isRoot n = false := by
        rw [Bool.eq_false_iff, Ne, hkind]
        intro hk
        rw [show b.content.kind = _ from hslot] at hk
        cases hk
      have hleaf : r.model.isLeaf n = false := by
        rw [Model.isLeaf_eq_bare?, hb, Option.any_some, hslot]
        rfl
      have helement : r.model.element? n = b.content.element? := by
        rw [Model.element?_eq_bare?, hb]
        rfl
      rw [show b.content.kind = _ from hslot] at hcompressed
      rw [hroot, hleaf, helement]
      cases he : b.content.element? with
      | none => simp [he, NodeKind.isBindable, Option.isSome_iff_ne_none] at hcompressed ⊢; exact hcompressed
      | some e => simp

/-- Replay lets a call through exactly if all its handles are known, the builder accepts the edit that it stands
for, and the check is not stricter than the builder. -/
theorem edit_eq_ok_iff (h : r.Sound) : r.edit call = .ok edit ↔
    r.target? call = some edit ∧ edit.Admissible r.model ∧ ¬ r.OverlyStrict call := by
  have hother : (∀ handle, call ≠ .compress handle) →
      (r.edit call = .ok edit ↔ r.target? call = some edit ∧ edit.Admissible r.model) →
      (r.edit call = .ok edit ↔
        r.target? call = some edit ∧ edit.Admissible r.model ∧ ¬ r.OverlyStrict call) := by
    intro hcall hiff
    rw [hiff]
    simp [not_overlyStrict hcall]
  cases call with
  | composite grammar lookahead parent => exact hother (fun _ => nofun) (edit_composite_eq_ok_iff h)
  | leaf offset length grammar hidden error parent => exact hother (fun _ => nofun) (edit_leaf_eq_ok_iff h)
  | addChild parent child => exact hother (fun _ => nofun) (edit_addChild_eq_ok_iff h)
  | associate node element => exact hother (fun _ => nofun) (edit_associate_eq_ok_iff h)
  | wrap grammar lookahead node =>
    exact hother (fun _ => nofun) (edit_replaceable_eq_ok_iff h .beWrapped _ fun _ => Iff.rfl)
  | error node message issueCode issueData =>
    exact hother (fun _ => nofun) (edit_replaceable_eq_ok_iff h .carryError _ fun _ => Iff.rfl)
  | compress node => exact edit_compress_eq_ok_iff h

/-! ## Calls -/

/-- What replay refuses: a call with an unknown handle, a call that the builder would be at fault for, and the one
call for which the check is stricter than the builder. -/
def Refuses (r : Replay) (call : Call) : Prop :=
  (∃ handle ∈ call.handles, r.handles.size ≤ handle.toNat) ∨
    (∃ edit fault, r.target? call = some edit ∧ edit.apply r.model = .error fault) ∨ r.OverlyStrict call

theorem Sound.allocated_of_target? (h : r.Sound) (htarget : r.target? call = some edit) :
    edit.Allocated r.model :=
  fun n hn => (h.live_of_target? htarget n hn).lt_size

/-- The checks refuse exactly what is to be refused. -/
theorem Sound.refuses_iff (h : r.Sound) : r.Refuses call ↔ ∃ reason, r.edit call = .error reason := by
  have hlet : (∃ reason, r.edit call = .error reason) ↔ ¬ ∃ edit, r.edit call = .ok edit := by
    cases r.edit call <;> simp
  rw [hlet, Refuses, ← target?_eq_none_iff]
  simp only [edit_eq_ok_iff h]
  cases htarget : r.target? call with
  | none => simp
  | some edit =>
    have hfault := Edit.apply_eq_error_iff h.coherent (h.allocated_of_target? htarget)
    simp only [Option.some.injEq, reduceCtorEq, false_or, exists_and_left, exists_eq_left', hfault]
    tauto

/-- A call that is let through leads to a sound replay, and the builder is not at fault. -/
theorem Sound.call_of_ok (h : r.Sound) (hedit : r.edit call = .ok edit) :
    ∃ r', r.call call = .ok (.ok (), r') ∧ r'.Sound := by
  obtain ⟨htarget, hask, -⟩ := (edit_eq_ok_iff h).1 hedit
  obtain ⟨m', answer, hok, hcoherent, houtcome⟩ := Edit.apply_eq_ok h.coherent hask
  obtain ⟨hle, hanswer⟩ := houtcome.size_le h.coherent
  have hold : ∀ {i n : Nat}, r.handles[i]? = some n → n < m'.size :=
    fun hn => Nat.lt_of_lt_of_le (h.allocated hn) hle
  cases answer with
  | none =>
    refine ⟨⟨m', r.handles⟩, ?_, hcoherent, hold⟩
    rw [Replay.call, hedit]
    simp only [hok, bind, Except.bind]
    rfl
  | some id =>
    cases hcreates : createsHandle call with
    | false =>
      refine ⟨⟨m', r.handles⟩, ?_, hcoherent, hold⟩
      rw [Replay.call, hedit]
      simp only [hok, bind, Except.bind, hcreates]
      rfl
    | true =>
      refine ⟨⟨m', r.handles.push id⟩, ?_, hcoherent, ?_⟩
      · rw [Replay.call, hedit]
        simp only [hok, bind, Except.bind, hcreates]
        rfl
      · intro i n hn
        rw [Array.getElem?_push] at hn
        split at hn
        · exact hanswer n hn
        · exact hold hn

/-- A call that is refused changes nothing. -/
theorem call_of_error {reason : Rejection} (hedit : r.edit call = .error reason) :
    r.call call = .ok (.error reason, r) := by
  rw [Replay.call, hedit]

/-- A replay starts with the root, and an accepted call leads from one replay to the next. -/
inductive Reached (text : String) : Replay → Prop where
  | started {m : Model} : Model.ofText text = .ok m → Reached text (start m)
  | accepted {r r' : Replay} (call : Call) : Reached text r → r.call call = .ok (.ok (), r') → Reached text r'

theorem sound_start {text : String} (hm : Model.ofText text = .ok m) : (start m).Sound := by
  have hcoherent := Model.coherent_of_ofText hm
  refine ⟨hcoherent, fun {i n} hn => ?_⟩
  obtain rfl : n = Model.rootId := by
    rcases i with _ | i
    · exact (Option.some.inj hn).symm
    · cases hn
  exact hcoherent.labelled.size_pos

theorem Reached.sound {text : String} (h : Reached text r) : r.Sound := by
  induction h with
  | started hm => exact sound_start hm
  | @accepted r r' call _ hcall ih =>
    cases hedit : r.edit call with
    | error reason =>
      rw [call_of_error hedit] at hcall
      cases hcall
    | ok edit =>
      obtain ⟨r₁, hok, hsound⟩ := ih.call_of_ok hedit
      rw [hok] at hcall
      obtain rfl := (Prod.mk.inj (Except.ok.inj hcall)).2
      exact hsound

/-- Whatever the calls, the builder is never at fault: all of them are accepted, and the replay stays sound, or one of
them is refused. -/
theorem Sound.run_outcome : ∀ (calls : List Call) (done : Nat) (r : Replay), r.Sound →
    (∃ r', r.run done calls = .ok r' ∧ r'.Sound) ∨
      ∃ number reason, r.run done calls = .error (.rejected number reason) := by
  intro calls
  induction calls with
  | nil =>
    intro done r h
    exact Or.inl ⟨r, rfl, h⟩
  | cons next calls ih =>
    intro done r h
    rw [run]
    cases hedit : r.edit next with
    | error reason =>
      rw [call_of_error hedit]
      exact Or.inr ⟨done, reason, rfl⟩
    | ok edit =>
      obtain ⟨r', hok, hsound⟩ := h.call_of_ok hedit
      rw [hok]
      exact ih (done + 1) r' hsound

/-- Replay over a text that is not too long gives a coherent model, or the script is for another text or has a call
that is refused. -/
theorem replay_outcome {text : String} (hshort : Text.byteLength text.toList < UInt32.size) (script : Script) :
    (∃ m, script.replay text = .ok m ∧ m.Coherent) ∨ script.replay text = .error .textMismatch ∨
      ∃ number reason, script.replay text = .error (.rejected number reason) := by
  have hm : Model.ofText text = .ok (Model.initial text) := Model.ofText_eq_ok_iff.2 ⟨hshort, rfl⟩
  unfold Script.replay
  split
  · exact Or.inr (Or.inl rfl)
  · rw [hm]
    rcases (sound_start hm).run_outcome script.calls 0 with ⟨r, hrun, hsound⟩ | ⟨number, reason, hrun⟩
    · exact Or.inl ⟨r.model, congrArg ((·.model) <$> ·) hrun, hsound.coherent⟩
    · exact Or.inr (Or.inr ⟨number, reason, congrArg ((·.model) <$> ·) hrun⟩)

theorem coherent_of_replay {text : String} (hshort : Text.byteLength text.toList < UInt32.size) {script : Script}
    (hreplay : script.replay text = .ok m) : m.Coherent := by
  rcases replay_outcome hshort script with ⟨m', hok, h⟩ | hmismatch | ⟨number, reason, hrejected⟩
  · rw [hreplay] at hok
    obtain rfl := Except.ok.inj hok
    exact h
  · rw [hreplay] at hmismatch
    cases hmismatch
  · rw [hreplay] at hrejected
    cases hrejected

theorem replay_ne_fault {text : String} (hshort : Text.byteLength text.toList < UInt32.size) (script : Script)
    (fault : Fault) : script.replay text ≠ .error (.fault fault) := by
  rcases replay_outcome hshort script with ⟨m, hreplay, -⟩ | hreplay | ⟨number, reason, hreplay⟩ <;> simp [hreplay]

/-- Replay of a text that is not too long is never at fault. Whatever calls were accepted before, the next one is
refused exactly if it has an unknown handle, the builder would be at fault for it, or it is the one call for which
the check is stricter; and a refused call leaves the replay as it was. -/
theorem replay_refuses_iff {text : String} (hshort : Text.byteLength text.toList < UInt32.size) :
    (∀ (script : Script) (fault : Fault), script.replay text ≠ .error (.fault fault)) ∧
      ∀ (r : Replay) (call : Call), Reached text r → ∃ verdict r', r.call call = .ok (verdict, r') ∧
        (r.Refuses call ↔ ∃ reason, verdict = .error reason) ∧ (r.Refuses call → r' = r) := by
  refine ⟨replay_ne_fault hshort, fun r call hreached => ?_⟩
  have h := hreached.sound
  rw [h.refuses_iff]
  cases hedit : r.edit call with
  | error reason => exact ⟨.error reason, r, call_of_error hedit, by simp, fun _ => rfl⟩
  | ok edit =>
    obtain ⟨r', hok, -⟩ := h.call_of_ok hedit
    exact ⟨.ok (), r', hok, by simp, by simp⟩

/-- A composite that stands alone is bound. Replay refuses to compress it, the builder would not. -/
theorem replay_refuses_iff_bound_composite : ∃ r r', Reached "a" r ∧
    (∃ answer, (Edit.compress 1).apply r.model = .ok answer) ∧ r.target? (.compress 1) = some (.compress 1) ∧
    r.call (.compress 1) = .ok (.error (.detached 1), r') ∧ r.Refuses (.compress 1) ∧ r' = r := by
  have hshort : Text.byteLength "a".toList < UInt32.size := by decide
  have h : Reached "a" (start (Model.initial "a")) := .started (Model.ofText_eq_ok_iff.2 ⟨hshort, rfl⟩)
  have h := h.accepted (.composite none 0 none) rfl
  have h := h.accepted (.associate 1 7) rfl
  obtain ⟨verdict, r', hcall, hiff, hsame⟩ := (replay_refuses_iff hshort).2 _ (.compress 1) h
  have hverdict : verdict = .error (.detached 1) := (Prod.mk.inj (Except.ok.inj hcall)).1.symm
  rw [hverdict] at hcall hiff
  have hrefuses := hiff.2 ⟨_, rfl⟩
  exact ⟨_, r', h, ⟨_, rfl⟩, rfl, hcall, hrefuses, hsame hrefuses⟩

end Replay

end SyntaxTree
