import SyntaxTree.Proofs.Handles
import SyntaxTree.Proofs.Remaking

/-!
# Replays seen from their handles

A script knows nodes by their handles only, and that is also the simplest way to see what it does. Nodes come and go
under a handle, but the handle stays. Seen from there an accepted call is one step that is easy to say (`Advances`): it
changes the content of the nodes that handles stand for as `Edit.remake` says, and it may add a handle at the end.

`Replayed` ties a replay to the whole list of calls that led to it. What is to be said about all calls of a script is
proved by induction on that list, from its end (`Replayed.induction`).
-/

namespace SyntaxTree

/-- The edit that a call stands for, with the numbers of handles in the place of nodes. -/
def Call.byHandle : Call → Edit
  | .composite grammar lookahead parent => .newComposite grammar lookahead.toNat (parent.map UInt32.toNat)
  | .leaf offset length grammar hidden message parent =>
    .newLeaf offset.toNat length.toNat grammar hidden (message.map SyntaxError.ofMessage) parent.toNat
  | .addChild parent child => .addChild parent.toNat child.toNat
  | .associate node element => .associate node.toNat element.toNat
  | .wrap grammar lookahead node => .wrap grammar lookahead.toNat node.toNat
  | .error node message issueCode issueData => .setSyntaxError node.toNat ⟨message, issueCode, issueData⟩
  | .compress node => .compress node.toNat

theorem Call.arguments_byHandle (call : Call) : call.byHandle.arguments = call.handles.map UInt32.toNat := by
  cases call with
  | composite _ _ parent => cases parent <;> rfl
  | _ => rfl

namespace Replay

variable {r r' : Replay} {call : Call} {calls : List Call} {text : String} {m : Model} {i j : Nat} {n : NodeId}
  {handle : Handle}

/-- The live node that the handle of a given number stands for. -/
def nodeAt (r : Replay) (i : Nat) : NodeId :=
  r.model.resolve (r.handles.getD i Model.rootId)

theorem nodeAt_eq_standing (hi : i < r.handles.size) : r.nodeAt i = r.standing ⟨i, hi⟩ := by
  simp [nodeAt, standing, Array.getD, hi]

theorem node?_of_lt (hlt : handle.toNat < r.handles.size) : r.node? handle = some (r.nodeAt handle.toNat) := by
  simp [node?, nodeAt, Array.getD, hlt]

/-! ## Handles and live nodes -/

theorem Reached.live_nodeAt (h : Reached text r) (hi : i < r.handles.size) : r.model.Live (r.nodeAt i) := by
  rw [nodeAt_eq_standing hi]
  exact h.bijOn_standing.mapsTo (Set.mem_univ _)

theorem Reached.nodeAt_inj (h : Reached text r) (hi : i < r.handles.size) (hj : j < r.handles.size)
    (he : r.nodeAt i = r.nodeAt j) : i = j := by
  rw [nodeAt_eq_standing hi, nodeAt_eq_standing hj] at he
  exact congrArg Fin.val (h.bijOn_standing.injOn (Set.mem_univ _) (Set.mem_univ _) he)

theorem Reached.exists_nodeAt (h : Reached text r) (hn : r.model.Live n) :
    ∃ i, i < r.handles.size ∧ r.nodeAt i = n := by
  obtain ⟨i, -, hi⟩ := h.bijOn_standing.surjOn hn
  exact ⟨i, i.isLt, (nodeAt_eq_standing i.isLt).trans hi⟩

/-- Live nodes have numbers. -/
theorem Reached.exists_number (h : Reached text r) : ∃ number : NodeId → Nat,
    (∀ {n}, r.model.Live n → number n < r.handles.size ∧ r.nodeAt (number n) = n) ∧
      ∀ {i}, i < r.handles.size → number (r.nodeAt i) = i := by
  choose! number hnumber using fun n hn => h.exists_nodeAt (n := n) hn
  refine ⟨number, fun hn => hnumber _ hn, fun {i} hi => ?_⟩
  obtain ⟨hlt, hsame⟩ := hnumber (r.nodeAt i) (h.live_nodeAt hi)
  exact h.nodeAt_inj hlt hi hsame

/-! ## One call -/

/-- A call whose handles are known stands for its edit, with nodes in the place of handles. -/
theorem target?_eq_some (hknown : ∀ handle ∈ call.handles, handle.toNat < r.handles.size) :
    r.target? call = some (call.byHandle.rename r.nodeAt) := by
  cases call with
  | composite grammar lookahead parent =>
    cases parent with
    | none => rfl
    | some parent =>
      rw [target?, node?_of_lt (hknown parent (List.mem_singleton_self parent))]
      rfl
  | leaf _ _ _ _ _ parent =>
    rw [target?, node?_of_lt (hknown parent (List.mem_singleton_self parent))]
    rfl
  | addChild parent child =>
    rw [target?, node?_of_lt (hknown parent (List.mem_cons_self ..)),
      node?_of_lt (hknown child (List.mem_cons_of_mem _ (List.mem_singleton_self child)))]
    rfl
  | associate node =>
    rw [target?, node?_of_lt (hknown node (List.mem_singleton_self node))]
    rfl
  | wrap _ _ node =>
    rw [target?, node?_of_lt (hknown node (List.mem_singleton_self node))]
    rfl
  | error node =>
    rw [target?, node?_of_lt (hknown node (List.mem_singleton_self node))]
    rfl
  | compress node =>
    rw [target?, node?_of_lt (hknown node (List.mem_singleton_self node))]
    rfl

/-- A call that gives out a handle says what its node is. -/
theorem exists_createdNode? (hcreates : createsHandle call = true) :
    ∃ node, call.byHandle.createdNode? = some node := by
  cases call with
  | composite => exact ⟨_, rfl⟩
  | leaf => exact ⟨_, rfl⟩
  | wrap => exact ⟨_, rfl⟩
  | addChild => cases hcreates
  | associate => cases hcreates
  | error => cases hcreates
  | compress => cases hcreates

/-- What an accepted call does, seen from the handles. -/
structure Advances (r : Replay) (call : Call) (r' : Replay) : Prop where
  known : ∀ handle ∈ call.handles, handle.toNat < r.handles.size
  admissible : (call.byHandle.rename r.nodeAt).Admissible r.model
  outcome : ∃ answer, (call.byHandle.rename r.nodeAt).Outcome r.model r'.model answer
  size : r'.handles.size = r.handles.size + (if createsHandle call then 1 else 0)
  /-- A handle stands for what stands for the node that it stood for. -/
  nodeAt : ∀ {i}, i < r.handles.size → r'.nodeAt i = r'.model.resolve (r.nodeAt i)
  /-- Links aside, what changes of its node is the content, as if handles were nodes. -/
  bare : ∀ {i}, i < r.handles.size → r'.model.bare? (r'.nodeAt i)
    = (r.model.bare? (r.nodeAt i)).map fun b => { b with content := call.byHandle.remake i b.content }
  /-- The new handle stands for the node that the call creates. -/
  created : createsHandle call = true → r'.nodeAt r.handles.size = r.model.size ∧
    ∃ node, call.byHandle.createdNode? = some node ∧ r'.model.bare? r.model.size = some node

theorem Reached.advances (h : Reached text r) (hcall : r.call call = .ok (.ok (), r')) : r.Advances call r' := by
  have hsound := h.sound
  have hcoherent' := (h.accepted call hcall).sound.coherent
  obtain ⟨edit, answer, htarget, hask, ho, hhandles⟩ := hsound.outcome_of_call hcall
  have hknown : ∀ handle ∈ call.handles, handle.toNat < r.handles.size := by
    intro handle hmem
    refine Nat.lt_of_not_le fun hle => ?_
    rw [target?_eq_none_iff.2 ⟨handle, hmem, hle⟩] at htarget
    cases htarget
  rw [target?_eq_some hknown, Option.some.injEq] at htarget
  rw [← htarget] at hask ho hhandles
  rw [created_of_target? (target?_eq_some hknown)] at hhandles
  have hgetD : ∀ i, r'.handles.getD i Model.rootId = r'.handles.toList.getD i Model.rootId := fun i => by simp
  -- an old handle keeps the node that it was given, and that node leads on
  have hold : ∀ {i}, i < r.handles.size → r'.nodeAt i = r'.model.resolve (r.nodeAt i) := by
    intro i hi
    have hsame : r'.handles.getD i Model.rootId = r.handles.getD i Model.rootId := by
      rw [hgetD, hhandles, List.getD_eq_getElem?_getD, List.getElem?_append_left (by simpa using hi)]
      simp
    have hlt : r.handles.getD i Model.rootId < r.model.size := by
      refine hsound.allocated (i := i) ?_
      simp [Array.getD, hi]
    rw [Replay.nodeAt, hsame, Replay.nodeAt, ho.resolve_resolve hsound.coherent hcoherent' hlt]
  refine ⟨hknown, hask, ⟨answer, ho⟩, ?_, hold, fun {i} hi => ?_, fun hcreates => ?_⟩
  · have hlength := congrArg List.length hhandles
    rw [List.length_append] at hlength
    cases hcreates : createsHandle call <;> simpa [hcreates] using hlength
  · rw [hold hi, ho.bare?_resolve hsound.coherent (h.live_nodeAt hi)]
    congr 1
    funext b
    rw [Edit.remake_rename]
    intro node hnode he
    rw [Call.arguments_byHandle] at hnode
    obtain ⟨handle, hmem, rfl⟩ := List.mem_map.1 hnode
    exact h.nodeAt_inj hi (hknown handle hmem) he
  · obtain ⟨node, hnode⟩ := exists_createdNode? hcreates
    obtain ⟨hbare, hresolve⟩ := ho.bare?_created hsound.coherent ((Edit.createdNode?_rename ..).trans hnode)
    refine ⟨?_, node, hnode, hbare⟩
    rw [Replay.nodeAt, hgetD, hhandles, hcreates, if_pos rfl]
    simpa using hresolve

/-- No call touches the text. -/
theorem Reached.text_eq (h : Reached text r) : r.model.text = text := by
  induction h with
  | started hm =>
    obtain ⟨-, rfl⟩ := Model.ofText_eq_ok_iff.1 hm
    rfl
  | accepted call h hcall ih =>
    obtain ⟨answer, ho⟩ := (h.advances hcall).outcome
    rw [ho.text, ih]

/-- A call names handles that were there before it. -/
theorem Advances.lt_of_mem_arguments (ha : r.Advances call r') (hi : i ∈ call.byHandle.arguments) :
    i < r.handles.size := by
  rw [Call.arguments_byHandle] at hi
  obtain ⟨handle, hmem, rfl⟩ := List.mem_map.1 hi
  exact ha.known handle hmem

/-- What the node of an old handle was and what it is now. -/
theorem Advances.exists_bare (ha : r.Advances call r') (h : Reached text r) (hi : i < r.handles.size) :
    ∃ b, r.model.bare? (r.nodeAt i) = some b ∧
      r'.model.bare? (r'.nodeAt i) = some { b with content := call.byHandle.remake i b.content } := by
  obtain ⟨b, hb, -⟩ := Model.live_iff_bare?.1 (h.live_nodeAt hi)
  refine ⟨b, hb, ?_⟩
  rw [ha.bare hi, hb, Option.map_some]

theorem Advances.lt_size (ha : r.Advances call r') (hi : i < r.handles.size) : i < r'.handles.size := by
  rw [ha.size]
  exact Nat.lt_of_lt_of_le hi (Nat.le_add_right ..)

/-- A handle is old or the one that the call created. -/
theorem Advances.cases (ha : r.Advances call r') (hi : i < r'.handles.size) :
    i < r.handles.size ∨ i = r.handles.size ∧ createsHandle call = true := by
  rw [ha.size] at hi
  cases hcreates : createsHandle call with
  | false =>
    rw [hcreates] at hi
    exact Or.inl hi
  | true =>
    rw [hcreates] at hi
    exact (Nat.lt_succ_iff_lt_or_eq.1 hi).imp_right fun he => ⟨he, rfl⟩

/-! ## Whole replays -/

/-- The calls are accepted one after the other over the text, and lead to the replay. -/
def Replayed (text : String) (calls : List Call) (r : Replay) : Prop :=
  ∃ m, Model.ofText text = .ok m ∧ (start m).run 0 calls = .ok r

/-- One more call. -/
theorem run_append_singleton (calls : List Call) (call : Call) (done : Nat) :
    r.run done (calls ++ [call]) = .ok r' ↔
      ∃ r₁, r.run done calls = .ok r₁ ∧ r₁.call call = .ok (.ok (), r') := by
  induction calls generalizing r done with
  | nil =>
    simp only [List.nil_append, run, Except.ok.injEq, exists_eq_left']
    rcases r.call call with fault | ⟨reason | _, r₁⟩ <;> simp
  | cons next calls ih =>
    simp only [List.cons_append, run]
    rcases r.call next with fault | ⟨reason | _, r₁⟩
    · simp
    · simp
    · exact ih (done + 1)

theorem replayed_nil_iff : Replayed text [] r ↔ ∃ m, Model.ofText text = .ok m ∧ r = start m := by
  simp only [Replayed, run, Except.ok.injEq, eq_comm]

theorem replayed_append_singleton_iff :
    Replayed text (calls ++ [call]) r' ↔ ∃ r, Replayed text calls r ∧ r.call call = .ok (.ok (), r') := by
  simp only [Replayed, run_append_singleton]
  constructor
  · intro h
    obtain ⟨m, hm, r, hrun, hcall⟩ := h
    exact ⟨r, ⟨m, hm, hrun⟩, hcall⟩
  · intro h
    obtain ⟨r, ⟨m, hm, hrun⟩, hcall⟩ := h
    exact ⟨m, hm, r, hrun, hcall⟩

theorem Replayed.started (hm : Model.ofText text = .ok m) : Replayed text [] (start m) :=
  replayed_nil_iff.2 ⟨m, hm, rfl⟩

theorem Replayed.accepted (h : Replayed text calls r) (call : Call) (hcall : r.call call = .ok (.ok (), r')) :
    Replayed text (calls ++ [call]) r' :=
  replayed_append_singleton_iff.2 ⟨r, h, hcall⟩

/-- What holds at the start and is kept by every accepted call holds of every replay. -/
@[elab_as_elim]
theorem Replayed.induction {motive : (calls : List Call) → (r : Replay) → Replayed text calls r → Prop}
    (started : ∀ m (hm : Model.ofText text = .ok m), motive [] (start m) (.started hm))
    (accepted : ∀ calls r call r' (h : Replayed text calls r) (hcall : r.call call = .ok (.ok (), r')),
      motive calls r h → motive (calls ++ [call]) r' (h.accepted call hcall))
    {calls : List Call} {r : Replay} (h : Replayed text calls r) : motive calls r h := by
  induction calls using List.reverseRecOn generalizing r with
  | nil =>
    obtain ⟨m, hm, rfl⟩ := replayed_nil_iff.1 h
    exact started m hm
  | append_singleton calls call ih =>
    obtain ⟨r₁, h₁, hcall⟩ := replayed_append_singleton_iff.1 h
    exact accepted calls r₁ call r h₁ hcall (ih h₁)

theorem Replayed.reached (h : Replayed text calls r) : Reached text r := by
  induction h using Replayed.induction with
  | started m hm => exact .started hm
  | accepted calls r call r' _ hcall ih => exact .accepted call ih hcall

/-- The calls determine the replay. -/
theorem Replayed.unique (h : Replayed text calls r) (h' : Replayed text calls r') : r = r' := by
  obtain ⟨m, hm, hrun⟩ := h
  obtain ⟨m', hm', hrun'⟩ := h'
  rw [hm] at hm'
  obtain rfl := Except.ok.inj hm'
  rw [hrun] at hrun'
  exact Except.ok.inj hrun'

/-- Besides the root, handles are the nodes that calls created. -/
theorem Replayed.size (h : Replayed text calls r) : r.handles.size = (calls.filter createsHandle).length + 1 := by
  induction h using Replayed.induction with
  | started m hm => rfl
  | accepted calls r call r' h hcall ih =>
    rw [(h.reached.advances hcall).size, ih, List.filter_append, List.length_append]
    cases hcreates : createsHandle call <;> simp [hcreates]

/-- No call names a handle that is not there yet. -/
theorem Replayed.known (h : Replayed text calls r) :
    ∀ call ∈ calls, ∀ i ∈ call.byHandle.arguments, i < r.handles.size := by
  induction h using Replayed.induction with
  | started m hm => nofun
  | accepted calls r call r' h hcall ih =>
    have ha := h.reached.advances hcall
    intro c hc i hi
    refine ha.lt_size ?_
    rcases List.mem_append.1 hc with hc | hc
    · exact ih c hc i hi
    · obtain rfl := List.mem_singleton.1 hc
      exact ha.lt_of_mem_arguments hi

/-- A script can be replayed if it is for the text and all its calls are accepted. -/
theorem replay_eq_ok_iff {script : Script} : script.replay text = .ok m ↔
    script.text.any (· != text) = false ∧ ∃ r, Replayed text script.calls r ∧ r.model = m := by
  unfold Script.replay Replayed
  cases script.text.any (· != text) with
  | true => simp
  | false =>
    cases Model.ofText text with
    | error fault => simp
    | ok m₀ =>
      simp only [Except.ok.injEq, exists_eq_left', true_and, Bool.false_eq_true, if_false]
      rcases (start m₀).run 0 script.calls with reason | r
      · simp [Functor.map, Except.map]
      · simp [Functor.map, Except.map]

end Replay

end SyntaxTree
