import SyntaxTree.Proofs.Lineage
import SyntaxTree.Proofs.Replaying

/-!
# What handles stand for

A script names nodes by handles. Replay gives out a handle for each node that a call creates for the script, and none
for the nodes that the builder allocates to replace others. So the handles are exactly the founders of lines
(`Reached.lined`), and what `Lineage` says of lines carries over: at any time handles and live nodes belong together
in pairs, and a node that stood for a handle once leads to the node that stands for it later.
-/

namespace SyntaxTree.Replay

variable {r r' : Replay} {call : Call} {edit : Edit} {text : String} {n : NodeId}

/-- The live node that the handle of a given number stands for. -/
def standing (r : Replay) (i : Fin r.handles.size) : NodeId :=
  r.model.resolve r.handles[i]

/-- Accepted calls lead from one replay to the other. -/
def Later (r r' : Replay) : Prop :=
  Relation.ReflTransGen (fun r r' => ∃ call, r.call call = .ok (.ok (), r')) r r'

/-! ## One call -/

/-- A handle is given out exactly if the edit creates a node for its caller. -/
theorem created_of_target? (htarget : r.target? call = some edit) :
    edit.created r.model = if createsHandle call then [r.model.size] else [] := by
  cases call with
  | composite grammar lookahead parent =>
    cases parent with
    | none =>
      obtain rfl := Option.some.inj htarget
      rfl
    | some parent =>
      obtain ⟨p, -, rfl⟩ := Option.map_eq_some_iff.1 htarget
      rfl
  | addChild parent child =>
    obtain ⟨p, -, htarget⟩ := Option.bind_eq_some_iff.1 htarget
    obtain ⟨c, -, htarget⟩ := Option.bind_eq_some_iff.1 htarget
    obtain rfl := Option.some.inj htarget
    rfl
  | _ =>
    obtain ⟨n, -, rfl⟩ := Option.map_eq_some_iff.1 htarget
    rfl

/-- An edit that creates a node answers with it. -/
theorem answer_of_created {m m' : Model} {answer : Option NodeId} (ho : edit.Outcome m m' answer) {c : NodeId}
    (hc : edit.created m = [c]) : answer = some c := by
  cases ho with
  | newComposite _ => exact congrArg some (List.singleton_inj.1 hc)
  | newLeaf _ _ => exact congrArg some (List.singleton_inj.1 hc)
  | wrap _ _ _ _ _ => exact congrArg some (List.singleton_inj.1 hc)
  | addChild _ _ => cases hc
  | associate _ => cases hc
  | setSyntaxError _ _ _ _ => cases hc
  | compress _ _ _ => cases hc

/-- An accepted call makes the edit that it stands for, and the handles grow by the node that the edit creates. -/
theorem Sound.outcome_of_call (h : r.Sound) (hcall : r.call call = .ok (.ok (), r')) :
    ∃ edit answer, r.target? call = some edit ∧ edit.Admissible r.model ∧ edit.Outcome r.model r'.model answer ∧
      r'.handles.toList = r.handles.toList ++ edit.created r.model := by
  rw [Replay.call] at hcall
  split at hcall
  · cases hcall
  · next edit hedit =>
    obtain ⟨htarget, hask, -⟩ := (edit_eq_ok_iff h).1 hedit
    obtain ⟨⟨m', answer⟩, hok, hcall⟩ := bind_eq_ok_iff.1 hcall
    obtain rfl := (Prod.mk.inj (Except.ok.inj hcall)).2
    obtain ⟨-, ho⟩ := Edit.apply_outcome h.coherent (h.allocated_of_target? htarget) hok
    refine ⟨edit, answer, htarget, hask, ho, ?_⟩
    have hcreated := created_of_target? htarget
    cases hcreates : createsHandle call with
    | false =>
      rw [hcreates] at hcreated
      rw [hcreated]
      cases answer <;> simp
    | true =>
      rw [hcreates] at hcreated
      rw [hcreated, answer_of_created ho hcreated]
      simp

/-! ## Whole replays -/

/-- The handles are the founders of lines. -/
theorem Reached.lined (h : Reached text r) : r.model.Lined r.handles.toList := by
  induction h with
  | started hm =>
    obtain ⟨-, rfl⟩ := Model.ofText_eq_ok_iff.1 hm
    exact Model.lined_initial text
  | accepted call hreached hcall ih =>
    obtain ⟨edit, answer, -, -, ho, hhandles⟩ := hreached.sound.outcome_of_call hcall
    rw [hhandles]
    exact ho.lined hreached.sound.coherent (hreached.accepted call hcall).sound.coherent ih

/-- What stands for a node later on stands for what stood for it before. By induction on the calls in between: each
state on the way is reached, so the lemma on one edit applies to it. -/
theorem Reached.resolve_resolve (h : Reached text r) (hlater : r.Later r') :
    Reached text r' ∧ r.model.size ≤ r'.model.size ∧
      ∀ n, n < r.model.size → r'.model.resolve (r.model.resolve n) = r'.model.resolve n := by
  induction hlater with
  | refl =>
    refine ⟨h, Nat.le_refl _, fun n hn => ?_⟩
    exact Model.resolve_of_live (h.sound.coherent.labelled.live_resolve hn)
  | @tail r₁ r₂ _ hcall ih =>
    obtain ⟨call, hcall⟩ := hcall
    obtain ⟨hreached, hle, hresolve⟩ := ih
    have hreached₂ := hreached.accepted call hcall
    have h₁ := hreached.sound.coherent
    have h₂ := hreached₂.sound.coherent
    obtain ⟨edit, answer, -, -, ho, -⟩ := hreached.sound.outcome_of_call hcall
    refine ⟨hreached₂, Nat.le_trans hle (ho.size_le h₁).1, fun n hn => ?_⟩
    have hlive := h.sound.coherent.labelled.live_resolve hn
    calc r₂.model.resolve (r.model.resolve n)
        = r₂.model.resolve (r₁.model.resolve (r.model.resolve n)) :=
          (ho.resolve_resolve h₁ h₂ (Nat.lt_of_lt_of_le hlive.lt_size hle)).symm
      _ = r₂.model.resolve (r₁.model.resolve n) := by rw [hresolve n hn]
      _ = r₂.model.resolve n := ho.resolve_resolve h₁ h₂ (Nat.lt_of_lt_of_le hn hle)

/-- Handles and live nodes belong together in pairs. -/
theorem Reached.bijOn_standing (h : Reached text r) :
    Set.BijOn r.standing Set.univ {n | r.model.Live n} := by
  have hbij := h.lined.bijOn h.sound.coherent.labelled
  have hmem : ∀ i : Fin r.handles.size, r.handles[i] ∈ r.handles.toList := fun i =>
    Array.mem_toList_iff.2 (Array.getElem_mem i.isLt)
  refine ⟨fun i _ => hbij.mapsTo (hmem i), fun i _ j _ he => ?_, fun n hn => ?_⟩
  · have hsame := hbij.injOn (hmem i) (hmem j) he
    exact Fin.ext ((List.Nodup.getElem_inj_iff h.lined.nodup).1 hsame)
  · obtain ⟨f, hf, hfn⟩ := hbij.surjOn hn
    obtain ⟨i, hi, rfl⟩ := Array.mem_iff_getElem.1 (Array.mem_toList_iff.1 hf)
    exact ⟨⟨i, hi⟩, Set.mem_univ _, hfn⟩

/-- What handles and other names of nodes lead to. -/
structure NamesLive (r : Replay) : Prop where
  /-- Each handle stands for a live node, and each live node for one handle. -/
  paired : Set.BijOn r.standing Set.univ {n | r.model.Live n}
  /-- Successors are younger. -/
  younger : ∀ {n s}, r.model.successor? n = some s → n < s
  /-- No node replaced two others. -/
  one_predecessor : ∀ {a b s}, r.model.successor? a = some s → r.model.successor? b = some s → a = b
  /-- What stands for a node is live, and the node leads to it. -/
  live : ∀ {n}, n < r.model.size → r.model.Live (r.model.resolve n) ∧ r.model.LeadsTo n (r.model.resolve n)
  /-- Two nodes are represented by the same node exactly if one of them leads to the other. -/
  same_iff : ∀ {a b}, a < r.model.size → b < r.model.size →
    (r.model.resolve a = r.model.resolve b ↔ r.model.LeadsTo a b ∨ r.model.LeadsTo b a)

/-- At every point of every replay handles name live nodes one to one, and in every later state a name leads where the
node that it led to before leads. -/
theorem reached_namesLive (h : Reached text r) : r.NamesLive ∧ ∀ r', r.Later r' → ∀ n, n < r.model.size →
    r'.model.resolve n = r'.model.resolve (r.model.resolve n) := by
  have hlabelled := h.sound.coherent.labelled
  refine ⟨⟨h.bijOn_standing, fun hs => (hlabelled.lt_successor? hs).1, h.lined.one_predecessor,
    fun hn => ⟨hlabelled.live_resolve hn, r.model.leadsTo_resolve _⟩, h.lined.resolve_eq_iff hlabelled⟩, ?_⟩
  intro r' hlater n hn
  exact ((h.resolve_resolve hlater).2.2 n hn).symm

/-- A composite with a leaf is wrapped, the leaf is marked and the wrapper compressed: seven nodes for four handles.
Later the leaf is marked once more. -/
theorem reached_namesLive_wrap : ∃ r r', Reached "a" r ∧ r.handles = #[0, 1, 2, 3] ∧ r.model.size = 7 ∧
    r.model.resolve 1 = 4 ∧ r.model.resolve 2 = 5 ∧ r.model.resolve 3 = 6 ∧ r.NamesLive ∧
    r.call (.error 2 "again" none []) = .ok (.ok (), r') ∧ r'.model.resolve 5 = 7 ∧
    r'.model.resolve 2 = r'.model.resolve 5 := by
  have h : Reached "a" (start (Model.initial "a")) := .started (Model.ofText_eq_ok_iff.2 ⟨by decide, rfl⟩)
  have h := h.accepted (.composite none 0 (some 0)) rfl
  have h := h.accepted (.leaf 0 1 none false none 1) rfl
  have h := h.accepted (.wrap none 0 1) rfl
  have h := h.accepted (.error 2 "late" none []) rfl
  have h := h.accepted (.compress 3) rfl
  obtain ⟨hnames, hlater⟩ := reached_namesLive h
  have hsame := hlater _ (.single ⟨.error 2 "again" none [], rfl⟩) 2 (by decide)
  exact ⟨_, _, h, rfl, rfl, rfl, rfl, rfl, hnames, rfl, rfl, hsame⟩

end SyntaxTree.Replay
