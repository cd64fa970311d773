import SyntaxTree.Proofs.Drawings

/-!
# Replacements commute

Marking, compressing and wrapping can be done in any order, except that two errors for one handle overwrite each other
and two wrappers of one handle end up one inside the other. The two orders allocate different nodes, and if both calls
wrap, also the handles of the wrappers change places. On drawings this is all that happens: two redrawings in either
order differ by the swap of two numbers (`Drawing.redrawn_comm`), and mostly by nothing. So the models mirror each
other, and readers cannot tell the two orders apart.
-/

namespace SyntaxTree

open Function (update update_self update_of_ne)
open Links (rename rename_self rename_of_ne)

/-- Marking and compressing can be swapped. -/
theorem Content.marked_compressed (error : SyntaxError) (content : Content) :
    content.compressed.marked error = (content.marked error).compressed := by
  rcases content with _ | _ | _ | ⟨_, _ | _, _⟩ <;> rfl

namespace Edit

variable {a b edit : Edit} {n : NodeId}

/-- Both edits mark the same node, or both wrap it. -/
def Rivals : Edit → Edit → Prop
  | setSyntaxError node _, setSyntaxError node' _ => node = node'
  | wrap _ _ node, wrap _ _ node' => node = node'
  | _, _ => False

theorem Rivals.symm (h : a.Rivals b) : b.Rivals a := by
  cases a <;> cases b <;> first | exact h.elim | exact Eq.symm h

/-- A replacement wraps, or it creates no node of its own. -/
theorem Replaces.wraps_or (h : edit.Replaces) :
    (∃ grammar lookahead node, edit = .wrap grammar lookahead node) ∨ edit.createdNode? = none := by
  cases edit with
  | wrap grammar lookahead node => exact Or.inl ⟨grammar, lookahead, node, rfl⟩
  | setSyntaxError => exact Or.inr rfl
  | compress => exact Or.inr rfl
  | _ => exact h.elim

theorem remake_of_not_mem (h : edit.Replaces) (hn : n ∉ edit.arguments) (content : Content) :
    edit.remake n content = content := by
  cases edit with
  | wrap _ _ node => exact if_neg fun he => hn (List.mem_singleton.2 he)
  | setSyntaxError node => exact if_neg fun he => hn (List.mem_singleton.2 he)
  | compress node => exact if_neg fun he => hn (List.mem_singleton.2 he)
  | _ => exact h.elim

theorem remake_comm (ha : a.Replaces) (hb : b.Replaces) (hrivals : ¬ a.Rivals b) (n : NodeId) (content : Content) :
    b.remake n (a.remake n content) = a.remake n (b.remake n content) := by
  -- of two errors for one node the later one stays, so the nodes must differ here and nowhere else
  have hmarks : ∀ node error node' error', node ≠ node' →
      (setSyntaxError node' error').remake n ((setSyntaxError node error).remake n content)
        = (setSyntaxError node error).remake n ((setSyntaxError node' error').remake n content) := by
    intro node error node' error' hne
    simp only [remake]
    split_ifs with h h'
    · exact absurd (h'.symm.trans h) hne
    all_goals rfl
  cases a <;> cases b
  all_goals first
    | exact ha.elim
    | exact hb.elim
    | exact hmarks _ _ _ _ hrivals
    | simp only [remake]; split_ifs <;> simp only [Content.marked_compressed]

end Edit

namespace Drawing

variable {d : Drawing} {a b : Edit} {i j : Nat} {grammar grammar' : Option String} {lookahead lookahead' : Nat}

/-- What nodes are does not depend on the order. -/
theorem map_remake_comm (a b : Edit) (ha : a.Replaces) (hb : b.Replaces) (hrivals : ¬ a.Rivals b) (node : Option Node)
    (k : Nat) : (node.map fun c => { c with content := a.remake k c.content }).map
        (fun c => { c with content := b.remake k c.content })
      = (node.map fun c => { c with content := b.remake k c.content }).map
        fun c => { c with content := a.remake k c.content } := by
  rw [Option.map_map, Option.map_map]
  congr 1
  funext c
  simp only [Function.comp_apply, Edit.remake_comm ha hb hrivals]

/-- An edit that creates nothing only changes what nodes are. -/
theorem redrawn_eq_remade (hb : b.createdNode? = none) : d.redrawn b = { d with node := d.remade b } := by
  cases b with
  | wrap => cases hb
  | _ => rfl

/-- A wrapper is drawn alike before and after an edit that only changes what nodes are, since it is none of the nodes
that the edit names. -/
theorem redrawn_wrap_comm (hb : b.Replaces) (hcreated : b.createdNode? = none) (hargs : ∀ n ∈ b.arguments, n < d.size)
    (hrivals : ¬ Edit.Rivals (.wrap grammar lookahead i) b) :
    (d.redrawn (.wrap grammar lookahead i)).redrawn b = (d.redrawn b).redrawn (.wrap grammar lookahead i) := by
  rw [redrawn_eq_remade hcreated, redrawn_eq_remade hcreated]
  unfold redrawn
  congr 1
  funext k
  by_cases hk : k = d.size
  · have hnot : d.size ∉ b.arguments := fun hmem => Nat.lt_irrefl _ (hargs _ hmem)
    subst hk
    simp only [remade, update_self, Option.map_some, Edit.remake_of_not_mem hb hnot]
  · simp only [remade, update_of_ne hk]
    exact map_remake_comm (.wrap grammar lookahead i) b trivial hb hrivals (d.node k) k

section WrapWrap

variable (hd : d.Closed) (hi : i < d.size) (hj : j < d.size) (hij : i ≠ j)

include hd hi hij in
/-- The lists after two wrappers. -/
theorem children_wrap_wrap (k : Nat) :
    ((d.redrawn (.wrap grammar lookahead i)).redrawn (.wrap grammar' lookahead' j)).children k
      = if k = d.size + 1 then [j] else if k = d.size then [i]
        else ((d.children k).map (rename i d.size)).map (rename j (d.size + 1)) := by
  have hclosed : (d.redrawn (.wrap grammar lookahead i)).Closed :=
    hd.redrawn fun n hn => by rwa [List.mem_singleton.1 hn]
  show Model.wrapped (d.redrawn (.wrap grammar lookahead i)).children j
    (d.redrawn (.wrap grammar lookahead i)).size k = _
  by_cases hlast : k = d.size + 1
  · rw [if_pos hlast, hlast]
    exact hclosed.wrapped_new j
  · rw [if_neg hlast, wrapped_of_ne hlast]
    show (Model.wrapped d.children i d.size k).map (rename j (d.size + 1)) = _
    by_cases hnew : k = d.size
    · rw [if_pos hnew, hnew, hd.wrapped_new, List.map_singleton, rename_of_ne hij]
    · rw [if_neg hnew, wrapped_of_ne hnew]

include hj in
/-- The nodes after two wrappers. -/
theorem node_wrap_wrap (k : Nat) :
    ((d.redrawn (.wrap grammar lookahead i)).redrawn (.wrap grammar' lookahead' j)).node k
      = if k = d.size + 1 then some (.unlinked (.freshComposite lookahead') grammar')
        else if k = d.size then some (.unlinked (.freshComposite lookahead) grammar)
        else ((d.node k).map fun c => { c with content := (Edit.wrap grammar lookahead i).remake k c.content }).map
          fun c => { c with content := (Edit.wrap grammar' lookahead' j).remake k c.content } := by
  show update (remade _ _) (d.size + 1) _ k = _
  by_cases hlast : k = d.size + 1
  · rw [if_pos hlast, hlast, update_self]
  · rw [if_neg hlast, update_of_ne hlast]
    show (update (d.remade _) d.size _ k).map _ = _
    by_cases hnew : k = d.size
    · rw [if_pos hnew, hnew, update_self, Option.map_some, Edit.remake, if_neg (Nat.ne_of_gt hj)]
    · rw [if_neg hnew, update_of_ne hnew]
      rfl

include hi hj hij in
/-- A handle that was there before is wrapped by numbers that change places. -/
theorem swap_rename_rename {c : Nat} (hc : c < d.size) :
    Equiv.swap d.size (d.size + 1) (rename j (d.size + 1) (rename i d.size c))
      = rename i (d.size + 1) (rename j d.size c) := by
  by_cases hci : c = i
  · rw [hci, rename_self, rename_of_ne (Nat.ne_of_gt hj), Equiv.swap_apply_left, rename_of_ne hij, rename_self]
  · rw [rename_of_ne hci]
    by_cases hcj : c = j
    · rw [hcj, rename_self, rename_self, Equiv.swap_apply_right, rename_of_ne (Nat.ne_of_gt hi)]
    · rw [rename_of_ne hcj, rename_of_ne hcj, rename_of_ne hci]
      exact Equiv.swap_apply_of_ne_of_ne (Nat.ne_of_lt hc) (by omega)

include hd hi hj hij in
/-- Two wrappers of different handles: in the two orders their numbers change places. -/
theorem renumbered_wrap_wrap :
    ((d.redrawn (.wrap grammar lookahead i)).redrawn (.wrap grammar' lookahead' j)).Renumbered
      ((d.redrawn (.wrap grammar' lookahead' j)).redrawn (.wrap grammar lookahead i))
      (Equiv.swap d.size (d.size + 1)) := by
  have hrivals : ¬ Edit.Rivals (.wrap grammar lookahead i) (.wrap grammar' lookahead' j) := hij
  have hcases : ∀ k, k = d.size ∨ k = d.size + 1 ∨
      k ≠ d.size ∧ k ≠ d.size + 1 ∧ Equiv.swap d.size (d.size + 1) k = k := by
    intro k
    by_cases hnew : k = d.size
    · exact Or.inl hnew
    by_cases hlast : k = d.size + 1
    · exact Or.inr (Or.inl hlast)
    · exact Or.inr (Or.inr ⟨hnew, hlast, Equiv.swap_apply_of_ne_of_ne hnew hlast⟩)
  refine ⟨rfl, fun {k} => ?_, fun {k} hk => ?_, fun {k} hk => ?_⟩
  · show Equiv.swap d.size (d.size + 1) k < d.size + 2 ↔ k < d.size + 2
    rcases hcases k with rfl | rfl | ⟨-, -, hsame⟩
    · rw [Equiv.swap_apply_left]
      omega
    · rw [Equiv.swap_apply_right]
      omega
    · rw [hsame]
  · rw [node_wrap_wrap hi, node_wrap_wrap hj]
    rcases hcases k with rfl | rfl | ⟨hnew, hlast, hsame⟩
    · rw [Equiv.swap_apply_left]
      simp
    · rw [Equiv.swap_apply_right]
      simp
    · rw [hsame, if_neg hlast, if_neg hnew, if_neg hlast, if_neg hnew]
      have ha : (Edit.wrap grammar lookahead i).Replaces := trivial
      have hb : (Edit.wrap grammar' lookahead' j).Replaces := trivial
      exact (map_remake_comm _ _ ha hb hrivals (d.node k) k).symm
  · rw [children_wrap_wrap hd hj hij.symm, children_wrap_wrap hd hi hij]
    have hfix : ∀ {c}, c < d.size → Equiv.swap d.size (d.size + 1) c = c := fun hc =>
      Equiv.swap_apply_of_ne_of_ne (Nat.ne_of_lt hc) (by omega)
    rcases hcases k with rfl | rfl | ⟨hnew, hlast, hsame⟩
    · rw [Equiv.swap_apply_left]
      simp [hfix hi]
    · rw [Equiv.swap_apply_right]
      simp [hfix hj]
    · rw [hsame, if_neg hlast, if_neg hnew, if_neg hlast, if_neg hnew, List.map_map, List.map_map, List.map_map]
      exact List.map_congr_left fun c hc => (swap_rename_rename hi hj hij (hd hc).2).symm

end WrapWrap

/-- In either order the same is drawn, but for the numbers of new handles. -/
theorem redrawn_comm (hd : d.Closed) (ha : a.Replaces) (hb : b.Replaces) (hrivals : ¬ a.Rivals b)
    (hargs : ∀ n ∈ a.arguments, n < d.size) (hargs' : ∀ n ∈ b.arguments, n < d.size) :
    ∃ σ, ((d.redrawn a).redrawn b).Renumbered ((d.redrawn b).redrawn a) σ := by
  rcases ha.wraps_or with ⟨grammar, lookahead, i, rfl⟩ | hnone <;>
    rcases hb.wraps_or with ⟨grammar', lookahead', j, rfl⟩ | hnone'
  · have hi : i < d.size := hargs i (List.mem_singleton_self i)
    have hj : j < d.size := hargs' j (List.mem_singleton_self j)
    exact ⟨_, renumbered_wrap_wrap hd hi hj hrivals⟩
  · rw [redrawn_wrap_comm hb hnone' hargs' hrivals]
    exact ⟨_, .refl _⟩
  · rw [redrawn_wrap_comm ha hnone hargs fun h => hrivals h.symm]
    exact ⟨_, .refl _⟩
  · have hsame : (d.redrawn a).redrawn b = (d.redrawn b).redrawn a := by
      simp only [redrawn_eq_remade hnone, redrawn_eq_remade hnone']
      congr 1
      funext k
      exact map_remake_comm a b ha hb hrivals (d.node k) k
    rw [hsame]
    exact ⟨_, .refl _⟩

/-! ## What is accepted -/

/-- What replay asks for before it replaces the node of a handle: the handle hangs below another, or, to be compressed,
it is the root's. -/
def Allows (d : Drawing) : Edit → Prop
  | .wrap _ _ i | .setSyntaxError i _ => ∃ q, i ∈ d.children q
  | .compress i => (d.node i).map Node.kind = some .root ∨ ∃ q, i ∈ d.children q
  | _ => False

/-- Whoever hangs below another still does after a replacement. -/
theorem Closed.hangs_redrawn (hd : d.Closed) (a : Edit) (h : ∃ q, i ∈ d.children q) :
    ∃ q, i ∈ (d.redrawn a).children q := by
  obtain ⟨q, hq⟩ := h
  cases a with
  | wrap grammar lookahead j =>
    show ∃ q, i ∈ Model.wrapped d.children j d.size q
    by_cases hij : i = j
    · refine ⟨d.size, ?_⟩
      rw [hd.wrapped_new, hij]
      exact List.mem_singleton_self j
    · refine ⟨q, ?_⟩
      rw [wrapped_of_ne (Nat.ne_of_lt (hd hq).1)]
      exact List.mem_map.2 ⟨i, hq, rename_of_ne hij⟩
  | _ => exact ⟨q, hq⟩

/-- The root stays the root. -/
theorem kind_redrawn (a : Edit) (hi : i < d.size) (h : (d.node i).map Node.kind = some .root) :
    ((d.redrawn a).node i).map Node.kind = some .root := by
  have hremade : (d.remade a i).map Node.kind = some .root := by
    obtain ⟨c, hc, hkind⟩ := Option.map_eq_some_iff.1 h
    unfold remade
    rw [hc, Option.map_some, Option.map_some]
    exact congrArg some ((Edit.kind_remake_eq_root_iff i a c.content).2 hkind)
  cases a with
  | wrap grammar lookahead j =>
    show (update (d.remade _) d.size _ i).map Node.kind = _
    rw [update_of_ne (Nat.ne_of_lt hi)]
    exact hremade
  | _ => exact hremade

/-- What is allowed stays allowed. -/
theorem Closed.allows_redrawn (hd : d.Closed) (a : Edit) (hargs : ∀ n ∈ b.arguments, n < d.size) (hb : d.Allows b) :
    (d.redrawn a).Allows b := by
  cases b with
  | wrap _ _ i => exact hd.hangs_redrawn a hb
  | setSyntaxError i => exact hd.hangs_redrawn a hb
  | compress i =>
    exact Or.imp (kind_redrawn a (hargs i (List.mem_singleton_self i))) (hd.hangs_redrawn a) hb
  | _ => exact hb.elim

theorem size_le_redrawn (d : Drawing) (a : Edit) : d.size ≤ (d.redrawn a).size := by
  cases a with
  | wrap => exact Nat.le_succ _
  | _ => exact Nat.le_refl _

end Drawing

namespace Replay

variable {r ra rb r' : Replay} {a b call : Call} {text : String} {d : Drawing} {handle : Handle}

theorem Sound.exists_call_iff (h : r.Sound) :
    (∃ r', r.call call = .ok (.ok (), r')) ↔ ∃ edit, r.edit call = .ok edit := by
  cases hedit : r.edit call with
  | error reason =>
    rw [call_of_error hedit]
    simp
  | ok edit =>
    obtain ⟨r', hcall, -⟩ := h.call_of_ok hedit
    exact iff_of_true ⟨r', hcall⟩ ⟨edit, rfl⟩

/-- A call with one handle is let through for some edit if the handle is known and the check of its node passes. -/
theorem exists_checked_iff {checked : Except Rejection Edit} {make : NodeId → Edit} {passes : NodeId → Prop}
    (hcheck : ∀ e, checked = .ok e ↔ ∃ n, r.node? handle = some n ∧ passes n ∧ make n = e) :
    (∃ e, checked = .ok e) ↔ handle.toNat < r.handles.size ∧ passes (r.nodeAt handle.toNat) := by
  simp only [hcheck]
  constructor
  · intro h
    obtain ⟨e, n, hn, hpass, -⟩ := h
    have hlt : handle.toNat < r.handles.size := Nat.lt_of_not_le fun hle => by
      rw [node?_eq_none_iff.2 hle] at hn
      cases hn
    rw [node?_of_lt hlt] at hn
    obtain rfl := Option.some.inj hn
    exact ⟨hlt, hpass⟩
  · intro h
    exact ⟨_, _, node?_of_lt h.1, h.2, rfl⟩

/-- Replay accepts a replacement exactly if the handle is known and the drawing allows it. -/
theorem Drawn.exists_call_iff (hd : r.Drawn d) (h : Reached text r) (hreplaces : call.byHandle.Replaces) :
    (∃ r', r.call call = .ok (.ok (), r')) ↔
      (∀ n ∈ call.byHandle.arguments, n < d.size) ∧ d.Allows call.byHandle := by
  rw [h.sound.exists_call_iff]
  cases call with
  | wrap grammar lookahead handle =>
    refine (exists_checked_iff fun e => edit_replaceable_iff h.sound .beWrapped _).trans ?_
    rw [← hd.size, Call.byHandle, Edit.arguments, List.forall_mem_singleton]
    exact and_congr_right fun hlt => hd.exists_parent?_iff h hlt
  | error handle message issueCode issueData =>
    refine (exists_checked_iff fun e => edit_replaceable_iff h.sound .carryError _).trans ?_
    rw [← hd.size, Call.byHandle, Edit.arguments, List.forall_mem_singleton]
    exact and_congr_right fun hlt => hd.exists_parent?_iff h hlt
  | compress handle =>
    refine (exists_checked_iff fun e => edit_compress_iff).trans ?_
    rw [← hd.size, Call.byHandle, Edit.arguments, List.forall_mem_singleton]
    refine and_congr_right fun hlt => or_congr ?_ (hd.exists_parent?_iff h hlt)
    rw [Model.isRoot_eq_bare?, hd.node hlt, beq_iff_eq]
  | _ => exact hreplaces.elim

/-- A replacement that is accepted is accepted after another one. -/
theorem Drawn.accepted_after (hd : r.Drawn d) (h : Reached text r) (ha : a.byHandle.Replaces) (hb : b.byHandle.Replaces)
    (hra : r.call a = .ok (.ok (), ra)) (hrb : r.call b = .ok (.ok (), rb)) :
    ∃ rab, ra.call b = .ok (.ok (), rab) ∧ Reached text rab ∧
      rab.Drawn ((d.redrawn a.byHandle).redrawn b.byHandle) := by
  have hreached := h.accepted a hra
  have hda := hd.redrawn h ha hra
  obtain ⟨hargs, hallows⟩ := (hd.exists_call_iff h hb).1 ⟨rb, hrb⟩
  have hargs' : ∀ n ∈ b.byHandle.arguments, n < (d.redrawn a.byHandle).size := fun n hn =>
    Nat.lt_of_lt_of_le (hargs n hn) (d.size_le_redrawn a.byHandle)
  obtain ⟨rab, hrab⟩ := (hda.exists_call_iff hreached hb).2 ⟨hargs', hd.closed.allows_redrawn a.byHandle hargs hallows⟩
  exact ⟨rab, hrab, hreached.accepted b hrab, hda.redrawn hreached hb hrab⟩

/-- Two replacements, each accepted at some point of a replay, are accepted there in either order, unless both mark or
both wrap the same handle. The trees then look the same, or cannot be shown for the same reason, and they have the same
errors in document order. -/
theorem reached_commute (h : Reached text r) (ha : a.byHandle.Replaces) (hb : b.byHandle.Replaces)
    (hrivals : ¬ a.byHandle.Rivals b.byHandle) (hra : r.call a = .ok (.ok (), ra))
    (hrb : r.call b = .ok (.ok (), rb)) :
    ∃ rab rba, ra.call b = .ok (.ok (), rab) ∧ rb.call a = .ok (.ok (), rba) ∧
      rab.model.dumpTree = rba.model.dumpTree ∧ rab.model.errorList = rba.model.errorList := by
  obtain ⟨d, hd⟩ := h.exists_drawing
  obtain ⟨rab, hrab, hreached, hdrawn⟩ := hd.accepted_after h ha hb hra hrb
  obtain ⟨rba, hrba, hreached', hdrawn'⟩ := hd.accepted_after h hb ha hrb hra
  obtain ⟨hargs, -⟩ := (hd.exists_call_iff h ha).1 ⟨ra, hra⟩
  obtain ⟨hargs', -⟩ := (hd.exists_call_iff h hb).1 ⟨rb, hrb⟩
  obtain ⟨σ, hσ⟩ := Drawing.redrawn_comm hd.closed ha hb hrivals hargs hargs'
  obtain ⟨rep, hmirror⟩ := hdrawn.mirrors hdrawn' hreached hreached' hσ
  have hwf := hreached.sound.coherent.toWellFormed
  have hwf' := hreached'.sound.coherent.toWellFormed
  exact ⟨rab, rba, hrab, hrba, (hmirror.dumpTree hwf hwf').symm, (hmirror.errorList hwf hwf').symm⟩

/-- A composite and the marked leaf below it are wrapped. The third handle is the wrapper of whichever was wrapped
first, and both orders show the same tree. -/
theorem reached_commute_nested : ∃ r ra rb rab rba : Replay, Reached "a" r ∧
    r.call (.wrap (some "Outer") 0 1) = .ok (.ok (), ra) ∧ r.call (.wrap (some "Inner") 1 2) = .ok (.ok (), rb) ∧
    ra.call (.wrap (some "Inner") 1 2) = .ok (.ok (), rab) ∧ rb.call (.wrap (some "Outer") 0 1) = .ok (.ok (), rba) ∧
    rab.model.grammar? (rab.nodeAt 3) = some "Outer" ∧ rba.model.grammar? (rba.nodeAt 3) = some "Inner" ∧
    rab.model.dumpTree = rba.model.dumpTree ∧
    rab.model.errorList = [⟨"bad", none, []⟩] ∧ rba.model.errorList = [⟨"bad", none, []⟩] := by
  have h : Reached "a" (start (Model.initial "a")) := .started (Model.ofText_eq_ok_iff.2 ⟨by decide, rfl⟩)
  have h := h.accepted (.composite none 0 (some 0)) rfl
  have h := h.accepted (.leaf 0 1 none false (some "bad") 1) rfl
  have hrivals : ¬ Edit.Rivals (.wrap (some "Outer") 0 1) (.wrap (some "Inner") 1 2) := by
    intro hsame
    cases hsame
  obtain ⟨rab, rba, hab, hba, hdump, herrors⟩ :=
    reached_commute (a := .wrap (some "Outer") 0 1) (b := .wrap (some "Inner") 1 2) h trivial trivial hrivals rfl rfl
  have herror : rab.model.errorList = [⟨"bad", none, []⟩] := by
    cases hab
    rfl
  refine ⟨_, _, _, rab, rba, h, rfl, rfl, hab, hba, ?_, ?_, hdump, herror, herrors.symm.trans herror⟩
  · cases hab
    rfl
  · cases hba
    rfl

end Replay

end SyntaxTree
