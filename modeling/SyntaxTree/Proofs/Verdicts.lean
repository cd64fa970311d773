import SyntaxTree.Proofs.Kinship
import SyntaxTree.Proofs.Loading
import SyntaxTree.Proofs.Reading
import SyntaxTree.Proofs.Retention

/-!
# The verdict of a check

The command line answers a check with an exit code. This file ties the code to the files themselves: the script is one,
it is for the text, all its calls are accepted, they leave the leaves in order, and no handle whose node hangs below the
root carries an error. What a handle carries is read off the calls (`errorOf?`), not off the tree: the error of the last
call that marks it, else the one that its leaf was created with.

The tree enters in between. The check looks at nodes, and a node is found by going down from the root, while handles are
numbers in a list. `perm_syntaxErrors` says that the two ways of counting agree, whatever was replaced on the way: below
the root the nodes with errors are the nodes of the handles with errors, each once.
-/

namespace SyntaxTree

/-- The error that a call gives to the node that it creates. -/
def Call.ownError? : Call → Option SyntaxError
  | .leaf _ _ _ _ message _ => message.map SyntaxError.ofMessage
  | _ => none

namespace Replay

variable {r : Replay} {calls : List Call} {text : String} {i : Nat}

/-- The call that created the handle of a given number. The root's was not created by any. -/
def creator? (calls : List Call) : Nat → Option Call
  | 0 => none
  | i + 1 => (calls.filter createsHandle)[i]?

/-- The error that the handle of a given number carries after the calls: that of the last call that marks it, else the
one that it was created with. -/
def errorOf? (calls : List Call) (i : Nat) : Option SyntaxError :=
  (calls.filterMap (·.byHandle.errorOn? i)).getLast?.or ((creator? calls i).bind Call.ownError?)

/-- The handles that carry an error and whose nodes hang below the root. -/
def markedHandles (r : Replay) (calls : List Call) : List Nat :=
  (List.range r.handles.size).filter fun i =>
    r.nodeAt i ∈ r.model.descendants Model.rootId ∧ (errorOf? calls i).isSome = true

/-! ## The errors of nodes -/

/-- A node starts with the error that its call gives it. -/
theorem syntaxError?_createdNode? {call : Call} {node : Node} (h : call.byHandle.createdNode? = some node) :
    node.content.syntaxError? = call.ownError? := by
  cases call with
  | composite => obtain rfl := Option.some.inj h; rfl
  | leaf => obtain rfl := Option.some.inj h; rfl
  | wrap => obtain rfl := Option.some.inj h; rfl
  | addChild => cases h
  | associate => cases h
  | error => cases h
  | compress => cases h

/-- Handle 0 always stands for the root. -/
theorem Replayed.nodeAt_zero (h : Replayed text calls r) : 0 < r.handles.size ∧ r.nodeAt 0 = Model.rootId := by
  have hlabelled := h.reached.sound.coherent.labelled
  induction h using Replayed.induction with
  | started m hm =>
    have hroot := (Model.coherent_of_ofText hm).live_root
    exact ⟨Nat.one_pos, Model.resolve_of_live hroot⟩
  | accepted calls r call r' h hcall ih =>
    obtain ⟨hpos, hnode⟩ := ih h.reached.sound.coherent.labelled
    have ha := h.reached.advances hcall
    refine ⟨ha.lt_size hpos, ?_⟩
    rw [ha.nodeAt hpos, hnode]
    exact Model.resolve_of_live (h.reached.accepted call hcall).sound.coherent.live_root

/-- No accepted call marks the root. -/
theorem Replayed.errorOn?_zero (h : Replayed text calls r) : ∀ call ∈ calls, call.byHandle.errorOn? 0 = none := by
  induction h using Replayed.induction with
  | started m hm => nofun
  | accepted calls r call r' h hcall ih =>
    intro c hc
    rcases List.mem_append.1 hc with hc | hc
    · exact ih c hc
    obtain rfl := List.mem_singleton.1 hc
    have hask := (h.reached.advances hcall).admissible
    cases c with
    | error node message issueCode issueData =>
      refine if_neg fun he => ?_
      -- the call asks for a parent, and the root has none
      obtain ⟨-, p, hp⟩ := hask
      rw [show node.toNat = 0 from he.symm, h.nodeAt_zero.2] at hp
      rw [h.reached.sound.coherent.structured.root_loose] at hp
      cases hp
    | _ => rfl

/-- The node of a handle carries the error that the calls say. -/
theorem Replayed.syntaxError?_nodeAt (h : Replayed text calls r) (hi : i < r.handles.size) :
    r.model.syntaxError? (r.nodeAt i) = errorOf? calls i := by
  cases i with
  | zero =>
    have hmarks : calls.filterMap (·.byHandle.errorOn? 0) = [] := List.filterMap_eq_nil_iff.2 h.errorOn?_zero
    obtain ⟨slot, hroot⟩ := h.reached.sound.coherent.labelled.root
    rw [h.nodeAt_zero.2, Model.syntaxError?_eq_bare?, hroot, errorOf?, hmarks]
    rfl
  | succ i =>
    obtain ⟨creator, created, hcreator, hcreated, hretains⟩ := h.retains (Nat.succ_pos i) hi
    have hfound : creator? calls (i + 1) = some creator := hcreator
    rw [hretains.syntaxError, errorOf?, hfound, Option.bind_some, syntaxError?_createdNode? hcreated]

/-- Below the root, the nodes with errors are those of the handles with errors, each once. -/
theorem Replayed.perm_syntaxErrors (h : Replayed text calls r) :
    ((r.markedHandles calls).map r.nodeAt).Perm r.model.syntaxErrors := by
  have hcoherent := h.reached.sound.coherent
  have hlt : ∀ {j}, j ∈ r.markedHandles calls → j < r.handles.size := fun hj =>
    List.mem_range.1 (List.mem_filter.1 hj).1
  have hnodup : ((r.markedHandles calls).map r.nodeAt).Nodup :=
    (List.nodup_range.filter _).map_on fun j hj k hk he => h.reached.nodeAt_inj (hlt hj) (hlt hk) he
  have hnodup' : r.model.syntaxErrors.Nodup := (hcoherent.nodup_descendants hcoherent.labelled.size_pos).filter _
  refine (List.perm_ext_iff_of_nodup hnodup hnodup').2 fun n => ?_
  rw [List.mem_map, Model.syntaxErrors, List.mem_filter]
  constructor
  · rintro ⟨j, hj, rfl⟩
    have hmarked := of_decide_eq_true (List.mem_filter.1 hj).2
    rw [h.syntaxError?_nodeAt (hlt hj)]
    exact hmarked
  · rintro ⟨hmem, herror⟩
    have hlive := hcoherent.toWellFormed.live_of_mem_descendants hcoherent.live_root hmem
    obtain ⟨j, hj, rfl⟩ := h.reached.exists_nodeAt hlive
    rw [h.syntaxError?_nodeAt hj] at herror
    exact ⟨j, List.mem_filter.2 ⟨List.mem_range.2 hj, decide_eq_true ⟨hmem, herror⟩⟩, rfl⟩

end Replay

namespace Model

variable {m : Model}

/-- Nodes with errors have their diagnostics. -/
theorem length_filterMap_diagnostic? {ids : List NodeId} {each : List (Option Diagnostic)}
    (hmarked : ∀ n ∈ ids, (m.syntaxError? n).isSome = true) (heach : ids.mapM m.diagnostic? = .ok each) :
    (each.filterMap id).length = ids.length := by
  induction ids generalizing each with
  | nil =>
    obtain rfl := Except.ok.inj heach
    rfl
  | cons n ids ih =>
    obtain ⟨hn, hids⟩ := List.forall_mem_cons.1 hmarked
    obtain ⟨error, herror⟩ := Option.isSome_iff_exists.1 hn
    rw [List.mapM_cons] at heach
    obtain ⟨first, hfirst, heach⟩ := bind_eq_ok_iff.1 heach
    obtain ⟨rest, hrest, heach⟩ := bind_eq_ok_iff.1 heach
    obtain rfl := Except.ok.inj heach
    unfold diagnostic? at hfirst
    rw [herror] at hfirst
    obtain ⟨range, -, hfirst⟩ := bind_eq_ok_iff.1 hfirst
    obtain rfl := Except.ok.inj hfirst
    simpa using ih hids hrest

/-- There is one diagnostic for each node with an error. -/
theorem length_diagnostics {found : List Diagnostic} (hfound : m.diagnostics = .ok found) :
    found.length = m.syntaxErrors.length := by
  obtain ⟨each, heach, hfound⟩ := bind_eq_ok_iff.1 hfound
  obtain rfl := Except.ok.inj hfound
  exact length_filterMap_diagnostic? (fun n hn => (List.mem_filter.1 hn).2) heach

end Model

namespace CommandLine

variable {m : Model} {script : Script} {r : Replay} {text json source path : String}

/-- The file holds a script, which is for the text, and all its calls are accepted. -/
structure Accepts (text json : String) (script : Script) (r : Replay) : Prop where
  parsed : Script.parse? json = some script
  same_text : ∀ recorded, script.text = some recorded → recorded = text
  replayed : Replay.Replayed text script.calls r

theorem accepts_iff : Accepts text json script r ↔
    Script.parse? json = some script ∧ script.replay text = .ok r.model ∧ Replay.Replayed text script.calls r := by
  have hsame : script.text.any (· != text) = false ↔ ∀ recorded, script.text = some recorded → recorded = text := by
    cases script.text <;> simp
  constructor
  · intro h
    exact ⟨h.parsed, Replay.replay_eq_ok_iff.2 ⟨hsame.2 h.same_text, r, h.replayed, rfl⟩, h.replayed⟩
  · rintro ⟨hparsed, hreplay, hreplayed⟩
    exact ⟨hparsed, hsame.1 (Replay.replay_eq_ok_iff.1 hreplay).1, hreplayed⟩

/-- The files leave no choice of script and replay. -/
theorem Accepts.unique {script' : Script} {r' : Replay} (h : Accepts text json script r)
    (h' : Accepts text json script' r') : script' = script ∧ r' = r := by
  obtain rfl := Option.some.inj (h'.parsed.symm.trans h.parsed)
  exact ⟨rfl, h'.replayed.unique h.replayed⟩

/-- What is accepted is loaded if the leaves are in order. -/
theorem Accepts.load_eq (h : Accepts text json script r) (hsequence : r.model.LeavesInSequence) :
    load source path (.ok text) (.ok json) = .ok (.ok (text, r.model)) := by
  obtain ⟨hparse, hreplay, hreplayed⟩ := accepts_iff.1 h
  rw [load_of_replay hparse hreplay, hreplayed.reached.sound.coherent.check_decides.passes hsequence]
  rfl

/-- Everything else is reported, unless the program gives up. -/
theorem load_eq_error {loaded : Except LoadError (String × Model)}
    (hload : load source path (.ok text) (.ok json) = .ok loaded)
    (hnot : ∀ script r, Accepts text json script r → ¬ r.model.LeavesInSequence) :
    ∃ failure, loaded = .error failure := by
  unfold load at hload
  cases hparse : Script.parse? json with
  | none =>
    simp only [hparse, Except.ok.injEq] at hload
    exact ⟨_, hload.symm⟩
  | some script =>
    simp only [hparse] at hload
    cases hreplay : script.replay text with
    | ok m =>
      obtain ⟨-, r, hr, rfl⟩ := Replay.replay_eq_ok_iff.1 hreplay
      have hsequence := hnot script r (accepts_iff.2 ⟨hparse, hreplay, hr⟩)
      rw [← hr.reached.sound.coherent.check_decides.eq_ok_iff] at hsequence
      simp only [hreplay] at hload
      cases hcheck : r.model.check with
      | ok _ => exact absurd hcheck hsequence
      | error failure =>
        cases failure with
        | violation violation =>
          simp only [hcheck, Except.ok.injEq] at hload
          exact ⟨_, hload.symm⟩
        | fault fault =>
          simp only [hcheck] at hload
          cases hload
    | error reason =>
      cases reason with
      | textMismatch =>
        simp only [hreplay, Except.ok.injEq] at hload
        exact ⟨_, hload.symm⟩
      | rejected call reason =>
        simp only [hreplay, Except.ok.injEq] at hload
        exact ⟨_, hload.symm⟩
      | fault fault =>
        simp only [hreplay] at hload
        cases hload

/-- How a check ends that has found errors: with their number, after whatever is shown of them. -/
def reported (source : String) (count : Nat) (shown : String) : Outcome :=
  ⟨1, "", shown ++ "Error: `" ++ source ++ "` has " ++ toString count ++ " syntax error(s)\n"⟩

theorem errorReport_count (source shown : String) (count : Nat) :
    (⟨1, "", shown ++ errorReport ("`" ++ source ++ "` has " ++ toString count ++ " syntax error(s)") []⟩ : Outcome)
      = reported source count shown := by
  have hopening : "Error: `" = "Error: " ++ "`" := rfl
  have hclosing : " syntax error(s)\n" = " syntax error(s)" ++ "\n" := rfl
  rw [reported, errorReport, hopening, hclosing]
  simp only [String.append_assoc, String.append_empty]

/-- The diagnostics are drawn before their number is reported. -/
theorem checked_eq_reported {found : List Diagnostic} (hfound : m.diagnostics = .ok found) (hne : found ≠ []) :
    checked source text m = reported source found.length <$> renderAll source text found := by
  cases found with
  | nil => exact absurd rfl hne
  | cons diagnostic diagnostics =>
    unfold checked
    simp only [hfound]
    cases renderAll source text (diagnostic :: diagnostics) with
    | error crash => rfl
    | ok shown => exact congrArg Except.ok (errorReport_count source shown _)

/-- What is accepted can be diagnosed: there is one diagnostic for each handle below the root that carries an error. -/
theorem Accepts.exists_diagnostics (h : Accepts text json script r) (hsequence : r.model.LeavesInSequence) :
    ∃ found, r.model.diagnostics = .ok found ∧ found.length = (r.markedHandles script.calls).length := by
  have hcoherent := h.replayed.reached.sound.coherent
  have hplaced := hcoherent.placed_of_check (hcoherent.check_decides.passes hsequence)
  obtain ⟨found, hfound, -⟩ := hcoherent.toWellFormed.exists_diagnostics hplaced
  refine ⟨found, hfound, ?_⟩
  rw [Model.length_diagnostics hfound, ← h.replayed.perm_syntaxErrors.length_eq, List.length_map]

section Run

variable {read : String → Except ReadError String} {arguments : List String}
  {loaded : Except LoadError (String × Model)}

/-- A check of what is accepted looks for errors in the model. -/
theorem Accepts.run_check (h : Accepts text json script r) (hsequence : r.model.LeavesInSequence)
    (hargs : Invocation.of arguments = .run (.check source path)) (hsource : read source = .ok text)
    (hscript : read path = .ok json) : run read arguments = checked source text r.model := by
  rw [run, hargs]
  simp only [Command.execute, Command.source, Command.script, hsource, hscript, h.load_eq hsequence]
  rfl

/-- If there are any, they are drawn and counted. -/
theorem Accepts.run_check_eq_reported (h : Accepts text json script r) (hsequence : r.model.LeavesInSequence)
    (hsome : r.markedHandles script.calls ≠ []) (hargs : Invocation.of arguments = .run (.check source path))
    (hsource : read source = .ok text) (hscript : read path = .ok json) :
    ∃ found, r.model.diagnostics = .ok found ∧ found.length = (r.markedHandles script.calls).length ∧
      run read arguments = reported source found.length <$> renderAll source text found := by
  obtain ⟨found, hfound, hlength⟩ := h.exists_diagnostics hsequence
  have hne : found ≠ [] := by
    rintro rfl
    exact hsome (List.length_eq_zero_iff.1 hlength.symm)
  exact ⟨found, hfound, hlength, (h.run_check hsequence hargs hsource hscript).trans (checked_eq_reported hfound hne)⟩

/-- A check of what is not accepted says why. -/
theorem run_check_of_not_accepted (hnot : ∀ script r, Accepts text json script r → ¬ r.model.LeavesInSequence)
    (hargs : Invocation.of arguments = .run (.check source path)) (hsource : read source = .ok text)
    (hscript : read path = .ok json) (hload : load source path (.ok text) (.ok json) = .ok loaded) :
    ∃ outcome, run read arguments = .ok outcome ∧ outcome.exitCode = 1 := by
  obtain ⟨failure, rfl⟩ := load_eq_error hload hnot
  rw [run, hargs]
  simp only [Command.execute, Command.source, Command.script, hsource, hscript, hload]
  exact ⟨_, rfl, rfl⟩

theorem exitCode_of_reported {count : Nat} {drawn : Except Crash String} {outcome : Outcome}
    (h : reported source count <$> drawn = .ok outcome) : outcome.exitCode = 1 := by
  cases drawn with
  | error crash => cases h
  | ok shown =>
    obtain rfl := Except.ok.inj h
    rfl

/-- A check of files that can be read, if the program does not give up while it loads them, ends with exit code 0 exactly
if the file holds a script for the text, all its calls are accepted, the leaves below the root follow each other, and no
handle below the root carries an error. If only such handles are in the way, there is a diagnostic for each of them, and
once these are drawn the exit code is 1 and their number is reported. In all other cases the exit code is 1 too. -/
theorem run_check_verdict (hargs : Invocation.of arguments = .run (.check source path))
    (hsource : read source = .ok text) (hscript : read path = .ok json)
    (hload : load source path (.ok text) (.ok json) = .ok loaded) :
    ((∃ outcome, run read arguments = .ok outcome ∧ outcome.exitCode = 0) ↔ ∃ script r, Accepts text json script r ∧
        r.model.LeavesInSequence ∧ r.markedHandles script.calls = []) ∧
      (∀ script r, Accepts text json script r → r.model.LeavesInSequence → r.markedHandles script.calls ≠ [] →
        ∃ found, r.model.diagnostics = .ok found ∧ found.length = (r.markedHandles script.calls).length ∧
          run read arguments = reported source found.length <$> renderAll source text found) ∧
      ((∀ script r, Accepts text json script r → ¬ r.model.LeavesInSequence) →
        ∃ outcome, run read arguments = .ok outcome ∧ outcome.exitCode = 1) := by
  refine ⟨⟨?_, ?_⟩, fun script r h hsequence hsome => h.run_check_eq_reported hsequence hsome hargs hsource hscript,
    fun hnot => run_check_of_not_accepted hnot hargs hsource hscript hload⟩
  · rintro ⟨outcome, hrun, hzero⟩
    by_contra hnone
    -- whatever else is wrong, there is an exit code, and it is 1
    have hone : outcome.exitCode = 1 := by
      by_cases haccepts : ∃ script r, Accepts text json script r ∧ r.model.LeavesInSequence
      · obtain ⟨script, r, h, hsequence⟩ := haccepts
        obtain ⟨found, -, -, hreported⟩ := h.run_check_eq_reported hsequence
          (fun he => hnone ⟨script, r, h, hsequence, he⟩) hargs hsource hscript
        exact exitCode_of_reported (hreported.symm.trans hrun)
      · obtain ⟨other, hother, hone⟩ := run_check_of_not_accepted
          (fun script r h hsequence => haccepts ⟨script, r, h, hsequence⟩) hargs hsource hscript hload
        obtain rfl := Except.ok.inj (hrun.symm.trans hother)
        exact hone
    rw [hone] at hzero
    cases hzero
  · rintro ⟨script, r, h, hsequence, hnone⟩
    obtain ⟨found, hfound, hlength⟩ := h.exists_diagnostics hsequence
    rw [hnone, List.length_nil, List.length_eq_zero_iff] at hlength
    rw [h.run_check hsequence hargs hsource hscript, checked, hfound, hlength]
    exact ⟨_, rfl, rfl⟩

end Run

/-- A leaf with an error of its own is wrapped, its wrapper marked and the leaf marked again, and a leaf with an error
hangs below a composite that is not below the root. Two errors are reported, the one of the detached leaf is not. -/
theorem run_check_verdict_detached : ∃ (json : String) (read : String → Except ReadError String) (script : Script)
      (r : Replay) (outcome : Outcome), read "a.txt" = .ok "ab" ∧ read "a.json" = .ok json ∧
    Accepts "ab" json script r ∧ r.handles.size = 5 ∧ r.markedHandles script.calls = [1, 2] ∧
    run read ["check", "-v", "a.txt", "a.json"] = .ok outcome ∧ outcome.exitCode = 1 ∧
    ∃ shown, outcome.errors = shown ++ "Error: `" ++ "a.txt" ++ "` has " ++ toString 2 ++ " syntax error(s)\n" := by
  obtain ⟨json, hjson⟩ : ∃ json, json = "[null,[[\"leaf\",0,1,null,false,\"bad\",0],[\"wrap\",null,0,1]," ++
    "[\"error\",2,\"worse\",null,[]],[\"error\",1,\"late\",null,[]],[\"composite\",null,0,null]," ++
    "[\"leaf\",1,1,null,false,\"lost\",3]]]" := ⟨_, rfl⟩
  obtain ⟨read, hread⟩ : ∃ read : String → Except ReadError String,
    read = fun path => .ok (if path = "a.txt" then "ab" else json) := ⟨_, rfl⟩
  obtain ⟨calls, hcalls⟩ : ∃ calls : List Call, calls = [.leaf 0 1 none false (some "bad") 0, .wrap none 0 1,
    .error 2 "worse" none [], .error 1 "late" none [], .composite none 0 none,
    .leaf 1 1 none false (some "lost") 3] := ⟨_, rfl⟩
  have hsource : read "a.txt" = .ok "ab" := by rw [hread]; rfl
  have hscript : read "a.json" = .ok json := by rw [hread]; rfl
  have hparse : Script.parse? json = some ⟨none, calls⟩ := by
    subst hjson hcalls
    decide +kernel
  obtain ⟨r, hreplayed, hcheck, hsize, hmarked⟩ : ∃ r, Replay.Replayed "ab" calls r ∧ r.model.check = .ok () ∧
      r.handles.size = 5 ∧ r.markedHandles calls = [1, 2] := by
    subst hcalls
    exact ⟨_, ⟨_, rfl, rfl⟩, rfl, rfl, rfl⟩
  have haccepts : Accepts "ab" json ⟨none, calls⟩ r := ⟨hparse, nofun, hreplayed⟩
  have hsequence := hreplayed.reached.sound.coherent.check_decides.eq_ok_iff.1 hcheck
  obtain ⟨outcome, hrun⟩ : ∃ outcome, run read ["check", "-v", "a.txt", "a.json"] = .ok outcome := by
    have hran : (run read ["check", "-v", "a.txt", "a.json"]).toBool = true := by
      subst hread hjson
      decide +kernel
    cases hrun : run read ["check", "-v", "a.txt", "a.json"] with
    | ok outcome => exact ⟨outcome, rfl⟩
    | error fault =>
      rw [hrun] at hran
      cases hran
  have hargs : Invocation.of ["check", "-v", "a.txt", "a.json"] = .run (.check "a.txt" "a.json") := rfl
  obtain ⟨found, -, hlength, hreported⟩ := (run_check_verdict hargs hsource hscript (haccepts.load_eq hsequence)).2.1
    ⟨none, calls⟩ r haccepts hsequence (by rw [hmarked]; exact List.cons_ne_nil _ _)
  rw [hmarked] at hlength
  rw [hreported, hlength] at hrun
  cases hshown : renderAll "a.txt" "ab" found with
  | error crash =>
    rw [hshown] at hrun
    cases hrun
  | ok shown =>
    rw [hlength, hshown] at hreported
    exact ⟨json, read, ⟨none, calls⟩, r, _, hsource, hscript, haccepts, hsize, hmarked, hreported, rfl, shown, rfl⟩

end CommandLine

end SyntaxTree
