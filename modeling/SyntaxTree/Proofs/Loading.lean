import SyntaxTree.Proofs.Checking
import SyntaxTree.Proofs.Replaying
import SyntaxTree.CommandLine.Execute

/-!
# Loading a replayed model

A pair of files is loaded by replaying the script over the text and checking the model. A script whose leaves are out of
order is to be reported as inconsistent. The check does so for most of them, but it asks for the range of a node before
it looks below the node, and the range of a node whose leaves are out of order may end before it starts. Then the check
is at fault, and the program gives up.

`ReversedFirst` is the exact condition: the first node that is out of place, in the order of the inspection, is one that
ends before it starts. Nothing else makes a replayed model crash, and all other scripts with leaves out of order are
reported (`Coherent.check_outcome`).
-/

namespace SyntaxTree

namespace Model

variable {m : Model}

/-- The first node that the check finds out of place ends before it starts. -/
def ReversedFirst (m : Model) : Prop :=
  ∃ before c after, m.inspection rootId = before ++ c :: after ∧ (∀ x ∈ before, m.InOrder x) ∧
    m.totalEnd c < m.totalStart c

/-- A reversed node that comes first is what a search for misplaced nodes finds. -/
theorem reversedFirst_iff :
    m.ReversedFirst ↔ (m.inspection rootId).findSome? m.misplacement? = some (.fault .reversedRange) := by
  rw [List.findSome?_eq_some_iff]
  constructor
  · rintro ⟨before, c, after, hsplit, hbefore, hrev⟩
    exact ⟨before, c, after, hsplit, misplacement?_of_reversed hrev,
      fun x hx => misplacement?_eq_none_iff.2 (hbefore x hx)⟩
  · rintro ⟨before, c, after, hsplit, hc, hbefore⟩
    refine ⟨before, c, after, hsplit, fun x hx => misplacement?_eq_none_iff.1 (hbefore x hx), ?_⟩
    -- otherwise the node would be out of place with respect to the sibling before it
    by_contra hrev
    obtain ⟨d, -, hviolation, -⟩ := misplacement?_eq_some hrev hc
    cases hviolation

/-- The three ways in which the check of a coherent model can end. -/
theorem Coherent.check_outcome (h : m.Coherent) :
    (m.check = .ok () ∧ m.LeavesInSequence ∧ ¬ m.ReversedFirst) ∨
      (m.check = .error (.fault .reversedRange) ∧ ¬ m.LeavesInSequence ∧ m.ReversedFirst) ∨
      ∃ violation, m.check = .error (.violation violation) ∧ ¬ m.LeavesInSequence ∧ ¬ m.ReversedFirst := by
  rw [h.check_eq, ← h.findSome?_inspection_eq_none_iff, reversedFirst_iff]
  cases hfound : (m.inspection rootId).findSome? m.misplacement? with
  | none => exact Or.inl ⟨rfl, rfl, nofun⟩
  | some failure =>
    obtain ⟨c, -, hc⟩ := List.exists_of_findSome?_eq_some hfound
    have hmisplaced := misplaced_of_misplacement? hc
    cases failure with
    | fault fault =>
      obtain rfl : fault = .reversedRange := hmisplaced.1
      exact Or.inr (Or.inl ⟨rfl, nofun, rfl⟩)
    | violation violation => exact Or.inr (Or.inr ⟨violation, rfl, nofun, nofun⟩)

end Model

namespace CommandLine

variable {m : Model} {script : Script} {text json : String}

/-- How loading ends, by what the check of the model says. -/
def concluded (text : String) (m : Model) : Except CheckFailure Unit → Except Crash (Except LoadError (String × Model))
  | .ok () => .ok (.ok (text, m))
  | .error (.violation violation) => .ok (.error (.inconsistent violation))
  | .error (.fault fault) => .error (.fault fault)

/-- Once the script is replayed, only the check is left. -/
theorem load_of_replay (hparse : Script.parse? json = some script) (hreplay : script.replay text = .ok m)
    (source path : String) : load source path (.ok text) (.ok json) = concluded text m m.check := by
  unfold load
  simp only [hparse, hreplay]
  cases m.check with
  | ok _ => rfl
  | error failure => cases failure <;> rfl

/-- The model of a script that replay accepts over a text that is not too long is checked without a fault, unless the
first node that the check finds out of place ends before it starts; and exactly then the program gives up. Otherwise the
model is loaded if its leaves follow each other, and reported as inconsistent if they do not. -/
theorem load_crashes_iff (hshort : Text.byteLength text.toList < UInt32.size) (hreplay : script.replay text = .ok m) :
    ((∃ fault, m.check = .error (.fault fault)) ↔ m.ReversedFirst) ∧
      ∀ (source path json : String), Script.parse? json = some script →
        ((∃ crash, load source path (.ok text) (.ok json) = .error crash) ↔ m.ReversedFirst) ∧
        (m.LeavesInSequence → load source path (.ok text) (.ok json) = .ok (.ok (text, m))) ∧
        (¬ m.LeavesInSequence → ¬ m.ReversedFirst → ∃ failure,
          load source path (.ok text) (.ok json) = .ok (.error failure) ∧
            failure.message = "replayed node model is inconsistent") := by
  have h : m.Coherent := Replay.coherent_of_replay hshort hreplay
  rcases h.check_outcome with ⟨hcheck, hsequence, hfirst⟩ | ⟨hcheck, hsequence, hfirst⟩ |
    ⟨violation, hcheck, hsequence, hfirst⟩
  · refine ⟨by simp [hcheck, hfirst], fun source path json hparse => ?_⟩
    rw [load_of_replay hparse hreplay, hcheck]
    simp [concluded, hsequence, hfirst]
  · refine ⟨by simp [hcheck, hfirst], fun source path json hparse => ?_⟩
    rw [load_of_replay hparse hreplay, hcheck]
    simp [concluded, hsequence, hfirst]
  · have hmessage : (LoadError.inconsistent violation).message = "replayed node model is inconsistent" := rfl
    refine ⟨by simp [hcheck, hfirst], fun source path json hparse => ?_⟩
    rw [load_of_replay hparse hreplay, hcheck]
    simp [concluded, hsequence, hfirst, hmessage]

/-- Two leaves in the wrong order below the root: the check compares them, and the script is reported. -/
theorem load_crashes_iff_siblings : ∃ script m, Script.parse?
      "[null,[[\"leaf\",2,1,null,false,null,0],[\"leaf\",0,1,null,false,null,0]]]" = some script ∧
    script.replay "abc" = .ok m ∧ ¬ m.LeavesInSequence ∧ ¬ m.ReversedFirst ∧ ∃ failure,
      load "a.txt" "a.json" (.ok "abc")
          (.ok "[null,[[\"leaf\",2,1,null,false,null,0],[\"leaf\",0,1,null,false,null,0]]]") = .ok (.error failure) ∧
        failure.message = "replayed node model is inconsistent" := by
  have hshort : Text.byteLength "abc".toList < UInt32.size := by decide
  have hreplay : Script.replay ⟨none, [.leaf 2 1 none false none 0, .leaf 0 1 none false none 0]⟩ "abc" = .ok _ := rfl
  have hparse : Script.parse? "[null,[[\"leaf\",2,1,null,false,null,0],[\"leaf\",0,1,null,false,null,0]]]" =
      some ⟨none, [.leaf 2 1 none false none 0, .leaf 0 1 none false none 0]⟩ := by decide +kernel
  obtain ⟨hcheck, hload⟩ := load_crashes_iff hshort hreplay
  obtain ⟨-, hloaded, hreported⟩ := hload "a.txt" "a.json" _ hparse
  have hfirst := hcheck.not.1 (by rintro ⟨fault, hfault⟩; cases hfault)
  have hsequence := mt hloaded (by rw [load_of_replay hparse hreplay]; nofun)
  exact ⟨_, _, hparse, hreplay, hsequence, hfirst, hreported hsequence hfirst⟩

/-- The same two leaves below a composite of their own: the check asks for the range of the composite first, and the
program gives up. -/
theorem load_crashes_nested : ∃ script m, Script.parse?
        "[null,[[\"composite\",null,0,0],[\"leaf\",2,1,null,false,null,1],[\"leaf\",0,1,null,false,null,1]]]" =
      some script ∧
    script.replay "abc" = .ok m ∧ ¬ m.LeavesInSequence ∧ m.check = .error (.fault .reversedRange) ∧
    load "a.txt" "a.json" (.ok "abc")
        (.ok "[null,[[\"composite\",null,0,0],[\"leaf\",2,1,null,false,null,1],[\"leaf\",0,1,null,false,null,1]]]") =
      .error (.fault .reversedRange) := by
  have hreplay : Script.replay
      ⟨none, [.composite none 0 (some 0), .leaf 2 1 none false none 1, .leaf 0 1 none false none 1]⟩ "abc" = .ok _ :=
    rfl
  have hparse : Script.parse?
      "[null,[[\"composite\",null,0,0],[\"leaf\",2,1,null,false,null,1],[\"leaf\",0,1,null,false,null,1]]]" =
      some ⟨none, [.composite none 0 (some 0), .leaf 2 1 none false none 1, .leaf 0 1 none false none 1]⟩ := by
    decide +kernel
  refine ⟨_, _, hparse, hreplay, fun hsequence => ?_, rfl, load_of_replay hparse hreplay "a.txt" "a.json"⟩
  have hcoherent := Replay.coherent_of_replay (by decide) hreplay
  have hok := hcoherent.check_decides.passes hsequence
  cases hok

end CommandLine

end SyntaxTree
