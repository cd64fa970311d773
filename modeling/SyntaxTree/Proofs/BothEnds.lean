import SyntaxTree.Proofs.Reachable

/-!
# Taking children from both ends

A child cursor may be asked at either end, in any order. What remains is always one stretch of the child list, and
the cursor is the one that spans it: a call takes the node at its end of the stretch (`takes_spanning`), so a sequence
of calls splits the list into what was taken at the front, what remains, and what was taken at the back in reverse
(`run_spanning`). The ring itself has no end; it is the meeting of the two ends that stops the calls.

The main result says this of every sequence of calls on the children of any node, in the words of a caller who only
counts the children taken so far.
-/

namespace SyntaxTree

namespace ChildCursor

/-! ## Sequences of calls -/

/-- The end that a call takes a child from. -/
inductive Side where
  | front
  | back
deriving DecidableEq, Repr

/-- One call. -/
def take (m : Model) : Side → ChildCursor → Option NodeId × ChildCursor
  | .front => next m
  | .back => nextBack m

/-- The answers of a sequence of calls on one cursor, each with the end that was asked, and the cursor that the calls
leave behind. -/
def run (m : Model) : List Side → ChildCursor → List (Side × Option NodeId) × ChildCursor
  | [], cursor => ([], cursor)
  | side :: calls, cursor =>
    let (answer, rest) := cursor.take m side
    let (answers, final) := rest.run m calls
    ((side, answer) :: answers, final)

/-- The children that were taken from one end, in the order of the calls. -/
def taken (side : Side) (answers : List (Side × Option NodeId)) : List NodeId :=
  answers.filterMap fun asked => if asked.1 = side then asked.2 else none

variable {m : Model} {side asked : Side} {calls : List Side} {c : NodeId} {answer : Option NodeId}
  {answers : List (Side × Option NodeId)} {cursor rest final : ChildCursor}

theorem run_cons (htake : cursor.take m side = (answer, rest)) (hrun : rest.run m calls = (answers, final)) :
    cursor.run m (side :: calls) = ((side, answer) :: answers, final) := by
  rw [run, htake]
  simp only [hrun]

theorem taken_cons_none : taken side ((asked, none) :: answers) = taken side answers := by
  simp [taken]

theorem taken_cons_self : taken side ((side, some c) :: answers) = c :: taken side answers := by
  simp [taken]

theorem taken_cons_of_ne (hne : asked ≠ side) : taken side ((asked, some c) :: answers) = taken side answers := by
  simp [taken, hne]

/-- What a call may do to the nodes that remain. -/
inductive Takes : Side → List NodeId → Option NodeId → List NodeId → Prop where
  | ended (side : Side) : Takes side [] none []
  | front (c : NodeId) (rest : List NodeId) : Takes .front (c :: rest) (some c) rest
  | back (c : NodeId) (rest : List NodeId) : Takes .back (rest ++ [c]) (some c) rest

/-- What is known after `front` was taken from the front of `kids` and `back` from the back. Walks and counts over the
rest leave the cursor as it is. -/
structure Consumed (m : Model) (kids front back : List NodeId) (cursor : ChildCursor) : Prop where
  /-- No node was taken twice. -/
  fits : front.length + back.length ≤ kids.length
  /-- The front gave the first nodes in order. -/
  front_eq : front = kids.take front.length
  /-- The back gave the last nodes in reverse. -/
  back_eq : back = kids.reverse.take back.length
  /-- Both ends refuse from the moment when all nodes are taken, and not before. -/
  refuses : ∀ side, (cursor.take m side).1 = none ↔ front.length + back.length = kids.length
  last : cursor.last m = if front.length + back.length = kids.length then none
    else kids[kids.length - 1 - back.length]?
  count : cursor.count m = kids.length - front.length - back.length
  toList : cursor.toList m = (kids.take (kids.length - back.length)).drop front.length
  toReversedList : cursor.toReversedList m = (cursor.toList m).reverse
  /-- The walks over the rest come to their end by themselves. -/
  stops : ∀ steps, kids.length - front.length - back.length ≤ steps →
    drain (next m) steps cursor = cursor.toList m ∧ drain (nextBack m) steps cursor = cursor.toReversedList m

end ChildCursor

namespace Model

open ChildCursor (Side Takes Consumed drain spanning taken run_cons taken_cons_none taken_cons_self taken_cons_of_ne)

variable {m : Model} {text : String} {kids : NodeId → List NodeId} {p : NodeId} {before rest after : List NodeId}

/-- A call takes the node at its end of the stretch that remains. -/
theorem takes_spanning (h : m.links.Forms kids) (hsplit : kids p = before ++ rest ++ after) (side : Side) :
    ∃ answer rest', (spanning rest).take m side = (answer, spanning rest') ∧ Takes side rest answer rest' := by
  cases side with
  | front =>
    cases rest with
    | nil => exact ⟨none, [], rfl, .ended _⟩
    | cons c rest => exact ⟨some c, rest, next_spanning h hsplit, .front c rest⟩
  | back =>
    rcases List.eq_nil_or_concat rest with rfl | ⟨rest, c, rfl⟩
    · exact ⟨none, [], rfl, .ended _⟩
    · rw [List.concat_eq_append] at *
      exact ⟨some c, rest, nextBack_spanning h hsplit, .back c rest⟩

/-- Calls split the stretch into what they take from the front, what they leave, and what they take from the back. -/
theorem run_spanning (h : m.links.Forms kids) : ∀ (calls : List Side) (before rest after : List NodeId),
    kids p = before ++ rest ++ after → ∃ answers rest', (spanning rest).run m calls = (answers, spanning rest') ∧
      rest = taken .front answers ++ rest' ++ (taken .back answers).reverse := by
  intro calls
  induction calls with
  | nil =>
    intro before rest after _
    exact ⟨[], rest, rfl, (List.append_nil rest).symm⟩
  | cons side calls ih =>
    intro before rest after hsplit
    obtain ⟨answer, remaining, htake, htakes⟩ := takes_spanning h hsplit side
    cases htakes with
    | ended =>
      obtain ⟨answers, rest', hrun, hrest⟩ := ih before [] after hsplit
      refine ⟨(side, none) :: answers, rest', run_cons htake hrun, ?_⟩
      rwa [taken_cons_none, taken_cons_none]
    | front c =>
      obtain ⟨answers, rest', hrun, hrest⟩ := ih (before ++ [c]) remaining after (by simpa using hsplit)
      refine ⟨(.front, some c) :: answers, rest', run_cons htake hrun, ?_⟩
      rw [taken_cons_self, taken_cons_of_ne (show Side.front ≠ .back from nofun), List.cons_append, List.cons_append,
        ← hrest]
    | back c =>
      obtain ⟨answers, rest', hrun, hrest⟩ := ih before remaining (c :: after) (by simpa using hsplit)
      refine ⟨(.back, some c) :: answers, rest', run_cons htake hrun, ?_⟩
      rw [taken_cons_self, taken_cons_of_ne (show Side.back ≠ .front from nofun), List.reverse_cons,
        ← List.append_assoc, ← hrest]

/-- What a cursor that spans the middle of a list has to say. -/
theorem consumed_spanning (h : m.links.Forms kids) {front back : List NodeId}
    (hsplit : kids p = front ++ rest ++ back.reverse) : Consumed m (kids p) front back (spanning rest) := by
  have hlength : (kids p).length = front.length + rest.length + back.length := by
    rw [hsplit, List.length_append, List.length_append, List.length_reverse]
  have hsize : (kids p).length ≤ m.size := length_kids_le h p
  have hforward : ∀ steps, rest.length ≤ steps → drain (ChildCursor.next m) steps (spanning rest) = rest :=
    fun steps hsteps => drain_next_spanning h rest front steps hsplit hsteps
  have hbackward : ∀ steps, rest.length ≤ steps →
      drain (ChildCursor.nextBack m) steps (spanning rest) = rest.reverse :=
    fun steps hsteps => drain_nextBack_spanning h rest back.reverse steps hsplit hsteps
  have hlist : (spanning rest).toList m = rest := hforward m.size (by omega)
  have hreversed : (spanning rest).toReversedList m = rest.reverse := hbackward m.size (by omega)
  refine ⟨by omega, ?_, ?_, fun side => ?_, ?_, ?_, ?_, by rw [hreversed, hlist], fun steps hsteps => ?_⟩
  · rw [hsplit, List.append_assoc, List.take_left]
  · rw [hsplit, List.reverse_append, List.reverse_reverse, List.take_left]
  · obtain ⟨answer, rest', htake, htakes⟩ := takes_spanning h hsplit side
    rw [htake]
    cases htakes with
    | ended => exact ⟨fun _ => by rw [hlength]; rfl, fun _ => rfl⟩
    | front c rest => exact ⟨nofun, fun hall => by rw [List.length_cons] at hlength; omega⟩
    | back c rest => exact ⟨nofun, fun hall => by rw [List.length_append, List.length_singleton] at hlength; omega⟩
  · rw [ChildCursor.last]
    rcases List.eq_nil_or_concat rest with rfl | ⟨rest, c, rfl⟩
    · rw [if_pos (by rw [hlength]; rfl)]
      rfl
    · rw [List.concat_eq_append] at *
      rw [List.length_append, List.length_singleton] at hlength
      have hindex : (kids p).length - 1 - back.length = (front ++ rest).length := by
        rw [List.length_append]
        omega
      rw [if_neg (by omega), nextBack_spanning h hsplit, hindex, hsplit, ← List.append_assoc, List.append_assoc,
        List.getElem?_append_right (Nat.le_refl _), Nat.sub_self]
      rfl
  · rw [ChildCursor.count, hlist]
    omega
  · have hkept : (kids p).length - back.length = (front ++ rest).length := by
      rw [List.length_append]
      omega
    rw [hlist, hkept, hsplit, List.take_left, List.drop_left]
  · rw [hforward steps (by omega), hbackward steps (by omega), hlist, hreversed]
    exact ⟨rfl, rfl⟩

/-! ## The children of a node -/

/-- The nodes of a list are the children of `p`, lined up in this order. -/
structure LinedUp (m : Model) (p : NodeId) (ids : List NodeId) : Prop where
  parent : ∀ n, n ∈ ids ↔ m.parent? n = some p
  nodup : ids.Nodup
  first : m.firstChild? p = ids.head?
  last : m.lastChild? p = ids.getLast?
  next : ∀ {i c}, ids[i]? = some c → m.nextSibling? c = ids[i + 1]?
  previous : ∀ {i c}, ids[i]? = some c → m.previousSibling? c = if i = 0 then none else ids[i - 1]?

/-- A list splits at each of its indices. -/
theorem split_of_getElem? {ids : List NodeId} {i : Nat} {c : NodeId} (hi : ids[i]? = some c) :
    ids = ids.take i ++ c :: ids.drop (i + 1) := by
  obtain ⟨hlt, rfl⟩ := List.getElem?_eq_some_iff.1 hi
  rw [← List.drop_eq_getElem_cons hlt, List.take_append_drop]

theorem WellFormed.linedUp (h : m.WellFormed) (p : NodeId) : m.LinedUp p (m.children p) where
  parent _ := h.structured.forms.mem_iff
  nodup := h.structured.forms.nodup p
  first := (h.head?_children p).symm
  last := lastChild?_eq h.structured.forms p
  next {i c} hi := by
    rw [nextSibling?_eq h.structured.forms (split_of_getElem? hi), List.head?_drop]
  previous {i c} hi := by
    rw [previousSibling?_eq h.structured.forms (split_of_getElem? hi), List.getLast?_take]
    by_cases hzero : i = 0
    · rw [if_pos hzero, if_pos hzero]
    · have hlt : i - 1 < (m.children p).length := by
        have := (List.getElem?_eq_some_iff.1 hi).1
        omega
      rw [if_neg hzero, if_neg hzero, List.getElem?_eq_getElem hlt, Option.some_or]

/-- Whatever is asked of one cursor over the children of a node of a reachable model, the answers are these children
from both ends, none of them twice and none left out. -/
theorem reachable_takenFromBothEnds (h : Reachable text m) (p : NodeId) :
    m.LinedUp p (m.children p) ∧ ∀ calls : List Side, ∃ answers cursor,
      (m.childCursor p).run m calls = (answers, cursor) ∧
      Consumed m (m.children p) (taken .front answers) (taken .back answers) cursor := by
  have hforms := h.coherent.structured.forms
  refine ⟨h.coherent.linedUp p, fun calls => ?_⟩
  have hstart : m.childCursor p = spanning (m.children p) := by
    rw [childCursor, spanning, lastChild?_eq hforms, h.coherent.head?_children]
  obtain ⟨answers, rest, hrun, hsplit⟩ := run_spanning hforms calls [] (m.children p) [] (List.append_nil _).symm
  exact ⟨answers, spanning rest, by rw [hstart, hrun], consumed_spanning hforms hsplit⟩

/-- Three children, asked for from both ends in turn and once more when all are taken. -/
theorem reachable_takenFromBothEnds_three : ∃ m, Reachable "" m ∧ m.LinedUp rootId [1, 2, 3] ∧
    ∃ cursor, (m.childCursor rootId).run m [.front, .back, .front, .back]
      = ([(.front, some 1), (.back, some 3), (.front, some 2), (.back, none)], cursor) ∧
    Consumed m [1, 2, 3] [1, 2] [3] cursor := by
  have h : Reachable "" (initial "") := .opened (ofText_eq_ok_iff.2 ⟨by decide, rfl⟩)
  have h := h.edited (.newComposite none 0 (some 0)) (by decide) rfl
  have h := h.edited (.newComposite none 0 (some 0)) (by decide) rfl
  have h := h.edited (.newComposite none 0 (some 0)) (by decide) rfl
  obtain ⟨hlined, hconsumed⟩ := reachable_takenFromBothEnds h rootId
  obtain ⟨_, _, hrun, hconsumed⟩ := hconsumed [.front, .back, .front, .back]
  obtain ⟨rfl, rfl⟩ := Prod.mk.inj hrun
  exact ⟨_, h, hlined, _, rfl, hconsumed⟩

end Model

end SyntaxTree
