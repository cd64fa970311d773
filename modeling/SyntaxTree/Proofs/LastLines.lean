import SyntaxTree.Proofs.Positions

/-!
# The line on which a node ends

A node ends on the line of its last character, where a line feed still belongs to the line that it ends, and an empty
node ends where it starts. Readers look for that character one byte before the end of the range. This is where it starts
if it takes one byte; otherwise the byte lies inside it, and there is no line at such an offset.

The main result gives the exact condition, for all nodes of a model that passes the check: the line is that of the last
character if this character takes one byte or there is none, and otherwise the question is at fault. A line whose number
does not fit into 32 bits is at fault as well.
-/

namespace SyntaxTree

namespace Text

variable {cs before after : List Char} {c : Char} {n : Nat}

/-- There is no boundary inside a character. -/
theorem isBoundary_inside (hafter : byteLength before < n) (hbefore : n < byteLength before + c.utf8Size) :
    isBoundary (before ++ c :: after) n = false := by
  rw [← Bool.not_eq_true, isBoundary_iff]
  rintro ⟨upTo, rest, hcs, rfl⟩
  rcases List.append_eq_append_iff.1 hcs with ⟨more, rfl, hmore⟩ | ⟨more, rfl, -⟩
  · -- what is cut off begins with the character or with all that comes after it
    rw [byteLength_append] at hafter hbefore
    cases more with
    | nil =>
      rw [byteLength_nil] at hafter
      omega
    | cons d more =>
      obtain ⟨rfl, -⟩ := List.cons.inj hmore
      rw [byteLength_cons] at hbefore
      omega
  · rw [byteLength_append] at hafter
    omega

end Text

namespace Model

variable {m : Model} {n : NodeId} {range : TextRange} {text : String} {before within : List Char} {c : Char}

/-- The text is `before` up to the range, and `within` in it. -/
def Covered (m : Model) (range : TextRange) (before within : List Char) : Prop :=
  ∃ after, m.chars = before ++ (within ++ after) ∧ Text.byteLength before = range.start ∧
    range.start + Text.byteLength within = range.stop

theorem Inside.exists_covered (h : m.Inside range n) : ∃ before within, m.Covered range before within := by
  obtain ⟨within, hslice⟩ := Text.exists_slice? h.start_boundary h.stop_boundary range.start_le_stop
  obtain ⟨before, after, hcovered⟩ := Text.slice?_eq_some_iff.1 hslice
  exact ⟨before, within, after, hcovered⟩

/-- The line of the last character of a text, or of where it starts if it is empty. -/
def lastLine (before within : List Char) : Except Fault Nat :=
  lineAfter (before ++ within.dropLast)

/-- The answer that is given for a range: the line of its last character, unless this character takes more than one
byte. -/
def EndsOn (m : Model) (range : TextRange) (answer : Except Fault Nat) : Prop :=
  ∃ before within, m.Covered range before within ∧
    ((∀ c ∈ within.getLast?, c.utf8Size = 1) → answer = lastLine before within) ∧
    ∀ c ∈ within.getLast?, c.utf8Size ≠ 1 → answer = .error .invalidOffset

/-- An empty range ends where it starts. -/
theorem Covered.lineOf_empty (h : m.Covered range before []) : m.lineOf (lastByte range) = lastLine before [] := by
  obtain ⟨after, hchars, hstart, hstop⟩ := h
  have hempty : range.isEmpty = true := by
    rw [TextRange.isEmpty, ← hstop]
    simp
  rw [lastByte, if_pos hempty, ← hstart, lineOf_eq hchars, lastLine, List.dropLast_nil, List.append_nil]

/-- One byte before the end stands the last character, or it is cut there. -/
theorem Covered.lineOf_concat (h : m.Covered range before (within ++ [c])) :
    m.lineOf (lastByte range) =
      if c.utf8Size = 1 then lastLine before (within ++ [c]) else .error .invalidOffset := by
  obtain ⟨after, hchars, hstart, hstop⟩ := h
  have hpos := Char.utf8Size_pos c
  rw [Text.byteLength_append, Text.byteLength_cons, Text.byteLength_nil] at hstop
  have hfull : ¬ range.isEmpty = true := by
    rw [TextRange.isEmpty, beq_iff_eq]
    omega
  have hinit : Text.byteLength (before ++ within) = range.start + Text.byteLength within := by
    rw [Text.byteLength_append, hstart]
  have hsplit : m.chars = (before ++ within) ++ c :: after := by simpa using hchars
  rw [lastByte, if_neg hfull]
  by_cases hone : c.utf8Size = 1
  · have hlast : range.stop - 1 = Text.byteLength (before ++ within) := by omega
    rw [hlast, lineOf_eq hsplit, if_pos hone, lastLine, List.dropLast_concat]
  · have hinside : Text.isBoundary m.chars (range.stop - 1) = false := by
      rw [hsplit]
      exact Text.isBoundary_inside (by omega) (by omega)
    have hcut : Text.cut? m.chars (range.stop - 1) = none := by simpa [Text.isBoundary] using hinside
    rw [if_neg hone, lineOf, Text.lineIndex?, hcut]
    rfl

theorem Inside.endsOn (h : m.Inside range n) : m.EndsOn range (m.lineOf (lastByte range)) := by
  obtain ⟨before, within, hcovered⟩ := h.exists_covered
  refine ⟨before, within, hcovered, ?_⟩
  rcases List.eq_nil_or_concat within with rfl | ⟨init, c, rfl⟩
  · exact ⟨fun _ => hcovered.lineOf_empty, nofun⟩
  · rw [List.concat_eq_append] at *
    rw [hcovered.lineOf_concat, List.getLast?_concat]
    refine ⟨fun hone => if_pos (hone c rfl), fun d hd hwide => if_neg ?_⟩
    obtain rfl := Option.some.inj hd
    exact hwide

/-- In a model that passes the check, the line on which a node ends is found if its range is empty or ends with a
character of one byte, and not otherwise; and the same for its total range. A line that is found is the right one, if its
number fits into 32 bits. -/
theorem reachable_endsOn (h : Reachable text m) (hcheck : m.check = .ok ()) (hn : n ∈ m.descendants rootId) :
    (∃ range, m.range n = .ok range ∧ m.EndsOn range (m.endLine n)) ∧
      ∃ total, m.totalRange n = .ok total ∧ m.EndsOn total (m.totalEndLine n) := by
  have hwell := h.coherent.toWellFormed
  have hsize := hwell.lt_size_of_mem_descendants hwell.labelled.size_pos hn
  have hplaced := h.coherent.placed_of_check hcheck n hn
  obtain ⟨range, hrange, hinside⟩ := hwell.range_of_placed hsize hplaced
  obtain ⟨total, htotal, htotalInside⟩ := hwell.totalRange_of_placed hsize hplaced
  rw [endLine, totalEndLine, hrange, htotal]
  exact ⟨⟨range, rfl, hinside.endsOn⟩, total, rfl, htotalInside.endsOn⟩

/-- Three leaves of one text, which end with a line feed, with a character of two bytes, and with one of one byte. -/
theorem reachable_endsOn_three : ∃ m, Reachable "a\néb" m ∧ m.check = .ok () ∧ m.descendants rootId = [0, 1, 2, 3] ∧
    m.endLine 1 = .ok 1 ∧ m.endLine 2 = .error .invalidOffset ∧ m.totalEndLine 3 = .ok 2 ∧
    ∃ range, m.range 3 = .ok range ∧ m.EndsOn range (m.endLine 3) := by
  have h : Reachable "a\néb" (initial "a\néb") := .opened (ofText_eq_ok_iff.2 ⟨by decide, rfl⟩)
  have h := h.edited (.newLeaf 0 2 none false none 0) (by decide) rfl
  have h := h.edited (.newLeaf 2 2 none false none 0) (by decide) rfl
  have h := h.edited (.newLeaf 4 1 none false none 0) (by decide) rfl
  exact ⟨_, h, rfl, rfl, rfl, rfl, rfl, (reachable_endsOn (n := 3) h rfl (by decide)).1⟩

/-- A model of one character that passes the check, and no node of which has a line on which it ends. -/
theorem no_endLine_of_wide_character : ∃ m, Reachable "é" m ∧ m.check = .ok () ∧ m.descendants rootId = [0, 1] ∧
    ∀ n ∈ m.descendants rootId, (¬ ∃ line, m.endLine n = .ok line) ∧ ¬ ∃ line, m.totalEndLine n = .ok line := by
  have h : Reachable "é" (initial "é") := .opened (ofText_eq_ok_iff.2 ⟨by decide, rfl⟩)
  have h := h.edited (.newLeaf 0 2 none false none 0) (by decide) rfl
  refine ⟨_, h, rfl, rfl, List.forall_mem_cons.2 ⟨?_, List.forall_mem_singleton.2 ?_⟩⟩ <;>
    exact ⟨nofun, nofun⟩

end Model

end SyntaxTree
