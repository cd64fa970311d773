import SyntaxTree.Proofs.Legibility
import SyntaxTree.Proofs.Levels
import SyntaxTree.Proofs.Placement

/-!
# A dump is the lines of its nodes

A dump is made on a walk: each node that is entered writes a line and moves the depth, each node that is left moves it
back, and hidden leaves may be passed over in both. This file shows that nothing of the walk is left in the result. The
dump of a node is the lines of its descendants one after the other, each indented by its own level below the node, and
the hidden ones are simply not among them (`dump_eq`). Faults are covered too: the dump has the fault of the first line
that cannot be written, because the node ends before it starts or because it lies too deep to be indented.

So a dump without hidden leaves is the dump with them, less their lines. It fails less often only if a hidden leaf lies
too deep, since nothing else can go wrong with the line of a leaf.
-/

namespace SyntaxTree

/-! ## Lines have no line feeds -/

namespace Text

variable {c : Char}

theorem newline_not_mem_toDigits {base n : Nat} (hbase : 1 < base) (hle : base ≤ 16) :
    '\n' ∉ Nat.toDigits base n := by
  intro hmem
  obtain ⟨d, hd, he⟩ := exists_of_mem_toDigits hbase hmem
  have hall : ∀ d < 16, '\n' ≠ d.digitChar := by decide
  exact hall d (Nat.lt_of_lt_of_le hd hle) he

/-- No character is written with a line feed, the line feed included. -/
theorem newline_not_mem_escapeChar (c : Char) : '\n' ∉ escapeChar c := by
  have hshort : ∀ p ∈ shortEscapes, p.2 ≠ '\n' := by decide
  rcases escapeChar_cases c with ⟨short, hmem, hc⟩ | hc | ⟨-, -, hc⟩ <;> rw [hc]
  · intro h
    rcases List.mem_pair.1 h with h | h
    · cases h
    · exact hshort _ hmem h.symm
  · simp [newline_not_mem_toDigits, hexDigits]
  · intro h
    obtain rfl := List.mem_singleton.1 h
    cases hc

theorem newline_not_mem_quoted (text : String) : '\n' ∉ (quoted text).toList := by
  intro hmem
  rw [quoted, String.toList_ofList, List.mem_append, List.mem_cons, List.mem_singleton, escape,
    List.mem_flatMap] at hmem
  rcases hmem with (h | ⟨c, -, h⟩) | h
  · cases h
  · exact newline_not_mem_escapeChar c h
  · cases h

end Text

theorem Detail.newline_not_mem_spelled (d : Detail) : '\n' ∉ d.spelled := by
  have hlead : '\n' ∉ d.lead.toList := by cases d <;> simp [lead]
  have hsaid : '\n' ∉ d.said := by
    cases d with
    | text shown | message shown => exact Text.newline_not_mem_quoted shown
    | lookahead shown | element shown => exact Text.newline_not_mem_toDigits (by decide) (by decide)
  rw [spelled, List.mem_append, not_or]
  exact ⟨hlead, hsaid⟩

/-- Whatever the texts of a node are, its line is one line. -/
theorem NodeLabel.newline_not_mem_line (label : NodeLabel) : '\n' ∉ label.line := by
  have hname : '\n' ∉ label.kind.name.toList := by cases label.kind <;> decide
  have hrange : '\n' ∉ label.range.label.toList := by
    rw [TextRange.toList_label]
    simp [Text.newline_not_mem_toDigits]
  simp only [line, List.mem_append, List.mem_cons, List.mem_flatMap, not_or, not_exists, not_and]
  exact ⟨hname, by decide, hrange, fun d _ => d.newline_not_mem_spelled⟩

namespace Model

variable {m : Model} {n p c x : NodeId} {text line : String} {showHidden : Bool} {fault : Fault}

theorem newline_not_mem_dumpLine (hn : n < m.size) (hline : m.dumpLine n = .ok line) : '\n' ∉ line.toList := by
  obtain ⟨label, -, hlabel⟩ := exists_nodeLabel?_of_dumpLine hline hn
  rw [hlabel]
  exact label.newline_not_mem_line

/-! ## Faults of lines -/

theorem isLeaf_of_isHidden (hhidden : m.isHidden n = true) : m.isLeaf n = true := by
  rw [isHidden_eq_token?] at hhidden
  rw [isLeaf_eq_token?]
  cases htoken : m.token? n with
  | none =>
    rw [htoken] at hhidden
    cases hhidden
  | some token => rfl

/-- A leaf has a line wherever it stands. -/
theorem Labelled.exists_dumpLine_of_leaf (h : m.Labelled) (hleaf : m.isLeaf n = true) :
    ∃ line, m.dumpLine n = .ok line := by
  obtain ⟨hstart, hstop⟩ := h.isBoundary_leaf hleaf
  obtain ⟨between, hslice⟩ := Text.exists_slice? hstart hstop (totalStart_le_totalEnd_of_leaf hleaf)
  have htext : m.textOf ⟨_, _, totalStart_le_totalEnd_of_leaf hleaf⟩ = .ok (String.ofList between) :=
    textOf_eq_ok hslice
  unfold dumpLine
  rw [totalRange_of_leaf hleaf, ok_bind, hleaf, if_pos rfl, htext]
  exact ⟨_, rfl⟩

/-- Only a node that ends before it starts has no line. -/
theorem Labelled.dumpLine_eq_error_iff (h : m.Labelled) :
    m.dumpLine n = .error fault ↔ m.totalEnd n < m.totalStart n ∧ fault = .reversedRange := by
  rw [← TextRange.between_eq_error_iff]
  show _ ↔ m.totalRange n = .error fault
  cases hleaf : m.isLeaf n with
  | true =>
    obtain ⟨line, hline⟩ := h.exists_dumpLine_of_leaf hleaf
    rw [hline, totalRange_of_leaf hleaf]
    exact ⟨nofun, nofun⟩
  | false =>
    unfold dumpLine
    rw [hleaf]
    cases m.totalRange n with
    | error other =>
      show (Except.error other : Except Fault String) = .error fault ↔ _
      rw [Except.error.injEq, Except.error.injEq]
    | ok range => exact ⟨nofun, nofun⟩

/-- A line in its place: indented by two blanks for each level, and ended. -/
def placedLine (level : Nat) (line : String) : String :=
  "".pushn ' ' (2 * level) ++ line ++ "\n"

/-- The line of a node in its place, if there is one and it can be indented. -/
def lineAt (m : Model) (level : Nat) (x : NodeId) : Except Fault String := do
  let line ← m.dumpLine x
  let _ ← indent level
  return placedLine level line

theorem lineAt_eq_ok_iff {level : Nat} {placed : String} : m.lineAt level n = .ok placed ↔
    ∃ line, m.dumpLine n = .ok line ∧ 2 * level < UInt16.size ∧ placed = placedLine level line := by
  constructor
  · intro h
    obtain ⟨line, hline, h⟩ := bind_eq_ok_iff.1 h
    obtain ⟨blanks, hblanks, h⟩ := bind_eq_ok_iff.1 h
    exact ⟨line, hline, (indent_eq_ok_iff.1 hblanks).1, (Except.ok.inj h).symm⟩
  · rintro ⟨line, hline, hfits, rfl⟩
    rw [lineAt, hline, ok_bind, indent_eq_ok_iff.2 ⟨hfits, rfl⟩]
    rfl

/-- The two ways in which a node can have no line at a level. -/
theorem Labelled.lineAt_eq_error_iff (h : m.Labelled) {level : Nat} : m.lineAt level n = .error fault ↔
    ¬ (m.totalStart n ≤ m.totalEnd n ∧ 2 * level < UInt16.size) ∧
      fault = if m.totalEnd n < m.totalStart n then .reversedRange else .indentOverflow := by
  rw [lineAt]
  cases hline : m.dumpLine n with
  | error other =>
    obtain ⟨hreversed, rfl⟩ := h.dumpLine_eq_error_iff.1 hline
    show (Except.error Fault.reversedRange : Except Fault String) = .error fault ↔ _
    rw [if_pos hreversed, and_iff_right fun hplaced => Nat.not_le_of_lt hreversed hplaced.1, Except.error.injEq, eq_comm]
  | ok line =>
    have hplaced : m.totalStart n ≤ m.totalEnd n := Nat.le_of_not_lt fun hreversed => by
      rw [h.dumpLine_eq_error_iff.2 ⟨hreversed, rfl⟩] at hline
      cases hline
    rw [ok_bind, if_neg (Nat.not_lt_of_le hplaced), and_iff_right hplaced, Nat.not_lt, ← indent_eq_error_iff]
    cases indent level with
    | error other =>
      show (Except.error other : Except Fault String) = .error fault ↔ _
      rw [Except.error.injEq, Except.error.injEq]
    | ok blanks => exact ⟨nofun, nofun⟩

/-! ## Lines of many nodes -/

/-- What a dump shows of the nodes. -/
def shown (m : Model) (showHidden : Bool) (ids : List NodeId) : List NodeId :=
  ids.filter fun x => !(m.isHidden x && !showHidden)

theorem shown_append (xs ys : List NodeId) :
    m.shown showHidden (xs ++ ys) = m.shown showHidden xs ++ m.shown showHidden ys :=
  List.filter_append ..

theorem shown_cons_of_passed (hpassed : (m.isHidden n && !showHidden) = true) (xs : List NodeId) :
    m.shown showHidden (n :: xs) = m.shown showHidden xs :=
  List.filter_cons_of_neg (by simp [hpassed])

theorem shown_cons (hshown : (m.isHidden n && !showHidden) = false) (xs : List NodeId) :
    m.shown showHidden (n :: xs) = n :: m.shown showHidden xs :=
  List.filter_cons_of_pos (by simp [hshown])

theorem shown_true (xs : List NodeId) : m.shown true xs = xs :=
  List.filter_eq_self.2 fun x _ => by simp

theorem shown_false (xs : List NodeId) : m.shown false xs = xs.filter fun x => !m.isHidden x := by
  simp [shown]

/-- One text after another, unless one of them is at fault. -/
def joined (before after : Except Fault String) : Except Fault String := do
  let before ← before
  let after ← after
  return before ++ after

theorem empty_joined (after : Except Fault String) : joined (.ok "") after = after := by
  cases after with
  | error fault => rfl
  | ok after => exact congrArg Except.ok String.empty_append

theorem joined_empty (before : Except Fault String) : joined before (.ok "") = before := by
  cases before with
  | error fault => rfl
  | ok before => exact congrArg Except.ok String.append_empty

theorem joined_assoc (xs ys zs : Except Fault String) : joined (joined xs ys) zs = joined xs (joined ys zs) := by
  cases xs with
  | error fault => rfl
  | ok xs =>
    cases ys with
    | error fault => rfl
    | ok ys =>
      cases zs with
      | error fault => rfl
      | ok zs => exact congrArg Except.ok String.append_assoc

theorem joined_eq_ok {xs ys : Except Fault String} (h : joined xs ys = .ok text) :
    (∃ before, xs = .ok before) ∧ ∃ after, ys = .ok after := by
  cases xs with
  | error fault => cases h
  | ok before =>
    cases ys with
    | error fault => cases h
    | ok after => exact ⟨⟨before, rfl⟩, after, rfl⟩

theorem ok_joined_eq_error_iff (before : String) {after : Except Fault String} :
    joined (.ok before) after = .error fault ↔ after = .error fault := by
  cases after with
  | error fault' => rfl
  | ok after => exact ⟨nofun, nofun⟩

/-- The lines of nodes, one after the other. The first line that cannot be written is a fault of the whole. -/
def dumpLines (m : Model) (level : NodeId → Nat) : List NodeId → Except Fault String
  | [] => .ok ""
  | x :: xs => joined (m.lineAt (level x) x) (m.dumpLines level xs)

theorem dumpLines_append (level : NodeId → Nat) (xs ys : List NodeId) :
    m.dumpLines level (xs ++ ys) = joined (m.dumpLines level xs) (m.dumpLines level ys) := by
  induction xs with
  | nil => exact (empty_joined _).symm
  | cons x xs ih => rw [List.cons_append, dumpLines, dumpLines, ih, joined_assoc]

theorem dumpLines_congr {level level' : NodeId → Nat} {xs : List NodeId} (h : ∀ x ∈ xs, level x = level' x) :
    m.dumpLines level xs = m.dumpLines level' xs := by
  induction xs with
  | nil => rfl
  | cons x xs ih =>
    obtain ⟨hx, hxs⟩ := List.forall_mem_cons.1 h
    rw [dumpLines, dumpLines, hx, ih hxs]

/-- If every node has a line in its place, the lines are put together. -/
theorem dumpLines_eq_ok {level : NodeId → Nat} {placed : NodeId → String} {xs : List NodeId}
    (h : ∀ x ∈ xs, m.lineAt (level x) x = .ok (placed x)) : m.dumpLines level xs = .ok (String.join (xs.map placed)) := by
  induction xs with
  | nil => rfl
  | cons x xs ih =>
    obtain ⟨hx, hxs⟩ := List.forall_mem_cons.1 h
    rw [dumpLines, hx, ih hxs, List.map_cons, String.join_cons]
    rfl

/-- If the lines are put together, every node has one. -/
theorem exists_lineAt_of_dumpLines {level : NodeId → Nat} {xs : List NodeId} :
    ∀ {text}, m.dumpLines level xs = .ok text → ∀ x ∈ xs, ∃ placed, m.lineAt (level x) x = .ok placed := by
  induction xs with
  | nil => exact fun _ => nofun
  | cons x xs ih =>
    intro text h
    obtain ⟨hx, after, hxs⟩ := joined_eq_ok h
    exact List.forall_mem_cons.2 ⟨hx, ih hxs⟩

/-- A fault is that of the first line that cannot be written. -/
theorem dumpLines_eq_error_iff {level : NodeId → Nat} {xs : List NodeId} : m.dumpLines level xs = .error fault ↔
    ∃ before x after, xs = before ++ x :: after ∧ (∀ y ∈ before, ∃ placed, m.lineAt (level y) y = .ok placed) ∧
      m.lineAt (level x) x = .error fault := by
  induction xs with
  | nil => exact ⟨nofun, fun ⟨before, x, after, hsplit, _⟩ => absurd hsplit (by simp)⟩
  | cons x xs ih =>
    rw [dumpLines]
    cases hx : m.lineAt (level x) x with
    | error other =>
      constructor
      · intro he
        exact ⟨[], x, xs, rfl, nofun, hx.trans he⟩
      · rintro ⟨_ | ⟨y, before⟩, z, after, hsplit, hbefore, hz⟩
        · obtain ⟨rfl, rfl⟩ := List.cons.inj hsplit
          exact hx.symm.trans hz
        · obtain ⟨rfl, rfl⟩ := List.cons.inj hsplit
          obtain ⟨placed, hplaced⟩ := hbefore x (List.mem_cons_self ..)
          cases hx.symm.trans hplaced
    | ok line =>
      rw [ok_joined_eq_error_iff, ih]
      constructor
      · rintro ⟨before, z, after, rfl, hbefore, hz⟩
        exact ⟨x :: before, z, after, rfl, List.forall_mem_cons.2 ⟨⟨line, hx⟩, hbefore⟩, hz⟩
      · rintro ⟨_ | ⟨y, before⟩, z, after, hsplit, hbefore, hz⟩
        · obtain ⟨rfl, rfl⟩ := List.cons.inj hsplit
          cases hx.symm.trans hz
        · obtain ⟨rfl, rfl⟩ := List.cons.inj hsplit
          exact ⟨before, z, after, rfl, (List.forall_mem_cons.1 hbefore).2, hz⟩

/-- Nodes that have lines may be left out without a change of faults. -/
theorem dumpLines_filter_eq_error_iff {level : NodeId → Nat} {keep : NodeId → Bool} {xs : List NodeId}
    (hleft : ∀ x ∈ xs, keep x = false → ∃ placed, m.lineAt (level x) x = .ok placed) :
    m.dumpLines level (xs.filter keep) = .error fault ↔ m.dumpLines level xs = .error fault := by
  induction xs with
  | nil => rfl
  | cons x xs ih =>
    obtain ⟨hx, hxs⟩ := List.forall_mem_cons.1 hleft
    cases hkeep : keep x with
    | false =>
      obtain ⟨placed, hplaced⟩ := hx hkeep
      rw [List.filter_cons_of_neg (Bool.not_eq_true _ ▸ hkeep), ih hxs, dumpLines, hplaced]
      exact (ok_joined_eq_error_iff _).symm
    | true =>
      rw [List.filter_cons_of_pos hkeep, dumpLines, dumpLines]
      cases m.lineAt (level x) x with
      | error fault' => rfl
      | ok placed => exact (ok_joined_eq_error_iff _).trans ((ih hxs).trans (ok_joined_eq_error_iff _).symm)

/-! ## What a walk writes -/

/-- A node that is not shown leaves no trace. -/
theorem dumpEvents_of_hidden {event : WalkEvent} {depth : Nat} (hhidden : m.isHidden event.node = true)
    (events : List WalkEvent) : m.dumpEvents false depth (event :: events) = m.dumpEvents false depth events := by
  rw [dumpEvents.eq_def]
  simp only [hhidden, Bool.not_false, Bool.and_self, if_true]

/-- A node that is shown writes its line on the way in. -/
theorem dumpEvents_enter (hshown : (m.isHidden n && !showHidden) = false) (depth : Nat) (events : List WalkEvent) :
    m.dumpEvents showHidden depth (.enter n :: events)
      = joined (m.lineAt depth n) (m.dumpEvents showHidden (depth + 1) events) := by
  rw [dumpEvents, show (WalkEvent.enter n).node = n from rfl, hshown, if_neg Bool.false_ne_true, lineAt]
  cases m.dumpLine n with
  | error fault => rfl
  | ok line =>
    cases hindent : indent depth with
    | error fault => rfl
    | ok blanks =>
      obtain ⟨-, rfl⟩ := indent_eq_ok_iff.1 hindent
      cases m.dumpEvents showHidden (depth + 1) events with
      | error fault => rfl
      | ok rest => rfl

/-- On the way out it moves the depth back. -/
theorem dumpEvents_leave (hshown : (m.isHidden n && !showHidden) = false) (depth : Nat) (events : List WalkEvent) :
    m.dumpEvents showHidden (depth + 1) (.leave n :: events) = m.dumpEvents showHidden depth events := by
  rw [dumpEvents, show (WalkEvent.leave n).node = n from rfl, hshown]
  rfl

/-- The events of a node write the lines of its descendants that are shown, and leave the depth as they found it. -/
def Writes (m : Model) (showHidden : Bool) (n : NodeId) : Prop :=
  ∀ depth rest, m.dumpEvents showHidden depth (m.events n ++ rest)
    = joined (m.dumpLines (fun x => depth + m.levelBelow n x) (m.shown showHidden (m.descendants n)))
        (m.dumpEvents showHidden depth rest)

/-- What each of some children writes, they write one after the other. -/
theorem WellFormed.dumpEvents_siblings (h : m.WellFormed) {ids : List NodeId}
    (hids : ∀ c ∈ ids, c ∈ m.children n ∧ m.Writes showHidden c) (depth : Nat) (rest : List WalkEvent) :
    m.dumpEvents showHidden (depth + 1) (ids.flatMap m.events ++ rest)
      = joined (m.dumpLines (fun x => depth + m.levelBelow n x) (m.shown showHidden (ids.flatMap m.descendants)))
          (m.dumpEvents showHidden (depth + 1) rest) := by
  induction ids with
  | nil => exact (empty_joined _).symm
  | cons c ids ih =>
    obtain ⟨⟨hc, hwrites⟩, hids⟩ := List.forall_mem_cons.1 hids
    -- below the child the levels of both are one apart, and so are their depths
    have hlevel : ∀ x ∈ m.shown showHidden (m.descendants c),
        depth + 1 + m.levelBelow c x = depth + m.levelBelow n x := by
      intro x hx
      rw [h.levelBelow_child hc (List.mem_filter.1 hx).1]
      omega
    rw [List.flatMap_cons, List.flatMap_cons, List.append_assoc, hwrites, ih hids, shown_append, dumpLines_append,
      joined_assoc, dumpLines_congr hlevel]

/-- Every node writes its lines, by induction down the tree. -/
theorem WellFormed.writes (h : m.WellFormed) (showHidden : Bool) (n : NodeId) :
    n < m.size → m.Writes showHidden n := by
  induction n using descend h.structured.forms h.structured.grounded with
  | step n ih =>
  intro hn depth rest
  rw [h.events_eq hn, h.descendants_eq hn]
  cases hpassed : m.isHidden n && !showHidden with
  | true =>
    obtain ⟨hhidden, hnot⟩ := Bool.and_eq_true_iff.1 hpassed
    obtain rfl : showHidden = false := by simpa using hnot
    -- a hidden node is a leaf, so nothing below it is passed over with it
    rw [h.children_of_isLeaf (isLeaf_of_isHidden hhidden), shown_cons_of_passed hpassed]
    show m.dumpEvents false depth (.enter n :: .leave n :: rest) = _
    rw [dumpEvents_of_hidden hhidden, dumpEvents_of_hidden hhidden]
    exact (empty_joined _).symm
  | false =>
    have hchildren : ∀ c ∈ m.children n, c ∈ m.children n ∧ m.Writes showHidden c :=
      fun c hc => ⟨hc, ih c hc (h.lt_size_of_mem hc)⟩
    rw [List.cons_append, List.append_assoc, List.singleton_append, dumpEvents_enter hpassed,
      h.dumpEvents_siblings hchildren, dumpEvents_leave hpassed, shown_cons hpassed, dumpLines, levelBelow_self,
      joined_assoc]
    rfl

/-- The dump of a node is the lines of its descendants that are shown. -/
theorem WellFormed.dump_eq (h : m.WellFormed) (hn : n < m.size) (showHidden : Bool) :
    m.dump n showHidden = m.dumpLines (m.levelBelow n) (m.shown showHidden (m.descendants n)) := by
  have hevents := h.writes showHidden n hn 0 []
  have hend : m.dumpEvents showHidden 0 [] = .ok "" := by rw [dumpEvents]; rfl
  rw [List.append_nil, hend, joined_empty] at hevents
  rw [dump, hevents]
  exact dumpLines_congr fun x _ => Nat.zero_add _

/-- There is a line for the node in the dump of `n`: the node does not end before it starts, and does not lie too deep to
be indented. -/
def HasLine (m : Model) (n x : NodeId) : Prop :=
  m.totalStart x ≤ m.totalEnd x ∧ 2 * m.levelBelow n x < UInt16.size

theorem Labelled.exists_lineAt_iff (h : m.Labelled) :
    (∃ placed, m.lineAt (m.levelBelow n x) x = .ok placed) ↔ m.HasLine n x := by
  cases hline : m.lineAt (m.levelBelow n x) x with
  | error fault => exact ⟨nofun, fun hx => absurd hx (h.lineAt_eq_error_iff.1 hline).1⟩
  | ok placed =>
    refine iff_of_true ⟨placed, rfl⟩ ?_
    by_contra hx
    rw [h.lineAt_eq_error_iff.2 ⟨hx, rfl⟩] at hline
    cases hline

/-- The line of a node, if there is one. -/
def ownLine (m : Model) (x : NodeId) : String :=
  (m.dumpLine x).toOption.getD ""

theorem Labelled.lineAt_of_hasLine (h : m.Labelled) (hx : m.HasLine n x) :
    m.lineAt (m.levelBelow n x) x = .ok (placedLine (m.levelBelow n x) (m.ownLine x)) := by
  obtain ⟨placed, hplaced⟩ := h.exists_lineAt_iff.2 hx
  obtain ⟨line, hline, -, rfl⟩ := lineAt_eq_ok_iff.1 hplaced
  rw [hplaced, ownLine, hline]
  rfl

/-- A hidden node has a line unless it lies too deep, since it is a leaf. -/
theorem hasLine_of_isHidden (hhidden : m.isHidden x = true) :
    m.HasLine n x ↔ 2 * m.levelBelow n x < UInt16.size :=
  and_iff_right (totalStart_le_totalEnd_of_leaf (isLeaf_of_isHidden hhidden))

/-! ## The two dumps of a node -/

theorem WellFormed.dump_eq_ok_iff (h : m.WellFormed) (hn : n < m.size) {drawn : String} :
    m.dump n showHidden = .ok drawn ↔ (∀ x ∈ m.shown showHidden (m.descendants n), m.HasLine n x) ∧
      drawn = String.join
        ((m.shown showHidden (m.descendants n)).map fun x => placedLine (m.levelBelow n x) (m.ownLine x)) := by
  rw [h.dump_eq hn]
  constructor
  · intro hdrawn
    have hall : ∀ x ∈ m.shown showHidden (m.descendants n), m.HasLine n x := fun x hx =>
      h.labelled.exists_lineAt_iff.1 (exists_lineAt_of_dumpLines hdrawn x hx)
    rw [dumpLines_eq_ok fun x hx => h.labelled.lineAt_of_hasLine (hall x hx)] at hdrawn
    exact ⟨hall, (Except.ok.inj hdrawn).symm⟩
  · rintro ⟨hall, rfl⟩
    exact dumpLines_eq_ok fun x hx => h.labelled.lineAt_of_hasLine (hall x hx)

theorem WellFormed.exists_dump_iff (h : m.WellFormed) (hn : n < m.size) :
    (∃ drawn, m.dump n showHidden = .ok drawn) ↔ ∀ x ∈ m.shown showHidden (m.descendants n), m.HasLine n x :=
  ⟨fun ⟨_, hdrawn⟩ => ((h.dump_eq_ok_iff hn).1 hdrawn).1, fun hall => ⟨_, (h.dump_eq_ok_iff hn).2 ⟨hall, rfl⟩⟩⟩

theorem WellFormed.dump_eq_error_iff (h : m.WellFormed) (hn : n < m.size) :
    m.dump n showHidden = .error fault ↔ ∃ before x after,
      m.shown showHidden (m.descendants n) = before ++ x :: after ∧ (∀ y ∈ before, m.HasLine n y) ∧ ¬ m.HasLine n x ∧
        fault = if m.totalEnd x < m.totalStart x then .reversedRange else .indentOverflow := by
  rw [h.dump_eq hn, dumpLines_eq_error_iff]
  simp only [h.labelled.exists_lineAt_iff, h.labelled.lineAt_eq_error_iff]
  rfl

/-- If all ranges are in order, a node that lies too deep is all that can go wrong. -/
theorem WellFormed.dump_eq_error_iff_of_ordered (h : m.WellFormed) (hn : n < m.size)
    (hordered : ∀ x ∈ m.descendants n, m.totalStart x ≤ m.totalEnd x) :
    m.dump n showHidden = .error fault ↔ fault = .indentOverflow ∧
      ∃ x ∈ m.shown showHidden (m.descendants n), UInt16.size ≤ 2 * m.levelBelow n x := by
  have hline : ∀ x ∈ m.shown showHidden (m.descendants n), (m.HasLine n x ↔ 2 * m.levelBelow n x < UInt16.size) :=
    fun x hx => and_iff_right (hordered x (List.mem_filter.1 hx).1)
  constructor
  · intro hfault
    obtain ⟨before, x, after, hsplit, -, hx, rfl⟩ := (h.dump_eq_error_iff hn).1 hfault
    have hmem : x ∈ m.shown showHidden (m.descendants n) := hsplit ▸ List.mem_append_cons_self
    rw [if_neg (Nat.not_lt_of_le (hordered x (List.mem_filter.1 hmem).1))]
    exact ⟨rfl, x, hmem, Nat.le_of_not_lt (mt (hline x hmem).2 hx)⟩
  · rintro ⟨rfl, x, hmem, hdeep⟩
    cases hdump : m.dump n showHidden with
    | ok drawn =>
      have hx := ((h.dump_eq_ok_iff hn).1 hdump).1 x hmem
      exact absurd ((hline x hmem).1 hx) (Nat.not_lt_of_le hdeep)
    | error fault =>
      obtain ⟨before, y, after, hsplit, -, -, rfl⟩ := (h.dump_eq_error_iff hn).1 hdump
      have hy : y ∈ m.shown showHidden (m.descendants n) := hsplit ▸ List.mem_append_cons_self
      rw [if_neg (Nat.not_lt_of_le (hordered y (List.mem_filter.1 hy).1))]

/-- A dump with hidden leaves has the lines of the one without them, and those of the hidden leaves. -/
theorem WellFormed.exists_dump_true_iff (h : m.WellFormed) (hn : n < m.size) :
    (∃ drawn, m.dump n true = .ok drawn) ↔ (∃ drawn, m.dump n false = .ok drawn) ∧
      ∀ x ∈ m.descendants n, m.isHidden x = true → 2 * m.levelBelow n x < UInt16.size := by
  rw [h.exists_dump_iff hn, h.exists_dump_iff hn, shown_true, shown_false]
  constructor
  · intro hall
    exact ⟨fun x hx => hall x (List.mem_filter.1 hx).1,
      fun x hx hhidden => (hasLine_of_isHidden hhidden).1 (hall x hx)⟩
  · rintro ⟨hvisible, hfits⟩ x hx
    cases hhidden : m.isHidden x with
    | true => exact (hasLine_of_isHidden hhidden).2 (hfits x hx hhidden)
    | false => exact hvisible x (List.mem_filter.2 ⟨hx, by rw [hhidden]; rfl⟩)

/-- Without hidden leaves that lie too deep, the two dumps of a node have the same fault. -/
theorem WellFormed.dump_false_eq_error_iff (h : m.WellFormed) (hn : n < m.size)
    (hfits : ∀ x ∈ m.descendants n, m.isHidden x = true → 2 * m.levelBelow n x < UInt16.size) :
    m.dump n false = .error fault ↔ m.dump n true = .error fault := by
  rw [h.dump_eq hn, h.dump_eq hn, shown_true, shown_false]
  refine dumpLines_filter_eq_error_iff fun x hx hhidden => ?_
  rw [Bool.not_eq_false'] at hhidden
  exact h.labelled.exists_lineAt_iff.2 ((hasLine_of_isHidden hhidden).2 (hfits x hx hhidden))

/-- The dumps of a node, with hidden leaves and without, are put together from the same lines. -/
structure DumpedByLine (m : Model) (n : NodeId) (lines : NodeId → String) : Prop where
  line : ∀ x ∈ m.descendants n, m.totalStart x ≤ m.totalEnd x → m.dumpLine x = .ok (lines x) ∧ '\n' ∉ (lines x).toList
  /-- A dump is one line for each descendant that it shows, in order and indented by its level. -/
  dump_eq_ok_iff : ∀ showHidden drawn, m.dump n showHidden = .ok drawn ↔
    (∀ x ∈ m.shown showHidden (m.descendants n), m.HasLine n x) ∧ drawn = String.join
      ((m.shown showHidden (m.descendants n)).map fun x => placedLine (m.levelBelow n x) (lines x))
  /-- The first node without a line says what the fault is. -/
  dump_eq_error_iff : ∀ showHidden fault, m.dump n showHidden = .error fault ↔ ∃ before x after,
    m.shown showHidden (m.descendants n) = before ++ x :: after ∧ (∀ y ∈ before, m.HasLine n y) ∧ ¬ m.HasLine n x ∧
      fault = if m.totalEnd x < m.totalStart x then .reversedRange else .indentOverflow
  /-- The depth never runs below zero. -/
  balanced : ∀ showHidden, m.dump n showHidden ≠ .error .negativeDifference
  /-- Hidden leaves make a difference only if one of them lies too deep. -/
  exists_dump_true_iff : (∃ drawn, m.dump n true = .ok drawn) ↔ (∃ drawn, m.dump n false = .ok drawn) ∧
    ∀ x ∈ m.descendants n, m.isHidden x = true → 2 * m.levelBelow n x < UInt16.size
  same_fault : (∀ x ∈ m.descendants n, m.isHidden x = true → 2 * m.levelBelow n x < UInt16.size) →
    ∀ fault, m.dump n false = .error fault ↔ m.dump n true = .error fault

theorem WellFormed.dumpedByLine (h : m.WellFormed) (hn : n < m.size) : m.DumpedByLine n m.ownLine where
  line x hx hordered := by
    cases hline : m.dumpLine x with
    | error fault => exact absurd (h.labelled.dumpLine_eq_error_iff.1 hline).1 (Nat.not_lt_of_le hordered)
    | ok line =>
      rw [ownLine, hline]
      exact ⟨rfl, newline_not_mem_dumpLine (h.lt_size_of_mem_descendants hn hx) hline⟩
  dump_eq_ok_iff _ _ := h.dump_eq_ok_iff hn
  dump_eq_error_iff _ _ := h.dump_eq_error_iff hn
  balanced showHidden hfault := by
    obtain ⟨before, x, after, -, -, -, hx⟩ := (h.dump_eq_error_iff hn).1 hfault
    split at hx <;> cases hx
  exists_dump_true_iff := h.exists_dump_true_iff hn
  same_fault hfits _ := h.dump_false_eq_error_iff hn hfits

/-- In every reachable model, whatever the order of its leaves, the dumps of every node are put together from lines. -/
theorem reachable_dump_lines (h : Reachable text m) (hn : n < m.size) : ∃ lines, m.DumpedByLine n lines :=
  ⟨_, h.coherent.toWellFormed.dumpedByLine hn⟩

/-- A line feed in a hidden leaf and one in an error message, and a node two levels down. -/
theorem reachable_dump_lines_hidden : ∃ m, Reachable "a\nb" m ∧ rootId < m.size ∧
    m.dump rootId true = .ok ("Root@0..3\n  Leaf@0..1 \"a\"\n  HiddenLeaf@1..2 \"\\n\"\n" ++
      "  CompositeWithSemanticElement@2..3\n    LeafWithSyntaxError@2..3 \"b\" error=\"1\\n2\"\n") ∧
    m.dump rootId false = .ok ("Root@0..3\n  Leaf@0..1 \"a\"\n" ++
      "  CompositeWithSemanticElement@2..3\n    LeafWithSyntaxError@2..3 \"b\" error=\"1\\n2\"\n") ∧
    ∃ lines, m.DumpedByLine rootId lines := by
  have h : Reachable "a\nb" (initial "a\nb") := .opened (ofText_eq_ok_iff.2 ⟨by decide, rfl⟩)
  have h := h.edited (.newLeaf 0 1 none false none 0) (by decide) rfl
  have h := h.edited (.newLeaf 1 1 none true none 0) (by decide) rfl
  have h := h.edited (.newComposite none 0 (some 0)) (by decide) rfl
  have h := h.edited (.newLeaf 2 1 none false (some ⟨"1\n2", none, []⟩) 3) (by decide) rfl
  exact ⟨_, h, by decide, by decide +kernel, by decide +kernel, reachable_dump_lines h (by decide)⟩

/-- A tree with a hidden leaf that lies one level too deep to be indented, below nodes that do not: there is a dump
without the leaf, and none with it. -/
theorem dump_of_deep_hidden_leaf : ∃ m, Reachable "" m ∧ (∃ drawn, m.dump rootId false = .ok drawn) ∧
    m.dump rootId true = .error .indentOverflow := by
  obtain ⟨m, h, hchain, -, hhidden⟩ := exists_chain_hidden (show (initial "").textLength < UInt32.size by decide) 32767
  have hwell := h.coherent.toWellFormed
  have hsize := hwell.labelled.size_pos
  have hordered : ∀ x ∈ m.descendants rootId, m.totalStart x ≤ m.totalEnd x := fun x hx =>
    h.totalStart_le_totalEnd_of_empty (hwell.lt_size_of_mem_descendants hsize hx)
  obtain ⟨hmem, -, hlevel⟩ := hchain.levelBelow_root hwell (Nat.le_refl _)
  refine ⟨m, h, (hwell.exists_dump_iff hsize).2 fun x hx => ?_,
    (hwell.dump_eq_error_iff_of_ordered hsize hordered).2 ⟨rfl, 32768, by rw [shown_true]; exact hmem, ?_⟩⟩
  · rw [shown_false, List.mem_filter] at hx
    obtain ⟨hx, hvisible⟩ := hx
    have hne : x ≠ 32768 := by
      rintro rfl
      rw [hhidden] at hvisible
      cases hvisible
    have hle := hchain.le_of_mem hwell hx
    have hlt : x ≤ 32767 := Nat.le_of_lt_succ (Nat.lt_of_le_of_ne hle hne)
    refine ⟨hordered x hx, ?_⟩
    rw [(hchain.levelBelow_root hwell hle).2.2]
    exact Nat.lt_of_le_of_lt (Nat.mul_le_mul_left 2 hlt) (by decide)
  · rw [hlevel]

end Model

end SyntaxTree
