import SyntaxTree.Model.Dump
import SyntaxTree.Proofs.DocumentOrder
import SyntaxTree.Proofs.Quoting
import SyntaxTree.Proofs.Reachable

/-!
# A dump can be read back

A dump has no brackets, and of what a node lacks it says nothing. This file shows that it still tells all there is to
tell: the tree below the root, with kind, range, grammar element, look-ahead or text, semantic element and error message
of every node, is determined by the dump, whatever the texts are.

Two things have to be read back. A line is the kind, the range and a row of details, each of which says by its second
character what it is (`line_inj`); two quoted texts may follow each other, but then the kind tells them apart. And the
lines of a tree end where a line begins that is not indented more than the first (`lines_inj`).
-/

namespace SyntaxTree

open Text (AfterDigits Readable)

/-! ## What a dump tells of a node -/

/-- What a dump tells of a node. A leaf has a text of its own, a composite a look-ahead. -/
structure NodeLabel where
  kind : NodeKind
  range : TextRange
  grammar : Option String
  own : String ⊕ Nat
  element : Option Element
  message : Option String
  isLeft_own : own.isLeft = kind.isLeaf
deriving DecidableEq

/-- What may stand in a line behind kind and range. -/
inductive Detail where
  | text (text : String)
  | lookahead (lookahead : Nat)
  | element (element : Element)
  | message (message : String)

namespace Detail

/-- What leads a detail in. -/
def lead : Detail → String
  | text _ => " "
  | lookahead _ => " la="
  | element _ => " semantic="
  | message _ => " error="

/-- What a detail says. -/
def said : Detail → List Char
  | text shown | message shown => (Text.quoted shown).toList
  | lookahead shown | element shown => Nat.toDigits 10 shown

/-- How a detail is written. -/
def spelled (d : Detail) : List Char :=
  d.lead.toList ++ d.said

end Detail

namespace NodeLabel

/-- The details of a node, in the order of its line. A look-ahead of zero is left out. -/
def details (label : NodeLabel) : List Detail :=
  label.grammar.toList.map .text ++
    label.own.elim (fun text => [.text text]) (fun lookahead => if lookahead = 0 then [] else [.lookahead lookahead]) ++
    label.element.toList.map .element ++ label.message.toList.map .message

/-- The line of a node, without indentation and line feed. -/
def line (label : NodeLabel) : List Char :=
  label.kind.name.toList ++ '@' :: (label.range.label.toList ++ label.details.flatMap Detail.spelled)

end NodeLabel

/-- The text of a leaf, or the look-ahead of a composite. -/
def Model.own? (m : Model) (n : NodeId) (range : TextRange) : Option (String ⊕ Nat) :=
  if m.isLeaf n then (m.textOf range).toOption.map .inl else (m.lookahead? n).map .inr

/-- What there is to tell of a node, if its range is one and lies in the text. -/
def Model.nodeLabel? (m : Model) (n : NodeId) : Option NodeLabel := do
  let kind ← m.kind? n
  let range ← (m.totalRange n).toOption
  let own ← m.own? n range
  if h : own.isLeft = kind.isLeaf then
    some ⟨kind, range, m.grammar? n, own, m.element? n, (m.syntaxError? n).map (·.message), h⟩
  else
    none

/-! ## Lines can be read back -/

theorem NodeKind.name_inj {kind kind' : NodeKind} (h : kind.name.toList = kind'.name.toList) : kind = kind' := by
  cases kind <;> cases kind' <;> first | rfl | exact absurd h (by decide)

theorem NodeKind.at_not_mem_name (kind : NodeKind) : '@' ∉ kind.name.toList := by
  cases kind <;> decide

theorem TextRange.toList_label (range : TextRange) :
    range.label.toList = Nat.toDigits 10 range.start ++ '.' :: '.' :: Nat.toDigits 10 range.stop := by
  have hdots : "..".toList = ['.', '.'] := rfl
  rw [label, String.toList_append, String.toList_append, Nat.toString_eq_repr, Nat.toString_eq_repr, Nat.toList_repr,
    Nat.toList_repr, hdots, List.append_assoc]
  rfl

theorem TextRange.readable_label : Readable AfterDigits fun range : TextRange => range.label.toList := by
  intro r s xs ys hxs hys h
  obtain ⟨start, stop, hle⟩ := r
  obtain ⟨start', stop', hle'⟩ := s
  simp only [toList_label, List.append_assoc, List.cons_append] at h
  have hdot : ∀ zs, AfterDigits ('.' :: zs) := fun zs c hc => by
    obtain rfl := Option.some.inj hc
    rfl
  obtain ⟨rfl, hdots⟩ := Text.readable_toDigits (hdot _) (hdot _) h
  obtain ⟨rfl, hrest⟩ := Text.readable_toDigits hxs hys (List.cons.inj (List.cons.inj hdots).2).2
  exact ⟨rfl, hrest⟩

/-- A detail says what it is by its second character. -/
theorem readable_detail : Readable AfterDigits Detail.spelled := by
  intro d e xs ys hxs hys h
  rw [Detail.spelled, Detail.spelled, List.append_assoc, List.append_assoc] at h
  cases d <;> cases e
  case text.text s t =>
    obtain ⟨rfl, hrest⟩ := Text.readable_quoted trivial trivial (List.append_cancel_left h)
    exact ⟨rfl, hrest⟩
  case lookahead.lookahead n k =>
    obtain ⟨rfl, hrest⟩ := Text.readable_toDigits hxs hys (List.append_cancel_left h)
    exact ⟨rfl, hrest⟩
  case element.element n k =>
    obtain ⟨rfl, hrest⟩ := Text.readable_toDigits hxs hys (List.append_cancel_left h)
    exact ⟨rfl, hrest⟩
  case message.message s t =>
    obtain ⟨rfl, hrest⟩ := Text.readable_quoted trivial trivial (List.append_cancel_left h)
    exact ⟨rfl, hrest⟩
  all_goals simp [Detail.lead, Detail.said, Text.quoted] at h

theorem Detail.exists_spelled_eq (d : Detail) : ∃ rest, d.spelled = ' ' :: rest := by
  cases d <;> simp [Detail.spelled, Detail.lead]

/-- Where details may follow and the line ends, no digit comes. -/
theorem afterDigits_details (details : List Detail) (xs : List Char) :
    AfterDigits (details.flatMap Detail.spelled ++ '\n' :: xs) := by
  intro c hc
  cases details with
  | nil =>
    obtain rfl := Option.some.inj hc
    rfl
  | cons d details =>
    obtain ⟨rest, hd⟩ := d.exists_spelled_eq
    rw [List.flatMap_cons, hd] at hc
    obtain rfl := Option.some.inj hc
    rfl

/-- A row of details ends with the line. -/
theorem details_inj {details details' : List Detail} {xs ys : List Char}
    (h : details.flatMap Detail.spelled ++ '\n' :: xs = details'.flatMap Detail.spelled ++ '\n' :: ys) :
    details = details' ∧ xs = ys := by
  induction details generalizing details' with
  | nil =>
    cases details' with
    | nil => exact ⟨rfl, (List.cons.inj h).2⟩
    | cons d details' =>
      obtain ⟨rest, hd⟩ := d.exists_spelled_eq
      rw [List.flatMap_cons, hd] at h
      cases (List.cons.inj h).1
  | cons d details ih =>
    cases details' with
    | nil =>
      obtain ⟨rest, hd⟩ := d.exists_spelled_eq
      rw [List.flatMap_cons, hd] at h
      cases (List.cons.inj h).1
    | cons e details' =>
      rw [List.flatMap_cons, List.flatMap_cons, List.append_assoc, List.append_assoc] at h
      obtain ⟨rfl, hrest⟩ := readable_detail (afterDigits_details _ _) (afterDigits_details _ _) h
      obtain ⟨rfl, hxs⟩ := ih hrest
      exact ⟨rfl, hxs⟩

namespace NodeLabel

variable {label label' : NodeLabel}

/-- What some reader finds in the details. -/
theorem filterMap_details {α : Type} (read : Detail → Option α) (label : NodeLabel) :
    label.details.filterMap read = (label.grammar.bind fun shown => read (.text shown)).toList ++
      label.own.elim (fun text => (read (.text text)).toList)
        (fun lookahead => if lookahead = 0 then [] else (read (.lookahead lookahead)).toList) ++
      (label.element.bind fun shown => read (.element shown)).toList ++
      (label.message.bind fun shown => read (.message shown)).toList := by
  obtain ⟨kind, range, grammar, own, element, message, -⟩ := label
  have hfield : ∀ {β : Type} (f : β → Detail) (field : Option β),
      (field.toList.map f).filterMap read = (field.bind fun shown => read (f shown)).toList := by
    intro β f field
    cases field with
    | none => rfl
    | some shown => cases h : read (f shown) <;> simp [h]
  have hone : ∀ d, [d].filterMap read = (read d).toList := fun d => by cases h : read d <;> simp [h]
  rw [details, List.filterMap_append, List.filterMap_append, List.filterMap_append, hfield, hfield, hfield]
  rcases own with text | lookahead
  · rw [Sum.elim_inl, Sum.elim_inl, hone]
  · rw [Sum.elim_inr, Sum.elim_inr, apply_ite (List.filterMap read), hone]
    rfl

/-- Nodes of one kind with the same details are the same, their ranges apart. -/
theorem eq_of_details (hkind : label.kind = label'.kind) (hrange : label.range = label'.range)
    (hdetails : label.details = label'.details) : label = label' := by
  have hread : ∀ {α : Type} (read : Detail → Option α), _ := fun {α} read => congrArg (List.filterMap read) hdetails
  have htexts := hread fun | .text shown => some shown | _ => none
  have hlookaheads := hread fun | .lookahead shown => some shown | _ => none
  have helements := hread fun | .element shown => some shown | _ => none
  have hmessages := hread fun | .message shown => some shown | _ => none
  simp only [filterMap_details] at htexts hlookaheads helements hmessages
  obtain ⟨kind, range, grammar, own, element, message, hown⟩ := label
  obtain ⟨kind', range', grammar', own', element', message', hown'⟩ := label'
  obtain rfl : kind = kind' := hkind
  obtain rfl : range = range' := hrange
  have hside : own.isLeft = own'.isLeft := hown.trans hown'.symm
  have hfield : ∀ {α : Type} {field field' : Option α}, field.toList = field'.toList → field = field' := by
    intro α field field' h
    cases field <;> cases field' <;> simp_all
  rcases own with text | lookahead <;> rcases own' with text' | lookahead'
  case inl.inr | inr.inl => cases hside
  case inl.inl =>
    simp only [Option.bind_fun_some, Option.toList_some, Option.toList_none, ite_self, Sum.elim_inl,
      Option.bind_fun_none, List.append_nil, List.append_singleton_inj, List.nil_append] at htexts helements hmessages
    obtain ⟨hgrammar, rfl⟩ := htexts
    obtain rfl := hfield hgrammar
    obtain rfl := hfield helements
    obtain rfl := hfield hmessages
    rfl
  case inr.inr =>
    simp only [Option.bind_fun_some, Option.toList_some, Option.toList_none, ite_self, Sum.elim_inr,
      Option.bind_fun_none, List.append_nil, List.nil_append] at htexts hlookaheads helements hmessages
    obtain rfl := hfield htexts
    obtain rfl := hfield helements
    obtain rfl := hfield hmessages
    have hlookahead : lookahead = lookahead' := by
      by_cases h : lookahead = 0 <;> by_cases h' : lookahead' = 0 <;> simp_all
    subst hlookahead
    rfl

/-- A line, put together from its fields. -/
theorem line_eq_toList (label : NodeLabel) : label.line =
    (label.kind.name ++ "@" ++ label.range.label ++ (label.grammar.elim "" fun name => " " ++ Text.quoted name) ++
      (label.own.elim (fun text => " " ++ Text.quoted text)
        fun lookahead => if lookahead = 0 then "" else " la=" ++ toString lookahead) ++
      (label.element.elim "" fun element => " semantic=" ++ toString element) ++
      (label.message.elim "" fun message => " error=" ++ Text.quoted message)).toList := by
  obtain ⟨kind, range, grammar, own, element, message, -⟩ := label
  have hfield : ∀ {α : Type} (write : α → String) (detail : α → Detail) (field : Option α),
      (∀ shown, (write shown).toList = (detail shown).spelled) →
        (field.elim "" write).toList = (field.toList.map detail).flatMap Detail.spelled := by
    intro α write detail field hwrite
    cases field with
    | none => rfl
    | some shown => simp [hwrite]
  have hnumber : ∀ (number : Nat) {lead : String}, (lead ++ toString number).toList
      = lead.toList ++ Nat.toDigits 10 number := by
    intro number lead
    rw [String.toList_append, Nat.toString_eq_repr, Nat.toList_repr]
  have hgrammar := hfield (fun name => " " ++ Text.quoted name) .text grammar fun _ => String.toList_append
  have helement := hfield (fun element => " semantic=" ++ toString element) .element element fun _ => hnumber _
  have hmessage := hfield (fun message => " error=" ++ Text.quoted message) .message message fun _ =>
    String.toList_append
  have hown : (own.elim (fun text => " " ++ Text.quoted text)
        fun lookahead => if lookahead = 0 then "" else " la=" ++ toString lookahead).toList
      = (own.elim (fun text => [Detail.text text])
        fun lookahead => if lookahead = 0 then [] else [.lookahead lookahead]).flatMap Detail.spelled := by
    rcases own with text | lookahead
    · simp [Detail.spelled, Detail.lead, Detail.said]
    · by_cases h : lookahead = 0
      · simp [h]
      · simp [h, Detail.spelled, Detail.lead, Detail.said]
  rw [line, details]
  simp only [String.toList_append, List.flatMap_append, ← hgrammar, ← helement, ← hmessage, ← hown, List.append_assoc]
  rfl

/-- A line determines what it tells. -/
theorem line_inj {xs ys : List Char} (h : label.line ++ '\n' :: xs = label'.line ++ '\n' :: ys) :
    label = label' ∧ xs = ys := by
  simp only [line, List.append_assoc, List.cons_append] at h
  obtain ⟨hname, hrest⟩ := Text.append_cons_inj_of_not_mem label.kind.at_not_mem_name label'.kind.at_not_mem_name h
  obtain ⟨hrange, hrest⟩ := TextRange.readable_label (afterDigits_details _ _) (afterDigits_details _ _) hrest
  obtain ⟨hdetails, hxs⟩ := details_inj hrest
  exact ⟨eq_of_details (NodeKind.name_inj hname) hrange hdetails, hxs⟩

end NodeLabel

/-! ## Trees can be read back -/

/-- A tree with what a dump tells of each node. -/
inductive LabelledTree where
  | node (label : NodeLabel) (children : List LabelledTree)

namespace LabelledTree

mutual

/-- The lines of a tree, the first indented by two blanks for each level above it. -/
def lines (depth : Nat) : LabelledTree → List Char
  | node label children =>
    List.replicate (2 * depth) ' ' ++ (label.line ++ '\n' :: allLines (depth + 1) children)

/-- The lines of trees that stand side by side. -/
def allLines (depth : Nat) : List LabelledTree → List Char
  | [] => []
  | tree :: trees => lines depth tree ++ allLines depth trees

end

/-- What comes is indented by less than two blanks for each level, or nothing comes. -/
def Shallow (depth : Nat) (xs : List Char) : Prop :=
  xs = [] ∨ (xs.takeWhile (· == ' ')).length < 2 * depth

variable {depth : Nat} {xs ys : List Char}

theorem Shallow.succ (h : Shallow depth xs) : Shallow (depth + 1) xs :=
  h.imp_right fun hlt => by omega

/-- No line begins with a blank, its indentation apart. -/
theorem exists_line_eq (label : NodeLabel) : ∃ c rest, label.line = c :: rest ∧ c ≠ ' ' := by
  obtain ⟨kind, range, grammar, own, element, message, hown⟩ := label
  cases kind <;> simp [NodeLabel.line, NodeKind.name]

theorem length_indentation (depth : Nat) (tree : LabelledTree) (xs : List Char) :
    ((tree.lines depth ++ xs).takeWhile (· == ' ')).length = 2 * depth := by
  obtain ⟨label, children⟩ := tree
  obtain ⟨c, rest, hline, hc⟩ := exists_line_eq label
  rw [lines, hline, List.append_assoc, List.takeWhile_append_of_pos (by simp), List.cons_append, List.cons_append,
    List.takeWhile_cons_of_neg (by simpa using hc), List.append_nil, List.length_replicate]

theorem lines_append_ne_nil (depth : Nat) (tree : LabelledTree) (xs : List Char) : tree.lines depth ++ xs ≠ [] := by
  obtain ⟨label, children⟩ := tree
  simp [lines]

/-- A tree may follow the children of the tree before it. -/
theorem shallow_lines (depth : Nat) (tree : LabelledTree) (xs : List Char) :
    Shallow (depth + 1) (tree.lines depth ++ xs) :=
  .inr (by rw [length_indentation]; omega)

/-- A tree is not taken for what comes after the trees beside it. -/
theorem not_shallow_lines (depth : Nat) (tree : LabelledTree) (xs : List Char) :
    ¬ Shallow depth (tree.lines depth ++ xs) := by
  rintro (hnil | hlt)
  · exact lines_append_ne_nil depth tree xs hnil
  · rw [length_indentation] at hlt
    omega

theorem shallow_allLines (h : Shallow depth xs) (trees : List LabelledTree) :
    Shallow (depth + 1) (allLines depth trees ++ xs) := by
  cases trees with
  | nil => exact h.succ
  | cons tree trees =>
    rw [allLines, List.append_assoc]
    exact shallow_lines depth tree _

mutual

/-- The lines of a tree determine the tree, whatever less indented lines come after it. -/
theorem lines_inj : ∀ (tree tree' : LabelledTree) (depth : Nat) (xs ys : List Char), Shallow (depth + 1) xs →
    Shallow (depth + 1) ys → tree.lines depth ++ xs = tree'.lines depth ++ ys → tree = tree' ∧ xs = ys
  | .node label children, .node label' children', depth, xs, ys, hxs, hys, h => by
    simp only [lines, List.append_assoc, List.append_cancel_left_eq, List.cons_append] at h
    obtain ⟨rfl, hbelow⟩ := NodeLabel.line_inj h
    obtain ⟨rfl, hrest⟩ := allLines_inj children children' (depth + 1) xs ys hxs hys hbelow
    exact ⟨rfl, hrest⟩

/-- The lines of trees that stand side by side determine the trees. -/
theorem allLines_inj : ∀ (trees trees' : List LabelledTree) (depth : Nat) (xs ys : List Char), Shallow depth xs →
    Shallow depth ys → allLines depth trees ++ xs = allLines depth trees' ++ ys → trees = trees' ∧ xs = ys
  | [], [], _, _, _, _, _, h => ⟨rfl, h⟩
  | [], tree' :: trees', depth, xs, ys, hxs, _, h => by
    simp only [allLines, List.nil_append, List.append_assoc] at h
    rw [h] at hxs
    exact absurd hxs (not_shallow_lines depth tree' _)
  | tree :: trees, [], depth, xs, ys, _, hys, h => by
    simp only [allLines, List.nil_append, List.append_assoc] at h
    rw [← h] at hys
    exact absurd hys (not_shallow_lines depth tree _)
  | tree :: trees, tree' :: trees', depth, xs, ys, hxs, hys, h => by
    simp only [allLines, List.append_assoc] at h
    obtain ⟨rfl, hbeside⟩ := lines_inj tree tree' depth _ _ (shallow_allLines hxs trees) (shallow_allLines hys trees') h
    obtain ⟨rfl, hrest⟩ := allLines_inj trees trees' depth xs ys hxs hys hbeside
    exact ⟨rfl, hrest⟩

end

end LabelledTree

namespace Model

variable {m m' : Model} {n : NodeId} {text text' dump : String}

/-! ## The tree that a dump shows -/

/-- The tree below a node, down to a number of levels. -/
def labelledTreeWithin (m : Model) : Nat → NodeId → Option LabelledTree
  | 0, _ => none
  | levels + 1, n => do
    let label ← m.nodeLabel? n
    let children ← (m.children n).mapM (m.labelledTreeWithin levels)
    return .node label children

/-- The tree below a node, if all its nodes have their ranges in the text. -/
def labelledTree? (m : Model) (n : NodeId) : Option LabelledTree :=
  m.labelledTreeWithin (m.size - (m.ancestors n).length) n

/-- The tree below a node is its label with the trees below its children. -/
theorem WellFormed.labelledTree?_eq (h : m.WellFormed) (hn : n < m.size) :
    m.labelledTree? n = do
      let label ← m.nodeLabel? n
      let children ← (m.children n).mapM m.labelledTree?
      return .node label children := by
  have hlength := length_ancestors_lt h.structured.forms h.structured.grounded hn
  obtain ⟨levels, hlevels⟩ := Nat.exists_eq_succ_of_ne_zero (Nat.sub_ne_zero_of_lt hlength)
  have hchild : ∀ c ∈ m.children n, m.labelledTreeWithin levels c = m.labelledTree? c := by
    intro c hc
    rw [labelledTree?, h.ancestors_of_mem hc, List.length_cons]
    congr 1
    omega
  have hchildren : (m.children n).mapM (m.labelledTreeWithin levels) = (m.children n).mapM m.labelledTree? := by
    rw [← Function.id_comp (m.labelledTreeWithin levels), ← List.mapM_map, List.map_congr_left hchild, List.mapM_map,
      Function.id_comp]
  rw [labelledTree?, hlevels, Nat.succ_eq_add_one, labelledTreeWithin, hchildren]

/-- A line tells the label of its node. -/
theorem exists_nodeLabel?_of_dumpLine {line : String} (hline : m.dumpLine n = .ok line) (hn : n < m.size) :
    ∃ label, m.nodeLabel? n = some label ∧ line.toList = label.line := by
  obtain ⟨node, hnode⟩ := lt_size_iff.1 hn
  have hkind : m.kind? n = some node.kind := by rw [kind?, hnode]; rfl
  have hleaf : m.isLeaf n = node.kind.isLeaf := by rw [isLeaf, hkind]; rfl
  have herror : ((m.syntaxError? n).elim "" fun error => " error=" ++ Text.quoted error.message)
      = ((m.syntaxError? n).map (·.message)).elim "" fun message => " error=" ++ Text.quoted message := by
    cases m.syntaxError? n <;> rfl
  simp only [dumpLine, hkind] at hline
  obtain ⟨range, hrange, hline⟩ := bind_eq_ok_iff.1 hline
  have hlabel : ∀ (own : String ⊕ Nat) (h : own.isLeft = node.kind.isLeaf), m.own? n range = some own →
      m.nodeLabel? n = some ⟨node.kind, range, m.grammar? n, own, m.element? n,
        (m.syntaxError? n).map (·.message), h⟩ := by
    intro own h hown
    simp [nodeLabel?, hkind, hrange, hown, h, Except.toOption]
  cases hcase : m.isLeaf n with
  | true =>
    simp only [hcase, if_true] at hline
    obtain ⟨text, htext, hline⟩ := bind_eq_ok_iff.1 hline
    obtain rfl := Except.ok.inj hline
    have hown : m.own? n range = some (.inl text) := by simp [own?, hcase, htext, Except.toOption]
    refine ⟨_, hlabel (.inl text) (hcase.symm.trans hleaf) hown, ?_⟩
    rw [NodeLabel.line_eq_toList, herror]
    rfl
  | false =>
    rw [hcase] at hline
    obtain rfl := Except.ok.inj hline
    have hbranch := Content.isLeaf_kind node.content
    rw [show node.content.kind.isLeaf = false from hleaf.symm.trans hcase] at hbranch
    obtain ⟨branch, hbranch⟩ := Option.isSome_iff_exists.1 (Option.isNone_eq_false_iff.1 hbranch.symm)
    have hlookahead : m.lookahead? n = some branch.lookahead := by
      rw [lookahead?, hnode, Option.bind_some, hbranch]
      rfl
    have hown : m.own? n range = some (.inr branch.lookahead) := by simp [own?, hcase, hlookahead]
    refine ⟨_, hlabel (.inr branch.lookahead) (hcase.symm.trans hleaf) hown, ?_⟩
    rw [NodeLabel.line_eq_toList, herror, hlookahead]
    cases branch.lookahead <;> rfl

theorem toList_blanks (count : Nat) : ("".pushn ' ' count).toList = List.replicate count ' ' := by
  rw [String.pushn_eq_repeat_push]
  induction count with
  | zero => rfl
  | succ count ih => rw [Nat.repeat, String.toList_push, ih, List.replicate_succ']

/-- A walk through a node writes the tree below it. -/
theorem WellFormed.exists_labelledTree? (h : m.WellFormed) (n : NodeId) : n < m.size → ∀ depth rest shown,
    m.dumpEvents true depth (m.events n ++ rest) = .ok shown → ∃ tree after, m.labelledTree? n = some tree ∧
      m.dumpEvents true depth rest = .ok after ∧ shown.toList = tree.lines depth ++ after.toList := by
  induction n using descend h.structured.forms h.structured.grounded with
  | step n ih =>
  intro hn depth rest shown hshown
  rw [h.events_eq hn, List.cons_append, List.append_assoc] at hshown
  -- the children, one after the other
  have hbelow : ∀ (ids : List NodeId), (∀ c ∈ ids, c ∈ m.children n) → ∀ rest shown,
      m.dumpEvents true (depth + 1) (ids.flatMap m.events ++ rest) = .ok shown → ∃ trees after,
        ids.mapM m.labelledTree? = some trees ∧ m.dumpEvents true (depth + 1) rest = .ok after ∧
          shown.toList = LabelledTree.allLines (depth + 1) trees ++ after.toList := by
    intro ids
    induction ids with
    | nil =>
      intro _ rest shown hshown
      exact ⟨[], shown, rfl, hshown, rfl⟩
    | cons c ids ihids =>
      intro hids rest shown hshown
      obtain ⟨hc, hids⟩ := List.forall_mem_cons.1 hids
      rw [List.flatMap_cons, List.append_assoc] at hshown
      obtain ⟨tree, after, htree, hafter, hlines⟩ := ih c hc (h.lt_size_of_mem hc) _ _ _ hshown
      obtain ⟨trees, last, htrees, hlast, hmore⟩ := ihids hids _ _ hafter
      refine ⟨tree :: trees, last, ?_, hlast, ?_⟩
      · rw [List.mapM_cons, htree, htrees]
        rfl
      · rw [hlines, hmore, LabelledTree.allLines, List.append_assoc]
  rw [dumpEvents, Bool.not_true, Bool.and_false] at hshown
  obtain ⟨line, hline, hshown⟩ := bind_eq_ok_iff.1 hshown
  obtain ⟨blanks, hblanks, hshown⟩ := bind_eq_ok_iff.1 hshown
  obtain ⟨-, rfl⟩ := indent_eq_ok_iff.1 hblanks
  obtain ⟨below, hbelowshown, hshown⟩ := bind_eq_ok_iff.1 hshown
  obtain rfl := Except.ok.inj hshown
  obtain ⟨label, hlabel, hlabelline⟩ := exists_nodeLabel?_of_dumpLine hline hn
  obtain ⟨trees, after, htrees, hafter, hlines⟩ := hbelow _ (fun _ hc => hc) _ _ hbelowshown
  refine ⟨.node label trees, after, ?_, ?_, ?_⟩
  · rw [h.labelledTree?_eq hn, hlabel, Option.bind_eq_bind, Option.bind_some, htrees]
    rfl
  · rw [List.cons_append, List.nil_append, dumpEvents, Bool.not_true, Bool.and_false] at hafter
    exact hafter
  · have hend : "\n".toList = ['\n'] := rfl
    simp only [String.toList_append, toList_blanks, hend, hlabelline, hlines, LabelledTree.lines, List.append_assoc,
      List.cons_append, List.nil_append]

/-- The dump of the whole tree is the lines of the tree below the root. -/
theorem WellFormed.exists_labelledTree?_of_dumpTree (h : m.WellFormed) (hdump : m.dumpTree = .ok dump) :
    ∃ tree, m.labelledTree? rootId = some tree ∧ dump.toList = tree.lines 0 := by
  rw [dumpTree, Model.dump, ← List.append_nil (m.events rootId)] at hdump
  obtain ⟨tree, after, htree, hafter, hlines⟩ := h.exists_labelledTree? rootId h.live_root.lt_size 0 [] dump hdump
  obtain rfl : "" = after := Except.ok.inj hafter
  exact ⟨tree, htree, by rw [hlines, String.toList_empty, List.append_nil]⟩

/-- Reachable models with the same dump, whatever their texts and the edits that led to them, have the same tree below
the root: the same kinds, ranges, grammar elements, look-aheads, texts of leaves, semantic elements and error messages
in the same places. -/
theorem reachable_labelledTree?_of_dumpTree (h : Reachable text m) (h' : Reachable text' m')
    (hdump : m.dumpTree = .ok dump) (hdump' : m'.dumpTree = .ok dump) :
    ∃ tree, m.labelledTree? rootId = some tree ∧ m'.labelledTree? rootId = some tree := by
  obtain ⟨tree, htree, hlines⟩ := h.coherent.exists_labelledTree?_of_dumpTree hdump
  obtain ⟨tree', htree', hlines'⟩ := h'.coherent.exists_labelledTree?_of_dumpTree hdump'
  have hsame : tree.lines 0 ++ [] = tree'.lines 0 ++ [] := by rw [← hlines, ← hlines']
  obtain ⟨rfl, -⟩ := LabelledTree.lines_inj tree tree' 0 [] [] (.inl rfl) (.inl rfl) hsame
  exact ⟨tree, htree, htree'⟩

/-- Two models of different texts with the same dump, in which names and messages look like fields and lines. In one the
leaf got its error when it was created, in the other it was marked, and a node that is not below the root was left. -/
theorem reachable_labelledTree?_of_dumpTree_forged : ∃ m m' tree, Reachable "x\"a" m ∧ Reachable "y\"a" m' ∧
    m.size = 3 ∧ m'.size = 5 ∧ m.dumpTree = m'.dumpTree ∧
    m.labelledTree? rootId = some tree ∧ m'.labelledTree? rootId = some tree := by
  obtain ⟨dump, hshown⟩ : ∃ dump, dump = "Root@0..3\n" ++
    "  CompositeWithSemanticElement@1..3 \"rule\\\" la=1\" la=2 semantic=7\n" ++
    "    LeafWithSyntaxError@1..3 \"name\" \"\\\"a\" error=\"no\\n  Leaf@0..0\"\n" := ⟨_, rfl⟩
  obtain ⟨m, h, hsize, hdump⟩ : ∃ m, Reachable "x\"a" m ∧ m.size = 3 ∧ m.dumpTree = .ok dump := by
    have h : Reachable "x\"a" (initial "x\"a") := .opened (ofText_eq_ok_iff.2 ⟨by decide, rfl⟩)
    have h := h.edited (.newComposite (some "rule\" la=1") 2 (some 0)) (by decide) rfl
    have h := h.edited (.newLeaf 1 2 (some "name") false (some ⟨"no\n  Leaf@0..0", none, []⟩) 1) (by decide) rfl
    have h := h.edited (.associate 1 7) (by decide) rfl
    subst hshown
    exact ⟨_, h, rfl, by decide +kernel⟩
  obtain ⟨m', h', hsize', hdump'⟩ : ∃ m, Reachable "y\"a" m ∧ m.size = 5 ∧ m.dumpTree = .ok dump := by
    have h : Reachable "y\"a" (initial "y\"a") := .opened (ofText_eq_ok_iff.2 ⟨by decide, rfl⟩)
    have h := h.edited (.newComposite (some "rule\" la=1") 2 none) (by decide) rfl
    have h := h.edited (.newLeaf 1 2 (some "name") false none 1) (by decide) rfl
    have h := h.edited (.newComposite none 0 none) (by decide) rfl
    have h := h.edited (.associate 1 7) (by decide) rfl
    have h := h.edited (.addChild 0 1) (by decide) rfl
    have h := h.edited (.setSyntaxError 2 ⟨"no\n  Leaf@0..0", none, []⟩) (by decide) rfl
    subst hshown
    exact ⟨_, h, rfl, by decide +kernel⟩
  obtain ⟨tree, htree, htree'⟩ := reachable_labelledTree?_of_dumpTree h h' hdump hdump'
  exact ⟨m, m', tree, h, h', hsize, hsize', hdump.trans hdump'.symm, htree, htree'⟩

end Model

end SyntaxTree
