import SyntaxTree.Model.Dump
import SyntaxTree.Model.Lookup
import SyntaxTree.Proofs.Kinship
import SyntaxTree.Proofs.Remaking

/-!
# Models that differ in names only

The name of a node is its number in the order of allocation, and two runs that allocate in another order build models
that differ in nothing but names. `Mirrors` says so: nodes stand for each other that are equal apart from their links
and have their children in the same order.

Names do not show. A mirrored model is reshaped in the sense of `Reshaping`, with nothing added, so all nodes stand at
the same places in the text. Walks take the same way (`Mirrors.events`), each node has the same line in a dump, and so
whole dumps are the same, faults included (`Mirrors.dumpTree`), as are the errors in document order.
-/

namespace SyntaxTree

/-- The event with another name for its node. -/
def WalkEvent.rename (f : NodeId → NodeId) : WalkEvent → WalkEvent
  | enter id => enter (f id)
  | leave id => leave (f id)

namespace Model

variable {m m' : Model} {rep : NodeId → NodeId} {n : NodeId}

/-- The second model is the first one with other names for its live nodes. -/
structure Mirrors (m m' : Model) (rep : NodeId → NodeId) : Prop where
  text : m'.text = m.text
  bare : ∀ {n}, m.Live n → m'.bare? (rep n) = m.bare? n
  children : ∀ {n}, m.Live n → m'.children (rep n) = (m.children n).map rep
  top : ∀ {n}, m.Live n → m.parent? n = none → m'.parent? (rep n) = none

/-- The errors of the tree in document order. -/
def errorList (m : Model) : List SyntaxError :=
  m.syntaxErrors.filterMap m.syntaxError?

section Mirrors

variable (h : m.WellFormed) (h' : m'.WellFormed) (hmirror : Mirrors m m' rep)

include hmirror in
theorem Mirrors.live (hn : m.Live n) : m'.Live (rep n) := by
  rw [live_iff_bare?, hmirror.bare hn, ← live_iff_bare?]
  exact hn

include hmirror in
theorem Mirrors.kind? (hn : m.Live n) : m'.kind? (rep n) = m.kind? n := by
  rw [kind?_eq_bare?, kind?_eq_bare?, hmirror.bare hn]

include hmirror in
theorem Mirrors.syntaxError? (hn : m.Live n) : m'.syntaxError? (rep n) = m.syntaxError? n := by
  rw [syntaxError?_eq_bare?, syntaxError?_eq_bare?, hmirror.bare hn]

include h h' hmirror

/-- The root is the root. -/
theorem Mirrors.rep_eq_root_iff (hn : m.Live n) : rep n = rootId ↔ n = rootId := by
  rw [← h'.isRoot_iff, ← h.isRoot_iff]
  unfold isRoot
  rw [hmirror.kind? hn]

theorem Mirrors.reshaped : Reshaped m m' rep rep where
  text := hmirror.text
  live := hmirror.live
  root := hmirror.rep_eq_root_iff h h'
  token hn := by rw [token?_eq_bare?, token?_eq_bare?, hmirror.bare hn]
  top := hmirror.top
  children hn := ⟨[], by rw [hmirror.children hn, List.append_nil], nofun⟩
  placed _ := Or.inl rfl

/-- A node has the same line in a dump: nothing of it depends on names. -/
theorem Mirrors.dumpLine (hn : m.Live n) : m'.dumpLine (rep n) = m.dumpLine n := by
  have hspan := ((hmirror.reshaped h h').kept h h').sameSpan h h' hn
  have hrange : m'.totalRange (rep n) = m.totalRange n := by
    unfold totalRange
    rw [hspan.totalStart, hspan.totalEnd]
  have htext : m'.textOf = m.textOf := by
    funext range
    unfold textOf chars
    rw [hmirror.text]
  have hleaf : m'.isLeaf (rep n) = m.isLeaf n := by
    unfold isLeaf
    rw [hmirror.kind? hn]
  have hlookahead : m'.lookahead? (rep n) = m.lookahead? n := by
    rw [lookahead?_eq_bare?, lookahead?_eq_bare?, hmirror.bare hn]
  have hgrammar : m'.grammar? (rep n) = m.grammar? n := by
    rw [grammar?_eq_bare?, grammar?_eq_bare?, hmirror.bare hn]
  have helement : m'.element? (rep n) = m.element? n := by
    rw [element?_eq_bare?, element?_eq_bare?, hmirror.bare hn]
  unfold Model.dumpLine
  rw [hrange, htext, hleaf, hlookahead, hmirror.kind? hn, hgrammar, helement, hmirror.syntaxError? hn]

/-- Walks take the same way. -/
theorem Mirrors.events (n : NodeId) : m.Live n → m'.events (rep n) = (m.events n).map (WalkEvent.rename rep) := by
  induction n using descend h.structured.forms h.structured.grounded with
  | step n ih =>
  intro hn
  have hchildren : ∀ c ∈ m.children n, m'.events (rep c) = (m.events c).map (WalkEvent.rename rep) := fun c hc =>
    ih c hc (h.live_of_mem hc)
  rw [h'.events_eq (hmirror.live hn).lt_size, h.events_eq hn.lt_size, hmirror.children hn, List.map_cons,
    List.map_append, List.map_flatMap, List.flatMap_map, List.flatMap_congr hchildren]
  rfl

omit hmirror h' in
/-- A walk from a live node meets live nodes. -/
theorem WellFormed.live_of_mem_events (n : NodeId) : m.Live n → ∀ event ∈ m.events n, m.Live event.node := by
  induction n using descend h.structured.forms h.structured.grounded with
  | step n ih =>
  intro hn event hevent
  rw [h.events_eq hn.lt_size] at hevent
  rcases List.mem_cons.1 hevent with rfl | hevent
  · exact hn
  rcases List.mem_append.1 hevent with hevent | hevent
  · obtain ⟨c, hc, hevent⟩ := List.mem_flatMap.1 hevent
    exact ih c hc (h.live_of_mem hc) event hevent
  · obtain rfl := List.mem_singleton.1 hevent
    exact hn

/-- Events are shown alike. -/
theorem Mirrors.dumpEvents (showHidden : Bool) (events : List WalkEvent) :
    ∀ depth, (∀ event ∈ events, m.Live event.node) →
      m'.dumpEvents showHidden depth (events.map (WalkEvent.rename rep)) = m.dumpEvents showHidden depth events := by
  induction events with
  | nil =>
    intro depth _
    rw [List.map_nil, Model.dumpEvents, Model.dumpEvents]
  | cons event events ih =>
    intro depth hlive
    have hevent := hlive event (List.mem_cons_self ..)
    have hrest := fun depth => ih depth fun x hx => hlive x (List.mem_cons_of_mem _ hx)
    have hhidden : m'.isHidden (event.rename rep).node = m.isHidden event.node := by
      unfold isHidden
      cases event <;> exact congrArg (Option.any _) (hmirror.kind? hevent)
    rw [List.map_cons, Model.dumpEvents.eq_def, Model.dumpEvents.eq_def]
    simp only [hhidden, hrest]
    cases event with
    | enter id =>
      have hline : m'.dumpLine (rep id) = m.dumpLine id := hmirror.dumpLine h h' hevent
      simp only [WalkEvent.rename, hline]
    | leave id => cases depth <;> rfl

/-- Names do not show in a dump. -/
theorem Mirrors.dumpTree : m'.dumpTree = m.dumpTree := by
  have hroot : rep rootId = rootId := (hmirror.rep_eq_root_iff h h' h.live_root).2 rfl
  have hevents := hmirror.events h h' rootId h.live_root
  rw [hroot] at hevents
  unfold Model.dumpTree dump
  rw [hevents, hmirror.dumpEvents h h' true _ 0 (h.live_of_mem_events rootId h.live_root)]

/-- Nor does it matter for the errors. -/
theorem Mirrors.errorList : m'.errorList = m.errorList := by
  have hroot : rep rootId = rootId := (hmirror.rep_eq_root_iff h h' h.live_root).2 rfl
  have hevents := hmirror.events h h' rootId h.live_root
  rw [hroot] at hevents
  have hdescendants : m'.descendants rootId = (m.descendants rootId).map rep := by
    unfold descendants
    rw [hevents, List.filterMap_map, List.map_filterMap]
    refine List.filterMap_congr fun event _ => ?_
    cases event <;> rfl
  have hlive : ∀ x ∈ m.descendants rootId, m.Live x := fun x hx => h.live_of_mem_descendants h.live_root hx
  unfold Model.errorList syntaxErrors
  rw [hdescendants, List.filterMap_filter, List.filterMap_filter, List.filterMap_map]
  refine List.filterMap_congr fun x hx => ?_
  rw [Function.comp_apply, hmirror.syntaxError? (hlive x hx)]

end Mirrors

end Model

end SyntaxTree
