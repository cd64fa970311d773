import SyntaxTree.Model.Children

/-!
# Walks in document order

A walk enters a node, walks its children in order and leaves it. It needs no memory beyond the event
that comes next: the links say where to go on. The reader may ask to skip, which turns an entry that
is about to happen into leaving the parent.

`events` is the whole walk; the descendants of a node are what it enters, and the leaves are the
descendants of a leaf kind. An empty composite has no children either, but is no leaf.
-/

namespace SyntaxTree

/-- A step of a walk. -/
inductive WalkEvent where
  | enter (id : NodeId)
  | leave (id : NodeId)
deriving DecidableEq, Repr

namespace WalkEvent

/-- The node that the event is about. -/
def node : WalkEvent → NodeId
  | enter id | leave id => id

/-- The node that the event enters. -/
def entered? : WalkEvent → Option NodeId
  | enter id => some id
  | leave _ => none

/-- The event after this one in a walk from `start`: down to the first child, else on to the next
sibling, else up. The walk ends with leaving `start`. -/
def following? (m : Model) (start : NodeId) : WalkEvent → Option WalkEvent
  | enter id =>
    match m.firstChild? id with
    | some child => some (enter child)
    | none => some (leave id)
  | leave id =>
    if id = start then
      none
    else
      match m.nextSibling? id with
      | some sibling => some (enter sibling)
      | none => (m.parent? id).map leave

/-- The event that takes this one's place when the reader skips: instead of entering a node the walk
leaves its parent. -/
def skipped (m : Model) : WalkEvent → Except Fault WalkEvent
  | enter id =>
    match m.parent? id with
    | some parent => .ok (leave parent)
    | none => .error .skipWithoutParent
  | leave id => .ok (leave id)

end WalkEvent

/-- A walk under way: where it started, what comes next, and whether the reader asked to skip. -/
structure Walk where
  start : NodeId
  pending : Option WalkEvent
  skipping : Bool
deriving DecidableEq, Repr

namespace Walk

/-- A walk that is about to enter `start`. -/
def begin (start : NodeId) : Walk :=
  ⟨start, some (.enter start), false⟩

/-- Skips the children of the node that was entered last. -/
def skip (walk : Walk) : Walk :=
  { walk with skipping := true }

/-- The next event of the walk, and the walk after it. -/
def next (m : Model) (walk : Walk) : Except Fault (Option WalkEvent × Walk) :=
  match walk.pending with
  | none => .ok (none, { walk with skipping := false })
  | some event => do
    let event ← if walk.skipping then event.skipped m else pure event
    return (some event, ⟨walk.start, event.following? m walk.start, false⟩)

/-- The events of a walk on which the reader skips before each step whose number is in `skips`, for
at most `steps` steps, the first being number `done`. A fault ends the walk. -/
def eventsWithin (m : Model) (skips : List Nat) :
    Nat → Nat → Walk → List (Except Fault WalkEvent)
  | 0, _, _ => []
  | steps + 1, done, walk =>
    let walk := if done ∈ skips then walk.skip else walk
    match walk.next m with
    | .error fault => [.error fault]
    | .ok (none, _) => []
    | .ok (some event, walk) => .ok event :: eventsWithin m skips steps (done + 1) walk

/-- The events of a walk from `start` on which the reader skips before the given steps. Every event
moves on in the document, so two for each node are enough. -/
def eventsSkipping (m : Model) (start : NodeId) (skips : List Nat) :
    List (Except Fault WalkEvent) :=
  eventsWithin m skips (2 * m.size + 1) 0 (begin start)

end Walk

namespace Model

/-- An event of a walk from `start` and those after it, for at most `steps` events. -/
def eventsFrom (m : Model) (start : NodeId) : Nat → WalkEvent → List WalkEvent
  | 0, _ => []
  | steps + 1, event =>
    match event.following? m start with
    | none => [event]
    | some following => event :: m.eventsFrom start steps following

/-- The events of a whole walk: each node below `start` is entered and left once. -/
def events (m : Model) (start : NodeId) : List WalkEvent :=
  m.eventsFrom start (2 * m.size) (.enter start)

/-- The node and all nodes below it, in document order. -/
def descendants (m : Model) (id : NodeId) : List NodeId :=
  (m.events id).filterMap WalkEvent.entered?

/-- The leaves at and below the node, in document order. -/
def leaves (m : Model) (id : NodeId) : List NodeId :=
  (m.descendants id).filter m.isLeaf

end Model

end SyntaxTree
