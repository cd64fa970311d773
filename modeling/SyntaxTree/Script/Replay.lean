import SyntaxTree.Builder.Edit
import SyntaxTree.Script.Basic

/-!
# Replaying scripts

Replay makes the recorded calls again. A script comes from outside, so every call is checked before
it reaches the builder: a bad script is rejected with the number of the call and the reason, and the
builder is never at fault.

Handles keep the node they were created with. Looking one up goes on to the node that stands in its
place by now.
-/

namespace SyntaxTree

/-- What cannot be done to the root. -/
inductive RootAction where
  | beChild
  | beWrapped
  | carryError
deriving DecidableEq, Repr

/-- The wording of what cannot be done to the root. -/
def RootAction.participle : RootAction → String
  | beChild => "a child"
  | beWrapped => "wrapped"
  | carryError => "marked as a syntax error"

/-- Why a call is rejected. -/
inductive Rejection where
  /-- No node was created under the handle. -/
  | unknownHandle (handle : Handle)
  /-- A leaf was given as a parent. -/
  | notAComposite (handle : Handle)
  /-- A leaf reaches past the end of the text. -/
  | outOfBounds (offset length : UInt32) (textLength : Nat)
  /-- A leaf starts or ends inside a character. -/
  | splitsCharacter (offset length : UInt32)
  /-- The root was used as only other nodes can be. -/
  | rootNotAllowed (action : RootAction)
  /-- The node has no parent. -/
  | detached (handle : Handle)
  /-- The new child has a parent already. -/
  | alreadyLinked (handle : Handle)
  /-- The new child is the parent itself or one of its ancestors. -/
  | cycle (parent child : Handle)
  /-- The node has no slot for a semantic element. -/
  | notBindable (handle : Handle) (kind : NodeKind)
deriving DecidableEq, Repr

/-- The wording of each reason. -/
def Rejection.message : Rejection → String
  | unknownHandle handle => "unknown handle " ++ toString handle.toNat
  | notAComposite handle =>
    "handle " ++ toString handle.toNat ++ " is a leaf and cannot have children"
  | outOfBounds offset length textLength =>
    "leaf at " ++ toString offset.toNat ++ " of length " ++ toString length.toNat
      ++ " exceeds the text length " ++ toString textLength
  | splitsCharacter offset length =>
    "leaf at " ++ toString offset.toNat ++ " of length " ++ toString length.toNat
      ++ " splits a character"
  | rootNotAllowed action => "the root cannot be " ++ action.participle
  | detached handle => "handle " ++ toString handle.toNat ++ " has no parent"
  | alreadyLinked handle => "handle " ++ toString handle.toNat ++ " is already linked"
  | cycle parent child =>
    "linking " ++ toString child.toNat ++ " under " ++ toString parent.toNat
      ++ " would create a cycle"
  | notBindable handle kind =>
    "handle " ++ toString handle.toNat ++ " is a " ++ kind.name
      ++ " and cannot carry a semantic element"

/-- Why a script could not be replayed. -/
inductive ReplayError where
  /-- The script was recorded for another text. -/
  | textMismatch
  /-- A call was rejected: its number and the reason. -/
  | rejected (call : Nat) (reason : Rejection)
  /-- The builder was at fault. -/
  | fault (fault : Fault)
deriving DecidableEq, Repr

/-- The wording of each error. -/
def ReplayError.message : ReplayError → String
  | textMismatch => "the script was recorded against a different text"
  | rejected call reason => "call " ++ toString call ++ ": " ++ reason.message
  | fault cause => cause.message

/-- The state of a replay: the model so far and the node of each handle. -/
structure Replay where
  model : Model
  handles : Array NodeId

namespace Replay

/-- The replay before the first call: the root is handle 0. -/
def start (m : Model) : Replay :=
  ⟨m, #[Model.rootId]⟩

/-! ## Checks -/

/-- The live node of a handle. -/
def node (r : Replay) (handle : Handle) : Except Rejection NodeId :=
  match r.handles[handle.toNat]? with
  | some id => .ok (r.model.resolve id)
  | none => .error (.unknownHandle handle)

/-- The live composite of a handle. -/
def composite (r : Replay) (handle : Handle) : Except Rejection NodeId := do
  let id ← r.node handle
  if r.model.isLeaf id then
    throw (.notAComposite handle)
  return id

/-- The live node of a handle, which must have a place in the tree and not be the root. -/
def replaceable (r : Replay) (handle : Handle) (action : RootAction) :
    Except Rejection NodeId := do
  let id ← r.node handle
  if r.model.isRoot id then
    throw (.rootNotAllowed action)
  if (r.model.parent? id).isNone then
    throw (.detached handle)
  return id

/-- The edit that a call stands for, with all handles looked up, if nothing speaks against it. -/
def edit (r : Replay) : Call → Except Rejection Edit
  | .composite grammar lookahead none => return .newComposite grammar lookahead.toNat none
  | .composite grammar lookahead (some parent) => do
    return .newComposite grammar lookahead.toNat (some (← r.composite parent))
  | .leaf offset length grammar hidden error parent => do
    let parent ← r.composite parent
    let start := offset.toNat
    let stop := start + length.toNat
    if r.model.textLength < stop then
      throw (.outOfBounds offset length r.model.textLength)
    if !(Text.isBoundary r.model.chars start && Text.isBoundary r.model.chars stop) then
      throw (.splitsCharacter offset length)
    return .newLeaf start length.toNat grammar hidden (error.map SyntaxError.ofMessage) parent
  | .addChild parent child => do
    let parentId ← r.composite parent
    let childId ← r.node child
    if r.model.isRoot childId then
      throw (.rootNotAllowed .beChild)
    if (r.model.parent? childId).isSome then
      throw (.alreadyLinked child)
    if parentId = childId ∨ childId ∈ r.model.ancestors parentId then
      throw (.cycle parent child)
    return .addChild parentId childId
  | .associate handle element => do
    let id ← r.node handle
    match r.model.kind? id with
    | some kind =>
      if !kind.isBindable then
        throw (.notBindable handle kind)
    | none => pure ()
    return .associate id element.toNat
  | .wrap grammar lookahead handle => do
    return .wrap grammar lookahead.toNat (← r.replaceable handle .beWrapped)
  | .error handle message issueCode issueData => do
    return .setSyntaxError (← r.replaceable handle .carryError) ⟨message, issueCode, issueData⟩
  | .compress handle => do
    let id ← r.node handle
    if !r.model.isRoot id && (r.model.parent? id).isNone then
      throw (.detached handle)
    return .compress id

/-! ## Running -/

/-- Whether a call creates a node that gets a handle. -/
def createsHandle : Call → Bool
  | .composite _ _ _ | .leaf _ _ _ _ _ _ | .wrap _ _ _ => true
  | .addChild _ _ | .associate _ _ | .error _ _ _ _ | .compress _ => false

/-- Makes a call: whether it was accepted, and the replay after it. A rejected call does not reach the
builder. -/
def call (r : Replay) (call : Call) : Except Fault (Except Rejection Unit × Replay) :=
  match r.edit call with
  | .error reason => .ok (.error reason, r)
  | .ok edit => do
    let (m, created) ← edit.apply r.model
    let handles :=
      match created with
      | some id => if createsHandle call then r.handles.push id else r.handles
      | none => r.handles
    return (.ok (), ⟨m, handles⟩)

/-- The replay after a list of calls, the first of which is number `done`. The first call that is
rejected ends it. -/
def run (r : Replay) : Nat → List Call → Except ReplayError Replay
  | _, [] => .ok r
  | done, next :: calls =>
    match r.call next with
    | .ok (.ok (), r) => r.run (done + 1) calls
    | .ok (.error reason, _) => .error (.rejected done reason)
    | .error fault => .error (.fault fault)

end Replay

/-- The model that a script builds over a text. -/
def Script.replay (script : Script) (text : String) : Except ReplayError Model :=
  if script.text.any (· != text) then
    .error .textMismatch
  else
    match Model.ofText text with
    | .error fault => .error (.fault fault)
    | .ok m => (·.model) <$> (Replay.start m).run 0 script.calls

end SyntaxTree
