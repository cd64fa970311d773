import SyntaxTree.Json.Value

/-!
# Scripts

A script is the recorded run of a parser: the calls it made on the builder, and maybe the text it
made them for. Nodes are named by handles, which count the nodes in the order of their creation; the
root is handle 0.

Scripts are stored as JSON. A script, and a call, may be written as an object or as an array of its
fields in order. Members with other names are passed over, a repeated name is refused, and all that
belongs to a call has to fit into memory (`Json.fits`): a document nests at most 127 arrays and
objects there, of which the script and its list of calls are two.
-/

namespace SyntaxTree

/-- The number of a node in the order of creation. -/
abbrev Handle := UInt32

/-- One call of the builder. -/
inductive Call where
  | composite (grammar : Option String) (lookahead : UInt32) (parent : Option Handle)
  | leaf (offset length : UInt32) (grammar : Option String) (hidden : Bool)
      (error : Option String) (parent : Handle)
  | addChild (parent child : Handle)
  | associate (node : Handle) (element : UInt32)
  | wrap (grammar : Option String) (lookahead : UInt32) (node : Handle)
  | error (node : Handle) (message : String) (issueCode : Option String)
      (issueData : List String)
  | compress (node : Handle)
deriving DecidableEq, Repr

/-- A recorded run: the text, if it is part of the record, and the calls. -/
structure Script where
  text : Option String
  calls : List Call
deriving DecidableEq, Repr

/-- The kinds of call. -/
inductive Operation where
  | composite
  | leaf
  | addChild
  | associate
  | wrap
  | error
  | compress
deriving DecidableEq, Repr

namespace Operation

/-- How a script names the kinds of call. -/
def ofName? : String → Option Operation
  | "composite" => some composite
  | "leaf" => some leaf
  | "add_child" => some addChild
  | "associate" => some associate
  | "wrap" => some wrap
  | "error" => some error
  | "compress" => some compress
  | _ => none

/-- The names of a call's fields, in the order in which an array gives them. -/
def fieldNames : Operation → List String
  | composite => ["grammar", "lookahead", "parent"]
  | leaf => ["offset", "length", "grammar", "hidden", "error", "parent"]
  | addChild => ["parent", "child"]
  | associate => ["node", "element"]
  | wrap => ["grammar", "lookahead", "node"]
  | error => ["node", "message", "issue_code", "issue_data"]
  | compress => ["node"]

/-- The fields of a call that is written as an array. All have to be there, but the issue data at the
end may be left away. -/
def sequenceFields (operation : Operation) (items : List Json) : List (Option Json) :=
  if operation = error ∧ items.length = 3 then items.map some ++ [none] else items.map some

end Operation

/-! ## Fields -/

/-- A field that has to be there. -/
def required? {α : Type} (read : Json → Option α) (field : Option Json) : Option α :=
  field.bind read

/-- A field that may be missing or `null`. -/
def optional? {α : Type} (read : Json → Option α) : Option Json → Option (Option α)
  | none => some none
  | some value => Json.nullable? read value

/-- A field that may be missing and then has a value of its own. -/
def defaulted? {α : Type} (value : α) (read : Json → Option α) : Option Json → Option α
  | none => some value
  | some written => read written

namespace Call

/-- The call of a kind with the given fields, in their order, a missing one being `none`. -/
def ofFields? : Operation → List (Option Json) → Option Call
  | .composite, [grammar, lookahead, parent] => do
    return .composite (← optional? Json.text? grammar) (← defaulted? 0 Json.word? lookahead)
      (← optional? Json.word? parent)
  | .leaf, [offset, length, grammar, hidden, errorText, parent] => do
    return .leaf (← required? Json.word? offset) (← required? Json.word? length)
      (← optional? Json.text? grammar) (← defaulted? false Json.boolean? hidden)
      (← optional? Json.text? errorText) (← required? Json.word? parent)
  | .addChild, [parent, child] => do
    return .addChild (← required? Json.word? parent) (← required? Json.word? child)
  | .associate, [node, element] => do
    return .associate (← required? Json.word? node) (← required? Json.word? element)
  | .wrap, [grammar, lookahead, node] => do
    return .wrap (← optional? Json.text? grammar) (← defaulted? 0 Json.word? lookahead)
      (← required? Json.word? node)
  | .error, [node, message, issueCode, issueData] => do
    return .error (← required? Json.word? node) (← required? Json.text? message)
      (← optional? Json.text? issueCode) (← defaulted? [] Json.texts? issueData)
  | .compress, [node] => do
    return .compress (← required? Json.word? node)
  | _, _ => none

/-- How many arrays and objects a call may nest. -/
def nestingLimit : Nat := 125

/-- The kind and the fields of a call, from an object or an array. -/
def parts? : Json → Option (Operation × List (Option Json))
  | .object members => do
    let members ← Json.named? members
    let operation ← Operation.ofName? (← required? Json.text? (← Json.member? "op" members))
    let fields ← operation.fieldNames.mapM fun name => Json.member? name members
    return (operation, fields)
  | .array (name :: items) => do
    let operation ← Operation.ofName? (← name.text?)
    return (operation, operation.sequenceFields items)
  | _ => none

/-- The call that a JSON value stands for. -/
def ofJson? (json : Json) : Option Call := do
  if json.fits nestingLimit then
    let (operation, fields) ← parts? json
    ofFields? operation fields
  else
    none

end Call

namespace Script

/-- The script with the given fields. -/
def ofFields? (text calls : Option Json) : Option Script := do
  let text ← optional? Json.text? text
  match calls with
  | some (.array items) => return ⟨text, ← items.mapM Call.ofJson?⟩
  | _ => none

/-- The script that a JSON value stands for. -/
def ofJson? : Json → Option Script
  | .object members => do
    let members ← Json.named? members
    ofFields? (← Json.member? "text" members) (← Json.member? "calls" members)
  | .array [text, calls] => ofFields? (some text) (some calls)
  | _ => none

/-- Reads a script from its JSON text. -/
def parse? (text : String) : Option Script := do
  ofJson? (← Json.parse? text)

end Script

end SyntaxTree
