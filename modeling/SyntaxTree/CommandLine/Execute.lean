import SyntaxTree.CommandLine.Arguments
import SyntaxTree.Model.Check
import SyntaxTree.Model.Dump
import SyntaxTree.Model.Lookup
import SyntaxTree.Script.Replay
import SyntaxTree.Snippet.Render

/-!
# Running commands

A command gets the contents of its two files, or the reasons why they could not be read, and answers
with an exit code and what it prints. Whatever is wrong with the files is an error that is reported;
only a model that cannot be read makes the program give up.
-/

namespace SyntaxTree.CommandLine

/-- Why a file could not be read. -/
inductive ReadError where
  | notFound
  | notText
  | directory
  | denied
  | other (reason : String)
deriving DecidableEq, Repr

/-- The wording of each reason. -/
def ReadError.message : ReadError → String
  | notFound => "No such file or directory (os error 2)"
  | notText => "stream did not contain valid UTF-8"
  | directory => "Is a directory (os error 21)"
  | denied => "Permission denied (os error 13)"
  | other reason => reason

/-- What a run of the program leaves behind. -/
structure Outcome where
  exitCode : UInt32
  output : String
  errors : String
deriving DecidableEq, Repr

/-- Why the program gives up. -/
inductive Crash where
  /-- The model is at fault. -/
  | fault (fault : Fault)
  /-- A diagnostic does not fit the text. -/
  | unrenderable (diagnostic : Diagnostic)
deriving DecidableEq, Repr

/-- Why no model was loaded. -/
inductive LoadError where
  | unreadable (path : String) (reason : ReadError)
  | malformedScript (source script : String)
  | textMismatch (source script : String)
  | rejected (source script : String) (call : Nat) (reason : Rejection)
  | inconsistent (violation : Violation)
deriving DecidableEq, Repr

/-- What is said about a text that is no script. -/
def notAScript : String := "the text is not a script"

/-- What failed. -/
def LoadError.message : LoadError → String
  | unreadable path _ => "failed to read `" ++ path ++ "`"
  | malformedScript source script | textMismatch source script | rejected source script _ _ =>
    "failed to replay `" ++ script ++ "` over `" ++ source ++ "`"
  | inconsistent _ => "replayed node model is inconsistent"

/-- Why it failed, each cause followed by its own. -/
def LoadError.causes : LoadError → List String
  | unreadable _ reason => [reason.message]
  | malformedScript _ _ => ["malformed script: " ++ notAScript, notAScript]
  | textMismatch _ _ => [ReplayError.textMismatch.message]
  | rejected _ _ call reason => [(ReplayError.rejected call reason).message]
  | inconsistent violation => [violation.message]

/-- Numbers causes from the given number on. -/
def numberedCauses : Nat → List String → String
  | _, [] => ""
  | number, cause :: causes =>
    "    " ++ toString number ++ ": " ++ cause ++ "\n" ++ numberedCauses (number + 1) causes

/-- An error with its causes. A single cause needs no number. -/
def errorReport (message : String) (causes : List String) : String :=
  let caused := match causes with
    | [] => ""
    | [cause] => "\nCaused by:\n    " ++ cause ++ "\n"
    | causes => "\nCaused by:\n" ++ numberedCauses 0 causes
  "Error: " ++ message ++ "\n" ++ caused

/-- The text and the model of a pair of files, or why there is none. The source is looked at before
the script. -/
def load (source script : String) (sourceText scriptText : Except ReadError String) :
    Except Crash (Except LoadError (String × Model)) :=
  match sourceText, scriptText with
  | .error reason, _ => .ok (.error (.unreadable source reason))
  | .ok _, .error reason => .ok (.error (.unreadable script reason))
  | .ok text, .ok json =>
    match Script.parse? json with
    | none => .ok (.error (.malformedScript source script))
    | some calls =>
      match calls.replay text with
      | .error .textMismatch => .ok (.error (.textMismatch source script))
      | .error (.rejected call reason) => .ok (.error (.rejected source script call reason))
      | .error (.fault fault) => .error (.fault fault)
      | .ok m =>
        match m.check with
        | .ok () => .ok (.ok (text, m))
        | .error (.violation violation) => .ok (.error (.inconsistent violation))
        | .error (.fault fault) => .error (.fault fault)

/-- Prints a model. -/
def dumped (m : Model) (hidden : Bool) : Except Crash Outcome :=
  match m.dump Model.rootId hidden with
  | .ok text => .ok ⟨0, text, ""⟩
  | .error fault => .error (.fault fault)

/-- Renders diagnostics, each with a line feed after it. -/
def renderAll (source text : String) : List Diagnostic → Except Crash String
  | [] => .ok ""
  | diagnostic :: diagnostics =>
    match diagnostic.render? source text true with
    | none => .error (.unrenderable diagnostic)
    | some rendered => do return rendered ++ "\n" ++ (← renderAll source text diagnostics)

/-- Reports the syntax errors of a model. -/
def checked (source text : String) (m : Model) : Except Crash Outcome :=
  match m.diagnostics with
  | .error fault => .error (.fault fault)
  | .ok [] => .ok ⟨0, "", ""⟩
  | .ok diagnostics => do
    let rendered ← renderAll source text diagnostics
    let message := "`" ++ source ++ "` has " ++ toString diagnostics.length ++ " syntax error(s)"
    return ⟨1, "", rendered ++ errorReport message []⟩

/-- The source file of a command. -/
def Command.source : Command → String
  | dump source _ _ | check source _ => source

/-- The script file of a command. -/
def Command.script : Command → String
  | dump _ script _ | check _ script => script

/-- Runs a command on the contents of its files. -/
def Command.execute (command : Command) (sourceText scriptText : Except ReadError String) :
    Except Crash Outcome := do
  match ← load command.source command.script sourceText scriptText with
  | .error failure => return ⟨1, "", errorReport failure.message failure.causes⟩
  | .ok (text, m) =>
    match command with
    | .dump _ _ hidden => dumped m hidden
    | .check source _ => checked source text m

/-- How the program is to be called. -/
def usage : String :=
  "Usage: tree [-v] dump [--hidden] <SOURCE> <SCRIPT>\n       tree [-v] check <SOURCE> <SCRIPT>\n"

/-- Runs a command line over files that `read` gives the contents of. -/
def run (read : String → Except ReadError String) (arguments : List String) :
    Except Crash Outcome :=
  match Invocation.of arguments with
  | .run command => command.execute (read command.source) (read command.script)
  | .help => .ok ⟨0, usage, ""⟩
  | .misuse => .ok ⟨2, "", usage⟩

end SyntaxTree.CommandLine
