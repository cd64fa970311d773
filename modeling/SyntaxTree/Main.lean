import SyntaxTree.CommandLine.Execute

/-!
# The program

Reads the files, runs the command line and prints what it leaves behind. Giving up ends with exit
code 101.
-/

open SyntaxTree SyntaxTree.CommandLine

/-- The contents of a file. -/
def readText (path : String) : IO (Except ReadError String) := do
  try
    match String.fromUTF8? (← IO.FS.readBinFile path) with
    | some text => return .ok text
    | none => return .error .notText
  catch
    | .noFileOrDirectory .. => return .error .notFound
    | .permissionDenied .. => return .error .denied
    | .inappropriateType .. => return .error .directory
    | error => return .error (.other (toString error))

/-- Prints an outcome. -/
def finish (outcome : Outcome) : IO UInt32 := do
  IO.print outcome.output
  IO.eprint outcome.errors
  return outcome.exitCode

def main (arguments : List String) : IO UInt32 := do
  let outcome ← match Invocation.of arguments with
    | .run command => do
      let source ← readText command.source
      let script ← readText command.script
      pure (command.execute source script)
    | _ => pure (run (fun _ => .error .notFound) arguments)
  match outcome with
  | .ok outcome => finish outcome
  | .error (.fault fault) => finish ⟨101, "", fault.message ++ "\n"⟩
  | .error (.unrenderable diagnostic) =>
    finish ⟨101, "", "range " ++ diagnostic.range.label ++ " does not fit the text\n"⟩
