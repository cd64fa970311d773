/-!
# Command line arguments

Two commands, `dump` and `check`, each on a source file and a script file. Options may stand anywhere
after the command, `-v` also before it; a double dash ends the options. The first argument that has
no place decides that the line is misused, and the first request for help that help is shown.
-/

namespace SyntaxTree.CommandLine

/-- What the program is asked to do. -/
inductive Command where
  /-- Print the tree that the script builds over the source, with or without hidden leaves. -/
  | dump (source script : String) (hidden : Bool)
  /-- Report the syntax errors in the tree that the script builds over the source. -/
  | check (source script : String)
deriving DecidableEq, Repr

/-- How a command line is understood. -/
inductive Invocation where
  | run (command : Command)
  | help
  | misuse
deriving DecidableEq, Repr

/-- What an argument is, as long as options are read. -/
inductive Argument where
  | value (text : String)
  | endOfOptions
  | verbose
  | hidden
  | help
  | unknownOption
deriving DecidableEq, Repr

/-- The meaning of short options that share a dash. -/
def shortOptions : List Char → Argument
  | [] => .verbose
  | 'v' :: options => shortOptions options
  | 'h' :: _ => .help
  | _ :: _ => .unknownOption

/-- What an argument is. A single dash is a value. -/
def Argument.of (argument : String) : Argument :=
  match argument.toList with
  | ['-', '-'] => .endOfOptions
  | '-' :: '-' :: _ =>
    if argument = "--verbose" then .verbose
    else if argument = "--hidden" then .hidden
    else if argument = "--help" then .help
    else .unknownOption
  | '-' :: option :: options => shortOptions (option :: options)
  | _ => .value argument

/-- The command that is being read: which one, and whether hidden leaves are to be shown. -/
inductive CommandKind where
  | dump (hidden : Bool)
  | check
deriving DecidableEq, Repr

/-- The command with its files, if there are two. -/
def CommandKind.complete : CommandKind → List String → Invocation
  | dump hidden, [source, script] => .run (.dump source script hidden)
  | check, [source, script] => .run (.check source script)
  | _, _ => .misuse

/-- Reads the arguments of a command. `values` are the files named so far, at most two of them. -/
def readCommand (kind : CommandKind) (values : List String) : List String → Invocation
  | [] => kind.complete values
  | argument :: arguments =>
    match Argument.of argument with
    | .value value =>
      if values.length < 2 then readCommand kind (values ++ [value]) arguments else .misuse
    | .endOfOptions => kind.complete (values ++ arguments)
    | .verbose => readCommand kind values arguments
    | .hidden =>
      if kind = .dump false then readCommand (.dump true) values arguments else .misuse
    | .help => .help
    | .unknownOption => .misuse

/-- Reads the arguments after the word `help`: the name of a command, or nothing. -/
def readHelp : List String → Invocation
  | [] | ["dump"] | ["check"] | ["help"] => .help
  | _ => .misuse

/-- Reads a command line. -/
def Invocation.of : List String → Invocation
  | [] => .misuse
  | argument :: arguments =>
    match Argument.of argument with
    | .value "dump" => readCommand (.dump false) [] arguments
    | .value "check" => readCommand .check [] arguments
    | .value "help" => readHelp arguments
    | .verbose => Invocation.of arguments
    | .help => .help
    | .value _ | .endOfOptions | .hidden | .unknownOption => .misuse

end SyntaxTree.CommandLine
