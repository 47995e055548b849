import ClosureLang.Repl
import ClosureLang.Script

/-!
# The command line

What its arguments ask for, and what the program answers.
-/

namespace ClosureLang.CommandLine

inductive Request
  | version
  | help
  | misuse
  | interactive
  | script (path : String)

/-- The arguments read so far. -/
structure Seen where
  file : Option String
  interactive : Bool
  traceParser : Bool

inductive Flag
  | interactive
  | traceParser
  | version
  | help

def Flag.ofLong? : String → Option Flag
  | "interactive" => some interactive
  | "trace-parser" => some traceParser
  | "version" => some version
  | "help" => some help
  | _ => none

def Flag.ofShort? : Char → Option Flag
  | 'i' => some interactive
  | 'V' => some version
  | 'h' => some help
  | _ => none

/-- Takes in a flag; version and help end the reading of arguments, and so does a flag given twice.
-/
def Seen.flag (seen : Seen) : Flag → Except Request Seen
  | .interactive =>
    if seen.interactive then throw .misuse else return { seen with interactive := true }
  | .traceParser =>
    if seen.traceParser then throw .misuse else return { seen with traceParser := true }
  | .version => throw .version
  | .help => throw .help

/-- Takes in a name of a file; there may be one. -/
def Seen.name (seen : Seen) (path : String) : Except Request Seen :=
  match seen.file with
  | some _ => throw .misuse
  | none => return { seen with file := some path }

/-- Takes in the short flags that share one dash. -/
def Seen.cluster (seen : Seen) : List Char → Except Request Seen
  | [] => return seen
  | c :: rest => do
    match Flag.ofShort? c with
    | some flag => (← seen.flag flag).cluster rest
    | none => throw .misuse

/-- Takes in one argument that is not behind a double dash. A dash alone is a name. -/
def Seen.argument (seen : Seen) (text : String) : Except Request Seen :=
  match text.toList with
  | '-' :: '-' :: long =>
    match Flag.ofLong? (String.ofList long) with
    | some flag => seen.flag flag
    | none => throw .misuse
  | '-' :: c :: cluster => seen.cluster (c :: cluster)
  | _ => seen.name text

/-- Takes in all arguments; behind a double dash there are only names. -/
def Seen.arguments (seen : Seen) : List String → Except Request Seen
  | [] => return seen
  | "--" :: names => names.foldlM Seen.name seen
  | text :: rest => do (← seen.argument text).arguments rest

/-- A script is run unless there is none or the interactive loop is asked for. -/
def Seen.request (seen : Seen) : Request :=
  match seen.file with
  | some path => if seen.interactive then .interactive else .script path
  | none => .interactive

/-- What the arguments ask for. -/
def Request.ofArguments (arguments : List String) : Request :=
  match Seen.arguments ⟨none, false, false⟩ arguments with
  | .ok seen => seen.request
  | .error request => request

/-- What there is under the name of a file. -/
inductive Entry
  | missing
  | unreadable (reason : String)
  | bytes (content : ByteArray)

def usage : String :=
  "A small expression language with closures\n\n" ++
  "Usage: cloudlang [OPTIONS] [FILE]\n\n" ++
  "Arguments:\n" ++
  "  [FILE]  The script file to execute\n\n" ++
  "Options:\n" ++
  "  -i, --interactive   Start in interactive REPL mode\n" ++
  "      --trace-parser  Log every parse rule as it is entered and left\n" ++
  "  -h, --help          Print help\n" ++
  "  -V, --version       Print version\n"

/-- What the program writes, and its exit code. -/
structure Exit where
  console : Console
  code : Nat

def failure (message : String) : Exit :=
  ⟨.onErr (message ++ "\n"), 1⟩

/-- Runs the script in a file. -/
def runFile? (depth : Nat) (path : String) (entry : Entry) : Option Exit :=
  let unreadable (reason : String) := failure ("Error reading file '" ++ path ++ "': " ++ reason)
  match entry with
  | .missing => some (failure ("Error: File '" ++ path ++ "' not found"))
  | .unreadable reason => some (unreadable reason)
  | .bytes content =>
    match String.fromUTF8? content with
    | none => some (unreadable "stream did not contain valid UTF-8")
    | some source =>
      (Script.run? depth source (some path)).map fun (outcome, console) =>
        ⟨console, if outcome.isFailure then 1 else 0⟩

/-- Carries out a request. -/
def Request.run? (depth : Nat) (files : String → Entry) (input : ByteArray) :
    Request → Option Exit
  | .version => some ⟨.onOut "cloudlang 0.1.0\n", 0⟩
  | .help => some ⟨.onOut usage, 0⟩
  | .misuse => some ⟨.onErr usage, 2⟩
  | .interactive => (Repl.run? depth input).map (⟨·, 0⟩)
  | .script path => runFile? depth path (files path)

end ClosureLang.CommandLine
