import ClosureLang.Console
import ClosureLang.Session
import ClosureLang.Text.WhiteSpace

/-!
# The interactive loop

Every line is a program of one session.
-/

namespace ClosureLang.Repl

def greeting : String :=
  "CloudLang Interpreter v0.1.0\nType 'exit' or press Ctrl+D to quit\n\n"

def prompt : String :=
  ">> "

/-- What a reader of lines comes across. -/
inductive Input
  | line (text : String)
  /-- The bytes of the line are not UTF-8. -/
  | undecodable
  | finished

/-- What the loop writes in answer to an input, and the session if it goes on. -/
structure Turn where
  console : Console
  session : Option Session

/-- Answers one line. A failure is a value like any other. -/
def answer? (depth : Nat) (session : Session) (line : String) : Option Turn :=
  (session.run? depth line).map fun (outcome, session) =>
    let console :=
      match outcome with
      | .syntaxErrors errors => .onErr (reportAll errors line none)
      | .value (some object) => .onOut (object.inspect ++ "\n")
      | .value none => .empty
    ⟨console, some session⟩

/-- Answers an input. Blank lines are passed over, and `exit` in any case ends the loop. -/
def turn? (depth : Nat) (session : Session) : Input → Option Turn
  | .line text =>
    let command := String.ofList (trim text.toList)
    if command.isEmpty then some ⟨.empty, some session⟩
    else if command.map Char.toLower = "exit" then some ⟨.empty, none⟩
    else answer? depth session command
  | .undecodable =>
    some ⟨.onErr "Error reading input: stream did not contain valid UTF-8\n", none⟩
  | .finished => some ⟨.onOut "\n", none⟩

/-- All that the loop writes on a list of inputs, from the first prompt on. -/
def play? (depth : Nat) (session : Session) : List Input → Option Console
  | [] => some .empty
  | input :: inputs => do
    let turn ← turn? depth session input
    let written := .onOut prompt ++ turn.console
    match turn.session with
    | some session => return written ++ (← play? depth session inputs)
    | none => return written

/-- The lines of a stream of bytes. A line feed ends a line; the last line may do without. -/
def splitLines : List UInt8 → List (List UInt8)
  | [] => []
  | byte :: rest =>
    if byte = 10 then [byte] :: splitLines rest
    else
      match splitLines rest with
      | [] => [[byte]]
      | line :: more => (byte :: line) :: more

def Input.ofBytes (bytes : List UInt8) : Input :=
  match String.fromUTF8? ⟨bytes.toArray⟩ with
  | some text => .line text
  | none => .undecodable

/-- The inputs that a stream of bytes holds, with its end. -/
def inputs (bytes : ByteArray) : List Input :=
  (splitLines bytes.toList).map Input.ofBytes ++ [.finished]

/-- Runs the loop on a stream of bytes. -/
def run? (depth : Nat) (bytes : ByteArray) : Option Console :=
  (play? depth Session.new (inputs bytes)).map (.onOut greeting ++ ·)

end ClosureLang.Repl
