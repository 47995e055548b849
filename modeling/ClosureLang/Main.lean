import ClosureLang.CommandLine

/-!
# The program

The command line on the arguments, the files and the standard streams that the program is started
with.
-/

namespace ClosureLang.Main

/-- More calls inside each other than memory has room for. -/
def unboundedDepth : Nat :=
  1 <<< 62

def write (console : Console) : IO Unit := do
  IO.print console.out
  (← IO.getStdout).flush
  IO.eprint console.err

/-- The reason that the operating system gives for a file that cannot be read. -/
def readFailure : IO.Error → String
  | .inappropriateType _ code details | .permissionDenied _ code details =>
    details ++ " (os error " ++ toString code ++ ")"
  | error => toString error

def fileEntry (path : String) : IO CommandLine.Entry := do
  try
    return .bytes (← IO.FS.readBinFile path)
  catch
    | .noFileOrDirectory _ _ _ => return .missing
    | error => return .unreadable (readFailure error)

/-- The bytes of a line, with the line feed that ends it; there are none at the end of the input. -/
partial def readLine (stream : IO.FS.Stream) (read : Array UInt8) : IO (Array UInt8) := do
  let bytes ← stream.read 1
  match bytes.data[0]? with
  | none => return read
  | some byte => if byte = 10 then return read.push byte else readLine stream (read.push byte)

partial def interact (session : Session) : IO Unit := do
  write (.onOut Repl.prompt)
  let line ← readLine (← IO.getStdin) #[]
  let input := if line.isEmpty then Repl.Input.finished else .ofBytes line.toList
  match Repl.turn? unboundedDepth session input with
  | none => return
  | some turn =>
    write turn.console
    match turn.session with
    | some session => interact session
    | none => return

end ClosureLang.Main

open ClosureLang ClosureLang.Main

def main (arguments : List String) : IO UInt32 := do
  let request := CommandLine.Request.ofArguments arguments
  match request with
  | .interactive =>
    write (.onOut Repl.greeting)
    interact .new
    return 0
  | _ =>
    let entry ←
      match request with
      | .script path => fileEntry path
      | _ => pure .missing
    match request.run? unboundedDepth (fun _ => entry) ByteArray.empty with
    | none => return 1
    | some answer =>
      write answer.console
      return answer.code.toUInt32
