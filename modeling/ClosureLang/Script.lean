import ClosureLang.Console
import ClosureLang.Session

/-!
# Scripts

A source that is run on its own, with its value as the answer.
-/

namespace ClosureLang.Script

/-- The value goes to standard output; errors of either sort go to standard error. -/
def console (outcome : Outcome) (source : String) (filename : Option String) : Console :=
  match outcome with
  | .syntaxErrors errors => .onErr (reportAll errors source filename)
  | .value (some object) =>
    let line := object.inspect ++ "\n"
    if object.isError then .onErr line else .onOut line
  | .value none => .empty

/-- Runs a script. There is no result if more than `depth` calls are inside each other. -/
def run? (depth : Nat) (source : String) (filename : Option String) : Option (Outcome × Console) :=
  (Session.new.run? depth source).map fun (outcome, _) =>
    (outcome, console outcome source filename)

end ClosureLang.Script
