import ClosureLang.Diagnostic.Layout
import ClosureLang.Eval.Node
import ClosureLang.Parser.Program

/-!
# Sessions

Programs that run one after another on the same bindings.
-/

namespace ClosureLang

/-- A store, and the scope in which the programs of a session run. -/
structure Session where
  store : Store
  scope : ScopeId

/-- What comes of a source: it is not a program, or it has been evaluated. -/
inductive Outcome
  | syntaxErrors (errors : List SyntaxError)
  | value (value : Option Object)

namespace Outcome

def isFailure : Outcome → Bool
  | syntaxErrors _ => true
  | value (some object) => object.isError
  | value none => false

/-- The diagnostics of the syntax errors, if there are any. -/
def report (outcome : Outcome) (source : String) (filename : Option String) : String :=
  match outcome with
  | syntaxErrors errors => reportAll errors source filename
  | value _ => ""

end Outcome

namespace Session

/-- A session in which nothing is bound. -/
def new : Session :=
  let (scope, store) := Store.empty.newScope none
  ⟨store, scope⟩

/-- Evaluates a source, unless it has syntax errors; then nothing is evaluated. There is no result
if more than `depth` calls are inside each other. -/
def run? (depth : Nat) (session : Session) (source : String) : Option (Outcome × Session) :=
  let parsed := parse source
  if parsed.errors.isEmpty then
    ((Node.program parsed.program).evaluate? depth session.scope session.store).map fun result =>
      (.value result.value, { session with store := result.store })
  else
    some (.syntaxErrors parsed.errors, session)

end Session

end ClosureLang
