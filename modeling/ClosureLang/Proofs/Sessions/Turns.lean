import ClosureLang.Proofs.Placing.Placed
import ClosureLang.Proofs.Running.Lemmas.Sequencing
import ClosureLang.Session

/-!
# Sources in turn

The sources of a session run one after another, each on what the ones before it have left.
-/

namespace ClosureLang

/-- A source that ran in a session: the session as it was before and after, and what came of it. -/
structure Turn where
  source : String
  before : Session
  outcome : Outcome
  after : Session

namespace Session

/-- The turns of sources that run in a session, each in what the one before it has left. There are
none if one of the sources has no result. -/
def turns? (depth : Nat) (session : Session) : List String → Option (List Turn)
  | [] => some []
  | source :: sources =>
    (session.run? depth source).bind fun (outcome, after) =>
      (after.turns? depth sources).map (⟨source, session, outcome, after⟩ :: ·)

/-- The session after some turns. -/
def afterTurns (session : Session) (turns : List Turn) : Session :=
  (turns.getLast?.map Turn.after).getD session

def unplaced (session : Session) : Session :=
  ⟨session.store.unplaced, session.scope⟩

end Session

def Outcome.unplaced : Outcome → Outcome
  | .syntaxErrors errors => .syntaxErrors (errors.map (SyntaxError.placed nowhere))
  | .value answer => .value (answer.map Object.unplaced)

/-- Whether statements, evaluated one after another, all go through: none of them fails, and none
yields anything returned. -/
def Run.completes (enter : Block → ScopeId → Run Object) (scope : ScopeId) :
    List Stmt → Run.State → Bool
  | [], _ => true
  | stmt :: stmts, s =>
    match statement enter stmt scope s with
    | .ok value s => goesOn value && completes enter scope stmts s
    | .error _ _ => false

namespace Turn

def statements (turn : Turn) : List Stmt :=
  (parse turn.source).program.statements

/-- Whether all statements of the source go through. -/
def completes (depth : Nat) (turn : Turn) : Bool :=
  Run.completes (Run.body depth) turn.before.scope turn.statements ⟨turn.before.store, []⟩

/-- What the last source says that has a statement. -/
def lastOutcome (turns : List Turn) : Outcome :=
  ((turns.filter (! ·.statements.isEmpty)).getLast?.map outcome).getD (.value none)

end Turn

/-- A source without syntax errors that ends with a semicolon, or has no tokens. -/
structure Closed (source : String) : Prop where
  errors : (parse source).errors = []
  last : ∀ token ∈ (scan source).getLast?, token.kind = .semicolon

end ClosureLang
