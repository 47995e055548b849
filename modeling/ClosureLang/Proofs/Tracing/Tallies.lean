import ClosureLang.Eval.Node
import ClosureLang.Parser.State
import ClosureLang.Proofs.Rendering.Lemmas.Counting
import Mathlib.Algebra.Ring.Nat

/-!
# Tallies

What is counted on a trace, in a tree and among the tokens of a source.
-/

namespace ClosureLang

/-- Entering the rule that reads an expression, whatever the limit and the first token. -/
def TraceEvent.entersExpression : TraceEvent → Bool
  | .enter (.expression _ _) => true
  | _ => false

/-! ## Nodes -/

mutual

/-- The nodes of a tree, each in front of those inside it. -/
def Stmt.nodes : Stmt → List Node
  | .letStmt token name value => .statement (.letStmt token name value) :: value.nodes
  | .returnStmt token value => .statement (.returnStmt token value) :: value.nodes
  | .exprStmt token expr => .statement (.exprStmt token expr) :: expr.nodes

def nodesOfStatements : List Stmt → List Node
  | [] => []
  | stmt :: stmts => stmt.nodes ++ nodesOfStatements stmts

def Block.nodes : Block → List Node
  | ⟨token, statements⟩ => .block ⟨token, statements⟩ :: nodesOfStatements statements

def Expr.nodes : Expr → List Node
  | .identifier name => [.expression (.identifier name)]
  | .integer token value => [.expression (.integer token value)]
  | .boolean token value => [.expression (.boolean token value)]
  | .prefixed token op right => .expression (.prefixed token op right) :: right.nodes
  | .infixed token left op right =>
    .expression (.infixed token left op right) :: (left.nodes ++ right.nodes)
  | .conditional token condition consequence alternative =>
    .expression (.conditional token condition consequence alternative) ::
      (condition.nodes ++ consequence.nodes ++ nodesOfAlternative alternative)
  | .function token parameters body =>
    .expression (.function token parameters body) :: body.nodes
  | .call token callee arguments =>
    .expression (.call token callee arguments) :: (callee.nodes ++ nodesOfAll arguments)

def nodesOfAlternative : Option Block → List Node
  | none => []
  | some block => block.nodes

def nodesOfAll : List Expr → List Node
  | [] => []
  | expr :: exprs => expr.nodes ++ nodesOfAll exprs

end

def Program.nodes (program : Program) : List Node :=
  .program program :: nodesOfStatements program.statements

namespace Node

/-- The rule that makes nodes of this kind. Names, numbers and truth values have none that the trace
shows. -/
def activity? : Node → Option Activity
  | .program _ => some .program
  | .statement (.letStmt _ _ _) => some .letStatement
  | .statement (.returnStmt _ _) => some .returnStatement
  | .statement (.exprStmt _ _) => some .expressionStatement
  | .block _ => some .block
  | .expression (.prefixed _ _ _) => some .prefixed
  | .expression (.infixed _ _ _ _) => some .infixed
  | .expression (.conditional _ _ _ _) => some .conditional
  | .expression (.function _ _ _) => some .function
  | .expression (.call _ _ _) => some .call
  | .expression _ => none

def isStatement : Node → Bool
  | .statement _ => true
  | _ => false

/-- The number of arguments, if it is a call. -/
def argumentCount : Node → Nat
  | .expression (.call _ _ arguments) => arguments.length
  | _ => 0

end Node

namespace Program

/-- The number of nodes of the kind that a rule makes. -/
def count (activity : Activity) (program : Program) : Nat :=
  program.nodes.countP fun node => node.activity? = some activity

def statementCount (program : Program) : Nat :=
  program.nodes.countP Node.isStatement

/-- The number of arguments in all calls together. -/
def argumentCount (program : Program) : Nat :=
  (program.nodes.map Node.argumentCount).sum

end Program

/-! ## Parentheses -/

/-- The opening parentheses that are there for grouping, `behind` being whether the token in front
is one behind which they are not. -/
def groupings : Bool → List Kind → Nat
  | _, [] => 0
  | behind, kind :: kinds =>
    (if kind = .leftParen ∧ behind = false then 1 else 0) + groupings kind.isEnd kinds

end ClosureLang
