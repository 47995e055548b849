import ClosureLang.Syntax.Operator

/-!
# Syntax trees

Every node keeps the token it was made from. Parentheses for grouping leave no node.
-/

namespace ClosureLang

structure Identifier where
  token : Token
  name : String
deriving DecidableEq

namespace Identifier

def ofToken (token : Token) : Identifier :=
  ⟨token, token.literal⟩

end Identifier

mutual

inductive Stmt
  | letStmt (token : Token) (name : Identifier) (value : Expr)
  | returnStmt (token : Token) (value : Expr)
  | exprStmt (token : Token) (expr : Expr)

structure Block where
  token : Token
  statements : List Stmt

inductive Expr
  | identifier (name : Identifier)
  | integer (token : Token) (value : Int64)
  | boolean (token : Token) (value : Bool)
  | prefixed (token : Token) (op : PrefixOp) (right : Expr)
  | infixed (token : Token) (left : Expr) (op : InfixOp) (right : Expr)
  | conditional (token : Token) (condition : Expr) (consequence : Block)
      (alternative : Option Block)
  | function (token : Token) (parameters : List Identifier) (body : Block)
  | call (token : Token) (callee : Expr) (arguments : List Expr)

end

def Stmt.token : Stmt → Token
  | .letStmt token _ _ => token
  | .returnStmt token _ => token
  | .exprStmt token _ => token

def Expr.token : Expr → Token
  | .identifier name => name.token
  | .integer token _ => token
  | .boolean token _ => token
  | .prefixed token _ _ => token
  | .infixed token _ _ _ => token
  | .conditional token _ _ _ => token
  | .function token _ _ => token
  | .call token _ _ => token

structure Program where
  statements : List Stmt

/-- The text of the first token of a program, empty if it has no statement. -/
def Program.tokenLiteral (program : Program) : String :=
  match program.statements with
  | [] => ""
  | stmt :: _ => stmt.token.literal

end ClosureLang
