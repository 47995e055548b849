import ClosureLang.Syntax.Render
import ClosureLang.Token.Scanner

/-!
# Statements that stay apart

Nothing stands between the text of an expression statement and the text of the statement behind it.
The two stay apart unless they are read as one word or number, or as a call.
-/

namespace ClosureLang

/-- Whether an expression that ends with `c` goes on with `d`. -/
def joins (c d : Char) : Bool :=
  d == '(' || c.isAlpha && d.isAlpha || c.isDigit && d.isDigit

/-- Whether the first text runs into the second one. -/
def runsInto (text behind : String) : Bool :=
  match text.toList.getLast?, behind.toList.head? with
  | some c, some d => joins c d
  | _, _ => false

/-- A statement that is rendered without a semicolon. -/
def Stmt.isOpen : Stmt → Bool
  | .exprStmt _ _ => true
  | _ => false

mutual

/-- Whether no statement in a tree runs into the one behind it. -/
def Stmt.separated : Stmt → Bool
  | .letStmt _ _ value => value.separated
  | .returnStmt _ value => value.separated
  | .exprStmt _ expr => expr.separated

def separatedStatements : List Stmt → Bool
  | [] => true
  | stmt :: stmts =>
    stmt.separated && !(stmt.isOpen && runsInto stmt.render (renderStatements stmts)) &&
      separatedStatements stmts

def Block.separated : Block → Bool
  | ⟨_, statements⟩ => separatedStatements statements

def Expr.separated : Expr → Bool
  | .identifier _ => true
  | .integer _ _ => true
  | .boolean _ _ => true
  | .prefixed _ _ right => right.separated
  | .infixed _ left _ right => left.separated && right.separated
  | .conditional _ condition consequence alternative =>
    condition.separated && consequence.separated && separatedAlternative alternative
  | .function _ _ body => body.separated
  | .call _ callee arguments => callee.separated && separatedAll arguments

def separatedAlternative : Option Block → Bool
  | none => true
  | some block => block.separated

def separatedAll : List Expr → Bool
  | [] => true
  | expr :: exprs => expr.separated && separatedAll exprs

end

def Program.separated (program : Program) : Bool :=
  separatedStatements program.statements

end ClosureLang
