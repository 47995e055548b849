import ClosureLang.Syntax.Tree

/-!
# The text of a syntax tree

Operators are fully parenthesised. The statements of a list follow each other without a separator.
-/

namespace ClosureLang

/-- The items with a comma and a blank between neighbours. -/
def commaSeparated (items : List String) : String :=
  ", ".intercalate items

mutual

def Stmt.render : Stmt → String
  | .letStmt token name value => token.literal ++ " " ++ name.name ++ " = " ++ value.render ++ ";"
  | .returnStmt token value => token.literal ++ " " ++ value.render ++ ";"
  | .exprStmt _ expr => expr.render

def renderStatements : List Stmt → String
  | [] => ""
  | stmt :: stmts => stmt.render ++ renderStatements stmts

def Block.render : Block → String
  | ⟨_, statements⟩ => renderStatements statements

def Expr.render : Expr → String
  | .identifier name => name.name
  | .integer token _ => token.literal
  | .boolean token _ => token.literal
  | .prefixed _ op right => "(" ++ op.symbol ++ right.render ++ ")"
  | .infixed _ left op right =>
    "(" ++ left.render ++ " " ++ op.symbol ++ " " ++ right.render ++ ")"
  | .conditional _ condition consequence alternative =>
    "if (" ++ condition.render ++ ") \x7b " ++ consequence.render ++ " \x7d" ++
      renderAlternative alternative
  | .function token parameters body =>
    token.literal ++ "(" ++ commaSeparated (parameters.map Identifier.name) ++ ") \x7b " ++
      body.render ++ " \x7d"
  | .call _ callee arguments => callee.render ++ "(" ++ commaSeparated (renderAll arguments) ++ ")"

def renderAlternative : Option Block → String
  | none => ""
  | some block => " else \x7b " ++ block.render ++ " \x7d"

def renderAll : List Expr → List String
  | [] => []
  | expr :: exprs => expr.render :: renderAll exprs

end

def Program.render (program : Program) : String :=
  renderStatements program.statements

end ClosureLang
