import ClosureLang.Syntax.Render

/-!
# Trees without their tokens

A tree keeps the tokens it was made from. Its text depends on nothing of them but how words and
numbers were spelled.
-/

namespace ClosureLang

/-- The spelling of a token alone. -/
def Token.bare (token : Token) : Token :=
  ⟨.eof, token.literal, ⟨0, 0⟩⟩

def Identifier.bare (name : Identifier) : Identifier :=
  ⟨.eof 0, name.name⟩

mutual

def Stmt.bare : Stmt → Stmt
  | .letStmt token name value => .letStmt token.bare name.bare value.bare
  | .returnStmt token value => .returnStmt token.bare value.bare
  | .exprStmt _ expr => .exprStmt (.eof 0) expr.bare

def bareStatements : List Stmt → List Stmt
  | [] => []
  | stmt :: stmts => stmt.bare :: bareStatements stmts

def Block.bare : Block → Block
  | ⟨_, statements⟩ => ⟨.eof 0, bareStatements statements⟩

/-- The tree with no more of its tokens than is rendered. -/
def Expr.bare : Expr → Expr
  | .identifier name => .identifier name.bare
  | .integer token value => .integer token.bare value
  | .boolean token value => .boolean token.bare value
  | .prefixed _ op right => .prefixed (.eof 0) op right.bare
  | .infixed _ left op right => .infixed (.eof 0) left.bare op right.bare
  | .conditional _ condition consequence alternative =>
    .conditional (.eof 0) condition.bare consequence.bare (bareAlternative alternative)
  | .function token parameters body =>
    .function token.bare (parameters.map Identifier.bare) body.bare
  | .call _ callee arguments => .call (.eof 0) callee.bare (bareAll arguments)

def bareAlternative : Option Block → Option Block
  | none => none
  | some block => some block.bare

def bareAll : List Expr → List Expr
  | [] => []
  | expr :: exprs => expr.bare :: bareAll exprs

end

def Program.bare (program : Program) : Program :=
  ⟨bareStatements program.statements⟩

mutual

theorem Stmt.render_bare (stmt : Stmt) : stmt.bare.render = stmt.render := by
  match stmt with
  | .letStmt _ _ value =>
    simp only [Stmt.bare, Stmt.render, Token.bare, Identifier.bare, value.render_bare]
  | .returnStmt _ value => simp only [Stmt.bare, Stmt.render, Token.bare, value.render_bare]
  | .exprStmt _ expr => simp only [Stmt.bare, Stmt.render, expr.render_bare]

theorem render_bareStatements (stmts : List Stmt) :
    renderStatements (bareStatements stmts) = renderStatements stmts := by
  match stmts with
  | [] => rfl
  | stmt :: stmts =>
      simp only [bareStatements, renderStatements, stmt.render_bare, render_bareStatements stmts]

theorem Block.render_bare (block : Block) : block.bare.render = block.render := by
  match block with
  | ⟨_, stmts⟩ => simp only [Block.bare, Block.render, render_bareStatements stmts]

theorem Expr.render_bare (expr : Expr) : expr.bare.render = expr.render := by
  match expr with
  | .identifier _ => rfl
  | .integer _ _ => rfl
  | .boolean _ _ => rfl
  | .prefixed _ _ right => simp only [Expr.bare, Expr.render, right.render_bare]
  | .infixed _ left _ right =>
    simp only [Expr.bare, Expr.render, left.render_bare, right.render_bare]
  | .conditional _ condition consequence alternative =>
      simp only [Expr.bare, Expr.render, condition.render_bare, consequence.render_bare,
        render_bareAlternative alternative]
  | .function _ parameters body =>
      have hnames : (parameters.map Identifier.bare).map Identifier.name =
          parameters.map Identifier.name := by
        rw [List.map_map]
        rfl
      simp only [Expr.bare, Expr.render, Token.bare, hnames, body.render_bare]
  | .call _ callee arguments =>
      simp only [Expr.bare, Expr.render, callee.render_bare, render_bareAll arguments]

theorem render_bareAlternative (alternative : Option Block) :
    renderAlternative (bareAlternative alternative) = renderAlternative alternative := by
  match alternative with
  | none => rfl
  | some block => simp only [bareAlternative, renderAlternative, block.render_bare]

theorem render_bareAll (exprs : List Expr) : renderAll (bareAll exprs) = renderAll exprs := by
  match exprs with
  | [] => rfl
  | expr :: exprs => simp only [bareAll, renderAll, expr.render_bare, render_bareAll exprs]

end

/-- Programs that differ in their tokens alone have the same text. -/
theorem Program.render_eq_of_bare_eq {p q : Program} (h : p.bare = q.bare) :
    p.render = q.render := by
  have hs : bareStatements p.statements = bareStatements q.statements :=
    congrArg Program.statements h
  rw [Program.render, Program.render, ← render_bareStatements, hs, render_bareStatements]

end ClosureLang
