import ClosureLang.Syntax.Tree

/-!
# The tokens that nodes carry

The tokens of the nodes of a tree in the order of the source, and what each of them has to do with
its node. An expression statement has no token but those of its expression; the one it keeps is
where its text begins.
-/

namespace ClosureLang

/-! ## In the order of the source -/

mutual

def Stmt.nodeTokens : Stmt → List Token
  | .letStmt token name value => token :: name.token :: value.nodeTokens
  | .returnStmt token value => token :: value.nodeTokens
  | .exprStmt _ expr => expr.nodeTokens

def nodeTokensOfStatements : List Stmt → List Token
  | [] => []
  | stmt :: stmts => stmt.nodeTokens ++ nodeTokensOfStatements stmts

/-- The token of a block is its opening brace. -/
def Block.nodeTokens : Block → List Token
  | ⟨token, statements⟩ => token :: nodeTokensOfStatements statements

def Expr.nodeTokens : Expr → List Token
  | .identifier name => [name.token]
  | .integer token _ => [token]
  | .boolean token _ => [token]
  | .prefixed token _ right => token :: right.nodeTokens
  | .infixed token left _ right => left.nodeTokens ++ token :: right.nodeTokens
  | .conditional token condition consequence alternative =>
    token :: (condition.nodeTokens ++
      (consequence.nodeTokens ++ nodeTokensOfAlternative alternative))
  | .function token parameters body =>
    token :: (parameters.map Identifier.token ++ body.nodeTokens)
  | .call token callee arguments => callee.nodeTokens ++ token :: nodeTokensOfAll arguments

def nodeTokensOfAlternative : Option Block → List Token
  | none => []
  | some block => block.nodeTokens

def nodeTokensOfAll : List Expr → List Token
  | [] => []
  | expr :: exprs => expr.nodeTokens ++ nodeTokensOfAll exprs

end

def Program.nodeTokens (program : Program) : List Token :=
  nodeTokensOfStatements program.statements

/-! ## Tokens that fit -/

/-- A name is the text of its token. -/
structure Identifier.Fits (name : Identifier) : Prop where
  kind : name.token.kind = .identifier
  literal : name.name = name.token.literal

/-- In `stream`, the first of the tokens `nodes` is `token`, or there are only opening parentheses
from `token` up to it. -/
def Token.Opens (stream : List Token) (token : Token) (nodes : List Token) : Prop :=
  ∃ parens first others, nodes = first :: others ∧ (parens ++ [first]) <:+: stream ∧
    (parens ++ [first]).head? = some token ∧ ∀ paren ∈ parens, paren.kind = .leftParen

variable (stream : List Token)

mutual

def Stmt.Fits : Stmt → Prop
  | .letStmt token name value => token.kind = .letWord ∧ name.Fits ∧ value.Fits
  | .returnStmt token value => token.kind = .returnWord ∧ value.Fits
  | .exprStmt token expr => token.Opens stream expr.nodeTokens ∧ expr.Fits

def FittingStatements : List Stmt → Prop
  | [] => True
  | stmt :: stmts => stmt.Fits ∧ FittingStatements stmts

def Block.Fits : Block → Prop
  | ⟨token, statements⟩ => token.kind = .leftBrace ∧ FittingStatements statements

/-- Every token of a tree that was made from the tokens `stream` fits its node. -/
def Expr.Fits : Expr → Prop
  | .identifier name => name.Fits
  | .integer token value =>
    token.kind = .integer ∧ value.toInt = Nat.ofDigitChars 10 token.literal.toList 0
  | .boolean token value => token.kind = if value then .trueWord else .falseWord
  | .prefixed token op right =>
    PrefixOp.ofKind? token.kind = some op ∧ token.literal = op.symbol ∧ right.Fits
  | .infixed token left op right =>
    left.Fits ∧ InfixOp.ofKind? token.kind = some op ∧ token.literal = op.symbol ∧ right.Fits
  | .conditional token condition consequence alternative =>
    token.kind = .ifWord ∧ condition.Fits ∧ consequence.Fits ∧ FittingAlternative alternative
  | .function token parameters body =>
    token.kind = .fnWord ∧ (∀ name ∈ parameters, name.Fits) ∧ body.Fits
  | .call token callee arguments =>
    callee.Fits ∧ token.kind = .leftParen ∧ FittingAll arguments

def FittingAlternative : Option Block → Prop
  | none => True
  | some block => block.Fits

def FittingAll : List Expr → Prop
  | [] => True
  | expr :: exprs => expr.Fits ∧ FittingAll exprs

end

end ClosureLang
