import ClosureLang.Integer
import ClosureLang.Parser.State
import ClosureLang.Syntax.Tree

/-!
# The rules of the grammar

Each rule starts at the first token of its construct and stops at the last one. `descend` reads an
expression whose operators all bind tighter than a limit; the rules use it for the expressions
inside their own, each time with a token of their own behind them.
-/

namespace ClosureLang.Parser

/-! ## Which rule applies -/

/-- The rules that read the beginning of an expression. -/
inductive Opening
  | identifier
  | integer
  | boolean
  | prefixed
  | grouped
  | conditional
  | function
deriving DecidableEq

def Opening.ofKind? : Kind → Option Opening
  | .identifier => some identifier
  | .integer => some integer
  | .trueWord | .falseWord => some boolean
  | .bang | .minus => some prefixed
  | .leftParen => some grouped
  | .ifWord => some conditional
  | .fnWord => some function
  | _ => none

/-- The rules that continue an expression. -/
inductive Continuation
  | infixed
  | call
deriving DecidableEq

def Continuation.ofKind? : Kind → Option Continuation
  | .plus | .minus | .asterisk | .slash => some infixed
  | .less | .greater | .lessEqual | .greaterEqual => some infixed
  | .equal | .notEqual => some infixed
  | .leftParen => some call
  | _ => none

/-- How the expression goes on: not over a semicolon, and only with what binds tighter than `limit`.
-/
def continuation? (limit : Precedence) (s : State) : Option Continuation :=
  let kind := s.upcoming.kind
  if kind ≠ .semicolon ∧ limit < Precedence.ofKind kind then Continuation.ofKind? kind else none

/-! ## Statements -/

section

variable (descend : Precedence → Parser Expr)

/-- A semicolon may end a statement. -/
def optionalSemicolon : Parser Unit := do
  if (← upcoming).kind = .semicolon then advance

def letStatement : Parser Stmt := within .letStatement do
  let token ← current
  let name ← expect .identifier none
  let _ ← expect .assign none
  advance
  let value ← descend .lowest
  optionalSemicolon
  return .letStmt token (.ofToken name) value

def returnStatement : Parser Stmt := within .returnStatement do
  let token ← current
  advance
  let value ← descend .lowest
  optionalSemicolon
  return .returnStmt token value

def expressionStatement : Parser Stmt := within .expressionStatement do
  let token ← current
  let expr ← descend .lowest
  optionalSemicolon
  return .exprStmt token expr

def statement : Parser Stmt := do
  match (← current).kind with
  | .letWord => letStatement descend
  | .returnWord => returnStatement descend
  | _ => expressionStatement descend

/-- One more statement, if it is not dropped, on top of those read so far. Reading goes on after the
token at which the statement ends or failed. -/
def addStatement (read : List Stmt) : Parser (List Stmt) := do
  let stmt? ← attempt (statement descend)
  advance
  return stmt?.toList ++ read

/-- The statements up to a token at which the list stops. -/
def statements (stops : Kind → Bool) : Parser (List Stmt) := do
  let read ← loop (fun s => guard (¬ stops s.current.kind)) (fun _ => addStatement descend) []
  return read.reverse

def block : Parser Block := within .block do
  let token ← current
  advance
  let stmts ← statements descend (fun kind => kind = .rightBrace ∨ kind = .eof)
  let last ← current
  if last.kind = .eof then
    reject ⟨last, .unclosed token⟩
  else
    return ⟨token, stmts⟩

/-! ## Expressions -/

def identifier : Parser Expr :=
  return .identifier (.ofToken (← current))

def integer : Parser Expr := do
  let token ← current
  match Integer.ofDigits? token.literal with
  | some value => return .integer token value
  | none => reject ⟨token, .outOfRange⟩

def boolean : Parser Expr := do
  let token ← current
  return .boolean token (token.kind = .trueWord)

/-- The operator exists for every token that the rule is chosen for. -/
def prefixed : Parser Expr := within .prefixed do
  let token ← current
  match PrefixOp.ofKind? token.kind with
  | none => throw .dropped
  | some op =>
    advance
    return .prefixed token op (← descend .prefixed)

def grouped : Parser Expr := do
  advance
  let expr ← descend .lowest
  let _ ← expect .rightParen none
  return expr

def conditional : Parser Expr := within .conditional do
  let token ← current
  let _ ← expect .leftParen (some .openCondition)
  advance
  let condition ← descend .lowest
  let _ ← expect .rightParen (some .closeCondition)
  let _ ← expect .leftBrace (some .consequence)
  let consequence ← block descend
  if (← upcoming).kind = .elseWord then
    advance
    let _ ← expect .leftBrace (some .alternative)
    return .conditional token condition consequence (some (← block descend))
  else
    return .conditional token condition consequence none

/-- One more item behind a comma, on top of those read so far. -/
def addItem {α : Type} (item : Parser α) (read : List α) : Parser (List α) := do
  advance
  return (← item) :: read

/-- The items from `first` on, as long as commas follow. -/
def items {α : Type} (item : Parser α) (first : α) : Parser (List α) := do
  let read ← loop (fun s => guard (s.upcoming.kind = .comma)) (fun _ => addItem item) [first]
  return read.reverse

/-- The parameters of a function literal, from its opening parenthesis to the closing one. -/
def parameters : Parser (List Identifier) := do
  if (← upcoming).kind = .rightParen then
    advance
    return []
  else
    let parameter := Identifier.ofToken <$> expect .identifier none
    let names ← items parameter (← parameter)
    let _ ← expect .rightParen none
    return names

def function : Parser Expr := within .function do
  let token ← current
  let _ ← expect .leftParen (some .parameters)
  let names ← parameters
  let _ ← expect .leftBrace (some .body)
  return .function token names (← block descend)

/-- The arguments of a call, from its opening parenthesis to the closing one. -/
def arguments : Parser (List Expr) := do
  if (← upcoming).kind = .rightParen then
    advance
    return []
  else
    let argument := do
      advance
      descend .lowest
    let exprs ← items argument (← argument)
    let _ ← expect .rightParen (some .closeArguments)
    return exprs

def Opening.rule : Opening → Parser Expr
  | identifier => Parser.identifier
  | integer => Parser.integer
  | boolean => Parser.boolean
  | prefixed => Parser.prefixed descend
  | grouped => Parser.grouped descend
  | conditional => Parser.conditional descend
  | function => Parser.function descend

/-- The operator exists for every token that the rule is chosen for. -/
def infixed (left : Expr) : Parser Expr := within .infixed do
  let token ← current
  match InfixOp.ofKind? token.kind with
  | none => throw .dropped
  | some op =>
    advance
    return .infixed token left op (← descend (Precedence.ofKind token.kind))

def call (callee : Expr) : Parser Expr := within .call do
  let token ← current
  return .call token callee (← arguments descend)

def Continuation.rule : Continuation → Expr → Parser Expr
  | infixed => Parser.infixed descend
  | call => Parser.call descend

/-- The expression that continues `left`. -/
def extend (continuation : Continuation) (left : Expr) : Parser Expr := do
  advance
  continuation.rule descend left

/-- An expression whose operators all bind tighter than `limit`, up to the first token that does not
continue it. -/
def expressionStep (limit : Precedence) : Parser Expr := do
  let first ← current
  within (.expression limit first) do
    match Opening.ofKind? first.kind with
    | none => reject ⟨first, .cannotStart⟩
    | some opening =>
      let left ← opening.rule descend
      loop (continuation? limit) (extend descend) left

end

/-- Expressions that contain each other to a depth of at most `depth`. -/
def expression : Nat → Precedence → Parser Expr
  | 0, _ => throw .exhausted
  | depth + 1, limit => expressionStep (expression depth) limit

/-- The statements up to the end of the source. -/
def program (depth : Nat) : Parser Program := within .program do
  return ⟨← statements (expression depth) (fun kind => kind = .eof)⟩

end ClosureLang.Parser
