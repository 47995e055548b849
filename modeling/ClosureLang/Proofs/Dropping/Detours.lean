import ClosureLang.Parser.Program
import ClosureLang.Proofs.Advancing.Rules

/-!
# Detours

There are places at which the parser could leave a construct without a word, and one at which it
goes on behind a statement that has been dropped. Here it may do anything else at these places. The
rules without such a place are what they are.
-/

namespace ClosureLang.Parser

/-- What is done instead, at each of the places. -/
structure Detours where
  /-- The rule for prefix operators stands at a token that is none. -/
  noPrefixOp : Parser Expr
  /-- The rule for infix operators stands at a token that is none. -/
  noInfixOp : Parser Expr
  /-- The next token binds tighter than the limit, but no rule continues the expression. -/
  noContinuation : Expr → Parser Expr
  /-- A statement has been dropped behind those that have been read. -/
  dropped : List Stmt → Parser (List Stmt)

namespace Detours

/-- A statement that has been dropped is passed over, as it always is. -/
def PassesOver (detours : Detours) : Prop :=
  ∀ read, detours.dropped read = do
    advance
    return read

variable (detours : Detours)

section

variable (descend : Precedence → Parser Expr)

def addStatement (read : List Stmt) : Parser (List Stmt) := do
  match ← attempt (statement descend) with
  | some stmt =>
    advance
    return stmt :: read
  | none => detours.dropped read

def statements (stops : Kind → Bool) : Parser (List Stmt) := do
  let read ← loop (fun s => guard (¬ stops s.current.kind))
    (fun _ => detours.addStatement descend) []
  return read.reverse

def block : Parser Block := within .block do
  let token ← current
  advance
  let stmts ← detours.statements descend (fun kind => kind = .rightBrace ∨ kind = .eof)
  let last ← current
  if last.kind = .eof then
    reject ⟨last, .unclosed token⟩
  else
    return ⟨token, stmts⟩

def prefixed : Parser Expr := within .prefixed do
  let token ← current
  match PrefixOp.ofKind? token.kind with
  | none => detours.noPrefixOp
  | some op =>
    advance
    return .prefixed token op (← descend .prefixed)

def conditional : Parser Expr := within .conditional do
  let token ← current
  let _ ← expect .leftParen (some .openCondition)
  advance
  let condition ← descend .lowest
  let _ ← expect .rightParen (some .closeCondition)
  let _ ← expect .leftBrace (some .consequence)
  let consequence ← detours.block descend
  if (← upcoming).kind = .elseWord then
    advance
    let _ ← expect .leftBrace (some .alternative)
    return .conditional token condition consequence (some (← detours.block descend))
  else
    return .conditional token condition consequence none

def function : Parser Expr := within .function do
  let token ← current
  let _ ← expect .leftParen (some .parameters)
  let names ← parameters
  let _ ← expect .leftBrace (some .body)
  return .function token names (← detours.block descend)

def opening : Opening → Parser Expr
  | .prefixed => detours.prefixed descend
  | .conditional => detours.conditional descend
  | .function => detours.function descend
  | other => other.rule descend

def infixed (left : Expr) : Parser Expr := within .infixed do
  let token ← current
  match InfixOp.ofKind? token.kind with
  | none => detours.noInfixOp
  | some op =>
    advance
    return .infixed token left op (← descend (Precedence.ofKind token.kind))

def continuation : Continuation → Expr → Parser Expr
  | .infixed => detours.infixed descend
  | .call => call descend

/-- Whether the next token binds, and then the rule for it, if there is one. -/
def continuation? (limit : Precedence) (s : State) : Option (Option Continuation) :=
  let kind := s.upcoming.kind
  if kind ≠ .semicolon ∧ limit < Precedence.ofKind kind then some (Continuation.ofKind? kind)
  else none

def extend : Option Continuation → Expr → Parser Expr
  | none, left => detours.noContinuation left
  | some continuation, left => do
    advance
    detours.continuation descend continuation left

def expressionStep (limit : Precedence) : Parser Expr := do
  let first ← current
  within (.expression limit first) do
    match Opening.ofKind? first.kind with
    | none => reject ⟨first, .cannotStart⟩
    | some opening =>
      let left ← detours.opening descend opening
      loop (continuation? limit) (detours.extend descend) left

end

def expression : Nat → Precedence → Parser Expr
  | 0, _ => throw .exhausted
  | depth + 1, limit => detours.expressionStep (expression depth) limit

def program (depth : Nat) : Parser Program := within .program do
  return ⟨← detours.statements (detours.expression depth) (fun kind => kind = .eof)⟩

end Detours

/-! ## Rules and what they come to -/

/-- The rules that may be begun in a state, each as it is and with detours. One that is chosen by a
token is begun at a token that it is chosen for. -/
inductive RuleAt (detours : Detours) (depth : Nat) (s : State) :
    (α : Type) → Parser α → Parser α → Prop
  | statement :
      RuleAt detours depth s Stmt (statement (expression depth))
        (statement (detours.expression depth))
  | expression (limit : Precedence) :
      RuleAt detours depth s Expr (expression depth limit) (detours.expression depth limit)
  | block :
      RuleAt detours depth s Block (block (expression depth))
        (detours.block (detours.expression depth))
  | parameters : RuleAt detours depth s (List Identifier) parameters parameters
  | arguments :
      RuleAt detours depth s (List Expr) (arguments (expression depth))
        (arguments (detours.expression depth))
  | opening {opening : Opening} :
      Opening.ofKind? s.current.kind = some opening →
      RuleAt detours depth s Expr (opening.rule (Parser.expression depth))
        (detours.opening (detours.expression depth) opening)
  | continuation {continuation : Continuation} (left : Expr) :
      Continuation.ofKind? s.current.kind = some continuation →
      RuleAt detours depth s Expr (continuation.rule (Parser.expression depth) left)
        (detours.continuation (detours.expression depth) continuation left)

/-- What a run from `s` comes to that accounts for what it drops: it adds to the errors, and if it
has no result, it has added at least one. -/
inductive Accounts {α : Type} (s : State) : EStateM.Result Failure State α → Prop
  | ok {a : α} {s' : State} : s.errors <:+ s'.errors → Accounts s (.ok a s')
  | dropped {s' : State} {errors : List SyntaxError} :
      errors ≠ [] → s'.errors = errors ++ s.errors → Accounts s (.error .dropped s')

end ClosureLang.Parser
