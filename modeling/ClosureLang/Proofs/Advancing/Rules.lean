import ClosureLang.Parser.Rules

/-!
# All rules and all loops

What there is to be said about moving forward is said of every rule of the parser and of every round
of its loops, with expressions to any depth.
-/

namespace ClosureLang.Parser

/-- Where a run has come to, whatever its result. -/
def stateOf {α : Type} : EStateM.Result Failure State α → State
  | .ok _ s => s
  | .error _ s => s

/-- The rules, for expressions to a depth of at most `depth`. -/
inductive Rule (depth : Nat) : (α : Type) → Parser α → Prop
  | program : Rule depth Program (program depth)
  | statements (stops : Kind → Bool) :
      Rule depth (List Stmt) (statements (expression depth) stops)
  | statement : Rule depth Stmt (statement (expression depth))
  | letStatement : Rule depth Stmt (letStatement (expression depth))
  | returnStatement : Rule depth Stmt (returnStatement (expression depth))
  | expressionStatement : Rule depth Stmt (expressionStatement (expression depth))
  | block : Rule depth Block (block (expression depth))
  | expression (limit : Precedence) : Rule depth Expr (expression depth limit)
  | opening (opening : Opening) : Rule depth Expr (opening.rule (expression depth))
  | parameters : Rule depth (List Identifier) parameters
  | arguments : Rule depth (List Expr) (arguments (expression depth))
  | continuation (continuation : Continuation) (left : Expr) :
      Rule depth Expr (continuation.rule (expression depth) left)

/-- The rounds of the loops: when there is one, and what it does. -/
inductive Round (depth : Nat) : (α β : Type) → (State → Option β) → (β → α → Parser α) → Prop
  | statements (stops : Kind → Bool) (hstops : stops .eof = true) :
      Round depth (List Stmt) Unit (fun s => guard (¬ stops s.current.kind))
        fun _ => addStatement (Parser.expression depth)
  | continuations (limit : Precedence) :
      Round depth Expr Continuation (continuation? limit) (extend (Parser.expression depth))
  | parameters :
      Round depth (List Identifier) Unit (fun s => guard (s.upcoming.kind = .comma))
        fun _ => addItem (Identifier.ofToken <$> expect .identifier none)
  | arguments :
      Round depth (List Expr) Unit (fun s => guard (s.upcoming.kind = .comma))
        fun _ => addItem do
          advance
          Parser.expression depth .lowest

end ClosureLang.Parser
