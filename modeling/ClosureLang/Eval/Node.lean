import ClosureLang.Eval.Tree

/-!
# Evaluation of any part of a syntax tree
-/

namespace ClosureLang

inductive Node
  | program (program : Program)
  | statement (stmt : Stmt)
  | block (block : Block)
  | expression (expr : Expr)

/-- What evaluation gives: the value, if there is one, the store as it is left, and the events in
order. A failure is a value, namely an error object. -/
structure Evaluation where
  value : Option Object
  store : Store
  journal : List Event

namespace Node

def run (depth : Nat) (node : Node) (scope : ScopeId) : Run (Option Object) :=
  let enter := Run.body depth
  Run.settle <|
    match node with
    | .program whole => Run.program enter whole scope
    | .statement stmt => Run.statement enter stmt scope
    | .block stmts => some <$> Run.block enter stmts scope
    | .expression expr => some <$> Run.expression enter expr scope

/-- Evaluates a node in a scope. There is no result if more than `depth` calls are inside each
other. -/
def evaluate? (depth : Nat) (node : Node) (scope : ScopeId) (store : Store) : Option Evaluation :=
  match node.run depth scope ⟨store, []⟩ with
  | .ok value s => some ⟨value, s.store, s.journal.reverse⟩
  | .error _ _ => none

end Node

end ClosureLang
