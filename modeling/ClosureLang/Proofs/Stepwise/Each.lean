import ClosureLang.Eval.Node

/-!
# Statements one at a time

Statements that are evaluated one after another, each as a node of its own.
-/

namespace ClosureLang

/-- Whether statements behind one with this answer are left out: it is an error or returned. -/
def Object.ends : Object → Bool
  | .returned _ _ | .error _ _ => true
  | _ => false

namespace Node

/-- Evaluates statements as nodes, each in the store that the one before it has left, up to an
answer that ends them. The answer is the last one's, or `last` if there are no statements. -/
def evaluateEach? (depth : Nat) (scope : ScopeId) :
    List Stmt → Option Object → Store → Option Evaluation
  | [], last, store => some ⟨last, store, []⟩
  | stmt :: stmts, _, store =>
    ((statement stmt).evaluate? depth scope store).bind fun first =>
      if first.value.any Object.ends then some first
      else
        (evaluateEach? depth scope stmts first.value first.store).map fun rest =>
          { rest with journal := first.journal ++ rest.journal }

end Node

end ClosureLang
