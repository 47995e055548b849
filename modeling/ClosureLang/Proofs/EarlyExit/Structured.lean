import ClosureLang.Store

/-!
# Structured programs

Programs in which a `return` is never in the middle of an expression, and environments that such
programs can run in.
-/

namespace ClosureLang

mutual

/-- Whether a `return` stands in a statement, outside the function literals in it. -/
def Stmt.returns : Stmt → Bool
  | .letStmt _ _ value => value.returns
  | .returnStmt _ _ => true
  | .exprStmt _ expr => expr.returns

def anyReturns : List Stmt → Bool
  | [] => false
  | stmt :: stmts => stmt.returns || anyReturns stmts

def Block.returns : Block → Bool
  | ⟨_, statements⟩ => anyReturns statements

def Expr.returns : Expr → Bool
  | .identifier _ | .integer _ _ | .boolean _ _ | .function _ _ _ => false
  | .prefixed _ _ right => right.returns
  | .infixed _ left _ right => left.returns || right.returns
  | .conditional _ condition consequence alternative =>
    condition.returns || consequence.returns || alternativeReturns alternative
  | .call _ callee arguments => callee.returns || anyExprReturns arguments

def alternativeReturns : Option Block → Bool
  | none => false
  | some alternative => alternative.returns

def anyExprReturns : List Expr → Bool
  | [] => false
  | expr :: exprs => expr.returns || anyExprReturns exprs

end

mutual

/-- Every `if` with a `return` in a branch is the whole of an expression statement. -/
def Stmt.Structured : Stmt → Prop
  | .letStmt _ _ value => value.Structured false
  | .returnStmt _ value => value.Structured false
  | .exprStmt _ expr => expr.Structured true

def AllStructured : List Stmt → Prop
  | [] => True
  | stmt :: stmts => stmt.Structured ∧ AllStructured stmts

def Block.Structured : Block → Prop
  | ⟨_, statements⟩ => AllStructured statements

/-- `whole` is whether the expression is the whole of an expression statement. -/
def Expr.Structured : Bool → Expr → Prop
  | _, .identifier _ | _, .integer _ _ | _, .boolean _ _ => True
  | _, .prefixed _ _ right => right.Structured false
  | _, .infixed _ left _ right => left.Structured false ∧ right.Structured false
  | whole, .conditional _ condition consequence alternative =>
    (consequence.returns = true ∨ alternativeReturns alternative = true → whole = true) ∧
      condition.Structured false ∧ consequence.Structured ∧ AlternativeStructured alternative
  | _, .function _ _ body => body.Structured
  | _, .call _ callee arguments => callee.Structured false ∧ AllExprsStructured arguments

def AlternativeStructured : Option Block → Prop
  | none => True
  | some alternative => alternative.Structured

def AllExprsStructured : List Expr → Prop
  | [] => True
  | expr :: exprs => expr.Structured false ∧ AllExprsStructured exprs

end

theorem Block.structured_iff {stmts : Block} :
    stmts.Structured ↔ AllStructured stmts.statements := by
  cases stmts
  exact Iff.rfl

def Program.Structured (program : Program) : Prop :=
  AllStructured program.statements

/-- The scopes that can be come to from a scope, outwards and through functions. -/
inductive Store.Reaches (store : Store) (start : ScopeId) : ScopeId → Prop
  | start : Reaches store start start
  | outer {scope outer} :
      Reaches store start scope → store.outer? scope = some outer → Reaches store start outer
  | captured {scope name id closure} :
      Reaches store start scope → store.getLocal? scope name = some (.function id closure) →
      Reaches store start closure.scope

/-- Whether an object is the wrapping of a `return`. -/
def Object.IsReturned (object : Object) : Prop :=
  object.type = .returned

/-- Nothing returned can be come to from a scope, and every function is structured. -/
structure Store.Structured (store : Store) (start : ScopeId) : Prop where
  not_returned : ∀ scope name value, store.Reaches start scope →
    store.getLocal? scope name = some value → ¬ value.IsReturned
  bodies : ∀ scope name id closure, store.Reaches start scope →
    store.getLocal? scope name = some (.function id closure) → closure.body.Structured

end ClosureLang
