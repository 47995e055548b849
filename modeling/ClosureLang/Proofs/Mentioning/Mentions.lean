import ClosureLang.Proofs.Failing.Sound

/-!
# Names that are mentioned

Whether a name stands in a syntax tree, what a store is without the bindings of a name, and results
that differ in such bindings only.
-/

namespace ClosureLang

section

variable (name : String)

mutual

/-- Whether the name is one that a statement binds, reads or takes as a parameter, function bodies
included. -/
def Stmt.mentions : Stmt → Bool
  | .letStmt _ bound value => bound.name == name || value.mentions
  | .returnStmt _ value => value.mentions
  | .exprStmt _ expr => expr.mentions

def anyMentions : List Stmt → Bool
  | [] => false
  | stmt :: stmts => stmt.mentions || anyMentions stmts

def Block.mentions : Block → Bool
  | ⟨_, statements⟩ => anyMentions statements

def Expr.mentions : Expr → Bool
  | .identifier read => read.name == name
  | .integer _ _ | .boolean _ _ => false
  | .prefixed _ _ right => right.mentions
  | .infixed _ left _ right => left.mentions || right.mentions
  | .conditional _ condition consequence alternative =>
    condition.mentions || consequence.mentions || alternativeMentions alternative
  | .function _ parameters body => parameters.any (·.name == name) || body.mentions
  | .call _ callee arguments => callee.mentions || anyExprMentions arguments

def alternativeMentions : Option Block → Bool
  | none => false
  | some alternative => alternative.mentions

def anyExprMentions : List Expr → Bool
  | [] => false
  | expr :: exprs => expr.mentions || anyExprMentions exprs

end

def Node.mentions : Node → Bool
  | .program whole => anyMentions name whole.statements
  | .statement stmt => stmt.mentions name
  | .block stmts => stmts.mentions name
  | .expression expr => expr.mentions name

def Closure.mentions (closure : Closure) : Bool :=
  closure.parameters.any (·.name == name) || closure.body.mentions name

end

/-! ## Stores without a name -/

def Scope.without (scope : Scope) (name : String) : Scope :=
  { scope with bindings := scope.bindings.filter (·.1 ≠ name) }

/-- The store without all bindings of a name. -/
def Store.without (store : Store) (name : String) : Store :=
  { store with scopes := store.scopes.map (·.without name) }

/-- From the scope a function that mentions the name can be come to, and not by way of a binding of
the name. -/
def Store.ShowsMention (store : Store) (name : String) (scope : ScopeId) : Prop :=
  ∃ id closure, (store.without name).Shows scope (.function id closure) ∧
    closure.mentions name = true

/-! ## Other names -/

/-- The stores have the same scopes, and all names but one are bound to the same in them. -/
structure Store.AgreesBesides (name : String) (store store' : Store) : Prop where
  size : store'.scopes.size = store.scopes.size
  outer : ∀ i, store'.outer? i = store.outer? i
  bindings : ∀ i other, other ≠ name → store'.getLocal? i other = store.getLocal? i other
  made : store'.made = store.made

/-- The value is the same, identities included, and so is all that has happened on the way. -/
structure Evaluation.AgreesBesides (name : String) (result result' : Evaluation) : Prop where
  value : result'.value = result.value
  store : result.store.AgreesBesides name result'.store
  journal : result'.journal = result.journal

end ClosureLang
