import ClosureLang.Store
import ClosureLang.Syntax.Error

/-!
# Tokens in other places

Trees, errors, objects and stores with the spans of their tokens changed, each token keeping its
kind and its literal.
-/

namespace ClosureLang

variable (place : Token → Span)

def Token.placed (token : Token) : Token :=
  { token with span := place token }

@[simp] theorem Token.kind_placed (token : Token) : (token.placed place).kind = token.kind := rfl

@[simp] theorem Token.literal_placed (token : Token) :
    (token.placed place).literal = token.literal := rfl

def Identifier.placed (name : Identifier) : Identifier :=
  ⟨name.token.placed place, name.name⟩

mutual

def Stmt.placed : Stmt → Stmt
  | .letStmt token name value =>
    .letStmt (token.placed place) (name.placed place) (value.placed)
  | .returnStmt token value => .returnStmt (token.placed place) value.placed
  | .exprStmt token expr => .exprStmt (token.placed place) expr.placed

def placedStatements : List Stmt → List Stmt
  | [] => []
  | stmt :: stmts => stmt.placed :: placedStatements stmts

def Block.placed : Block → Block
  | ⟨token, statements⟩ => ⟨token.placed place, placedStatements statements⟩

def Expr.placed : Expr → Expr
  | .identifier name => .identifier (name.placed place)
  | .integer token value => .integer (token.placed place) value
  | .boolean token value => .boolean (token.placed place) value
  | .prefixed token op right => .prefixed (token.placed place) op right.placed
  | .infixed token left op right => .infixed (token.placed place) left.placed op right.placed
  | .conditional token condition consequence alternative =>
    .conditional (token.placed place) condition.placed consequence.placed
      (placedAlternative alternative)
  | .function token parameters body =>
    .function (token.placed place) (parameters.map (Identifier.placed place)) body.placed
  | .call token callee arguments =>
    .call (token.placed place) callee.placed (placedAll arguments)

def placedAlternative : Option Block → Option Block
  | none => none
  | some block => some block.placed

def placedAll : List Expr → List Expr
  | [] => []
  | expr :: exprs => expr.placed :: placedAll exprs

end

def Program.placed (program : Program) : Program :=
  ⟨placedStatements place program.statements⟩

def SyntaxError.Cause.placed : SyntaxError.Cause → SyntaxError.Cause
  | .unclosed opening => .unclosed (opening.placed place)
  | cause => cause

def SyntaxError.placed (error : SyntaxError) : SyntaxError :=
  ⟨error.blamed.placed place, error.cause.placed place⟩

def Closure.placed (closure : Closure) : Closure :=
  ⟨closure.parameters.map (Identifier.placed place), closure.body.placed place, closure.scope⟩

def Object.placed : Object → Object
  | .function id closure => .function id (closure.placed place)
  | .returned id inner => .returned id inner.placed
  | .integer id value => .integer id value
  | .boolean id value => .boolean id value
  | .null id => .null id
  | .error id message => .error id message

def placedBindings (bindings : List (String × Object)) : List (String × Object) :=
  bindings.map fun (name, value) => (name, value.placed place)

def Scope.placed (scope : Scope) : Scope :=
  ⟨placedBindings place scope.bindings, scope.outer⟩

def Store.placed (store : Store) : Store :=
  ⟨store.scopes.map (Scope.placed place), store.made⟩

theorem placedStatements_eq_map (stmts : List Stmt) :
    placedStatements place stmts = stmts.map (Stmt.placed place) := by
  induction stmts with
  | nil => rfl
  | cons stmt stmts ih => rw [placedStatements, ih, List.map_cons]

theorem placedAll_eq_map (exprs : List Expr) :
    placedAll place exprs = exprs.map (Expr.placed place) := by
  induction exprs with
  | nil => rfl
  | cons expr exprs ih => rw [placedAll, ih, List.map_cons]

section

variable (place' : Token → Span)

mutual

/-- Placed twice, a tree is placed as the second one places what the first one has. -/
theorem Stmt.placed_placed (stmt : Stmt) : (stmt.placed place).placed place' =
    stmt.placed fun token => place' (token.placed place) := by
  match stmt with
  | .letStmt _ _ value | .returnStmt _ value | .exprStmt _ value =>
      simp only [Stmt.placed, value.placed_placed]
      rfl

theorem placedStatements_placed (stmts : List Stmt) :
    placedStatements place' (placedStatements place stmts) =
      placedStatements (fun token => place' (token.placed place)) stmts := by
  match stmts with
  | [] => rfl
  | stmt :: stmts => simp only [placedStatements, stmt.placed_placed, placedStatements_placed stmts]

theorem Block.placed_placed (block : Block) : (block.placed place).placed place' =
    block.placed fun token => place' (token.placed place) := by
  match block with
  | ⟨_, stmts⟩ =>
      simp only [Block.placed, placedStatements_placed stmts]
      rfl

theorem Expr.placed_placed (expr : Expr) : (expr.placed place).placed place' =
    expr.placed fun token => place' (token.placed place) := by
  match expr with
  | .identifier _ | .integer _ _ | .boolean _ _ => rfl
  | .prefixed _ _ right =>
      simp only [Expr.placed, right.placed_placed]
      rfl
  | .infixed _ left _ right =>
      simp only [Expr.placed, left.placed_placed, right.placed_placed]
      rfl
  | .conditional _ condition consequence alternative =>
      simp only [Expr.placed, condition.placed_placed, consequence.placed_placed,
        placedAlternative_placed alternative]
      rfl
  | .function _ _ body =>
      simp only [Expr.placed, body.placed_placed, List.map_map]
      rfl
  | .call _ callee arguments =>
      simp only [Expr.placed, callee.placed_placed, placedAll_placed arguments]
      rfl

theorem placedAlternative_placed (alternative : Option Block) :
    placedAlternative place' (placedAlternative place alternative) =
      placedAlternative (fun token => place' (token.placed place)) alternative := by
  match alternative with
  | none => rfl
  | some block => simp only [placedAlternative, block.placed_placed]

theorem placedAll_placed (exprs : List Expr) :
    placedAll place' (placedAll place exprs) =
      placedAll (fun token => place' (token.placed place)) exprs := by
  match exprs with
  | [] => rfl
  | expr :: exprs => simp only [placedAll, expr.placed_placed, placedAll_placed exprs]

end

end

/-! ## Spans left out, and spans further on -/

/-- A place that says nothing. -/
def nowhere : Token → Span :=
  fun _ => ⟨0, 0⟩

/-- The place that is so many bytes further on. -/
def shifted (bytes : Nat) (token : Token) : Span :=
  ⟨token.span.start + bytes, token.span.stop + bytes⟩

def Program.unplaced : Program → Program :=
  Program.placed nowhere

def Object.unplaced : Object → Object :=
  Object.placed nowhere

def Store.unplaced : Store → Store :=
  Store.placed nowhere

end ClosureLang
