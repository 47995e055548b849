import ClosureLang.Eval.Node
import ClosureLang.Proofs.Running.Lemmas.Sequencing

/-!
# The steps of an evaluation

What is evaluated on the way, in which order, and where an error is raised. A step is begun only
when those in front of it have come to their values.
-/

namespace ClosureLang

namespace Run

def State.noted (s : State) (event : Event) : State :=
  { s with journal := event :: s.journal }

def State.used (s : State) (how : Use) (value : Object) : State :=
  s.noted (.use how value)

def forget {α : Type} (run : Run α) : Run Unit := do
  let _ ← run

/-- The beginning of a call: the scope in which the body runs, with the parameters bound. -/
def prepare (closure : Closure) (arguments : List Object) : Run ScopeId := do
  note (.application arguments.length)
  let scope ← newScope (some closure.scope)
  bindParameters scope closure.parameters arguments
  return scope

end Run

/-- What a step evaluates. The arguments are those that are left of a call, the statements those
that are left of a list. -/
inductive Part
  | expression (expr : Expr)
  | arguments (exprs : List Expr)
  | call (callee : Object) (arguments : List Object)
  | statement (stmt : Stmt)
  | statements (stmts : List Stmt) (last : Option Object)
  | block (block : Block)

/-- A part of a tree that is evaluated in a scope and from a state, with the calls inside it allowed
to be `depth` deep. -/
structure Step where
  depth : Nat
  part : Part
  scope : ScopeId
  state : Run.State

namespace Step

/-- How the step ends. Its value does not matter. -/
def result (step : Step) : EStateM.Result Run.Stop Run.State Unit :=
  let enter := Run.body step.depth
  match step.part with
  | .expression expr => Run.forget (Run.expression enter expr step.scope) step.state
  | .arguments exprs => Run.forget (Run.expressions enter exprs step.scope) step.state
  | .call callee arguments => Run.forget (Run.call enter callee arguments) step.state
  | .statement stmt => Run.forget (Run.statement enter stmt step.scope) step.state
  | .statements stmts last => Run.forget (Run.sequence enter stmts last step.scope) step.state
  | .block stmts => Run.forget (Run.block enter stmts step.scope) step.state

/-- The step begins another as its first, second or third. -/
inductive Begins : Nat → Step → Step → Prop
  | operand {depth token op right scope s} :
      Begins 0 ⟨depth, .expression (.prefixed token op right), scope, s⟩
        ⟨depth, .expression right, scope, s⟩
  | left {depth token left op right scope s} :
      Begins 0 ⟨depth, .expression (.infixed token left op right), scope, s⟩
        ⟨depth, .expression left, scope, s⟩
  | right {depth token left op right scope s l s₁} :
      Run.expression (Run.body depth) left scope s = .ok l s₁ →
      Begins 1 ⟨depth, .expression (.infixed token left op right), scope, s⟩
        ⟨depth, .expression right, scope, s₁.used .operand l⟩
  | condition {depth token condition consequence alternative scope s} :
      Begins 0 ⟨depth, .expression (.conditional token condition consequence alternative), scope, s⟩
        ⟨depth, .expression condition, scope, s⟩
  | consequence {depth token condition consequence alternative scope s c s₁} :
      Run.expression (Run.body depth) condition scope s = .ok c s₁ → c.isTruthy = true →
      Begins 1 ⟨depth, .expression (.conditional token condition consequence alternative), scope, s⟩
        ⟨depth, .block consequence, scope, s₁.used .condition c⟩
  | alternative {depth token condition consequence alternative scope s c s₁} :
      Run.expression (Run.body depth) condition scope s = .ok c s₁ → c.isTruthy = false →
      Begins 1
        ⟨depth, .expression (.conditional token condition consequence (some alternative)), scope, s⟩
        ⟨depth, .block alternative, scope, s₁.used .condition c⟩
  | callee {depth token callee arguments scope s} :
      Begins 0 ⟨depth, .expression (.call token callee arguments), scope, s⟩
        ⟨depth, .expression callee, scope, s⟩
  | arguments {depth token callee arguments scope s f s₁} :
      Run.expression (Run.body depth) callee scope s = .ok f s₁ →
      Begins 1 ⟨depth, .expression (.call token callee arguments), scope, s⟩
        ⟨depth, .arguments arguments, scope, s₁.used .callee f⟩
  | call {depth token callee arguments scope s f s₁ values s₂} :
      Run.expression (Run.body depth) callee scope s = .ok f s₁ →
      Run.expressions (Run.body depth) arguments scope (s₁.used .callee f) = .ok values s₂ →
      Begins 2 ⟨depth, .expression (.call token callee arguments), scope, s⟩
        ⟨depth, .call f values, scope, s₂⟩
  | argument {depth expr exprs scope s} :
      Begins 0 ⟨depth, .arguments (expr :: exprs), scope, s⟩ ⟨depth, .expression expr, scope, s⟩
  | moreArguments {depth expr exprs scope s value s₁} :
      Run.expression (Run.body depth) expr scope s = .ok value s₁ →
      Begins 1 ⟨depth, .arguments (expr :: exprs), scope, s⟩
        ⟨depth, .arguments exprs, scope, s₁.used .argument value⟩
  | body {depth id closure arguments scope s inside s₁} :
      closure.parameters.length = arguments.length →
      Run.prepare closure arguments s = .ok inside s₁ →
      Begins 0 ⟨depth + 1, .call (.function id closure) arguments, scope, s⟩
        ⟨depth, .block closure.body, inside, s₁⟩
  | bound {depth token name value scope s} :
      Begins 0 ⟨depth, .statement (.letStmt token name value), scope, s⟩
        ⟨depth, .expression value, scope, s.noted (.statement (.letStmt token name value))⟩
  | returned {depth token value scope s} :
      Begins 0 ⟨depth, .statement (.returnStmt token value), scope, s⟩
        ⟨depth, .expression value, scope, s.noted (.statement (.returnStmt token value))⟩
  | expression {depth token expr scope s} :
      Begins 0 ⟨depth, .statement (.exprStmt token expr), scope, s⟩
        ⟨depth, .expression expr, scope, s.noted (.statement (.exprStmt token expr))⟩
  | statement {depth stmt stmts last scope s} :
      Begins 0 ⟨depth, .statements (stmt :: stmts) last, scope, s⟩
        ⟨depth, .statement stmt, scope, s⟩
  | moreStatements {depth stmt stmts last scope s value s₁} :
      Run.statement (Run.body depth) stmt scope s = .ok value s₁ →
      Run.goesOn value = true →
      Begins 1 ⟨depth, .statements (stmt :: stmts) last, scope, s⟩
        ⟨depth, .statements stmts value, scope, s₁⟩
  | statements {depth token stmts scope s} :
      Begins 0 ⟨depth, .block ⟨token, stmts⟩, scope, s⟩ ⟨depth, .statements stmts none, scope, s⟩

/-- The step comes to another one, or is it. -/
inductive Comes : Step → Step → Prop
  | refl {step} : Comes step step
  | begins {k step part step'} : Begins k step part → Comes part step' → Comes step step'

/-- The step raises an error itself, in this state. -/
inductive Raises : Step → EvalError → Run.State → Prop
  | lookup {depth name scope s} :
      s.store.get? scope name.name = none →
      Raises ⟨depth, .expression (.identifier name), scope, s⟩ (.identifierNotFound name.name) s
  | prefixed {depth token op right scope s r s₁ error s₂} :
      Run.expression (Run.body depth) right scope s = .ok r s₁ →
      Run.applyPrefix op r (s₁.used .operand r) = .error (.raised error) s₂ →
      Raises ⟨depth, .expression (.prefixed token op right), scope, s⟩ error s₂
  | infixed {depth token left op right scope s l s₁ r s₂ error s₃} :
      Run.expression (Run.body depth) left scope s = .ok l s₁ →
      Run.expression (Run.body depth) right scope (s₁.used .operand l) = .ok r s₂ →
      Run.applyInfix op l r (s₂.used .operand r) = .error (.raised error) s₃ →
      Raises ⟨depth, .expression (.infixed token left op right), scope, s⟩ error s₃
  | notAFunction {depth callee arguments scope s} :
      callee.type ≠ .function →
      Raises ⟨depth, .call callee arguments, scope, s⟩ (.notAFunction callee.type) s
  | wrongCount {depth id closure arguments scope s} :
      closure.parameters.length ≠ arguments.length →
      Raises ⟨depth, .call (.function id closure) arguments, scope, s⟩
        (.wrongArgumentCount closure.parameters.length arguments.length) s

end Step

/-- Nothing that stands behind the step is begun: of all that has the step in it, the part with the
step is the last that is begun. -/
def Step.IsLast (start step : Step) : Prop :=
  ∀ whole k part, start.Comes whole → whole.Begins k part → part.Comes step →
    ∀ k' part', whole.Begins k' part' → k' ≤ k

namespace Node

/-- The step with which the evaluation of a node begins. -/
def start (depth : Nat) (node : Node) (scope : ScopeId) (store : Store) : Step :=
  let part := match node with
    | .program whole => Part.statements whole.statements none
    | .statement stmt => .statement stmt
    | .block stmts => .block stmts
    | .expression expr => .expression expr
  ⟨depth, part, scope, ⟨store, []⟩⟩

/-- The evaluation of a node before an error is answered. -/
def attempt (depth : Nat) (node : Node) (scope : ScopeId) : Run (Option Object) :=
  let enter := Run.body depth
  match node with
  | .program whole => Run.program enter whole scope
  | .statement stmt => Run.statement enter stmt scope
  | .block stmts => some <$> Run.block enter stmts scope
  | .expression expr => some <$> Run.expression enter expr scope

theorem run_eq_settle (depth : Nat) (node : Node) (scope : ScopeId) :
    node.run depth scope = Run.settle (node.attempt depth scope) := by
  cases node <;> rfl

end Node

end ClosureLang
