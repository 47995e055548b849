import ClosureLang.Eval.Tree

/-!
# Evaluation with early exit

A big-step semantics in which `return` is an outcome and not a value. It leaves the body of the
innermost function around it, or the program, from wherever it stands; an error leaves everything.
-/

namespace ClosureLang.EarlyExit

/-- How an evaluation ends before its end. -/
inductive Exit
  | returned (value : Object)
  | failed (error : EvalError)

inductive Outcome (α : Type)
  | normal (value : α)
  | exit (exit : Exit)

namespace Outcome

variable {α β : Type}

def map (f : α → β) : Outcome α → Outcome β
  | normal value => normal (f value)
  | exit x => exit x

/-- What a call makes of the outcome of a body. -/
def ofBody : Outcome (Option Object) → Outcome Object
  | normal value => normal (value.getD .sharedNull)
  | exit (.returned value) => normal value
  | exit (.failed error) => exit (.failed error)

/-- What the outcome of the statements is as the answer of a program. -/
def ofProgram : Outcome (Option Object) → Except EvalError (Option Object)
  | normal value => .ok value
  | exit (.returned value) => .ok (some value)
  | exit (.failed error) => .error error

end Outcome

/-- The outcome of applying an operator. -/
inductive Operates (run : Run Object) (store : Store) : Outcome Object → Store → Prop
  | normal {value store'} :
      (∀ journal, run ⟨store, journal⟩ = .ok value ⟨store', journal⟩) →
      Operates run store (.normal value) store'
  | failed {error} :
      (∀ journal, run ⟨store, journal⟩ = .error (.raised error) ⟨store, journal⟩) →
      Operates run store (.exit (.failed error)) store

/-- The store with parameters bound to arguments from left to right. -/
def bindAll (store : Store) (scope : ScopeId) : List Identifier → List Object → Store
  | parameter :: parameters, argument :: arguments =>
    bindAll (store.set scope parameter.name argument) scope parameters arguments
  | _, _ => store

/-- The store in which the body of a function begins, in the scope that comes next. -/
def entered (closure : Closure) (arguments : List Object) (store : Store) : Store :=
  bindAll (store.newScope (some closure.scope)).2 store.scopes.size closure.parameters arguments

mutual

inductive Expression : Expr → ScopeId → Store → Outcome Object → Store → Prop
  | found {name scope store value} :
      store.get? scope name.name = some value →
      Expression (.identifier name) scope store (.normal value) store
  | missing {name scope store} :
      store.get? scope name.name = none →
      Expression (.identifier name) scope store
        (.exit (.failed (.identifierNotFound name.name))) store
  | integer {token value scope store} :
      Expression (.integer token value) scope store (.normal (.integer store.newId.1 value))
        store.newId.2
  | boolean {token value scope store} :
      Expression (.boolean token value) scope store (.normal (.ofBool value)) store
  | prefixed {token op right scope store r store₁ outcome store₂} :
      Expression right scope store (.normal r) store₁ →
      Operates (Run.applyPrefix op r) store₁ outcome store₂ →
      Expression (.prefixed token op right) scope store outcome store₂
  | prefixedExit {token op right scope store x store₁} :
      Expression right scope store (.exit x) store₁ →
      Expression (.prefixed token op right) scope store (.exit x) store₁
  | infixed {token left op right scope store l store₁ r store₂ outcome store₃} :
      Expression left scope store (.normal l) store₁ →
      Expression right scope store₁ (.normal r) store₂ →
      Operates (Run.applyInfix op l r) store₂ outcome store₃ →
      Expression (.infixed token left op right) scope store outcome store₃
  | leftExit {token left op right scope store x store₁} :
      Expression left scope store (.exit x) store₁ →
      Expression (.infixed token left op right) scope store (.exit x) store₁
  | rightExit {token left op right scope store l store₁ x store₂} :
      Expression left scope store (.normal l) store₁ →
      Expression right scope store₁ (.exit x) store₂ →
      Expression (.infixed token left op right) scope store (.exit x) store₂
  | consequence {token condition consequence alternative scope store c store₁ outcome store₂} :
      Expression condition scope store (.normal c) store₁ → c.isTruthy = true →
      Sequence consequence.statements none scope store₁ outcome store₂ →
      Expression (.conditional token condition consequence alternative) scope store
        (outcome.map (·.getD .sharedNull)) store₂
  | alternative {token condition consequence alternative scope store c store₁ outcome store₂} :
      Expression condition scope store (.normal c) store₁ → c.isTruthy = false →
      Sequence alternative.statements none scope store₁ outcome store₂ →
      Expression (.conditional token condition consequence (some alternative)) scope store
        (outcome.map (·.getD .sharedNull)) store₂
  | noAlternative {token condition consequence scope store c store₁} :
      Expression condition scope store (.normal c) store₁ → c.isTruthy = false →
      Expression (.conditional token condition consequence none) scope store (.normal .sharedNull)
        store₁
  | conditionExit {token condition consequence alternative scope store x store₁} :
      Expression condition scope store (.exit x) store₁ →
      Expression (.conditional token condition consequence alternative) scope store (.exit x) store₁
  | function {token parameters body scope store} :
      Expression (.function token parameters body) scope store
        (.normal (.function store.newId.1 ⟨parameters, body, scope⟩)) store.newId.2
  | call {token callee arguments scope store f store₁ values store₂ outcome store₃} :
      Expression callee scope store (.normal f) store₁ →
      Arguments arguments scope store₁ (.normal values) store₂ →
      Call f values store₂ outcome store₃ →
      Expression (.call token callee arguments) scope store outcome store₃
  | calleeExit {token callee arguments scope store x store₁} :
      Expression callee scope store (.exit x) store₁ →
      Expression (.call token callee arguments) scope store (.exit x) store₁
  | argumentExit {token callee arguments scope store f store₁ x store₂} :
      Expression callee scope store (.normal f) store₁ →
      Arguments arguments scope store₁ (.exit x) store₂ →
      Expression (.call token callee arguments) scope store (.exit x) store₂

inductive Arguments : List Expr → ScopeId → Store → Outcome (List Object) → Store → Prop
  | nil {scope store} : Arguments [] scope store (.normal []) store
  | cons {expr exprs scope store value store₁ outcome store₂} :
      Expression expr scope store (.normal value) store₁ →
      Arguments exprs scope store₁ outcome store₂ →
      Arguments (expr :: exprs) scope store (outcome.map (value :: ·)) store₂
  | exit {expr exprs scope store x store₁} :
      Expression expr scope store (.exit x) store₁ →
      Arguments (expr :: exprs) scope store (.exit x) store₁

inductive Call : Object → List Object → Store → Outcome Object → Store → Prop
  | function {id closure arguments store outcome store'} :
      closure.parameters.length = arguments.length →
      Sequence closure.body.statements none store.scopes.size
        (entered closure arguments store) outcome store' →
      Call (.function id closure) arguments store outcome.ofBody store'
  | wrongCount {id closure arguments store} :
      closure.parameters.length ≠ arguments.length →
      Call (.function id closure) arguments store
        (.exit (.failed (.wrongArgumentCount closure.parameters.length arguments.length))) store
  | notAFunction {callee arguments store} :
      callee.type ≠ .function →
      Call callee arguments store (.exit (.failed (.notAFunction callee.type))) store

inductive Statement : Stmt → ScopeId → Store → Outcome (Option Object) → Store → Prop
  | letStmt {token name expr scope store value store₁} :
      Expression expr scope store (.normal value) store₁ →
      Statement (.letStmt token name expr) scope store (.normal none)
        (store₁.set scope name.name value)
  | letExit {token name expr scope store x store₁} :
      Expression expr scope store (.exit x) store₁ →
      Statement (.letStmt token name expr) scope store (.exit x) store₁
  /-- Identities are numbers, and a `return` uses one up. -/
  | returnStmt {token expr scope store value store₁} :
      Expression expr scope store (.normal value) store₁ →
      Statement (.returnStmt token expr) scope store (.exit (.returned value)) store₁.newId.2
  | returnExit {token expr scope store x store₁} :
      Expression expr scope store (.exit x) store₁ →
      Statement (.returnStmt token expr) scope store (.exit x) store₁
  | exprStmt {token expr scope store outcome store₁} :
      Expression expr scope store outcome store₁ →
      Statement (.exprStmt token expr) scope store (outcome.map some) store₁

/-- Statements one after another, behind one with the value `last`. -/
inductive Sequence :
    List Stmt → Option Object → ScopeId → Store → Outcome (Option Object) → Store → Prop
  | nil {last scope store} : Sequence [] last scope store (.normal last) store
  | cons {stmt stmts last scope store value store₁ outcome store₂} :
      Statement stmt scope store (.normal value) store₁ →
      Sequence stmts value scope store₁ outcome store₂ →
      Sequence (stmt :: stmts) last scope store outcome store₂
  | exit {stmt stmts last scope store x store₁} :
      Statement stmt scope store (.exit x) store₁ →
      Sequence (stmt :: stmts) last scope store (.exit x) store₁

end

/-- The answer of a program: a value, none or an error. -/
def Answers (program : Program) (scope : ScopeId) (store : Store)
    (answer : Except EvalError (Option Object)) (store' : Store) : Prop :=
  ∃ outcome, Sequence program.statements none scope store outcome store' ∧
    outcome.ofProgram = answer

end ClosureLang.EarlyExit
