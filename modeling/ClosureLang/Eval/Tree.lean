import ClosureLang.Eval.Operator

/-!
# Evaluation of syntax trees

`enter` evaluates the body of a function in the scope of a call. Apart from it, evaluation goes down
the tree; `body` ties the knot for a bounded number of calls inside each other.
-/

namespace ClosureLang.Run

section

variable (enter : Block → ScopeId → Run Object)

/-- Binds parameters to arguments from left to right. -/
def bindParameters (scope : ScopeId) : List Identifier → List Object → Run Unit
  | parameter :: parameters, argument :: arguments => do
    bind scope parameter.name argument
    bindParameters scope parameters arguments
  | _, _ => return

/-- Calls a function: its body runs in a new scope inside the one that its literal captured, and a
`return` in it goes no further. -/
def call (callee : Object) (arguments : List Object) : Run Object :=
  match callee with
  | .function _ closure =>
    if closure.parameters.length ≠ arguments.length then
      raise (.wrongArgumentCount closure.parameters.length arguments.length)
    else do
      note (.application arguments.length)
      let scope ← newScope (some closure.scope)
      bindParameters scope closure.parameters arguments
      let result ← enter closure.body scope
      return result.unwrapped
  | _ => raise (.notAFunction callee.type)

mutual

def expression : Expr → ScopeId → Run Object
  | .identifier name, scope => lookup scope name.name
  | .integer _ value, _ => newInteger value
  | .boolean _ value, _ => return .ofBool value
  | .prefixed _ op right, scope => do
    let right ← use .operand (← expression right scope)
    applyPrefix op right
  | .infixed _ left op right, scope => do
    let left ← use .operand (← expression left scope)
    let right ← use .operand (← expression right scope)
    applyInfix op left right
  | .conditional _ condition consequence alternative, scope => do
    let condition ← use .condition (← expression condition scope)
    if condition.isTruthy then block consequence scope else otherwise alternative scope
  | .function _ parameters body, scope => newFunction ⟨parameters, body, scope⟩
  | .call _ callee arguments, scope => do
    let callee ← use .callee (← expression callee scope)
    let arguments ← expressions arguments scope
    call enter callee arguments

/-- The arguments of a call, from left to right. -/
def expressions : List Expr → ScopeId → Run (List Object)
  | [], _ => return []
  | expr :: exprs, scope => do
    let value ← use .argument (← expression expr scope)
    let values ← expressions exprs scope
    return value :: values

/-- A missing else branch is null. -/
def otherwise : Option Block → ScopeId → Run Object
  | none, _ => return .sharedNull
  | some alternative, scope => block alternative scope

/-- A `let` has no value. -/
def statement : Stmt → ScopeId → Run (Option Object)
  | .letStmt token name value, scope => do
    note (.statement (.letStmt token name value))
    bind scope name.name (← expression value scope)
    return none
  | .returnStmt token value, scope => do
    note (.statement (.returnStmt token value))
    let value ← use .returned (← expression value scope)
    return some (← newReturned value)
  | .exprStmt token expr, scope => do
    note (.statement (.exprStmt token expr))
    return some (← expression expr scope)

/-- Statements one after another, up to one that returns. The value is the last one's. -/
def sequence : List Stmt → Option Object → ScopeId → Run (Option Object)
  | [], last, _ => return last
  | stmt :: stmts, _, scope => do
    match ← statement stmt scope with
    | some (.returned id inner) => return some (.returned id inner)
    | value => sequence stmts value scope

/-- A block without a value is null. A `return` in it stays wrapped, for the function around it. -/
def block : Block → ScopeId → Run Object
  | ⟨_, statements⟩, scope => do
    match ← sequence statements none scope with
    | some value => return value
    | none => return .sharedNull

end

/-- A program's `return` ends it and gives its value. -/
def program (program : Program) (scope : ScopeId) : Run (Option Object) := do
  let value ← sequence enter program.statements none scope
  return value.map Object.unwrapped

end

/-- The body of a function, with at most `depth` calls inside each other. -/
def body : Nat → Block → ScopeId → Run Object
  | 0 => fun _ _ => throw .tooDeep
  | depth + 1 => block (body depth)

end ClosureLang.Run
