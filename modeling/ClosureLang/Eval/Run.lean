import ClosureLang.Eval.Error
import ClosureLang.Store

/-!
# Runs

Computations on the store that may fail, and that keep a journal of what they do.
-/

namespace ClosureLang

/-- The ways in which a value is used up. -/
inductive Use
  | operand
  | condition
  | callee
  | argument
  | returned
  | bound
deriving DecidableEq

inductive Event
  /-- A statement is about to be evaluated. -/
  | statement (stmt : Stmt)
  /-- A function is about to be entered with this many arguments. -/
  | application (arity : Nat)
  | use (how : Use) (value : Object)

namespace Run

structure State where
  store : Store
  /-- The newest event comes first. -/
  journal : List Event

/-- Why a run ends without a result: an error, or more calls inside each other than allowed. -/
inductive Stop
  | raised (error : EvalError)
  | tooDeep
deriving DecidableEq

end Run

abbrev Run := EStateM Run.Stop Run.State

namespace Run

def raise {α : Type} (error : EvalError) : Run α :=
  throw (.raised error)

def note (event : Event) : Run Unit :=
  modify fun s => { s with journal := event :: s.journal }

/-- Enters the use of a value into the journal. -/
def use (how : Use) (value : Object) : Run Object := do
  note (.use how value)
  return value

def newId : Run ObjectId :=
  modifyGet fun s =>
    let (id, store) := s.store.newId
    (id, { s with store })

def newScope (outer : Option ScopeId) : Run ScopeId :=
  modifyGet fun s =>
    let (scope, store) := s.store.newScope outer
    (scope, { s with store })

def bind (scope : ScopeId) (name : String) (value : Object) : Run Unit := do
  let value ← use .bound value
  modify fun s => { s with store := s.store.set scope name value }

def lookup (scope : ScopeId) (name : String) : Run Object := do
  match (← get).store.get? scope name with
  | some value => return value
  | none => raise (.identifierNotFound name)

def newInteger (value : Int64) : Run Object :=
  return .integer (← newId) value

def newFunction (closure : Closure) : Run Object :=
  return .function (← newId) closure

def newReturned (inner : Object) : Run Object :=
  return .returned (← newId) inner

/-- Answers an error with an error object. -/
def settle (run : Run (Option Object)) : Run (Option Object) :=
  tryCatch run fun
    | .raised error => return some (.error (← newId) error.message)
    | .tooDeep => throw .tooDeep

end Run

end ClosureLang
