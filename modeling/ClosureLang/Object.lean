import ClosureLang.Integer
import ClosureLang.Syntax.Render

/-!
# Objects

What expressions evaluate to. An object has an identity besides its value: there is one null and one
object for each truth value, and every other object is new when it is made. Returned values and
errors are objects as well, so that a block can hand a `return` on and a program can answer with its
failure.
-/

namespace ClosureLang

/-- The place of a scope in the store. -/
abbrev ScopeId := Nat

/-- A function together with the scope in which its literal was evaluated. -/
structure Closure where
  parameters : List Identifier
  body : Block
  scope : ScopeId

inductive ObjectId
  | null
  | boolean (value : Bool)
  | fresh (serial : Nat)
deriving DecidableEq

inductive ObjectType
  | integer
  | boolean
  | null
  | function
  | returned
  | error
deriving DecidableEq

def ObjectType.name : ObjectType → String
  | integer => "INTEGER"
  | boolean => "BOOL"
  | null => "NULL"
  | function => "FUNCTION"
  | returned => "RETURN"
  | error => "ERROR"

inductive Object
  | integer (id : ObjectId) (value : Int64)
  | boolean (id : ObjectId) (value : Bool)
  | null (id : ObjectId)
  | function (id : ObjectId) (closure : Closure)
  | returned (id : ObjectId) (inner : Object)
  | error (id : ObjectId) (message : String)

namespace Object

/-- The null that everything shares. -/
def sharedNull : Object :=
  null .null

/-- The truth value that everything shares. -/
def ofBool (value : Bool) : Object :=
  boolean (.boolean value) value

def id : Object → ObjectId
  | integer id _ => id
  | boolean id _ => id
  | null id => id
  | function id _ => id
  | returned id _ => id
  | error id _ => id

def type : Object → ObjectType
  | integer _ _ => .integer
  | boolean _ _ => .boolean
  | null _ => .null
  | function _ _ => .function
  | returned _ _ => .returned
  | error _ _ => .error

/-- All but null and false count as true. -/
def isTruthy : Object → Bool
  | null _ => false
  | boolean _ value => value
  | _ => true

def isError : Object → Bool
  | error _ _ => true
  | _ => false

/-- The value of a `return` without its wrapping; any other object is itself. -/
def unwrapped : Object → Object
  | returned _ inner => inner
  | object => object

/-- The text in which an object is shown. -/
def inspect : Object → String
  | integer _ value => Integer.text value
  | boolean _ value => if value then "true" else "false"
  | null _ => "null"
  | function _ closure =>
    "fn(" ++ commaSeparated (closure.parameters.map Identifier.name) ++ ") \x7b\n" ++
      closure.body.render ++ "\n\x7d"
  | returned _ inner => inner.inspect
  | error _ message => "Error: " ++ message

end Object

end ClosureLang
