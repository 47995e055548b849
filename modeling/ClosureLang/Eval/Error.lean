import ClosureLang.Object

/-!
# Failures of an evaluation

Each is a cause, with the message that a program's answer carries.
-/

namespace ClosureLang

inductive EvalError
  | identifierNotFound (name : String)
  | typeMismatch (left : ObjectType) (op : InfixOp) (right : ObjectType)
  | unknownPrefixOperator (op : PrefixOp) (operand : ObjectType)
  | unknownInfixOperator (left : ObjectType) (op : InfixOp) (right : ObjectType)
  | notAFunction (callee : ObjectType)
  | wrongArgumentCount (want got : Nat)
  | divisionByZero
  /-- The operation is given as it is written with its operands. -/
  | integerOverflow (operation : String)
deriving DecidableEq

def EvalError.message : EvalError → String
  | identifierNotFound name => "identifier not found: " ++ name
  | typeMismatch left op right =>
    "type mismatch: " ++ left.name ++ " " ++ op.symbol ++ " " ++ right.name
  | unknownPrefixOperator op operand => "unknown operator: " ++ op.symbol ++ operand.name
  | unknownInfixOperator left op right =>
    "unknown operator: " ++ left.name ++ " " ++ op.symbol ++ " " ++ right.name
  | notAFunction callee => "not a function: " ++ callee.name
  | wrongArgumentCount want got =>
    "wrong number of arguments: want=" ++ toString want ++ ", got=" ++ toString got
  | divisionByZero => "division by zero"
  | integerOverflow operation => "integer overflow: " ++ operation

end ClosureLang
