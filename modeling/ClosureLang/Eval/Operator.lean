import ClosureLang.Eval.Run

/-!
# What the operators do
-/

namespace ClosureLang.Run

/-- The exact result of an operation on integers, as long as it is one of the language's. -/
def exact (value : Int) (operation : String) : Run Object :=
  match Integer.ofInt? value with
  | some word => newInteger word
  | none => raise (.integerOverflow operation)

def applyPrefix (op : PrefixOp) (right : Object) : Run Object :=
  match op, right with
  | .not, _ => return .ofBool (! right.isTruthy)
  | .negate, .integer _ value => exact (-value.toInt) ("-" ++ Integer.text value)
  | .negate, _ => raise (.unknownPrefixOperator op right.type)

/-- Division drops the fraction. -/
def applyIntegers (op : InfixOp) (left right : Int64) : Run Object :=
  let l := left.toInt
  let r := right.toInt
  let operation := Integer.text left ++ " " ++ op.symbol ++ " " ++ Integer.text right
  match op with
  | .add => exact (l + r) operation
  | .subtract => exact (l - r) operation
  | .multiply => exact (l * r) operation
  | .divide => if r = 0 then raise .divisionByZero else exact (l.tdiv r) operation
  | .less => return .ofBool (l < r)
  | .greater => return .ofBool (l > r)
  | .lessEqual => return .ofBool (l ≤ r)
  | .greaterEqual => return .ofBool (l ≥ r)
  | .equal => return .ofBool (l = r)
  | .notEqual => return .ofBool (l ≠ r)

/-- Objects of different types do not go together. Integers are compared by value, all other objects
by identity, which for null and the truth values is the same. -/
def applyInfix (op : InfixOp) (left right : Object) : Run Object :=
  if left.type ≠ right.type then
    raise (.typeMismatch left.type op right.type)
  else
    match left, right with
    | .integer _ l, .integer _ r => applyIntegers op l r
    | _, _ =>
      match op with
      | .equal => return .ofBool (left.id = right.id)
      | .notEqual => return .ofBool (left.id ≠ right.id)
      | _ => raise (.unknownInfixOperator left.type op right.type)

end ClosureLang.Run
