import ClosureLang.Eval.Operator

/-!
# What operators may come to

All of them at once, so that no other lemma goes through the operators again.
-/

namespace ClosureLang.Run

/-- What an operator makes of its operands: a truth value, a new integer or an error. -/
inductive IsOperation : Run Object → Prop
  | boolean (value : Bool) : IsOperation (pure (.ofBool value))
  | integer (value : Int64) : IsOperation (newInteger value)
  | raise (error : EvalError) : IsOperation (raise error)

theorem isOperation_exact (value : Int) (operation : String) :
    IsOperation (exact value operation) := by
  unfold exact
  split
  · exact .integer _
  · exact .raise _

theorem isOperation_applyPrefix (op : PrefixOp) (right : Object) :
    IsOperation (applyPrefix op right) := by
  unfold applyPrefix
  split
  · exact .boolean _
  · exact isOperation_exact _ _
  · exact .raise _

theorem isOperation_applyIntegers (op : InfixOp) (left right : Int64) :
    IsOperation (applyIntegers op left right) := by
  unfold applyIntegers
  cases op with
  | add | subtract | multiply => exact isOperation_exact _ _
  | divide =>
      dsimp only
      split
      · exact .raise _
      · exact isOperation_exact _ _
  | less | greater | lessEqual | greaterEqual | equal | notEqual => exact .boolean _

theorem isOperation_applyInfix (op : InfixOp) (left right : Object) :
    IsOperation (applyInfix op left right) := by
  unfold applyInfix
  split
  · exact .raise _
  · split
    · exact isOperation_applyIntegers _ _ _
    · split
      · exact .boolean _
      · exact .boolean _
      · exact .raise _

end ClosureLang.Run
