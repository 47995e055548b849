import Mathlib.Algebra.Ring.Int.Defs
import ClosureLang.Integer
import ClosureLang.Syntax.Tree

/-!
# Exact arithmetic

What an arithmetic expression comes to in the integers, where nothing overflows, and which of its
operations the language cannot do.
-/

namespace ClosureLang

theorem Integer.ofInt?_isSome_iff {value : Int} :
    (Integer.ofInt? value).isSome = true ↔ -2 ^ 63 ≤ value ∧ value < 2 ^ 63 := by
  have hmin : Int64.minValue.toInt = -2 ^ 63 := by decide
  have hmax : Int64.maxValue.toInt = 2 ^ 63 - 1 := by decide
  rw [Integer.ofInt?, hmin, hmax, Option.isSome_ite]
  omega

/-- The exact result of an operation. Division drops the fraction; nothing is divided by zero. -/
def InfixOp.onInts? : InfixOp → Int → Int → Option Int
  | add, l, r => some (l + r)
  | subtract, l, r => some (l - r)
  | multiply, l, r => some (l * r)
  | divide, l, r => if r = 0 then none else some (l.tdiv r)
  | _, _, _ => none

def InfixOp.isArithmetic : InfixOp → Bool
  | add | subtract | multiply | divide => true
  | _ => false

namespace Expr

/-- Whether an expression has nothing in it but integers, minus signs and the four operations. -/
def isArithmetic : Expr → Bool
  | .integer _ _ => true
  | .prefixed _ op right => op = .negate && right.isArithmetic
  | .infixed _ left op right => op.isArithmetic && left.isArithmetic && right.isArithmetic
  | _ => false

/-- The value in the integers, if nothing is divided by zero. -/
def toInt? : Expr → Option Int
  | .integer _ value => some value.toInt
  | .prefixed _ .negate right => right.toInt?.map (- ·)
  | .infixed _ left op right =>
    left.toInt?.bind fun l => right.toInt?.bind fun r => op.onInts? l r
  | _ => none

/-- The parts of an arithmetic expression in the order of evaluation: an operation comes behind its
operands, and the expression itself is the last. -/
def parts : Expr → List Expr
  | .prefixed token op right => right.parts ++ [.prefixed token op right]
  | .infixed token left op right => left.parts ++ right.parts ++ [.infixed token left op right]
  | expr => [expr]

/-- Whether there is an exact value and it has 64 bits. -/
def fits (expr : Expr) : Bool :=
  expr.toInt?.any fun value => -2 ^ 63 ≤ value && value < 2 ^ 63

/-- The first part that does not fit. -/
def firstOffence? (expr : Expr) : Option Expr :=
  expr.parts.find? (! ·.fits)

/-- The message about an operation that does not fit, with the exact values of its operands. -/
def offence? : Expr → Option String
  | .prefixed _ .negate right =>
    right.toInt?.map fun r => "integer overflow: -" ++ toString r
  | .infixed _ left op right =>
    left.toInt?.bind fun l => right.toInt?.map fun r =>
      if op = .divide ∧ r = 0 then "division by zero"
      else "integer overflow: " ++ toString l ++ " " ++ op.symbol ++ " " ++ toString r
  | _ => none

/-! ## What offends first -/

variable {expr left right : Expr} {op : InfixOp} {token : Token} {l r : Int}

theorem fits_eq_of_exact {value : Int} (h : expr.toInt? = some value) :
    expr.fits = (Integer.ofInt? value).isSome := by
  rw [Bool.eq_iff_iff, Integer.ofInt?_isSome_iff, fits, h]
  simp

theorem firstOffence?_integer (token : Token) (value : Int64) :
    (integer token value).firstOffence? = none := by
  have hfits : (integer token value).fits = true := by
    rw [fits_eq_of_exact rfl, Integer.ofInt?_eq_some_iff.mpr rfl, Option.isSome_some]
  have hparts : (integer token value).parts = [integer token value] := rfl
  rw [firstOffence?, hparts, List.find?_singleton, hfits]
  rfl

theorem firstOffence?_prefixed (op : PrefixOp) :
    (prefixed token op right).firstOffence? =
      right.firstOffence?.or
        (if (prefixed token op right).fits then none else some (prefixed token op right)) := by
  rw [firstOffence?, parts, List.find?_append, List.find?_singleton, firstOffence?]
  cases (prefixed token op right).fits <;> rfl

theorem firstOffence?_infixed :
    (infixed token left op right).firstOffence? =
      (left.firstOffence?.or right.firstOffence?).or
        (if (infixed token left op right).fits then none
          else some (infixed token left op right)) := by
  rw [firstOffence?, parts, List.find?_append, List.find?_append, List.find?_singleton,
    firstOffence?, firstOffence?]
  cases (infixed token left op right).fits <;> rfl

theorem toInt?_infixed (op : InfixOp) (token : Token) (hl : left.toInt? = some l)
    (hr : right.toInt? = some r) :
    (infixed token left op right).toInt? = op.onInts? l r := by
  rw [toInt?, hl, hr]
  rfl

theorem offence?_infixed (op : InfixOp) (token : Token) (hl : left.toInt? = some l)
    (hr : right.toInt? = some r) :
    (infixed token left op right).offence? = some (if op = .divide ∧ r = 0 then "division by zero"
      else "integer overflow: " ++ toString l ++ " " ++ op.symbol ++ " " ++ toString r) := by
  rw [offence?, hl, hr]
  rfl

end Expr

end ClosureLang
