import ClosureLang.Token.Basic

/-!
# Operators

The operators, and how tightly the tokens bind that may follow an expression.
-/

namespace ClosureLang

inductive PrefixOp
  | not
  | negate
deriving DecidableEq

namespace PrefixOp

def symbol : PrefixOp → String
  | not => "!"
  | negate => "-"

def ofKind? : Kind → Option PrefixOp
  | .bang => some not
  | .minus => some negate
  | _ => none

end PrefixOp

inductive InfixOp
  | add
  | subtract
  | multiply
  | divide
  | less
  | greater
  | lessEqual
  | greaterEqual
  | equal
  | notEqual
deriving DecidableEq

namespace InfixOp

def symbol : InfixOp → String
  | add => "+"
  | subtract => "-"
  | multiply => "*"
  | divide => "/"
  | less => "<"
  | greater => ">"
  | lessEqual => "<="
  | greaterEqual => ">="
  | equal => "=="
  | notEqual => "!="

def ofKind? : Kind → Option InfixOp
  | .plus => some add
  | .minus => some subtract
  | .asterisk => some multiply
  | .slash => some divide
  | .less => some less
  | .greater => some greater
  | .lessEqual => some lessEqual
  | .greaterEqual => some greaterEqual
  | .equal => some equal
  | .notEqual => some notEqual
  | _ => none

end InfixOp

/-- How tightly an operator binds, loosest first. -/
inductive Precedence
  | lowest
  | equals
  | lessGreater
  | sum
  | product
  | prefixed
  | call
deriving DecidableEq

namespace Precedence

def rank : Precedence → Nat
  | lowest => 0
  | equals => 1
  | lessGreater => 2
  | sum => 3
  | product => 4
  | prefixed => 5
  | call => 6

instance : LT Precedence :=
  ⟨fun p q => p.rank < q.rank⟩

instance (p q : Precedence) : Decidable (p < q) :=
  inferInstanceAs (Decidable (p.rank < q.rank))

theorem lt_iff_rank_lt {p q : Precedence} : p < q ↔ p.rank < q.rank :=
  Iff.rfl

/-- The precedence of a token that follows an expression. A token that continues no expression has
the lowest one. -/
def ofKind : Kind → Precedence
  | .equal | .notEqual => equals
  | .less | .greater | .lessEqual | .greaterEqual => lessGreater
  | .plus | .minus => sum
  | .asterisk | .slash => product
  | .leftParen => call
  | _ => lowest

end Precedence

end ClosureLang
