import ClosureLang.Proofs.EarlyExit.Structured

/-!
# Programs that confine what they return

An `if` hands on what a `return` in its branch has wrapped. A program confines it if such an `if` is
nowhere the value of a `let`, the value of a `return` or an argument.
-/

namespace ClosureLang

mutual

/-- Whether the value of a statement may be one that a `return` has wrapped. -/
def Stmt.handsOn : Stmt → Bool
  | .letStmt _ _ _ => false
  | .returnStmt _ _ => true
  | .exprStmt _ expr => expr.handsOn

def anyHandsOn : List Stmt → Bool
  | [] => false
  | stmt :: stmts => stmt.handsOn || anyHandsOn stmts

def Block.handsOn : Block → Bool
  | ⟨_, statements⟩ => anyHandsOn statements

def Expr.handsOn : Expr → Bool
  | .conditional _ _ consequence alternative =>
    consequence.handsOn || alternativeHandsOn alternative
  | _ => false

def alternativeHandsOn : Option Block → Bool
  | none => false
  | some alternative => alternative.handsOn

end

mutual

/-- Whether nothing in a tree that is bound, returned or an argument hands on what it wraps. -/
def Stmt.confined : Stmt → Bool
  | .letStmt _ _ value => !value.handsOn && value.confined
  | .returnStmt _ value => !value.handsOn && value.confined
  | .exprStmt _ expr => expr.confined

def allConfined : List Stmt → Bool
  | [] => true
  | stmt :: stmts => stmt.confined && allConfined stmts

def Block.confined : Block → Bool
  | ⟨_, statements⟩ => allConfined statements

def Expr.confined : Expr → Bool
  | .identifier _ | .integer _ _ | .boolean _ _ => true
  | .prefixed _ _ right => right.confined
  | .infixed _ left _ right => left.confined && right.confined
  | .conditional _ condition consequence alternative =>
    condition.confined && consequence.confined && alternativeConfined alternative
  | .function _ _ body => body.confined
  | .call _ callee arguments => callee.confined && argumentsConfined arguments

def alternativeConfined : Option Block → Bool
  | none => true
  | some alternative => alternative.confined

def argumentsConfined : List Expr → Bool
  | [] => true
  | expr :: exprs => !expr.handsOn && expr.confined && argumentsConfined exprs

end

def Program.confined (program : Program) : Bool :=
  allConfined program.statements

/-- Nothing returned is bound in any scope. -/
def Store.Plain (store : Store) : Prop :=
  ∀ scope name value, store.getLocal? scope name = some value → ¬ value.IsReturned

/-- Not returned, and for a function, with a body that confines what it returns. -/
def Object.Confined : Object → Prop
  | .returned _ _ => False
  | .function _ closure => closure.body.confined = true
  | _ => True

/-- Nothing returned is bound in any scope, and every bound function confines what it returns. -/
def Store.Confined (store : Store) : Prop :=
  ∀ scope name value, store.getLocal? scope name = some value → value.Confined

@[simp] theorem Object.confined_ofBool (value : Bool) : (Object.ofBool value).Confined :=
  trivial

@[simp] theorem Object.confined_sharedNull : Object.sharedNull.Confined :=
  trivial

theorem Object.Confined.not_returned {object : Object} (h : object.Confined) :
    ¬ object.IsReturned := by
  intro hr
  cases object with
  | returned _ _ => exact h
  | _ => cases hr

theorem Store.Confined.plain {store : Store} (h : store.Confined) : store.Plain :=
  fun scope name value hv => (h scope name value hv).not_returned

end ClosureLang
