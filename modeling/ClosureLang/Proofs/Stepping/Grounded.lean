import ClosureLang.Proofs.Failing.Steps

/-!
# What the values of a step come from

The scopes that functions have captured are ones that there are, and what is neither an integer nor
shared is made by a function literal or by a `return`.
-/

namespace ClosureLang

/-- The functions in an object have captured scopes that are among the first `size`. -/
def Object.Rooted (size : Nat) : Object → Prop
  | .function _ closure => closure.scope < size
  | .returned _ inner => inner.Rooted size
  | _ => True

/-- A property of an object and of what is wrapped in it. -/
def Object.Throughout (P : Object → Prop) : Object → Prop
  | .returned id inner => P (.returned id inner) ∧ inner.Throughout P
  | object => P object

structure Object.Grounded (P : Object → Prop) (size : Nat) (value : Object) : Prop where
  rooted : value.Rooted size
  throughout : value.Throughout P

/-- Of the values in a list, or of the one that there may be. -/
abbrev Object.AllGrounded {C : Type} [Membership Object C] (P : Object → Prop) (size : Nat)
    (values : C) : Prop :=
  ∀ value ∈ values, value.Grounded P size

/-- Scopes lead outwards to older ones, and bind only what has the property. -/
structure Store.Grounded (P : Object → Prop) (store : Store) : Prop where
  outer_lt : ∀ i outer, store.outer? i = some outer → outer < i
  bound : ∀ i name value, store.getLocal? i name = some value →
    value.Grounded P store.scopes.size

structure Run.State.Grounded (P : Object → Prop) (s : State) : Prop where
  store : s.store.Grounded P
  used : ∀ how value, Event.use how value ∈ s.journal → value.Grounded P s.store.scopes.size

def Part.Grounded (P : Object → Prop) (size : Nat) : Part → Prop
  | .call callee values => callee.Grounded P size ∧ Object.AllGrounded P size values
  | .statements _ last => Object.AllGrounded P size last
  | _ => True

namespace Step

/-- The step makes a function or a wrapping itself. -/
inductive Makes : Step → Object → Prop
  | function {depth token parameters body scope s} :
      Makes ⟨depth, .expression (.function token parameters body), scope, s⟩
        (.function s.store.newId.1 ⟨parameters, body, scope⟩)
  | returned {depth token value scope s inner s₁} :
      Run.expression (Run.body depth) value scope (s.noted (.statement (.returnStmt token value))) =
        .ok inner s₁ →
      Makes ⟨depth, .statement (.returnStmt token value), scope, s⟩
        (.returned s₁.store.newId.1 inner)

/-- A step that begins with nothing but what has the property, and makes nothing else. -/
structure Grounded (P : Object → Prop) (step : Step) : Prop where
  scope_lt : step.scope < step.state.store.scopes.size
  state : step.state.Grounded P
  part : step.part.Grounded P step.state.store.scopes.size
  makes : ∀ step' value, step.Comes step' → step'.Makes value → P value

end Step

/-- The property holds of what is not made by a function literal or a `return`. -/
structure Object.Basic (P : Object → Prop) : Prop where
  integer : ∀ id value, P (.integer id value)
  ofBool : ∀ value, P (.ofBool value)
  sharedNull : P .sharedNull

end ClosureLang
