import ClosureLang.Proofs.Failing.Steps
import ClosureLang.Proofs.Running.Theorems

/-!
# What the steps of an evaluation change

The scopes that an evaluation opens and the names that it binds, in order. A step makes some of
these changes itself, and the steps that it begins make the others.
-/

namespace ClosureLang

inductive Change
  | opened (outer : Option ScopeId)
  | bound (scope : ScopeId) (name : String) (value : Object)

def Store.changed (store : Store) : Change → Store
  | .opened outer => (store.newScope outer).2
  | .bound scope name value => store.set scope name value

/-- The store after some changes, the first of them first. -/
def Store.after (store : Store) (changes : List Change) : Store :=
  changes.foldl changed store

/-- The changes that bind parameters to arguments from left to right. -/
def bindings (scope : ScopeId) (parameters : List Identifier) (arguments : List Object) :
    List Change :=
  (parameters.zip arguments).map fun entry => .bound scope entry.1.name entry.2

/-- The value that a run has come to. -/
def Run.value? {α : Type} : EStateM.Result Stop State α → Option α
  | .ok value _ => some value
  | .error _ _ => none

namespace Step

/-- The state in which a step ends, also if it fails. -/
def ending (step : Step) : Run.State :=
  Run.ending step.result

/-- What a step does before those that it begins: a call opens a scope and binds the parameters. -/
def opening (step : Step) : List Change :=
  match step.part with
  | .call (.function _ closure) arguments =>
    if closure.parameters.length = arguments.length then
      .opened (some closure.scope) ::
        bindings step.state.store.scopes.size closure.parameters arguments
    else []
  | _ => []

/-- What a step does behind those that it begins: a `let` binds its value, if it comes to one. -/
def closing (step : Step) : List Change :=
  match step.part with
  | .statement (.letStmt token name expr) =>
    let result := Run.expression (Run.body step.depth) expr step.scope
      (step.state.noted (.statement (.letStmt token name expr)))
    (Run.value? result).toList.map (Change.bound step.scope name.name)
  | _ => []

/-- All that a step changes. It begins three others at the most, one after another. -/
inductive Changes : Step → List Change → Prop
  | intro {step} (inner : Nat → List Change) :
      (∀ k part, step.Begins k part → Changes part (inner k)) →
      (∀ k, (∀ part, ¬ step.Begins k part) → inner k = []) →
      Changes step (step.opening ++ (List.range 3).flatMap inner ++ step.closing)

/-- The step comes to another one after these changes. -/
inductive ComesAfter : Step → List Change → Step → Prop
  | refl {step} : ComesAfter step [] step
  | begins {step part step' : Step} {k : Nat} {changes : List Change} (inner : Nat → List Change) :
      step.Begins k part → (∀ j < k, ∀ before, step.Begins j before → Changes before (inner j)) →
      ComesAfter part changes step' →
      ComesAfter step (step.opening ++ (List.range k).flatMap inner ++ changes) step'

end Step

end ClosureLang
