import ClosureLang.Proofs.Stepping.Changes
import ClosureLang.Proofs.Stepping.Grounded

/-!
# Stores with a history

How a store can have come about: scopes are opened and names bound from outside, and nodes evaluated
and functions called. The history says which scopes were opened and which names bound, in order.
-/

namespace ClosureLang

def Change.bound? (scope : ScopeId) (name : String) : Change → Option Object
  | .bound scope' name' value => if scope' = scope ∧ name' = name then some value else none
  | .opened _ => none

/-- What a name was bound to in a scope most recently. -/
def lastBound? (changes : List Change) (scope : ScopeId) (name : String) : Option Object :=
  changes.reverse.findSome? (Change.bound? scope name)

namespace Store

/-- The scopes from one outwards, up to one that is inside no other. -/
inductive Chain (store : Store) : ScopeId → List ScopeId → Prop
  | last {scope} : store.outer? scope = none → Chain store scope [scope]
  | outer {scope outer chain} :
      store.outer? scope = some outer → Chain store outer chain → Chain store scope (scope :: chain)

/-- What may begin in a store from outside. The values of a call are ones that the store has room
for: the scopes that they have captured are there. -/
inductive Starts (store : Store) : Step → Prop
  | node {depth : Nat} {node : Node} {scope : ScopeId} :
      scope < store.scopes.size → Starts store (node.start depth scope store)
  | call {depth : Nat} {callee : Object} {arguments : List Object} {scope : ScopeId} :
      scope < store.scopes.size → callee.Rooted store.scopes.size →
      (∀ argument ∈ arguments, argument.Rooted store.scopes.size) →
      Starts store ⟨depth, .call callee arguments, scope, ⟨store, []⟩⟩

/-- The store has come about by these changes. It may be one in the midst of an evaluation. -/
inductive HasHistory : List Change → Store → Prop
  | empty : HasHistory [] .empty
  | newScope {changes : List Change} {store : Store} {outer : Option ScopeId} :
      HasHistory changes store → (∀ i ∈ outer, i < store.scopes.size) →
      HasHistory (changes ++ [.opened outer]) (store.newScope outer).2
  | set {changes : List Change} {store : Store} {scope : ScopeId} {name : String} {value : Object} :
      HasHistory changes store → scope < store.scopes.size → value.Rooted store.scopes.size →
      HasHistory (changes ++ [.bound scope name value]) (store.set scope name value)
  | evaluated {changes more : List Change} {store : Store} {depth : Nat} {node : Node}
      {scope : ScopeId} {result : Evaluation} :
      HasHistory changes store → scope < store.scopes.size →
      (node.start depth scope store).Changes more →
      node.evaluate? depth scope store = some result →
      HasHistory (changes ++ more) result.store
  | ended {changes more : List Change} {store : Store} {step : Step} :
      HasHistory changes store → Starts store step → step.Changes more →
      HasHistory (changes ++ more) step.ending.store
  | begun {changes more : List Change} {store : Store} {first step : Step} :
      HasHistory changes store → Starts store first → first.ComesAfter more step →
      HasHistory (changes ++ more) step.state.store

end Store

end ClosureLang
