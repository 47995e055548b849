import ClosureLang.Eval.Tree

/-!
# What objects lead to

The scopes and the objects that can be come to from some objects, stores that agree on them, and
outcomes of runs that are the same but for the names of what the runs have made.
-/

namespace ClosureLang

mutual

/-- The objects that some others lead to, by way of what is wrapped in a `return` and of what is
bound in the scopes they lead to. -/
inductive Store.LeadsTo (store : Store) (roots : List Object) : Object → Prop
  | root {value} : value ∈ roots → LeadsTo store roots value
  | inner {id inner} : LeadsTo store roots (.returned id inner) → LeadsTo store roots inner
  | bound {scope name value} :
      LeadsToScope store roots scope → store.getLocal? scope name = some value →
      LeadsTo store roots value

/-- The scopes that some objects lead to: those that functions have captured, and outwards. -/
inductive Store.LeadsToScope (store : Store) (roots : List Object) : ScopeId → Prop
  | captured {id closure} :
      LeadsTo store roots (.function id closure) → LeadsToScope store roots closure.scope
  | outer {scope outer} :
      LeadsToScope store roots scope → store.outer? scope = some outer →
      LeadsToScope store roots outer

end

/-- The object with this identity has been made. -/
def ObjectId.MadeIn (store : Store) : ObjectId → Prop
  | fresh serial => serial < store.made
  | _ => True

/-- All that the roots lead to is in both stores, and the scopes among it are the same in both. -/
structure Store.Agrees (roots : List Object) (store store' : Store) : Prop where
  lt_size : ∀ i, store.LeadsToScope roots i → i < store.scopes.size ∧ i < store'.scopes.size
  bindings : ∀ i, store.LeadsToScope roots i → ∀ name,
    store'.getLocal? i name = store.getLocal? i name
  outer : ∀ i, store.LeadsToScope roots i → store'.outer? i = store.outer? i
  made : ∀ value, store.LeadsTo roots value → value.id.MadeIn store ∧ value.id.MadeIn store'

/-! ## Other names -/

/-- What the scopes and the objects of one run are called in another. -/
structure Renaming where
  scope : ScopeId → ScopeId
  serial : Nat → Nat

/-- The name of a thing that is the `i`-th of its run. The first `old` things keep their names, and
the later ones come behind the `new` things that the other run begins with. -/
def movedBehind (old new i : Nat) : Nat :=
  if i < old then i else new + (i - old)

/-- Of runs that begin with these stores: what is in the stores keeps its name, and what the first
run makes is called like what the second one makes at the same time. -/
def Renaming.between (store store' : Store) : Renaming where
  scope := movedBehind store.scopes.size store'.scopes.size
  serial := movedBehind store.made store'.made

section

variable (ρ : Renaming)

def ObjectId.renamed : ObjectId → ObjectId
  | fresh serial => fresh (ρ.serial serial)
  | id => id

def Object.renamed : Object → Object
  | integer id value => integer (id.renamed ρ) value
  | boolean id value => boolean (id.renamed ρ) value
  | null id => null (id.renamed ρ)
  | function id closure =>
    function (id.renamed ρ) { closure with scope := ρ.scope closure.scope }
  | returned id inner => returned (id.renamed ρ) inner.renamed
  | error id message => error (id.renamed ρ) message

end

/-! ## The same outcome -/

/-- What the roots lead to in the one store is, renamed, what they lead to in the other, and the
renaming keeps it apart. -/
structure Store.Corresponds (ρ : Renaming) (roots : List Object) (store store' : Store) : Prop where
  bindings : ∀ i, store.LeadsToScope roots i → ∀ name,
    store'.getLocal? (ρ.scope i) name = (store.getLocal? i name).map (Object.renamed ρ)
  outer : ∀ i, store.LeadsToScope roots i →
    store'.outer? (ρ.scope i) = (store.outer? i).map ρ.scope
  scope_inj : ∀ i j, store.LeadsToScope roots i → store.LeadsToScope roots j →
    ρ.scope i = ρ.scope j → i = j
  id_inj : ∀ value value', store.LeadsTo roots value → store.LeadsTo roots value' →
    value.id.renamed ρ = value'.id.renamed ρ → value.id = value'.id

/-- Two runs give the same value but for its names, or they end with the same error, or both stop
for their depth. -/
inductive Run.SameOutcome (ρ : Renaming) :
    EStateM.Result Stop State Object → EStateM.Result Stop State Object → Prop
  | value {value s t} :
      s.store.Corresponds ρ [value] t.store →
      SameOutcome ρ (.ok value s) (.ok (value.renamed ρ) t)
  | stop {stop s t} : SameOutcome ρ (.error stop s) (.error stop t)

end ClosureLang
