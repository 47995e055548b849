import ClosureLang.Object

/-!
# The store

Every scope of a run, each with its own bindings and a link to the scope around it, and the count of
the objects made so far.
-/

namespace ClosureLang

structure Scope where
  bindings : List (String × Object)
  outer : Option ScopeId

namespace Scope

def find? (name : String) : List (String × Object) → Option Object
  | [] => none
  | (other, value) :: rest => if other = name then some value else find? name rest

/-- The bindings with a name bound to a value, in the place of its former one if it had any. -/
def insert (name : String) (value : Object) : List (String × Object) → List (String × Object)
  | [] => [(name, value)]
  | (other, old) :: rest =>
    if other = name then (name, value) :: rest else (other, old) :: insert name value rest

def get? (scope : Scope) (name : String) : Option Object :=
  find? name scope.bindings

def set (scope : Scope) (name : String) (value : Object) : Scope :=
  { scope with bindings := insert name value scope.bindings }

theorem find?_insert (name other : String) (value : Object) (bindings : List (String × Object)) :
    find? other (insert name value bindings) =
      if other = name then some value else find? other bindings := by
  induction bindings with
  | nil => simp [insert, find?, eq_comm]
  | cons entry rest ih =>
    obtain ⟨first, old⟩ := entry
    simp only [insert]
    split <;> simp only [find?, ih] <;> grind

theorem get?_set (scope : Scope) (name other : String) (value : Object) :
    (scope.set name value).get? other = if other = name then some value else scope.get? other :=
  find?_insert name other value scope.bindings

end Scope

structure Store where
  scopes : Array Scope
  made : Nat

namespace Store

def empty : Store :=
  ⟨#[], 0⟩

/-- A new scope, without bindings. -/
def newScope (store : Store) (outer : Option ScopeId) : ScopeId × Store :=
  (store.scopes.size, { store with scopes := store.scopes.push ⟨[], outer⟩ })

/-- The identity for an object that is about to be made. -/
def newId (store : Store) : ObjectId × Store :=
  (.fresh store.made, { store with made := store.made + 1 })

/-- Binds a name in one scope. Bindings of that name further out stay, and are hidden. -/
def set (store : Store) (scope : ScopeId) (name : String) (value : Object) : Store :=
  { store with scopes := store.scopes.modify scope (·.set name value) }

/-- The binding of a name in one scope. -/
def getLocal? (store : Store) (scope : ScopeId) (name : String) : Option Object :=
  store.scopes[scope]?.bind (·.get? name)

def outer? (store : Store) (scope : ScopeId) : Option ScopeId :=
  store.scopes[scope]?.bind Scope.outer

/-- The binding of a name in the nearest scope that has one, from `scope` outwards. A scope is
around younger ones only. -/
def get? (store : Store) (scope : ScopeId) (name : String) : Option Object :=
  match store.getLocal? scope name with
  | some value => some value
  | none =>
    match store.outer? scope with
    | some outer => if outer < scope then store.get? outer name else none
    | none => none
termination_by scope

end Store

end ClosureLang
