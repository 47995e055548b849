import ClosureLang.Store

/-!
# Reading a store

Where a binding that is found stands, and what is read after a change.
-/

namespace ClosureLang.Store

variable {store : Store} {scope : ScopeId} {name : String} {value : Object}

/-- The scope from which a name is found lies on the way outwards. -/
theorem exists_getLocal? {P : ScopeId → Prop} {scope : ScopeId}
    (hout : ∀ i outer, P i → store.outer? i = some outer → P outer) (hscope : P scope)
    (h : store.get? scope name = some value) : ∃ i, P i ∧ store.getLocal? i name = some value := by
  rw [get?] at h
  split at h
  · next found hlocal =>
    cases h
    exact ⟨scope, hscope, hlocal⟩
  · split at h
    · next outer houter =>
      split at h
      · exact exists_getLocal? hout (hout scope outer hscope houter) h
      · cases h
    · cases h
termination_by scope

theorem outer?_of_size_le (h : store.scopes.size ≤ scope) : store.outer? scope = none := by
  rw [outer?, Array.getElem?_eq_none h, Option.bind_none]

theorem getLocal?_of_size_le (h : store.scopes.size ≤ scope) :
    store.getLocal? scope name = none := by
  rw [getLocal?, Array.getElem?_eq_none h, Option.bind_none]

theorem getElem?_set (store : Store) (scope i : ScopeId) (name : String) (value : Object) :
    (store.set scope name value).scopes[i]? =
      if scope = i then store.scopes[i]?.map (·.set name value) else store.scopes[i]? := by
  simp [Store.set, Array.getElem?_modify]

@[simp] theorem size_set (store : Store) (scope : ScopeId) (name : String) (value : Object) :
    (store.set scope name value).scopes.size = store.scopes.size := by
  simp [Store.set]

@[simp] theorem outer?_set (store : Store) (scope i : ScopeId) (name : String) (value : Object) :
    (store.set scope name value).outer? i = store.outer? i := by
  rw [outer?, outer?, getElem?_set]
  split
  · cases store.scopes[i]? <;> rfl
  · rfl

theorem getLocal?_set (store : Store) (scope i : ScopeId) (name other : String) (value : Object) :
    (store.set scope name value).getLocal? i other =
      if scope = i ∧ i < store.scopes.size ∧ other = name then some value
      else store.getLocal? i other := by
  rw [getLocal?, getLocal?, getElem?_set]
  cases Nat.lt_or_ge i store.scopes.size with
  | inl hi =>
      rw [Array.getElem?_eq_getElem hi]
      by_cases hs : scope = i
      · simp only [hs, hi, if_true, true_and, Option.map_some, Option.bind_some, Scope.get?_set]
      · simp only [hs, if_false, false_and]
  | inr hi =>
      have hne : ¬ (scope = i ∧ i < store.scopes.size ∧ other = name) :=
        fun h => Nat.not_le_of_lt h.2.1 hi
      rw [Array.getElem?_eq_none hi, if_neg hne]
      split <;> rfl

theorem getElem?_newScope (store : Store) (outer : Option ScopeId) (i : ScopeId) :
    (store.newScope outer).2.scopes[i]? =
      if i = store.scopes.size then some ⟨[], outer⟩ else store.scopes[i]? := by
  simp only [newScope, Array.getElem?_push]

@[simp] theorem size_newScope (store : Store) (outer : Option ScopeId) :
    (store.newScope outer).2.scopes.size = store.scopes.size + 1 := by
  simp [newScope]

theorem outer?_newScope (store : Store) (outer : Option ScopeId) (i : ScopeId) :
    (store.newScope outer).2.outer? i =
      if i = store.scopes.size then outer else store.outer? i := by
  rw [outer?, outer?, getElem?_newScope]
  split
  · rfl
  · rfl

/-- The new scope has no bindings, and neither had its place before. -/
theorem getLocal?_newScope (store : Store) (outer : Option ScopeId) (i : ScopeId) (name : String) :
    (store.newScope outer).2.getLocal? i name = store.getLocal? i name := by
  rw [getLocal?, getLocal?, getElem?_newScope]
  split
  · next hi =>
    subst hi
    rw [Array.getElem?_eq_none (Nat.le_refl _)]
    rfl
  · rfl

end ClosureLang.Store
