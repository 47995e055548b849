import ClosureLang.Proofs.Scoping.Lemmas.Records

/-!
# Names along a chain of scopes

A name is found in the first scope of the chain that binds it. In the scope of a call these are the
parameters, and then whatever the captured scope finds.
-/

namespace ClosureLang

variable {P : Object → Prop} {changes : List Change} {store store' : Store} {scope : ScopeId}
  {name : String} {value : Object} {step : Step}

namespace Store

theorem get?_of_local (h : store.getLocal? scope name = some value) :
    store.get? scope name = some value := by
  rw [get?, h]

theorem get?_of_outer {outer : ScopeId} (h : store.getLocal? scope name = none)
    (houter : store.outer? scope = some outer) (hlt : outer < scope) :
    store.get? scope name = store.get? outer name := by
  rw [get?, h, houter]
  exact if_pos hlt

theorem get?_of_last (h : store.getLocal? scope name = none) (houter : store.outer? scope = none) :
    store.get? scope name = none := by
  rw [get?, h, houter]

theorem Grounded.exists_chain (h : store.Grounded P) (scope : ScopeId) :
    ∃ chain, store.Chain scope chain := by
  induction scope using Nat.strongRecOn with
  | ind scope ih =>
      cases houter : store.outer? scope with
      | none => exact ⟨[scope], .last houter⟩
      | some outer =>
          obtain ⟨chain, hchain⟩ := ih outer (h.outer_lt scope outer houter)
          exact ⟨scope :: chain, .outer houter hchain⟩

theorem Grounded.get?_eq {chain : List ScopeId} (h : store.Grounded P)
    (hchain : store.Chain scope chain) (name : String) :
    store.get? scope name = chain.findSome? (store.getLocal? · name) := by
  induction hchain with
  | @last scope houter =>
      cases hlocal : store.getLocal? scope name with
      | some value => rw [get?_of_local hlocal, List.findSome?_singleton, hlocal]
      | none => rw [get?_of_last hlocal houter, List.findSome?_singleton, hlocal]
  | @outer scope outer chain houter _ ih =>
      cases hlocal : store.getLocal? scope name with
      | some value => rw [get?_of_local hlocal, List.findSome?_cons, hlocal]
      | none =>
          rw [get?_of_outer hlocal houter (h.outer_lt scope outer houter), List.findSome?_cons,
            hlocal, ih]

/-! ## The scope of a call -/

/-- Scopes of which the store has kept the bindings find the same. -/
theorem get?_eq_of_same (hlocal : ∀ i ≤ scope, store'.getLocal? i name = store.getLocal? i name)
    (houter : ∀ i ≤ scope, store'.outer? i = store.outer? i) :
    store'.get? scope name = store.get? scope name := by
  induction scope using Nat.strongRecOn with
  | ind scope ih =>
      rw [get?, get?, hlocal scope (Nat.le_refl _), houter scope (Nat.le_refl _)]
      cases store.getLocal? scope name with
      | some value => rfl
      | none =>
          cases store.outer? scope with
          | none => rfl
          | some outer =>
              dsimp only
              split
              · next hlt =>
                exact ih outer hlt (fun i hi => hlocal i (Nat.le_trans hi (Nat.le_of_lt hlt)))
                  fun i hi => houter i (Nat.le_trans hi (Nat.le_of_lt hlt))
              · rfl

theorem get?_of_size_le (h : store.scopes.size ≤ scope) (name : String) :
    store.get? scope name = none :=
  get?_of_last (getLocal?_of_size_le h) (outer?_of_size_le h)

theorem outer?_bindings (inside i : ScopeId) : (parameters : List Identifier) →
    (values : List Object) → (store : Store) →
    (store.after (bindings inside parameters values)).outer? i = store.outer? i
  | [], [], _ | [], _ :: _, _ | _ :: _, [], _ => rfl
  | parameter :: parameters, value :: values, store =>
      (outer?_bindings inside i parameters values _).trans
        (store.outer?_set inside i parameter.name value)

theorem getLocal?_bindings {inside i : ScopeId} : (parameters : List Identifier) →
    (values : List Object) → (store : Store) →
    (∀ parameter ∈ parameters, parameter.name ≠ name) →
    (store.after (bindings inside parameters values)).getLocal? i name = store.getLocal? i name
  | [], [], _, _ | [], _ :: _, _, _ | _ :: _, [], _, _ => rfl
  | parameter :: parameters, value :: values, store, h => by
      refine (getLocal?_bindings parameters values _ fun other hmem =>
        h other (List.mem_cons_of_mem _ hmem)).trans ?_
      change (store.set inside parameter.name value).getLocal? _ _ = _
      rw [getLocal?_set, if_neg]
      exact fun hset => h parameter List.mem_cons_self hset.2.2.symm

theorem getLocal?_bindings_last {inside : ScopeId} {parameters : List Identifier}
    {values : List Object} {i : Nat} {parameter : Identifier}
    (hscope : inside < store.scopes.size) (hparameter : parameters[i]? = some parameter)
    (hvalue : values[i]? = some value)
    (hlast : ∀ later ∈ parameters.drop (i + 1), later.name ≠ parameter.name) :
    (store.after (bindings inside parameters values)).getLocal? inside parameter.name =
      some value := by
  induction parameters generalizing store values i with
  | nil => simp at hparameter
  | cons first parameters ih =>
      cases values with
      | nil => simp at hvalue
      | cons argument values =>
          cases i with
          | zero =>
              cases hparameter
              cases hvalue
              refine (getLocal?_bindings parameters values _ hlast).trans ?_
              change (store.set inside parameter.name value).getLocal? _ _ = _
              rw [getLocal?_set, if_pos ⟨rfl, hscope, rfl⟩]
          | succ i =>
              have hscope' : inside < (store.set inside first.name argument).scopes.size := by
                rwa [size_set]
              exact ih hscope' hparameter hvalue hlast

section

variable {closure : Closure} {values : List Object}

/-- The store in which the body of a function begins. -/
def inside (store : Store) (closure : Closure) (values : List Object) : Store :=
  store.after (.opened (some closure.scope) ::
    bindings store.scopes.size closure.parameters values)

theorem inside_parameter {i : Nat} {parameter : Identifier}
    (hparameter : closure.parameters[i]? = some parameter) (hvalue : values[i]? = some value)
    (hlast : ∀ later ∈ closure.parameters.drop (i + 1), later.name ≠ parameter.name) :
    (store.inside closure values).get? store.scopes.size parameter.name = some value := by
  have hsize := store.size_newScope (some closure.scope)
  exact get?_of_local (getLocal?_bindings_last (Nat.lt_of_lt_of_eq (Nat.lt_succ_self _) hsize.symm)
    hparameter hvalue hlast)

/-- Nothing that was there before has changed. -/
theorem inside_other (h : ∀ parameter ∈ closure.parameters, parameter.name ≠ name) :
    (store.inside closure values).get? store.scopes.size name = store.get? closure.scope name := by
  have hlocal (i : ScopeId) :
      (store.inside closure values).getLocal? i name = store.getLocal? i name :=
    (getLocal?_bindings _ _ _ h).trans (store.getLocal?_newScope _ i name)
  have houter (i : ScopeId) : (store.inside closure values).outer? i =
      if i = store.scopes.size then some closure.scope else store.outer? i :=
    (outer?_bindings _ i _ _ _).trans (store.outer?_newScope _ i)
  rw [get?, hlocal, getLocal?_of_size_le (Nat.le_refl _), houter, if_pos rfl]
  dsimp only
  split
  · next hlt =>
    refine get?_eq_of_same (fun i _ => hlocal i) fun i hi => ?_
    rw [houter, if_neg (Nat.ne_of_lt (Nat.lt_of_le_of_lt hi hlt))]
  · next hnot => exact (get?_of_size_le (Nat.le_of_not_lt hnot) name).symm

end

end Store

end ClosureLang
