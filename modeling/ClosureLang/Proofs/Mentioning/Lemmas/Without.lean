import ClosureLang.Proofs.Mentioning.Mentions
import ClosureLang.Proofs.Running.Lemmas.Store

/-!
# Stores without a name

Other names are read as before, and changes of the store are the same without the name, unless they
are bindings of it.
-/

namespace ClosureLang

variable {name other : String}

namespace Scope

theorem find?_filter (name other : String) (bindings : List (String × Object)) :
    find? other (bindings.filter (·.1 ≠ name)) =
      if other = name then none else find? other bindings := by
  induction bindings with
  | nil => simp [find?]
  | cons entry rest ih =>
    obtain ⟨first, value⟩ := entry
    simp only [List.filter_cons, find?]
    split <;> simp only [find?, ih] <;> grind

theorem filter_insert_self (name : String) (value : Object) (bindings : List (String × Object)) :
    (insert name value bindings).filter (·.1 ≠ name) = bindings.filter (·.1 ≠ name) := by
  induction bindings with
  | nil => simp [insert]
  | cons entry rest ih =>
    obtain ⟨first, old⟩ := entry
    simp only [insert]
    split
    · next heq => simp [heq]
    · simp only [List.filter_cons, ih]

theorem filter_insert (h : other ≠ name) (value : Object) (bindings : List (String × Object)) :
    (insert other value bindings).filter (·.1 ≠ name) =
      insert other value (bindings.filter (·.1 ≠ name)) := by
  induction bindings with
  | nil => simp [insert, h]
  | cons entry rest ih =>
    obtain ⟨first, old⟩ := entry
    by_cases hfirst : first = other
    · simp [insert, hfirst, h]
    · by_cases hname : first = name <;> simp_all [insert]

end Scope

namespace Store

theorem getElem?_without (store : Store) (name : String) (i : ScopeId) :
    (store.without name).scopes[i]? = store.scopes[i]?.map (·.without name) :=
  Array.getElem?_map ..

@[simp] theorem size_without (store : Store) (name : String) :
    (store.without name).scopes.size = store.scopes.size :=
  Array.size_map ..

@[simp] theorem outer?_without (store : Store) (name : String) (i : ScopeId) :
    (store.without name).outer? i = store.outer? i := by
  rw [outer?, outer?, getElem?_without]
  cases store.scopes[i]? <;> rfl

theorem getLocal?_without (store : Store) (name other : String) (i : ScopeId) :
    (store.without name).getLocal? i other =
      if other = name then none else store.getLocal? i other := by
  rw [getLocal?, getLocal?, getElem?_without]
  cases store.scopes[i]? with
  | none => simp
  | some scope => exact Scope.find?_filter name other scope.bindings

theorem get?_without {store : Store} (h : other ≠ name) (scope : ScopeId) :
    (store.without name).get? scope other = store.get? scope other := by
  rw [get?, get?, getLocal?_without, if_neg h, outer?_without]
  cases store.getLocal? scope other with
  | some value => rfl
  | none =>
      cases store.outer? scope with
      | none => rfl
      | some outer =>
          dsimp only
          split
          · exact get?_without h outer
          · rfl
termination_by scope

theorem map_without_modify {f f' : Scope → Scope} (scopes : Array Scope) (scope : ScopeId)
    (h : ∀ scope : Scope, (f scope).without name = f' (scope.without name)) :
    (scopes.modify scope f).map (·.without name) =
      (scopes.map (·.without name)).modify scope f' := by
  refine Array.ext_getElem? fun i => ?_
  rw [Array.getElem?_map, Array.getElem?_modify, Array.getElem?_modify, Array.getElem?_map]
  split
  · cases scopes[i]? with
    | none => rfl
    | some scope => exact congrArg some (h scope)
  · rfl

/-- Nothing is left of a binding of the name. -/
theorem without_set_self (store : Store) (scope : ScopeId) (name : String) (value : Object) :
    (store.set scope name value).without name = store.without name := by
  have hscope (scope : Scope) : (scope.set name value).without name = id (scope.without name) :=
    congrArg (Scope.mk · scope.outer) (Scope.filter_insert_self name value scope.bindings)
  have hid (scopes : Array Scope) : scopes.modify scope id = scopes :=
    Array.ext_getElem? fun i => by simp [Array.getElem?_modify]
  exact congrArg (Store.mk · store.made) ((map_without_modify _ _ hscope).trans (hid _))

theorem without_set (h : other ≠ name) (store : Store) (scope : ScopeId) (value : Object) :
    (store.set scope other value).without name = (store.without name).set scope other value := by
  have hscope (scope : Scope) :
      (scope.set other value).without name = (scope.without name).set other value :=
    congrArg (Scope.mk · scope.outer) (Scope.filter_insert h value scope.bindings)
  have hscopes : (store.scopes.modify scope (·.set other value)).map (·.without name) =
      (store.scopes.map (·.without name)).modify scope (·.set other value) :=
    map_without_modify store.scopes scope hscope
  exact congrArg (Store.mk · store.made) hscopes

theorem without_newScope (store : Store) (name : String) (outer : Option ScopeId) :
    (store.newScope outer).2.without name = ((store.without name).newScope outer).2 :=
  congrArg (Store.mk · store.made) Array.map_push

/-- Stores that are the same without the name agree on all others. -/
theorem agreesBesides_of_without_eq {store store' : Store}
    (h : store'.without name = store.without name) : store.AgreesBesides name store' where
  size := by rw [← size_without store' name, h, size_without]
  outer i := by rw [← outer?_without store' name, h, outer?_without]
  bindings i other hother := by
    have hlocal := congrArg (getLocal? · i other) h
    simpa only [getLocal?_without, if_neg hother] using hlocal
  made := (congrArg Store.made h :)

end Store

end ClosureLang
