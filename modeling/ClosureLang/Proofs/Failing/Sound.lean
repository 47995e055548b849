import ClosureLang.Proofs.Running.Lemmas.Invariant

/-!
# Environments that lead to no error

What can be come to from a scope, and the property of a value that leads to no error.
-/

namespace ClosureLang

/-- The objects that can be come to from a scope: through bindings, outwards, under the wrapping of
a `return` and through the scopes that functions have captured. -/
inductive Store.Shows (store : Store) : ScopeId → Object → Prop
  | bound {scope name value} :
      store.getLocal? scope name = some value → Shows store scope value
  | outer {scope outer value} :
      store.outer? scope = some outer → Shows store outer value → Shows store scope value
  | inner {scope id inner} :
      Shows store scope (.returned id inner) → Shows store scope inner
  | captured {scope id closure value} :
      Shows store scope (.function id closure) → Shows store closure.scope value →
      Shows store scope value

def Store.ShowsError (store : Store) (scope : ScopeId) : Prop :=
  ∃ id message, store.Shows scope (.error id message)

/-- Not an error, also not wrapped, and not a function with a scope outside `S`. -/
def Object.Sound (S : ScopeId → Prop) : Object → Prop
  | .integer _ _ | .boolean _ _ | .null _ => True
  | .function _ closure => S closure.scope
  | .returned _ inner => inner.Sound S
  | .error _ _ => False

variable {S : ScopeId → Prop} {store store' : Store} {scope : ScopeId} {value : Object}

theorem Object.hereditary_sound (S : ScopeId → Prop) : Object.Hereditary S (Object.Sound S) where
  integer _ _ := trivial
  ofBool _ := trivial
  sharedNull := trivial
  function _ _ := Iff.rfl
  returned _ _ := Iff.rfl

theorem Object.Sound.not_error (h : value.Sound S) : value.isError = false := by
  cases value with
  | error _ _ => exact h.elim
  | _ => rfl

namespace Store

/-- In a store within bounds, everything that a scope inside them shows is sound. -/
theorem Within.sound_of_shows (h : store.Within S (Object.Sound S))
    (hshows : store.Shows scope value) : S scope → value.Sound S := by
  induction hshows with
  | bound hv => exact fun hscope => h.bound _ _ _ hscope hv
  | outer ho _ ih => exact fun hscope => ih (h.outer _ _ hscope ho)
  | inner _ ih => exact ih
  | captured _ _ ihf ihv => exact fun hscope => ihv (ihf hscope)

theorem Within.not_showsError (h : store.Within S (Object.Sound S)) (hscope : S scope) :
    ¬ store.ShowsError scope := by
  rintro ⟨id, message, hshows⟩
  exact h.sound_of_shows hshows hscope

theorem not_shows_of_size_le (h : store.scopes.size ≤ scope) : ¬ store.Shows scope value := by
  intro hshows
  induction hshows with
  | bound hv =>
      rw [getLocal?_of_size_le h] at hv
      cases hv
  | outer ho _ _ =>
      rw [outer?_of_size_le h] at ho
      cases ho
  | inner _ ih => exact ih h
  | captured _ _ ih _ => exact ih h

theorem lt_size_of_showsError (store : Store) (h : store.ShowsError scope) :
    scope < store.scopes.size := by
  obtain ⟨id, message, hshows⟩ := h
  exact Nat.lt_of_not_le fun hle => not_shows_of_size_le hle hshows

/-- A value that a scope without errors shows is sound. -/
theorem sound_of_not_showsError (value : Object) (h : ¬ store.ShowsError scope)
    (hshows : store.Shows scope value) : value.Sound fun i => ¬ store.ShowsError i := by
  match value with
  | .integer _ _ | .boolean _ _ | .null _ => trivial
  | .function id closure =>
      rintro ⟨id', message, herror⟩
      exact h ⟨id', message, .captured hshows herror⟩
  | .returned id inner => exact sound_of_not_showsError inner h (.inner hshows)
  | .error id message => exact h ⟨id, message, hshows⟩

/-- The scopes from which no error can be come to. -/
theorem within_sound (store : Store) :
    store.Within (fun i => ¬ store.ShowsError i) (Object.Sound fun i => ¬ store.ShowsError i) where
  fresh i hi := fun herror => Nat.not_lt_of_le hi (store.lt_size_of_showsError herror)
  outer i outer hi ho := by
    rintro ⟨id, message, hshows⟩
    exact hi ⟨id, message, .outer ho hshows⟩
  bound i name value hi hv := sound_of_not_showsError value hi (.bound hv)

end Store

end ClosureLang
