import ClosureLang.Eval.Run
import ClosureLang.Proofs.EarlyExit.Structured
import ClosureLang.Proofs.Running.Lemmas.Store

/-!
# States without returned objects

The invariant of a structured program: in a set of scopes, which has everything in it that the
program can come to, nothing returned is bound.
-/

namespace ClosureLang

variable {S : ScopeId → Prop} {store : Store} {scope : ScopeId} {value : Object}

/-- Not returned, and for a function, structured and captured in `S`. -/
def Object.Clean (S : ScopeId → Prop) : Object → Prop
  | .returned _ _ => False
  | .function _ closure => S closure.scope ∧ closure.body.Structured
  | _ => True

/-- No scope of `S` leads out of it. Scopes that are still to come are in `S`. -/
structure Store.Clean (S : ScopeId → Prop) (store : Store) : Prop where
  fresh : ∀ i, store.scopes.size ≤ i → S i
  outer : ∀ i outer, S i → store.outer? i = some outer → S outer
  bound : ∀ i name value, S i → store.getLocal? i name = some value → value.Clean S

theorem Object.Clean.not_returned (h : value.Clean S) : ¬ value.IsReturned := by
  intro hr
  cases value with
  | returned _ _ => exact h
  | _ => cases hr

theorem Object.Clean.unwrapped (h : value.Clean S) : value.unwrapped = value := by
  cases value with
  | returned _ _ => exact h.elim
  | _ => rfl

/-- A structured environment is clean, with the scopes that can be come to as the set. -/
theorem Store.Structured.clean (h : store.Structured scope) :
    store.Clean fun i => store.Reaches scope i ∨ store.scopes.size ≤ i := by
  constructor
  · exact fun i hi => .inr hi
  · rintro i outer (hi | hi) ho
    · exact .inl (.outer hi ho)
    · rw [Store.outer?_of_size_le hi] at ho
      cases ho
  · rintro i name value (hi | hi) hv
    · cases value with
      | returned _ _ => exact h.not_returned i name _ hi hv rfl
      | function _ closure => exact ⟨.inl (.captured hi hv), h.bodies i name _ _ hi hv⟩
      | _ => trivial
    · rw [Store.getLocal?_of_size_le hi] at hv
      cases hv

namespace Store.Clean

theorem get? {scope : ScopeId} {name : String} (h : store.Clean S) (hs : S scope)
    (hv : store.get? scope name = some value) : value.Clean S := by
  obtain ⟨i, hi, hlocal⟩ := exists_getLocal? h.outer hs hv
  exact h.bound i name value hi hlocal

theorem set {name : String} (h : store.Clean S) (hv : value.Clean S) :
    (store.set scope name value).Clean S := by
  constructor
  · intro i hi
    exact h.fresh i (by simpa using hi)
  · intro i outer hi ho
    exact h.outer i outer hi (by simpa using ho)
  · intro i other value' hi hl
    rw [getLocal?_set] at hl
    split at hl
    · cases hl; exact hv
    · exact h.bound i other value' hi hl

theorem newScope {outer : ScopeId} (h : store.Clean S) (ho : S outer) :
    (store.newScope (some outer)).2.Clean S := by
  constructor
  · intro i hi
    rw [size_newScope] at hi
    exact h.fresh i (Nat.le_of_succ_le hi)
  · intro i outer' hi ho'
    rw [outer?_newScope] at ho'
    split at ho'
    · cases ho'; exact ho
    · exact h.outer i outer' hi ho'
  · intro i name value hi hl
    rw [getLocal?_newScope] at hl
    exact h.bound i name value hi hl

theorem newId (h : store.Clean S) : store.newId.2.Clean S :=
  ⟨h.fresh, h.outer, h.bound⟩

end Store.Clean

/-- Nothing returned can be come to, and none has been used. -/
structure Run.Sane (S : ScopeId → Prop) (s : Run.State) : Prop where
  store : s.store.Clean S
  journal : ∀ how value, Event.use how value ∈ s.journal → ¬ value.IsReturned

namespace Run.Sane

variable {s : Run.State}

theorem note (h : Sane S s) {event : Event} (he : ∀ how value, event ≠ .use how value) :
    Sane S { s with journal := event :: s.journal } := by
  constructor
  · exact h.store
  · intro how value hm
    cases List.mem_cons.mp hm with
    | inl heq => exact absurd heq.symm (he how value)
    | inr hm => exact h.journal how value hm

theorem statement (h : Sane S s) (stmt : Stmt) :
    Sane S { s with journal := .statement stmt :: s.journal } :=
  h.note (by simp)

theorem use (h : Sane S s) (how : Use) (hv : value.Clean S) :
    Sane S { s with journal := .use how value :: s.journal } := by
  constructor
  · exact h.store
  · intro how' value' hm
    cases List.mem_cons.mp hm with
    | inl heq => cases heq; exact hv.not_returned
    | inr hm => exact h.journal how' value' hm

theorem of_store {store : Store} (h : Sane S s) (hs : store.Clean S) : Sane S { s with store } :=
  ⟨hs, h.journal⟩

end Run.Sane

end ClosureLang
