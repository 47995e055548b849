import ClosureLang.Eval.Node

/-!
# What a run may come to
-/

namespace ClosureLang.Run

variable {α β : Type}

/-- `Q` holds of a result, and `E` where the run stops without one. -/
inductive Outcome (Q : α → State → Prop) (E : Stop → State → Prop) :
    EStateM.Result Stop State α → Prop
  | ok {a s} : Q a s → Outcome Q E (.ok a s)
  | error {stop s} : E stop s → Outcome Q E (.error stop s)

variable {Q : α → State → Prop} {R : β → State → Prop} {E : Stop → State → Prop} {s : State}

theorem Outcome.pure {a : α} (h : Q a s) : Outcome Q E ((Pure.pure a : Run α) s) :=
  .ok h

theorem Outcome.bind {p : Run α} {f : α → Run β} (hp : Outcome Q E (p s))
    (hf : ∀ a s', Q a s' → Outcome R E (f a s')) : Outcome R E ((p >>= f) s) := by
  simp only [Bind.bind, EStateM.bind]
  generalize p s = r at hp ⊢
  cases hp with
  | ok hq => exact hf _ _ hq
  | error he => exact .error he

theorem Outcome.map {p : Run α} {f : α → β} (hp : Outcome Q E (p s))
    (hf : ∀ a s', Q a s' → R (f a) s') : Outcome R E ((f <$> p) s) := by
  simp only [Functor.map, EStateM.map]
  generalize p s = r at hp ⊢
  cases hp with
  | ok hq => exact .ok (hf _ _ hq)
  | error he => exact .error he

theorem Outcome.mono {Q' : α → State → Prop} {E' : Stop → State → Prop}
    {r : EStateM.Result Stop State α} (h : Outcome Q E r) (hQ : ∀ a s, Q a s → Q' a s)
    (hE : ∀ stop s, E stop s → E' stop s) : Outcome Q' E' r := by
  cases h with
  | ok hq => exact .ok (hQ _ _ hq)
  | error he => exact .error (hE _ _ he)

theorem bind_eq {p : Run α} {f : α → Run β} {a : α} {s s' : State} (h : p s = .ok a s') :
    (p >>= f) s = f a s' := by
  simp only [Bind.bind, EStateM.bind, h]

theorem bind_eq_error {p : Run α} {f : α → Run β} {stop : Stop} {s s' : State}
    (h : p s = .error stop s') : (p >>= f) s = .error stop s' := by
  simp only [Bind.bind, EStateM.bind, h]

theorem Outcome.raise {error : EvalError} (h : E (.raised error) s) :
    Outcome Q E (raise error s) :=
  .error h

theorem Outcome.note_bind {event : Event} {f : Unit → Run β}
    (h : Outcome R E (f () { s with journal := event :: s.journal })) :
    Outcome R E ((note event >>= f) s) := h

theorem Outcome.use_bind {how : Use} {value : Object} {f : Object → Run β}
    (h : Outcome R E (f value { s with journal := .use how value :: s.journal })) :
    Outcome R E ((use how value >>= f) s) := h

theorem lookup_eq (scope : ScopeId) (name : String) (s : State) :
    lookup scope name s = match s.store.get? scope name with
      | some value => .ok value s
      | none => .error (.raised (.identifierNotFound name)) s := by
  have hget : lookup scope name s = (match s.store.get? scope name with
      | some value => (Pure.pure value : Run Object)
      | none => Run.raise (.identifierNotFound name)) s := rfl
  rw [hget]
  cases s.store.get? scope name <;> rfl

theorem settle_eq (run : Run (Option Object)) (s : State) :
    settle run s = match run s with
      | .ok value s' => .ok value s'
      | .error (.raised error) s' =>
        .ok (some (.error s'.store.newId.1 error.message)) { s' with store := s'.store.newId.2 }
      | .error .tooDeep s' => .error .tooDeep s' := by
  rw [settle]
  change EStateM.tryCatch run _ s = _
  delta EStateM.tryCatch
  dsimp only
  cases run s with
  | ok value s' => rfl
  | error stop s' => cases stop <;> rfl

end ClosureLang.Run
