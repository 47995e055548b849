/-!
# Two runs in step

Two computations on states that are related do the same: they come to related states, and the result
of one says what the result of the other is.
-/

namespace ClosureLang

variable {ε σ α β α' β' : Type} {R : σ → σ → Prop} {move : α → α'} {move' : β → β'}

/-- Two runs end alike, with `move` for what the result of the first is for the second. -/
inductive EndAlike (R : σ → σ → Prop) (move : α → α') :
    EStateM.Result ε σ α → EStateM.Result ε σ α' → Prop
  | ok {a s t} : R s t → EndAlike R move (.ok a s) (.ok (move a) t)
  | error {e s t} : R s t → EndAlike R move (.error e s) (.error e t)

theorem EndAlike.exists_ok {a : α} {s : σ} {r : EStateM.Result ε σ α'}
    (h : EndAlike R move (.ok a s) r) : ∃ t, r = .ok (move a) t ∧ R s t := by
  cases h with
  | ok hs => exact ⟨_, rfl, hs⟩

def InStep (R : σ → σ → Prop) (move : α → α') (p : EStateM ε σ α) (q : EStateM ε σ α') : Prop :=
  ∀ s t, R s t → EndAlike R move (p s) (q t)

namespace InStep

theorem pure {a : α} {b : α'} (h : move a = b) :
    InStep R move (Pure.pure a : EStateM ε σ α) (Pure.pure b) :=
  fun _ _ hs => h ▸ .ok hs

theorem throw (e : ε) :
    InStep R move (MonadExcept.throw e : EStateM ε σ α) (MonadExcept.throw e) :=
  fun _ _ hs => .error hs

theorem bind {p : EStateM ε σ α} {q : EStateM ε σ α'} {f : α → EStateM ε σ β}
    {g : α' → EStateM ε σ β'} (hp : InStep R move p q)
    (hf : ∀ a, InStep R move' (f a) (g (move a))) : InStep R move' (p >>= f) (q >>= g) := by
  intro s t hs
  have h := hp s t hs
  simp only [Bind.bind, EStateM.bind]
  generalize p s = r at h ⊢
  generalize q t = r' at h ⊢
  cases h with
  | ok hs => exact hf _ _ _ hs
  | error hs => exact .error hs

theorem map {p : EStateM ε σ α} {q : EStateM ε σ α'} {f : α → β} {g : α' → β'}
    (hp : InStep R move p q) (hf : ∀ a, move' (f a) = g (move a)) :
    InStep R move' (f <$> p) (g <$> q) := by
  rw [map_eq_pure_bind, map_eq_pure_bind]
  exact hp.bind fun a => .pure (hf a)

end InStep

end ClosureLang
