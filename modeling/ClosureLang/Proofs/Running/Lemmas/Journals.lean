import ClosureLang.Proofs.Running.Lemmas.Outcomes
import ClosureLang.Proofs.Running.Lemmas.Uniform

/-!
# The journal is never read

A run does the same whatever the journal says, and puts its events on top of it.
-/

namespace ClosureLang.Run

variable {α β : Type} {s : State}

/-- The same result with an older journal under the new one. -/
def onTop (older : List Event) : EStateM.Result Stop State α → EStateM.Result Stop State α
  | .ok a s => .ok a { s with journal := s.journal ++ older }
  | .error stop s => .error stop { s with journal := s.journal ++ older }

def Blind (run : Run α) : Prop :=
  ∀ s older, run { s with journal := s.journal ++ older } = onTop older (run s)

theorem Blind.bind {p : Run α} {f : α → Run β} (hp : Blind p) (hf : ∀ a, Blind (f a)) :
    Blind (p >>= f) := by
  intro s older
  have h := hp s older
  simp only [Bind.bind, EStateM.bind, h]
  cases p s with
  | ok a s' => exact hf a s' older
  | error stop s' => rfl

theorem Blind.lookup (scope : ScopeId) (name : String) : Blind (lookup scope name) := by
  intro s older
  rw [lookup_eq, lookup_eq]
  dsimp only
  cases s.store.get? scope name <;> rfl

theorem blind : Uniform Blind where
  pure _ _ _ := rfl
  bind := Blind.bind
  stop _ _ _ := rfl
  note _ _ _ := rfl
  newId _ _ := rfl
  newScope _ _ _ := rfl
  binding _ _ _ _ _ := rfl
  lookup := Blind.lookup

theorem Blind.settle {run : Run (Option Object)} (h : Blind run) : Blind (settle run) := by
  intro s older
  rw [settle_eq, settle_eq, h s older]
  cases run s with
  | ok value s' => rfl
  | error stop s' => cases stop <;> rfl

/-- From the empty journal. -/
theorem Blind.eq_onTop {run : Run α} (h : Blind run) (s : State) :
    run s = onTop s.journal (run ⟨s.store, []⟩) :=
  h ⟨s.store, []⟩ s.journal

end ClosureLang.Run
