import ClosureLang.Proofs.Running.Lemmas.Frame

/-!
# What evaluation does to the store
-/

namespace ClosureLang

/-- The state in which a run ends, with or without a result. -/
def Run.ending {α : Type} : EStateM.Result Run.Stop Run.State α → Run.State
  | .ok _ s => s
  | .error _ s => s

theorem Run.Writes.keeps {α : Type} {scope : ScopeId} {run : Run α} (h : Writes scope run)
    (s : State) : s.store.Keeps scope (ending (run s)).store := by
  have hs := h s
  generalize run s = r at hs ⊢
  cases hs with
  | ok hk => exact hk
  | error hk => exact hk

/-- Evaluation in a scope writes that scope and new ones, and loses no name; a call writes new ones
only. -/
theorem evaluation_writes_own_scope (depth : Nat) (s : Run.State) :
    (∀ (node : Node) (scope : ScopeId),
        s.store.Keeps scope (Run.ending (node.run depth scope s)).store) ∧
      ∀ (callee : Object) (arguments : List Object), ∀ i < s.store.scopes.size,
        (Run.ending (Run.call (Run.body depth) callee arguments s)).store.scopes[i]? =
          s.store.scopes[i]? := by
  constructor
  · exact fun node scope => (node.writes_run depth scope).keeps s
  · intro callee arguments i hi
    have hcall : Run.Writes s.store.scopes.size (Run.call (Run.body depth) callee arguments) :=
      Run.writes_call (Run.writes_body depth) callee arguments
    exact (hcall.keeps s).bindings i hi (Nat.ne_of_lt hi)

end ClosureLang
