import ClosureLang.Proofs.Failing.Lemmas.Steps
import ClosureLang.Proofs.Failing.Sound
import ClosureLang.Proofs.Running.Theorems
import ClosureLang.Session

/-!
# Errors are never values

An error leaves an evaluation at once and becomes its answer. It is bound to nothing and used for
nothing on the way.
-/

namespace ClosureLang

variable {S : ScopeId → Prop} {P : Object → Prop} {depth : Nat} {scope : ScopeId} {store : Store}

theorem Node.preserves_attempt (h : Run.Lawful S P (Run.body depth) scope) (node : Node) :
    Run.Preserves S P (fun value => ∀ object ∈ value, P object) (node.attempt depth scope) := by
  cases node with
  | program whole => exact Run.preserves_program h whole
  | statement stmt => exact Run.preserves_statement h stmt
  | block stmts => exact (Run.preserves_block h stmts).map (by simp)
  | expression expr => exact (Run.preserves_expression h expr).map (by simp)

/-- Also where a node is answered with an error. -/
theorem Node.within_ending (h : Run.Lawful S P (Run.body depth) scope) (node : Node)
    {s : Run.State} (hs : Run.Within S P s) :
    Run.Within S P (Run.ending (node.run depth scope s)) := by
  have hattempt := node.preserves_attempt h s hs
  rw [run_eq_settle, Run.settle_eq]
  generalize node.attempt depth scope s = r at hattempt ⊢
  cases hattempt with
  | ok hq => exact hq.1
  | @error stop s' hs' =>
      cases stop with
      | raised error => exact hs'.of_store hs'.store.newId
      | tooDeep => exact hs'

theorem Store.lawful_sound (h : ¬ store.ShowsError scope) (depth : Nat) :
    Run.Lawful (fun i => ¬ store.ShowsError i) (Object.Sound fun i => ¬ store.ShowsError i)
      (Run.body depth) scope where
  hereditary := Object.hereditary_sound _
  enters := Run.enters_body (Object.hereditary_sound _) depth
  scope := h

/-- An answer is an error only if one has been raised, for no value is one. -/
theorem Node.exists_raises {node : Node} {result : Evaluation}
    (h : Run.Lawful S (Object.Sound S) (Run.body depth) scope)
    (hstore : store.Within S (Object.Sound S))
    (hresult : node.evaluate? depth scope store = some result)
    (hvalue : result.value.any Object.isError = true) :
    ∃ step error s, (node.start depth scope store).Comes step ∧ step.Raises error s := by
  have hattempt := node.preserves_attempt h ⟨store, []⟩ ⟨hstore, by simp⟩
  rw [evaluate?, run_eq_settle, Run.settle_eq] at hresult
  cases hr : node.attempt depth scope ⟨store, []⟩ with
  | ok value s =>
      rw [hr] at hattempt hresult
      obtain rfl := Option.some.inj hresult
      obtain ⟨object, hobject, herror⟩ := (Option.any_eq_true ..).mp hvalue
      cases hattempt with
      | ok hq =>
          rw [(hq.2 object hobject).not_error] at herror
          cases herror
  | error stop s =>
      cases stop with
      | raised error =>
          obtain ⟨step, hcomes, hraises⟩ := Step.exists_raises _ (attempt_eq_error_iff.mp hr)
          exact ⟨step, error, s, hcomes, hraises⟩
      | tooDeep =>
          rw [hr] at hresult
          cases hresult

theorem Node.evaluate?_of_raises {node : Node} {result : Evaluation} {step : Step}
    {error : EvalError} {s : Run.State}
    (hresult : node.evaluate? depth scope store = some result)
    (hcomes : (node.start depth scope store).Comes step) (hraises : step.Raises error s) :
    result = ⟨some (.error s.store.newId.1 error.message), s.store.newId.2, s.journal.reverse⟩ := by
  have hattempt := attempt_eq_error_iff.mpr (hcomes.result hraises)
  rw [evaluate?, run_eq_settle, Run.settle_eq, hattempt] at hresult
  exact (Option.some.inj hresult).symm

/-- Evaluated in a scope from which no error can be come to, a node uses no error in any way and
lets none be come to from any scope. The answer is an error exactly if a step of the evaluation
raises one. Then it has that error's message, and nothing that stands behind the step is begun. -/
theorem errors_are_never_values (h : ¬ store.ShowsError scope) (depth : Nat) (node : Node) :
    (∀ how value, .use how value ∈ (Run.ending (node.run depth scope ⟨store, []⟩)).journal →
      value.isError = false) ∧
    (∀ i, (Run.ending (node.run depth scope ⟨store, []⟩)).store.ShowsError i →
      i < store.scopes.size ∧ store.ShowsError i) ∧
    ∀ result, node.evaluate? depth scope store = some result →
      (result.value.any Object.isError = true ↔
        ∃ step error s, (node.start depth scope store).Comes step ∧ step.Raises error s) ∧
      ∀ step error s, (node.start depth scope store).Comes step → step.Raises error s →
        result = ⟨some (.error s.store.newId.1 error.message), s.store.newId.2,
          s.journal.reverse⟩ ∧ (node.start depth scope store).IsLast step := by
  have hlawful := Store.lawful_sound h depth
  have hwithin := node.within_ending (s := ⟨store, []⟩) hlawful ⟨store.within_sound, by simp⟩
  refine ⟨fun how value hmem => (hwithin.journal how value hmem).not_error, fun i hi => ?_,
    fun result hresult => ⟨⟨?_, ?_⟩, fun step error s hcomes hraises => ?_⟩⟩
  · have hbefore : store.ShowsError i :=
      Classical.not_not.mp fun hnot => hwithin.store.not_showsError hnot hi
    exact ⟨store.lt_size_of_showsError hbefore, hbefore⟩
  · exact Node.exists_raises hlawful store.within_sound hresult
  · rintro ⟨step, error, s, hcomes, hraises⟩
    rw [Node.evaluate?_of_raises hresult hcomes hraises]
    rfl
  · exact ⟨Node.evaluate?_of_raises hresult hcomes hraises, hraises.isLast _⟩

theorem Session.not_showsError_new (scope : ScopeId) : ¬ Session.new.store.ShowsError scope := by
  have hwithin : Session.new.store.Within (fun _ => True) (Object.Sound fun _ => True) :=
    ⟨fun _ _ => trivial, fun _ _ _ _ => trivial, fun i _ _ _ hv => by cases i <;> cases hv⟩
  exact hwithin.not_showsError trivial

/-- A program that divides by zero in a function, with statements behind the division and behind the
call. -/
def dividingSource : String :=
  "let half = fn(n) \x7b let m = n / 0; m \x7d; let a = half(4); a;"

theorem dividing_source_answers_with_error :
    ¬ Session.new.store.ShowsError 0 ∧ (parse dividingSource).errors = [] ∧
      ∃ result step error s,
        (Node.program (parse dividingSource).program).evaluate? 1 0 Session.new.store =
          some result ∧
        result.value.map Object.inspect = some "Error: division by zero" ∧
        ((Node.program (parse dividingSource).program).start 1 0 Session.new.store).Comes step ∧
        step.Raises error s ∧
        result = ⟨some (.error s.store.newId.1 error.message), s.store.newId.2,
          s.journal.reverse⟩ := by
  have hnone := Session.not_showsError_new 0
  have hsome : ((Node.program (parse dividingSource).program).evaluate? 1 0 Session.new.store).any
      (fun result => result.value.any Object.isError &&
        result.value.map Object.inspect == some "Error: division by zero") = true := by
    decide +kernel
  obtain ⟨result, hresult, hvalue⟩ := (Option.any_eq_true ..).mp hsome
  obtain ⟨herror, hinspect⟩ := Bool.and_eq_true_iff.mp hvalue
  obtain ⟨hiff, hall⟩ := (errors_are_never_values hnone 1 _).2.2 result hresult
  obtain ⟨step, error, s, hcomes, hraises⟩ := hiff.mp herror
  exact ⟨hnone, by decide +kernel, result, step, error, s, hresult, eq_of_beq hinspect, hcomes,
    hraises, (hall step error s hcomes hraises).1⟩

end ClosureLang
