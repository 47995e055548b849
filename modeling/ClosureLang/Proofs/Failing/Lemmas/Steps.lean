import ClosureLang.Proofs.Failing.Steps
import ClosureLang.Proofs.Running.Lemmas.Outcomes

/-!
# Where an error comes from

A step fails if and only if one of the steps that it comes to raises the error.
-/

namespace ClosureLang

namespace Run

variable {α β : Type} {stop : Stop} {s s' : State}

theorem bind_pure_eq_error {p : Run α} {f : α → β} :
    (do let a ← p; return f a : Run β) s = .error stop s' ↔ p s = .error stop s' := by
  simp only [Bind.bind, EStateM.bind]
  cases p s <;> simp [Pure.pure, EStateM.pure]

theorem forget_eq_error {run : Run α} : forget run s = .error stop s' ↔ run s = .error stop s' :=
  bind_pure_eq_error

theorem bind_eq_error_cases {p : Run α} {f : α → Run β} (h : (p >>= f) s = .error stop s') :
    p s = .error stop s' ∨ ∃ a s₁, p s = .ok a s₁ ∧ f a s₁ = .error stop s' := by
  cases hp : p s with
  | error stop' s₁ =>
      rw [bind_eq_error hp] at h
      cases h
      exact .inl rfl
  | ok a s₁ =>
      rw [bind_eq hp] at h
      exact .inr ⟨a, s₁, rfl, h⟩

/-- A call with the right number of arguments runs the body in the scope that is prepared. -/
theorem call_function_eq {enter : Block → ScopeId → Run Object} {id : ObjectId} {closure : Closure}
    {arguments : List Object} (h : closure.parameters.length = arguments.length) :
    call enter (.function id closure) arguments = do
      let scope ← prepare closure arguments
      let result ← enter closure.body scope
      return result.unwrapped := by
  simp only [call, h, ne_eq, not_true_eq_false, if_false, prepare, bind_assoc, pure_bind]

end Run

variable {depth : Nat} {scope : ScopeId} {error : EvalError} {s s' : Run.State}

theorem Run.exists_bindParameters (scope : ScopeId) : (parameters : List Identifier) →
    (arguments : List Object) → (s : State) → ∃ s',
      bindParameters scope parameters arguments s = .ok () s'
  | [], [], s | [], _ :: _, s | _ :: _, [], s => ⟨s, rfl⟩
  | _ :: parameters, _ :: arguments, _ => exists_bindParameters scope parameters arguments _

theorem Run.exists_prepare (closure : Closure) (arguments : List Object) (s : State) :
    ∃ scope s', prepare closure arguments s = .ok scope s' := by
  let t : State :=
    ⟨(s.store.newScope (some closure.scope)).2, .application arguments.length :: s.journal⟩
  obtain ⟨s', hbind⟩ := exists_bindParameters s.store.scopes.size closure.parameters arguments t
  exact ⟨_, s', (bind_eq rfl).trans ((bind_eq rfl).trans ((bind_eq hbind).trans rfl))⟩

namespace Step

variable {step part part' : Step} {k k' : Nat} {stop : Run.Stop}

/-! ## From the error upwards -/

/-- A step fails with any step that it begins. -/
theorem Begins.result_eq_error (h : Begins k step part) (hpart : part.result = .error stop s) :
    step.result = .error stop s := by
  cases h <;> refine Run.forget_eq_error.mpr ?_ <;> replace hpart := Run.forget_eq_error.mp hpart
  case operand | left | condition | callee | argument | statement | statements =>
    exact Run.bind_eq_error hpart
  case bound | returned | expression => exact (Run.bind_eq rfl).trans (Run.bind_eq_error hpart)
  case right hl => exact (Run.bind_eq hl).trans ((Run.bind_eq rfl).trans (Run.bind_eq_error hpart))
  case consequence hc htrue =>
    refine (Run.bind_eq hc).trans ((Run.bind_eq rfl).trans ?_)
    rwa [if_pos htrue]
  case alternative hc hfalse =>
    refine (Run.bind_eq hc).trans ((Run.bind_eq rfl).trans ?_)
    rwa [hfalse]
  case arguments hf =>
    exact (Run.bind_eq hf).trans ((Run.bind_eq rfl).trans (Run.bind_eq_error hpart))
  case call hf hvalues =>
    exact (Run.bind_eq hf).trans ((Run.bind_eq rfl).trans ((Run.bind_eq hvalues).trans hpart))
  case moreArguments hv =>
    exact (Run.bind_eq hv).trans ((Run.bind_eq rfl).trans (Run.bind_eq_error hpart))
  case body hlength hprepare =>
    rw [Run.call_function_eq hlength]
    exact (Run.bind_eq hprepare).trans (Run.bind_eq_error hpart)
  case moreStatements hv hgo =>
    rw [Run.sequence_cons]
    refine (Run.bind_eq hv).trans ?_
    rwa [if_pos hgo]

theorem Raises.result (h : step.Raises error s) : step.result = .error (.raised error) s := by
  cases h <;> refine Run.forget_eq_error.mpr ?_
  case lookup hnone =>
    change Run.lookup _ _ _ = _
    rw [Run.lookup_eq, hnone]
  case prefixed hr hop => exact (Run.bind_eq hr).trans ((Run.bind_eq rfl).trans hop)
  case infixed hl hr hop =>
    exact (Run.bind_eq hl).trans ((Run.bind_eq rfl).trans ((Run.bind_eq hr).trans
      ((Run.bind_eq rfl).trans hop)))
  case notAFunction _ callee _ _ hne =>
    cases callee with
    | function id closure => exact absurd rfl hne
    | _ => rfl
  case wrongCount hne =>
    rw [Run.call, if_pos hne]
    rfl

theorem Comes.result (h : step.Comes part) (hraises : part.Raises error s) :
    step.result = .error (.raised error) s := by
  induction h with
  | refl => exact hraises.result
  | begins hbegins _ ih => exact hbegins.result_eq_error (ih hraises)

/-! ## From the top down to the error -/

/-- An error comes from the step itself or from one that it begins. -/
def Fails (step : Step) (error : EvalError) (s : Run.State) : Prop :=
  step.Raises error s ∨ ∃ k part, step.Begins k part ∧ part.result = .error (.raised error) s

theorem Fails.of_begins (h : Begins k step part) (hpart : part.result = .error (.raised error) s) :
    step.Fails error s :=
  .inr ⟨k, part, h, hpart⟩

theorem fails_expression {expr : Expr}
    (h : Run.expression (Run.body depth) expr scope s = .error (.raised error) s') :
    Fails ⟨depth, .expression expr, scope, s⟩ error s' := by
  cases expr with
  | identifier name =>
      change Run.lookup _ _ _ = _ at h
      rw [Run.lookup_eq] at h
      split at h
      · cases h
      · next hnone =>
        cases h
        exact .inl (.lookup hnone)
  | integer _ _ | boolean _ _ | function _ _ _ => cases h
  | prefixed token op right =>
      rcases Run.bind_eq_error_cases h with h | ⟨r, s₁, hr, h⟩
      · exact .of_begins .operand (Run.forget_eq_error.mpr h)
      · exact .inl (.prefixed hr h)
  | infixed token left op right =>
      rcases Run.bind_eq_error_cases h with h | ⟨l, s₁, hl, h⟩
      · exact .of_begins .left (Run.forget_eq_error.mpr h)
      · rcases Run.bind_eq_error_cases ((Run.bind_eq rfl).symm.trans h) with h | ⟨r, s₂, hr, h⟩
        · exact .of_begins (.right hl) (Run.forget_eq_error.mpr h)
        · exact .inl (.infixed hl hr h)
  | conditional token condition consequence alternative =>
      rcases Run.bind_eq_error_cases h with h | ⟨c, s₁, hc, h⟩
      · exact .of_begins .condition (Run.forget_eq_error.mpr h)
      · replace h := (Run.bind_eq rfl).symm.trans h
        cases htruth : c.isTruthy with
        | true =>
            rw [htruth, if_pos rfl] at h
            exact .of_begins (.consequence hc htruth) (Run.forget_eq_error.mpr h)
        | false =>
            rw [htruth] at h
            cases alternative with
            | none => cases h
            | some alternative =>
                exact .of_begins (.alternative hc htruth) (Run.forget_eq_error.mpr h)
  | call token callee arguments =>
      rcases Run.bind_eq_error_cases h with h | ⟨f, s₁, hf, h⟩
      · exact .of_begins .callee (Run.forget_eq_error.mpr h)
      · rcases Run.bind_eq_error_cases ((Run.bind_eq rfl).symm.trans h) with
          h | ⟨values, s₂, hvs, h⟩
        · exact .of_begins (.arguments hf) (Run.forget_eq_error.mpr h)
        · exact .of_begins (.call hf hvs) (Run.forget_eq_error.mpr h)

theorem fails_arguments {exprs : List Expr}
    (h : Run.expressions (Run.body depth) exprs scope s = .error (.raised error) s') :
    Fails ⟨depth, .arguments exprs, scope, s⟩ error s' := by
  cases exprs with
  | nil => cases h
  | cons expr exprs =>
      rcases Run.bind_eq_error_cases h with h | ⟨v, s₁, hv, h⟩
      · exact .of_begins .argument (Run.forget_eq_error.mpr h)
      · rcases Run.bind_eq_error_cases ((Run.bind_eq rfl).symm.trans h) with h | ⟨_, _, _, h⟩
        · exact .of_begins (.moreArguments hv) (Run.forget_eq_error.mpr h)
        · cases h

/-- The beginning of a call never fails. -/
theorem fails_call {callee : Object} {arguments : List Object}
    (h : Run.call (Run.body depth) callee arguments s = .error (.raised error) s') :
    Fails ⟨depth, .call callee arguments, scope, s⟩ error s' := by
  cases callee with
  | function id closure =>
      by_cases hlength : closure.parameters.length = arguments.length
      · obtain ⟨inside, s₁, hprepare⟩ := Run.exists_prepare closure arguments s
        rw [Run.call_function_eq hlength, Run.bind_eq hprepare] at h
        rcases Run.bind_eq_error_cases h with h | ⟨_, _, _, h⟩
        · cases depth with
          | zero => cases h
          | succ depth => exact .of_begins (.body hlength hprepare) (Run.forget_eq_error.mpr h)
        · cases h
      · rw [Run.call, if_pos hlength] at h
        cases h
        exact .inl (.wrongCount hlength)
  | _ =>
      cases h
      exact .inl (.notAFunction nofun)

theorem fails_statement {stmt : Stmt}
    (h : Run.statement (Run.body depth) stmt scope s = .error (.raised error) s') :
    Fails ⟨depth, .statement stmt, scope, s⟩ error s' := by
  cases stmt with
  | letStmt _ _ _ =>
      rcases Run.bind_eq_error_cases ((Run.bind_eq rfl).symm.trans h) with h | ⟨_, _, _, h⟩
      · exact .of_begins .bound (Run.forget_eq_error.mpr h)
      · cases h
  | returnStmt _ _ =>
      rcases Run.bind_eq_error_cases ((Run.bind_eq rfl).symm.trans h) with h | ⟨_, _, _, h⟩
      · exact .of_begins .returned (Run.forget_eq_error.mpr h)
      · cases h
  | exprStmt _ _ =>
      rcases Run.bind_eq_error_cases ((Run.bind_eq rfl).symm.trans h) with h | ⟨_, _, _, h⟩
      · exact .of_begins .expression (Run.forget_eq_error.mpr h)
      · cases h

theorem fails_statements {stmts : List Stmt} {last : Option Object}
    (h : Run.sequence (Run.body depth) stmts last scope s = .error (.raised error) s') :
    Fails ⟨depth, .statements stmts last, scope, s⟩ error s' := by
  cases stmts with
  | nil => cases h
  | cons stmt stmts =>
      rw [Run.sequence_cons] at h
      rcases Run.bind_eq_error_cases h with h | ⟨value, s₁, hv, h⟩
      · exact .of_begins .statement (Run.forget_eq_error.mpr h)
      · split at h
        · next hgo => exact .of_begins (.moreStatements hv hgo) (Run.forget_eq_error.mpr h)
        · cases h

theorem fails_block {block : Block}
    (h : Run.block (Run.body depth) block scope s = .error (.raised error) s') :
    Fails ⟨depth, .block block, scope, s⟩ error s' := by
  obtain ⟨token, stmts⟩ := block
  rcases Run.bind_eq_error_cases h with h | ⟨value, _, _, h⟩
  · exact .of_begins .statements (Run.forget_eq_error.mpr h)
  · cases value <;> cases h

theorem fails_of_result (h : step.result = .error (.raised error) s) : step.Fails error s := by
  obtain ⟨depth, part, scope, s₀⟩ := step
  cases part with
  | expression expr => exact fails_expression (Run.forget_eq_error.mp h)
  | arguments exprs => exact fails_arguments (Run.forget_eq_error.mp h)
  | call callee arguments => exact fails_call (Run.forget_eq_error.mp h)
  | statement stmt => exact fails_statement (Run.forget_eq_error.mp h)
  | statements stmts last => exact fails_statements (Run.forget_eq_error.mp h)
  | block block => exact fails_block (Run.forget_eq_error.mp h)

end Step

/-- A call counts for nothing, since its body is one call deeper. -/
noncomputable def Part.size : Part → Nat
  | .expression expr => sizeOf expr
  | .arguments exprs => sizeOf exprs
  | .call _ _ => 0
  | .statement stmt => sizeOf stmt
  | .statements stmts _ => sizeOf stmts
  | .block body => sizeOf body

namespace Step

variable {step part part' : Step} {k k' : Nat} {stop : Run.Stop}

theorem Begins.lex (h : Begins k step part) :
    part.depth < step.depth ∨ part.depth = step.depth ∧ part.part.size < step.part.size := by
  cases h <;> simp [Part.size] <;> omega

theorem exists_raises (step : Step) (h : step.result = .error (.raised error) s) :
    ∃ part, step.Comes part ∧ part.Raises error s := by
  rcases fails_of_result h with hraises | ⟨k, part, hbegins, hpart⟩
  · exact ⟨step, .refl, hraises⟩
  · have hlex := hbegins.lex
    obtain ⟨last, hcomes, hraises⟩ := exists_raises part hpart
    exact ⟨last, .begins hbegins hcomes, hraises⟩
termination_by (step.depth, step.part.size)
decreasing_by exact Prod.lex_def.mpr hlex

/-- Behind a step that fails none is begun. -/
theorem Begins.le_of_error (h : Begins k step part) (hpart : part.result = .error stop s)
    (h' : Begins k' step part') : k' ≤ k := by
  have hfail {α : Type} {run : Run α} {s' s₁ : Run.State} {a : α}
      (h : Run.forget run s' = .error stop s) : run s' ≠ .ok a s₁ := by
    rw [Run.forget_eq_error.mp h]
    nofun
  cases h <;> cases h' <;> try (first | exact Nat.le_refl _ | exact Nat.zero_le _)
  case left.right hl => exact absurd hl (hfail hpart)
  case condition.consequence _ hc | condition.alternative _ hc => exact absurd hc (hfail hpart)
  case callee.arguments hf | callee.call _ hf => exact absurd hf (hfail hpart)
  case arguments.call hf _ _ _ _ hvalues hf' =>
    cases hf.symm.trans hf'
    exact absurd hvalues (hfail hpart)
  case call.arguments => exact Nat.le_succ 1
  case argument.moreArguments hv => exact absurd hv (hfail hpart)
  case statement.moreStatements _ hv => exact absurd hv (hfail hpart)

theorem Raises.isLast (h : step.Raises error s) (start : Step) : start.IsLast step :=
  fun _ _ _ _ hbegins hcomes _ _ => hbegins.le_of_error (hcomes.result h)

end Step

/-- A node fails with the step with which its evaluation begins. -/
theorem Node.attempt_eq_error_iff {node : Node} {store : Store} {stop : Run.Stop} :
    node.attempt depth scope ⟨store, []⟩ = .error stop s ↔
      (node.start depth scope store).result = .error stop s := by
  cases node with
  | program whole => exact Run.bind_pure_eq_error.trans Run.forget_eq_error.symm
  | statement stmt => exact Run.forget_eq_error.symm
  | block stmts =>
      rw [attempt, map_eq_pure_bind]
      exact Run.bind_pure_eq_error.trans Run.forget_eq_error.symm
  | expression expr =>
      rw [attempt, map_eq_pure_bind]
      exact Run.bind_pure_eq_error.trans Run.forget_eq_error.symm

end ClosureLang
