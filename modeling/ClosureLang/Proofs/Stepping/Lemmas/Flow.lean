import ClosureLang.Proofs.Failing.Lemmas.Steps
import ClosureLang.Proofs.Running.Lemmas.Uniform
import ClosureLang.Proofs.Stepping.Changes

/-!
# From one step to the next

A step begins others one after another, each in the store in which the one before it has ended.
-/

namespace ClosureLang

/-! ## Nothing that is made goes away -/

/-- There are as many scopes and objects in the second store as in the first, or more. -/
structure Store.Grows (before after : Store) : Prop where
  size_le : before.scopes.size ≤ after.scopes.size
  made_le : before.made ≤ after.made

theorem Store.Grows.refl (store : Store) : store.Grows store :=
  ⟨Nat.le_refl _, Nat.le_refl _⟩

theorem Store.Grows.trans {s₁ s₂ s₃ : Store} (h : s₁.Grows s₂) (h' : s₂.Grows s₃) : s₁.Grows s₃ :=
  ⟨Nat.le_trans h.size_le h'.size_le, Nat.le_trans h.made_le h'.made_le⟩

theorem Store.Grows.of_eq {store store' : Store} (h : store' = store) : store.Grows store' :=
  h ▸ .refl store

theorem Store.grows_changed (store : Store) (change : Change) :
    store.Grows (store.changed change) := by
  cases change with
  | opened outer =>
      have hsize := store.size_newScope outer
      exact ⟨Nat.le_trans (Nat.le_succ _) (Nat.le_of_eq hsize.symm), Nat.le_refl _⟩
  | bound scope name value =>
      exact ⟨Nat.le_of_eq (store.size_set scope name value).symm, Nat.le_refl _⟩

theorem Store.grows_after (store : Store) (changes : List Change) :
    store.Grows (store.after changes) := by
  induction changes generalizing store with
  | nil => exact .refl store
  | cons change changes ih => exact (store.grows_changed change).trans (ih _)

/-- The second store differs from the first by objects that have been made since, at the most. -/
structure Store.Adds (before after : Store) : Prop where
  scopes_eq : after.scopes = before.scopes
  made_le : before.made ≤ after.made

theorem Store.Adds.refl (store : Store) : store.Adds store :=
  ⟨rfl, Nat.le_refl _⟩

theorem Store.Adds.grows {store store' : Store} (h : store.Adds store') : store.Grows store' :=
  ⟨Nat.le_of_eq (congrArg Array.size h.scopes_eq.symm), h.made_le⟩

namespace Run

variable {α β : Type} {s s' : State}

theorem ending_eq {run : Run α} {a : α} (h : run s = .ok a s') : ending (run s) = s' := by
  rw [h]
  rfl

theorem ending_bind_pure (run : Run α) (f : α → β) (s : State) :
    ending ((do let a ← run; return f a : Run β) s) = ending (run s) := by
  simp only [Bind.bind, EStateM.bind]
  cases run s <;> rfl

theorem ending_forget (run : Run α) (s : State) : ending (forget run s) = ending (run s) :=
  ending_bind_pure run _ s

def Growing (run : Run α) : Prop :=
  ∀ s : State, s.store.Grows (ending (run s)).store

theorem Growing.bind {p : Run α} {f : α → Run β} (hp : Growing p) (hf : ∀ a, Growing (f a)) :
    Growing (p >>= f) := by
  intro s
  have h := hp s
  simp only [Bind.bind, EStateM.bind]
  cases hr : p s with
  | ok a s' =>
      rw [ending_eq hr] at h
      exact h.trans (hf a s')
  | error stop s' =>
      rw [hr] at h
      exact h

theorem Growing.lookup (scope : ScopeId) (name : String) : Growing (lookup scope name) := by
  intro s
  rw [lookup_eq]
  cases s.store.get? scope name <;> exact .refl s.store

theorem growing : Uniform Growing where
  pure _ s := .refl s.store
  bind := Growing.bind
  stop _ s := .refl s.store
  note _ s := .refl s.store
  newId _ := ⟨Nat.le_refl _, Nat.le_succ _⟩
  newScope outer s := s.store.grows_changed (.opened outer)
  binding scope name value s := s.store.grows_changed (.bound scope name value)
  lookup := Growing.lookup

theorem exists_of_forget {run : Run α} (h : forget run s = .ok () s') :
    ∃ a, run s = .ok a s' := by
  simp only [forget, Bind.bind, EStateM.bind] at h
  cases hr : run s with
  | ok a s₁ =>
      rw [hr] at h
      cases h
      exact ⟨a, rfl⟩
  | error stop s₁ =>
      rw [hr] at h
      cases h

/-! ## Binding parameters -/

theorem bindParameters_eq (scope : ScopeId) : (parameters : List Identifier) →
    (arguments : List Object) → (s : State) →
    ∃ s', bindParameters scope parameters arguments s = .ok () s' ∧
      s'.store = s.store.after (bindings scope parameters arguments)
  | [], [], s | [], _ :: _, s | _ :: _, [], s => ⟨s, rfl, rfl⟩
  | _ :: parameters, _ :: arguments, _ => bindParameters_eq scope parameters arguments _

theorem prepare_eq (closure : Closure) (arguments : List Object) (s : State) :
    ∃ s', prepare closure arguments s = .ok s.store.scopes.size s' ∧
      s'.store = s.store.after (.opened (some closure.scope) ::
        bindings s.store.scopes.size closure.parameters arguments) := by
  let t : State :=
    ⟨(s.store.newScope (some closure.scope)).2, .application arguments.length :: s.journal⟩
  obtain ⟨s', hbind, hstore⟩ :=
    bindParameters_eq s.store.scopes.size closure.parameters arguments t
  exact ⟨s', (bind_eq rfl).trans ((bind_eq rfl).trans ((bind_eq hbind).trans rfl)), hstore⟩

end Run

section

variable {α : Type} {run rest : Run α} {s s' : Run.State} {store : Store}

theorem Store.Adds.of_eq (h : run s = rest s') (hrest : store.Adds (Run.ending (rest s')).store) :
    store.Adds (Run.ending (Run.forget run s)).store := by
  rwa [Run.ending_forget, h]

theorem Store.Adds.of_ok {a : α} (h : run s = .ok a s') :
    s'.store.Adds (Run.ending (Run.forget run s)).store := by
  rw [Run.ending_forget, Run.ending_eq h]
  exact .refl _

end

theorem Store.Adds.operation {run : Run Object} (h : Run.IsOperation run) (s : Run.State) :
    s.store.Adds (Run.ending (run s)).store := by
  cases h with
  | boolean value => exact .refl _
  | integer value => exact ⟨rfl, Nat.le_succ _⟩
  | raise error => exact .refl _

/-- To answer an error, an object is made. -/
theorem Store.Adds.settle (run : Run (Option Object)) (s : Run.State) :
    (Run.ending (run s)).store.Adds (Run.ending (Run.settle run s)).store := by
  rw [Run.settle_eq]
  cases run s with
  | ok value s' => exact .refl _
  | error stop s' =>
      cases stop with
      | raised error => exact ⟨rfl, Nat.le_succ _⟩
      | tooDeep => exact .refl _

theorem Node.ending_attempt (depth : Nat) (node : Node) (scope : ScopeId) (store : Store) :
    Run.ending (node.attempt depth scope ⟨store, []⟩) = (node.start depth scope store).ending := by
  have hmap {α : Type} (run : Run α) (f : α → Option Object) :
      Run.ending ((f <$> run) ⟨store, []⟩) = Run.ending (Run.forget run ⟨store, []⟩) := by
    rw [map_eq_pure_bind, Run.ending_forget]
    exact Run.ending_bind_pure run f _
  cases node with
  | program whole => exact (Run.ending_bind_pure _ _ _).trans (Run.ending_forget _ _).symm
  | statement stmt => exact (Run.ending_forget _ _).symm
  | block stmts => exact hmap _ some
  | expression expr => exact hmap _ some

theorem Node.adds_evaluate? {node : Node} {depth : Nat} {scope : ScopeId} {store : Store}
    {result : Evaluation} (h : node.evaluate? depth scope store = some result) :
    (node.start depth scope store).ending.store.Adds result.store := by
  have hadds := Store.Adds.settle (node.attempt depth scope) ⟨store, []⟩
  rw [node.ending_attempt, ← node.run_eq_settle] at hadds
  rw [evaluate?] at h
  split at h
  · next s heq =>
    rw [Run.ending_eq heq] at hadds
    cases h
    exact hadds
  · cases h

namespace Step

variable {step part part' : Step} {k : Nat}

theorem grows (step : Step) : step.state.store.Grows step.ending.store := by
  obtain ⟨depth, part, scope, s⟩ := step
  have hbody := Run.uniform_body Run.growing depth
  have hforget {α : Type} {run : Run α} (h : Run.Growing run) : Run.Growing (Run.forget run) :=
    h.bind fun _ => Run.growing.pure _
  cases part with
  | expression expr => exact hforget (Run.uniform_expression Run.growing hbody expr) s
  | arguments exprs => exact hforget (Run.uniform_expressions Run.growing hbody exprs) s
  | call callee arguments => exact hforget (Run.growing.call hbody callee arguments) s
  | statement stmt => exact hforget (Run.uniform_statement Run.growing hbody stmt) s
  | statements stmts last => exact hforget (Run.uniform_sequence Run.growing hbody stmts last) s
  | block stmts => exact hforget (Run.uniform_block Run.growing hbody stmts) s

/-! ## The order of the parts -/

theorem Begins.unique (h : Begins k step part) (h' : Begins k step part') : part = part' := by
  cases h with
  | right hl => cases h' with | right hl' => cases hl.symm.trans hl'; rfl
  | consequence hc htrue =>
      cases h' with
      | consequence hc' _ => cases hc.symm.trans hc'; rfl
      | alternative hc' hfalse =>
          cases hc.symm.trans hc'
          cases htrue.symm.trans hfalse
  | alternative hc hfalse =>
      cases h' with
      | consequence hc' htrue =>
          cases hc.symm.trans hc'
          cases htrue.symm.trans hfalse
      | alternative hc' _ => cases hc.symm.trans hc'; rfl
  | arguments hf => cases h' with | arguments hf' => cases hf.symm.trans hf'; rfl
  | call hf hvalues =>
      cases h' with
      | call hf' hvalues' =>
          cases hf.symm.trans hf'
          cases hvalues.symm.trans hvalues'
          rfl
  | moreArguments hv => cases h' with | moreArguments hv' => cases hv.symm.trans hv'; rfl
  | body _ hprepare => cases h' with | body _ hprepare' => cases hprepare.symm.trans hprepare'; rfl
  | moreStatements hv _ => cases h' with | moreStatements hv' _ => cases hv.symm.trans hv'; rfl
  | _ => cases h'; rfl

section

variable {depth : Nat} {scope : ScopeId} {s : Run.State} {id : ObjectId} {closure : Closure}
  {arguments : List Object}

theorem opening_eq (h : closure.parameters.length = arguments.length) :
    opening ⟨depth, .call (.function id closure) arguments, scope, s⟩ =
      .opened (some closure.scope) ::
        bindings s.store.scopes.size closure.parameters arguments :=
  if_pos h

theorem opening_eq_nil (h : closure.parameters.length ≠ arguments.length) :
    opening ⟨depth, .call (.function id closure) arguments, scope, s⟩ = [] :=
  if_neg h

end

/-- The first part begins when the step has made its own changes. -/
theorem Begins.first (h : Begins 0 step part) :
    part.state.store = step.state.store.after step.opening := by
  cases h with
  | @body depth id closure arguments scope s inside s₁ hlength hprepare =>
      obtain ⟨s', heq, hstore⟩ := Run.prepare_eq closure arguments s
      cases hprepare.symm.trans heq
      rw [opening_eq hlength]
      exact hstore
  | _ => rfl

/-- Every other part begins where the one before it has ended. -/
theorem Begins.succ (h : Begins (k + 1) step part) :
    ∃ before, Begins k step before ∧ part.state.store = before.ending.store := by
  have hends {α : Type} {run : Run α} {a : α} {s s' : Run.State} (h : run s = .ok a s') :
      s'.store = (Run.ending (Run.forget run s)).store := by rw [Run.ending_forget, Run.ending_eq h]
  cases h with
  | right hl => exact ⟨_, .left, (hends hl :)⟩
  | consequence hc _ | alternative hc _ => exact ⟨_, .condition, (hends hc :)⟩
  | arguments hf => exact ⟨_, .callee, (hends hf :)⟩
  | call hf hvalues => exact ⟨_, .arguments hf, (hends hvalues :)⟩
  | moreArguments hv => exact ⟨_, .argument, (hends hv :)⟩
  | moreStatements hv _ => exact ⟨_, .statement, (hends hv :)⟩

/-! ## The end of a step -/

theorem Begins.closing_of_error {stop : Run.Stop} {s : Run.State} (h : Begins k step part)
    (hpart : part.result = .error stop s) : step.closing = [] := by
  cases h with
  | bound =>
      have herror := Run.forget_eq_error.mp hpart
      simp only [closing, herror]
      rfl
  | _ => rfl

/-- The last part that begins and comes to its end is the end of the step, but for what the step
itself does then. -/
theorem Begins.last_of_ok {s : Run.State} (h : Begins k step part) (hpart : part.result = .ok () s)
    (hlast : ∀ part', ¬ Begins (k + 1) step part') :
    (s.store.after step.closing).Adds step.ending.store := by
  cases h <;> replace hpart := Run.exists_of_forget hpart <;> obtain ⟨value, hpart⟩ := hpart
  case bound token name expr scope s₀ =>
    have hrun : Run.statement (Run.body _) (.letStmt token name expr) scope s₀ =
        .ok none { s.used .bound value with store := s.store.set scope name.name value } :=
      (Run.bind_eq rfl).trans ((Run.bind_eq hpart).trans rfl)
    simp only [closing, hpart]
    exact .of_ok hrun
  all_goals change s.store.Adds (Run.ending (Run.forget _ _)).store
  case operand token op right scope s₀ =>
    refine .of_eq ?_ (.operation (Run.isOperation_applyPrefix op value) (s.used .operand value))
    exact (Run.bind_eq hpart).trans (Run.bind_eq rfl)
  case right token left op right scope s₀ l s₁ hl =>
    refine .of_eq ?_ (.operation (Run.isOperation_applyInfix op l value) (s.used .operand value))
    exact (Run.bind_eq hl).trans ((Run.bind_eq rfl).trans ((Run.bind_eq hpart).trans
      (Run.bind_eq rfl)))
  case left => exact absurd (.right hpart) (hlast _)
  case condition alternative _ _ =>
    cases htruth : value.isTruthy with
    | true => exact absurd (.consequence hpart htruth) (hlast _)
    | false =>
        cases alternative with
        | some alternative => exact absurd (.alternative hpart htruth) (hlast _)
        | none =>
            refine .of_eq ((Run.bind_eq hpart).trans (Run.bind_eq rfl)) ?_
            rw [htruth]
            exact .refl _
  case consequence hc htrue =>
    refine .of_ok (a := value) ((Run.bind_eq hc).trans ((Run.bind_eq rfl).trans ?_))
    rwa [if_pos htrue]
  case alternative hc hfalse =>
    refine .of_ok (a := value) ((Run.bind_eq hc).trans ((Run.bind_eq rfl).trans ?_))
    rwa [hfalse]
  case callee => exact absurd (.arguments hpart) (hlast _)
  case arguments hf => exact absurd (.call hf hpart) (hlast _)
  case call hf hvalues => exact .of_ok ((Run.bind_eq hf).trans ((Run.bind_eq rfl).trans
    ((Run.bind_eq hvalues).trans hpart)))
  case argument => exact absurd (.moreArguments hpart) (hlast _)
  case moreArguments hv =>
    exact .of_ok ((Run.bind_eq hv).trans ((Run.bind_eq rfl).trans (Run.bind_eq hpart)))
  case body hlength hprepare =>
    refine .of_ok (a := value.unwrapped) ?_
    rw [Run.call_function_eq hlength]
    exact (Run.bind_eq hprepare).trans (Run.bind_eq hpart)
  case returned =>
    exact .of_eq ((Run.bind_eq rfl).trans ((Run.bind_eq hpart).trans (Run.bind_eq rfl)))
      ⟨rfl, Nat.le_succ _⟩
  case expression => exact .of_ok ((Run.bind_eq rfl).trans (Run.bind_eq hpart))
  case statement =>
    cases hgo : Run.goesOn value with
    | true => exact absurd (.moreStatements hpart hgo) (hlast _)
    | false =>
        refine .of_ok (a := value) ?_
        rw [Run.sequence_cons, Run.bind_eq hpart, hgo]
        rfl
  case moreStatements hv hgo =>
    refine .of_ok (a := value) ?_
    rw [Run.sequence_cons, Run.bind_eq hv, if_pos hgo]
    exact hpart
  case statements =>
    refine .of_ok (a := value.getD .sharedNull) ((Run.bind_eq hpart).trans ?_)
    cases value <;> rfl

theorem Begins.last (h : Begins k step part) (hlast : ∀ part', ¬ Begins (k + 1) step part') :
    (part.ending.store.after step.closing).Adds step.ending.store := by
  cases hpart : part.result with
  | ok a s =>
      have hend : part.ending = s := by rw [ending, hpart]; rfl
      rw [hend]
      exact h.last_of_ok hpart hlast
  | error stop s =>
      have hend : part.ending = s := by rw [ending, hpart]; rfl
      have hend' : step.ending = s := by rw [ending, h.result_eq_error hpart]; rfl
      rw [hend, hend', h.closing_of_error hpart]
      exact .refl _

/-- A call whose body is not entered has the wrong number of arguments, or it may go no deeper. -/
theorem ending_of_not_entered {depth : Nat} {scope : ScopeId} {s : Run.State} {id : ObjectId}
    {closure : Closure} {arguments : List Object}
    (h : ∀ part, ¬ Begins 0 ⟨depth, .call (.function id closure) arguments, scope, s⟩ part) :
    let step : Step := ⟨depth, .call (.function id closure) arguments, scope, s⟩
    step.closing = [] ∧ (s.store.after step.opening).Adds step.ending.store := by
  refine ⟨rfl, ?_⟩
  change Store.Adds _ (Run.ending (Run.forget (Run.call _ _ _) s)).store
  rw [Run.ending_forget]
  by_cases hlength : closure.parameters.length = arguments.length
  · obtain ⟨s', hprepare, hstore⟩ := Run.prepare_eq closure arguments s
    rw [opening_eq hlength]
    cases depth with
    | succ depth => exact absurd (.body hlength hprepare) (h _)
    | zero =>
        rw [← hstore, Run.call_function_eq hlength, Run.bind_eq hprepare]
        exact .refl _
  · rw [opening_eq_nil hlength, Run.call, if_pos hlength]
    exact .refl _

/-- A step that begins no other ends where it has begun, but for what it does itself. -/
theorem ending_of_not_begins (h : ∀ part, ¬ Begins 0 step part) :
    step.closing = [] ∧ (step.state.store.after step.opening).Adds step.ending.store := by
  obtain ⟨depth, part, scope, s⟩ := step
  match part with
  | .expression (.identifier name) =>
      refine ⟨rfl, ?_⟩
      change Store.Adds s.store (Run.ending (Run.forget (Run.lookup scope name.name) s)).store
      rw [Run.ending_forget, Run.lookup_eq]
      cases s.store.get? scope name.name <;> exact .refl _
  | .expression (.integer _ _) | .expression (.function _ _ _) =>
      exact ⟨rfl, rfl, Nat.le_succ _⟩
  | .expression (.boolean _ _) | .arguments [] | .statements [] _ => exact ⟨rfl, .refl _⟩
  | .expression (.prefixed _ _ _) => exact absurd .operand (h _)
  | .expression (.infixed _ _ _ _) => exact absurd .left (h _)
  | .expression (.conditional _ _ _ _) => exact absurd .condition (h _)
  | .expression (.call _ _ _) => exact absurd .callee (h _)
  | .arguments (_ :: _) => exact absurd .argument (h _)
  | .call (.function id closure) arguments => exact ending_of_not_entered h
  | .call (.integer _ _) _ | .call (.boolean _ _) _ | .call (.null _) _ | .call (.returned _ _) _
  | .call (.error _ _) _ => exact ⟨rfl, .refl _⟩
  | .statement (.letStmt _ _ _) => exact absurd .bound (h _)
  | .statement (.returnStmt _ _) => exact absurd .returned (h _)
  | .statement (.exprStmt _ _) => exact absurd .expression (h _)
  | .statements (_ :: _) _ => exact absurd .statement (h _)
  | .block ⟨_, _⟩ => exact absurd .statements (h _)

end Step

end ClosureLang
