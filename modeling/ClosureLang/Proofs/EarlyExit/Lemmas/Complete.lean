import ClosureLang.Proofs.EarlyExit.Lemmas.Sound

/-!
# What is derived, a run comes to

A derivation is finite, so that the calls in it are inside each other up to some depth. Every run
that is allowed this depth comes to the outcome.
-/

namespace ClosureLang.EarlyExit

variable {α β : Type} {S : ScopeId → Prop} {s s' : Run.State} {scope : ScopeId}
  {store store' : Store}

/-- The run has this result if it is allowed enough depth. -/
def Eventually (run : Nat → Run α) (s : Run.State)
    (r : EStateM.Result Run.Stop Run.State α) : Prop :=
  ∃ n, ∀ m, n ≤ m → run m s = r

namespace Eventually

variable {p : Nat → Run α} {f : Nat → α → Run β} {a : α}

theorem always {run : Run α} {r : EStateM.Result Run.Stop Run.State α} (h : run s = r) :
    Eventually (fun _ => run) s r :=
  ⟨0, fun _ _ => h⟩

theorem bind {r : EStateM.Result Run.Stop Run.State β} (hp : Eventually p s (.ok a s'))
    (hf : Eventually (fun n => f n a) s' r) : Eventually (fun n => p n >>= f n) s r := by
  obtain ⟨n, hp⟩ := hp
  obtain ⟨n', hf⟩ := hf
  exact ⟨max n n', fun m hm => (Run.bind_eq (hp m (by omega))).trans (hf m (by omega))⟩

theorem bind_error {stop : Run.Stop} (hp : Eventually p s (.error stop s')) :
    Eventually (fun n => p n >>= f n) s (.error stop s') := by
  obtain ⟨n, hp⟩ := hp
  exact ⟨n, fun m hm => Run.bind_eq_error (hp m hm)⟩

theorem holds {Q : α → Run.State → Prop} {E : Run.Stop → Run.State → Prop}
    (h : Eventually p s (.ok a s')) (hp : ∀ n, Run.Outcome Q E (p n s)) : Q a s' := by
  obtain ⟨n, h⟩ := h
  have hq := hp n
  rw [h n (Nat.le_refl n)] at hq
  cases hq with
  | ok hq => exact hq

end Eventually

/-- A result is as `outcome` says, with `view` for the outcome that a value stands for. -/
inductive Stands (view : α → Outcome α) :
    EStateM.Result Run.Stop Run.State α → Outcome α → Store → Prop
  | ok {a s outcome} : view a = outcome → Stands view (.ok a s) outcome s.store
  | failed {error s} : Stands view (.error (.raised error) s) (.exit (.failed error)) s.store

def Comes (view : α → Outcome α) (run : Nat → Run α) (s : Run.State) (outcome : Outcome α)
    (store' : Store) : Prop :=
  ∃ r, Eventually run s r ∧ Stands view r outcome store'

theorem Comes.failed {view : α → Outcome α} {run : Nat → Run α} {error : EvalError}
    (h : Eventually run s (.error (.raised error) s')) :
    Comes view run s (.exit (.failed error)) s'.store :=
  ⟨_, h, .failed⟩

theorem Comes.clean {run : Nat → Run Object} {value : Object} (hv : value.Clean S)
    (h : Eventually run s (.ok value s')) : Comes .ofObject run s (.normal value) s'.store :=
  ⟨_, h, .ok (Outcome.ofObject_clean hv)⟩

theorem Comes.bind {view : β → Outcome β} {p : Nat → Run α} {f : Nat → α → Run β} {a : α}
    {outcome : Outcome β} (hp : Eventually p s (.ok a s'))
    (hf : Comes view (fun n => f n a) s' outcome store') :
    Comes view (fun n => p n >>= f n) s outcome store' := by
  obtain ⟨r, hr, hstands⟩ := hf
  exact ⟨r, hp.bind hr, hstands⟩

/-! ## Operands -/

/-- The runs of an expression, by depth. -/
def runs (expr : Expr) (scope : ScopeId) (depth : Nat) : Run Object :=
  Run.expression (Run.body depth) expr scope

theorem operand_normal {expr : Expr} {value : Object} (hs : Run.Sane S s) (hscope : S scope)
    (hexpr : expr.Structured false)
    (h : Comes .ofObject (runs expr scope) s (.normal value) store') :
    ∃ s', Eventually (runs expr scope) s (.ok value s') ∧ s'.store = store' ∧ Run.Sane S s' ∧
      value.Clean S := by
  obtain ⟨r, hr, hstands⟩ := h
  cases hstands with
  | @ok v s' _ hv =>
      have hq := hr.holds fun n => follows_expression (follows_body n) hscope expr hexpr s hs
      have hclean := hq.2.2.1 (expr.returns_eq_false hexpr)
      rw [Outcome.ofObject_clean hclean] at hv
      cases hv
      exact ⟨s', hr, rfl, hq.1, hclean⟩

theorem operand_exit {expr : Expr} {x : Exit} (hs : Run.Sane S s) (hscope : S scope)
    (hexpr : expr.Structured false) (h : Comes .ofObject (runs expr scope) s (.exit x) store') :
    ∃ error s', x = .failed error ∧ s'.store = store' ∧
      Eventually (runs expr scope) s (.error (.raised error) s') := by
  obtain ⟨r, hr, hstands⟩ := h
  cases hstands with
  | @ok v s' _ hv =>
      have hq := hr.holds fun n => follows_expression (follows_body n) hscope expr hexpr s hs
      rw [Outcome.ofObject_clean (hq.2.2.1 (expr.returns_eq_false hexpr))] at hv
      cases hv
  | failed => exact ⟨_, _, rfl, rfl, hr⟩

/-- After an operand a run goes on as from its clean value. -/
theorem comes_operand {expr : Expr} {value : Object} {view : β → Outcome β}
    {f : Nat → Object → Run β} {outcome : Outcome β} (hs : Run.Sane S s) (hscope : S scope)
    (hexpr : expr.Structured false) (h : Comes .ofObject (runs expr scope) s (.normal value) store)
    (hf : ∀ s', s'.store = store → Run.Sane S s' → value.Clean S →
      Comes view (fun n => f n value) s' outcome store') :
    Comes view (fun n => runs expr scope n >>= f n) s outcome store' := by
  obtain ⟨s', hr, hst, hs', hv⟩ := operand_normal hs hscope hexpr h
  exact Comes.bind hr (hf s' hst hs' hv)

theorem comes_exit {expr : Expr} {x : Exit} {view : β → Outcome β} {f : Nat → Object → Run β}
    (hs : Run.Sane S s) (hscope : S scope) (hexpr : expr.Structured false)
    (h : Comes .ofObject (runs expr scope) s (.exit x) store') :
    Comes view (fun n => runs expr scope n >>= f n) s (.exit x) store' := by
  obtain ⟨error, s', rfl, rfl, hr⟩ := operand_exit hs hscope hexpr h
  exact .failed hr.bind_error

theorem comes_use {how : Use} {value : Object} {view : β → Outcome β} {f : Nat → Object → Run β}
    {outcome : Outcome β}
    (h : Comes view (fun n => f n value) { s with journal := .use how value :: s.journal } outcome
      store') : Comes view (fun n => Run.use how value >>= f n) s outcome store' := h

theorem comes_operation {run : Run Object} {outcome : Outcome Object} (hop : Operation run)
    (hst : s.store = store) (h : Operates run store outcome store') :
    Comes .ofObject (fun _ => run) s outcome store' := by
  subst hst
  obtain ⟨outcome', store'', ho, _, hclean⟩ := hop s.store
  cases h with
  | @normal value _ hrun =>
      have hrun' := hrun s.journal
      cases ho with
      | @normal value' _ hrun'' =>
          obtain ⟨rfl, _⟩ := EStateM.Result.ok.inj ((hrun'' s.journal).symm.trans hrun')
          exact ⟨_, .always hrun', .ok (Outcome.ofObject_clean (hclean (fun _ => True) value' rfl))⟩
      | failed hrun'' => cases (hrun'' s.journal).symm.trans hrun'
  | failed hrun => exact .failed (.always (hrun s.journal))

/-! ## Blocks and calls -/

theorem comes_block {stmts : Block} {inner : Outcome (Option Object)}
    (h : Comes .ofValue (fun n => Run.sequence (Run.body n) stmts.statements none scope) s inner
      store') :
    Comes .ofObject (fun n => Run.block (Run.body n) stmts scope) s
      (inner.map (·.getD .sharedNull)) store' := by
  obtain ⟨token, stmts⟩ := stmts
  obtain ⟨r, hr, hstands⟩ := h
  cases hstands with
  | @ok value s' _ hv =>
      subst hv
      cases value with
      | none => exact ⟨.ok .sharedNull s', hr.bind (.always rfl), .ok rfl⟩
      | some v =>
          refine ⟨.ok v s', hr.bind (.always rfl), .ok ?_⟩
          rw [Outcome.ofValue_some]
          cases Outcome.ofObject v <;> rfl
  | failed => exact .failed hr.bind_error

/-- The bodies that may be entered at a depth have one call less inside each other. -/
theorem comes_body {stmts : Block} {outcome : Outcome Object}
    (h : Comes .ofObject (fun n => Run.block (Run.body n) stmts scope) s outcome store') :
    Comes .ofObject (fun n => Run.body n stmts scope) s outcome store' := by
  obtain ⟨r, ⟨n, hr⟩, hstands⟩ := h
  refine ⟨r, ⟨n + 1, fun m hm => ?_⟩, hstands⟩
  obtain ⟨m, rfl⟩ : ∃ k, m = k + 1 := ⟨m - 1, by omega⟩
  exact hr m (Nat.le_of_succ_le_succ hm)

/-- A call comes to what the outcome of its body is for the caller. -/
theorem comes_unwrapped {stmts : Block} {inner : Outcome (Option Object)} (hs : Run.Sane S s)
    (hscope : S scope) (hstr : stmts.Structured)
    (h : Comes .ofObject (fun n => Run.body n stmts scope) s (inner.map (·.getD .sharedNull))
      store') :
    Comes .ofObject (fun n => do let result ← Run.body n stmts scope; return result.unwrapped) s
      inner.ofBody store' := by
  obtain ⟨r, hr, hstands⟩ := h
  generalize hinner : inner.map (·.getD .sharedNull) = outcome at hstands
  cases hstands with
  | @ok value s' _ hv =>
      subst hv
      have hq := hr.holds fun n => follows_body n stmts scope s hstr hscope hs
      rw [Outcome.ofBody_eq_normal hinner]
      exact .clean hq.2.1 (hr.bind (.always rfl))
  | failed =>
      rw [Outcome.ofBody_eq_failed hinner]
      exact .failed hr.bind_error

/-! ## Expressions and statements -/

theorem comes_lookup {name : Identifier} {outcome : Outcome Object}
    (h : Stands .ofObject (Run.lookup scope name.name s) outcome store') :
    Comes .ofObject (runs (.identifier name) scope) s outcome store' :=
  ⟨_, .always rfl, h⟩

theorem comes_note {event : Event} {view : α → Outcome α} {run : Nat → Run α}
    {outcome : Outcome α}
    (h : Comes view run { s with journal := event :: s.journal } outcome store') :
    Comes view (fun n => Run.note event >>= fun _ => run n) s outcome store' := h

theorem Comes.map {view : α → Outcome α} {view' : β → Outcome β} {f : α → β} {run : Nat → Run α}
    {outcome : Outcome α} (hf : ∀ a, view' (f a) = (view a).map f)
    (h : Comes view run s outcome store') :
    Comes view' (fun n => run n >>= fun a => pure (f a)) s (outcome.map f) store' := by
  obtain ⟨r, hr, hstands⟩ := h
  cases hstands with
  | ok hv => exact ⟨_, hr.bind (.always rfl), .ok (by rw [hf, hv])⟩
  | failed => exact .failed hr.bind_error

theorem comes_all {exprs : List Expr} {values : List Object} {view : β → Outcome β}
    {f : Nat → List Object → Run β} {outcome : Outcome β} (hs : Run.Sane S s) (hscope : S scope)
    (hstr : AllExprsStructured exprs)
    (h : Comes .normal (fun n => Run.expressions (Run.body n) exprs scope) s (.normal values) store)
    (hf : ∀ s', s'.store = store → Run.Sane S s' → (∀ v ∈ values, v.Clean S) →
      Comes view (fun n => f n values) s' outcome store') :
    Comes view (fun n => Run.expressions (Run.body n) exprs scope >>= f n) s outcome store' := by
  obtain ⟨r, hr, hstands⟩ := h
  cases hstands with
  | ok hv =>
      cases hv
      have hq := hr.holds fun n => follows_expressions (follows_body n) hscope exprs hstr s hs
      exact Comes.bind hr (hf _ rfl hq.1 hq.2.1)

theorem comes_all_exit {exprs : List Expr} {x : Exit} {view : β → Outcome β}
    {f : Nat → List Object → Run β}
    (h : Comes .normal (fun n => Run.expressions (Run.body n) exprs scope) s (.exit x) store') :
    Comes view (fun n => Run.expressions (Run.body n) exprs scope >>= f n) s (.exit x) store' := by
  obtain ⟨r, hr, hstands⟩ := h
  cases hstands with
  | ok hv => cases hv
  | failed => exact .failed hr.bind_error

theorem comes_next {stmt : Stmt} {stmts : List Stmt} {last value : Option Object}
    {outcome : Outcome (Option Object)} (hs : Run.Sane S s) (hscope : S scope)
    (hstr : stmt.Structured)
    (h : Comes .ofValue (fun n => Run.statement (Run.body n) stmt scope) s (.normal value) store)
    (hrest : ∀ s', s'.store = store → Run.Sane S s' → (∀ v ∈ value, v.Clean S) →
      Comes .ofValue (fun n => Run.sequence (Run.body n) stmts value scope) s' outcome store') :
    Comes .ofValue (fun n => Run.sequence (Run.body n) (stmt :: stmts) last scope) s outcome
      store' := by
  obtain ⟨r, hr, hstands⟩ := h
  cases hstands with
  | @ok v s' _ hv =>
      have hq := hr.holds fun n => follows_statement (follows_body n) hscope stmt hstr s hs
      cases v with
      | none =>
          cases hv
          exact Comes.bind hr (hrest s' rfl hq.1 (by simp))
      | some v =>
          have hu := hq.2.1 v rfl
          cases v with
          | returned _ _ => cases hv
          | integer _ _ | boolean _ _ | null _ | function _ _ | error _ _ =>
              cases hv
              exact Comes.bind hr (hrest s' rfl hq.1 fun _ hm => by cases hm; exact hu)

theorem comes_last {stmt : Stmt} {stmts : List Stmt} {last : Option Object} {x : Exit}
    (h : Comes .ofValue (fun n => Run.statement (Run.body n) stmt scope) s (.exit x) store') :
    Comes .ofValue (fun n => Run.sequence (Run.body n) (stmt :: stmts) last scope) s (.exit x)
      store' := by
  obtain ⟨r, hr, hstands⟩ := h
  cases hstands with
  | @ok v s' _ hv =>
      cases v with
      | none => cases hv
      | some v =>
          cases v with
          | returned id inner => exact ⟨_, hr.bind (.always rfl), .ok hv⟩
          | _ => cases hv
  | failed => exact .failed hr.bind_error

mutual

theorem comes_expression {expr : Expr} {outcome : Outcome Object} {whole : Bool} {scope : ScopeId}
    {s : Run.State} {store store' : Store} (hs : Run.Sane S s) (hscope : S scope)
    (hstr : expr.Structured whole) (hst : s.store = store)
    (h : Expression expr scope store outcome store') :
    Comes .ofObject (runs expr scope) s outcome store' := by
  match h with
  | .found hv =>
      subst hst
      apply comes_lookup
      rw [Run.lookup_eq, hv]
      exact .ok (Outcome.ofObject_clean (hs.store.get? hscope hv))
  | .missing hv =>
      subst hst
      apply comes_lookup
      rw [Run.lookup_eq, hv]
      exact .failed
  | .integer | .boolean | .function => subst hst; exact ⟨_, .always rfl, .ok rfl⟩
  | .prefixed hd hop =>
      apply comes_operand hs hscope hstr (comes_expression hs hscope hstr hst hd)
      intro s₁ hst₁ _ _
      exact comes_use (comes_operation (.of (Run.isOperation_applyPrefix _ _)) hst₁ hop)
  | .prefixedExit hd => exact comes_exit hs hscope hstr (comes_expression hs hscope hstr hst hd)
  | .infixed hl hr hop =>
      apply comes_operand hs hscope hstr.1 (comes_expression hs hscope hstr.1 hst hl)
      intro s₁ hst₁ hs₁ hv₁
      apply comes_use
      have hs₁ := hs₁.use .operand hv₁
      apply comes_operand hs₁ hscope hstr.2 (comes_expression hs₁ hscope hstr.2 hst₁ hr)
      intro s₂ hst₂ _ _
      exact comes_use (comes_operation (.of (Run.isOperation_applyInfix _ _ _)) hst₂ hop)
  | .leftExit hl => exact comes_exit hs hscope hstr.1 (comes_expression hs hscope hstr.1 hst hl)
  | .rightExit hl hr =>
      apply comes_operand hs hscope hstr.1 (comes_expression hs hscope hstr.1 hst hl)
      intro s₁ hst₁ hs₁ hv₁
      apply comes_use
      have hs₁ := hs₁.use .operand hv₁
      exact comes_exit hs₁ hscope hstr.2 (comes_expression hs₁ hscope hstr.2 hst₁ hr)
  | .consequence hc ht hseq =>
      apply comes_operand hs hscope hstr.2.1 (comes_expression hs hscope hstr.2.1 hst hc)
      intro s₁ hst₁ hs₁ hv₁
      apply comes_use
      have hs₁ := hs₁.use .condition hv₁
      simp only [ht, if_true]
      have hstr := Block.structured_iff.mp hstr.2.2.1
      exact comes_block (comes_sequence hs₁ hscope hstr (by simp) hst₁ hseq)
  | .alternative hc ht hseq =>
      apply comes_operand hs hscope hstr.2.1 (comes_expression hs hscope hstr.2.1 hst hc)
      intro s₁ hst₁ hs₁ hv₁
      apply comes_use
      have hs₁ := hs₁.use .condition hv₁
      simp only [ht]
      have hstr := Block.structured_iff.mp hstr.2.2.2
      exact comes_block (comes_sequence hs₁ hscope hstr (by simp) hst₁ hseq)
  | .noAlternative hc ht =>
      apply comes_operand hs hscope hstr.2.1 (comes_expression hs hscope hstr.2.1 hst hc)
      intro s₁ hst₁ hs₁ hv₁
      apply comes_use
      simp only [ht]
      subst hst₁
      exact ⟨_, .always rfl, .ok rfl⟩
  | .conditionExit hc =>
      exact comes_exit hs hscope hstr.2.1 (comes_expression hs hscope hstr.2.1 hst hc)
  | .call hf has hcall =>
      apply comes_operand hs hscope hstr.1 (comes_expression hs hscope hstr.1 hst hf)
      intro s₁ hst₁ hs₁ hf₁
      apply comes_use
      have hs₁ := hs₁.use .callee hf₁
      apply comes_all hs₁ hscope hstr.2 (comes_arguments hs₁ hscope hstr.2 hst₁ has)
      intro s₂ hst₂ hs₂ hv₂
      exact comes_call hs₂ hf₁ hv₂ hst₂ hcall
  | .calleeExit hf => exact comes_exit hs hscope hstr.1 (comes_expression hs hscope hstr.1 hst hf)
  | .argumentExit hf has =>
      apply comes_operand hs hscope hstr.1 (comes_expression hs hscope hstr.1 hst hf)
      intro s₁ hst₁ hs₁ hf₁
      apply comes_use
      exact comes_all_exit (comes_arguments (hs₁.use .callee hf₁) hscope hstr.2 hst₁ has)
termination_by structural h

theorem comes_arguments {exprs : List Expr} {outcome : Outcome (List Object)} {scope : ScopeId}
    {s : Run.State} {store store' : Store} (hs : Run.Sane S s) (hscope : S scope)
    (hstr : AllExprsStructured exprs) (hst : s.store = store)
    (h : Arguments exprs scope store outcome store') :
    Comes .normal (fun n => Run.expressions (Run.body n) exprs scope) s outcome store' := by
  match h with
  | .nil => subst hst; exact ⟨_, .always rfl, .ok rfl⟩
  | .cons hd hrest =>
      apply comes_operand hs hscope hstr.1 (comes_expression hs hscope hstr.1 hst hd)
      intro s₁ hst₁ hs₁ hv₁
      apply comes_use
      exact (comes_arguments (hs₁.use .argument hv₁) hscope hstr.2 hst₁ hrest).map fun _ => rfl
  | .exit hd => exact comes_exit hs hscope hstr.1 (comes_expression hs hscope hstr.1 hst hd)
termination_by structural h

theorem comes_call {callee : Object} {values : List Object} {outcome : Outcome Object}
    {s : Run.State} {store store' : Store} (hs : Run.Sane S s) (hf : callee.Clean S)
    (hv : ∀ v ∈ values, v.Clean S) (hst : s.store = store)
    (h : Call callee values store outcome store') :
    Comes .ofObject (fun n => Run.call (Run.body n) callee values) s outcome store' := by
  match h with
  | @Call.function id closure _ _ _ _ heq hseq =>
      have hnew := hs.store.fresh _ (Nat.le_refl _)
      have hstr := Block.structured_iff.mp hf.2
      obtain ⟨s', hs', hst', hcall⟩ := @call_eq S s id closure values hs hf.1 hv heq
      rw [hst] at hnew hst' hcall
      obtain ⟨r, ⟨n, hr⟩, hstands⟩ := comes_unwrapped hs' hnew hf.2
        (comes_body (comes_block (comes_sequence hs' hnew hstr (by simp) hst' hseq)))
      exact ⟨r, ⟨n, fun m hm => (hcall _).trans (hr m hm)⟩, hstands⟩
  | .wrongCount hne =>
      subst hst
      refine .failed ⟨0, fun m _ => ?_⟩
      simp only [Run.call, if_pos hne]
      rfl
  | .notAFunction hne =>
      subst hst
      cases callee with
      | function _ _ => exact absurd rfl hne
      | _ => exact .failed (.always rfl)
termination_by structural h

theorem comes_statement {stmt : Stmt} {outcome : Outcome (Option Object)} {scope : ScopeId}
    {s : Run.State} {store store' : Store} (hs : Run.Sane S s) (hscope : S scope)
    (hstr : stmt.Structured) (hst : s.store = store)
    (h : Statement stmt scope store outcome store') :
    Comes .ofValue (fun n => Run.statement (Run.body n) stmt scope) s outcome store' := by
  match h with
  | .letStmt hd =>
      apply comes_note
      apply comes_operand (hs.statement _) hscope hstr
        (comes_expression (hs.statement _) hscope hstr hst hd)
      rintro s₁ rfl _ _
      exact ⟨_, .always rfl, .ok rfl⟩
  | .returnStmt hd =>
      apply comes_note
      apply comes_operand (hs.statement _) hscope hstr
        (comes_expression (hs.statement _) hscope hstr hst hd)
      rintro s₁ rfl _ _
      exact ⟨_, .always rfl, .ok rfl⟩
  | .letExit hd | .returnExit hd =>
      apply comes_note
      exact comes_exit (hs.statement _) hscope hstr
        (comes_expression (hs.statement _) hscope hstr hst hd)
  | .exprStmt hd =>
      apply comes_note
      exact (comes_expression (hs.statement _) hscope hstr hst hd).map Outcome.ofValue_some
termination_by structural h

theorem comes_sequence {stmts : List Stmt} {last : Option Object}
    {outcome : Outcome (Option Object)} {scope : ScopeId} {s : Run.State} {store store' : Store}
    (hs : Run.Sane S s) (hscope : S scope) (hstr : AllStructured stmts)
    (hlast : ∀ v ∈ last, v.Clean S) (hst : s.store = store)
    (h : Sequence stmts last scope store outcome store') :
    Comes .ofValue (fun n => Run.sequence (Run.body n) stmts last scope) s outcome store' := by
  match h with
  | .nil =>
      subst hst
      refine ⟨_, .always rfl, .ok ?_⟩
      cases last with
      | none => rfl
      | some v => rw [Outcome.ofValue_some, Outcome.ofObject_clean (hlast v rfl)]; rfl
  | .cons hd hrest =>
      apply comes_next hs hscope hstr.1 (comes_statement hs hscope hstr.1 hst hd)
      intro s₁ hst₁ hs₁ hv₁
      exact comes_sequence hs₁ hscope hstr.2 hv₁ hst₁ hrest
  | .exit hd => exact comes_last (comes_statement hs hscope hstr.1 hst hd)
termination_by structural h

end

end ClosureLang.EarlyExit
