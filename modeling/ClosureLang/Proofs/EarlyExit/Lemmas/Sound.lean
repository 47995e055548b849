import ClosureLang.Proofs.EarlyExit.Lemmas.Sane
import ClosureLang.Proofs.EarlyExit.Semantics
import ClosureLang.Proofs.Running.Lemmas.Operators
import ClosureLang.Proofs.Running.Lemmas.Outcomes

/-!
# What a run comes to is derived

In a structured program a returned object stands for the exit that the semantics has there, and it
goes nowhere but to the end of the body.
-/

namespace ClosureLang

mutual

/-- No `return` stands in a structured expression that is a part of another one. -/
theorem Expr.returns_eq_false : (expr : Expr) → expr.Structured false → expr.returns = false
  | .identifier _, _ | .integer _ _, _ | .boolean _ _, _ | .function _ _ _, _ => rfl
  | .prefixed _ _ right, h => right.returns_eq_false h
  | .infixed _ left _ right, h => by
      simp only [Expr.returns, left.returns_eq_false h.1, right.returns_eq_false h.2, Bool.or_false]
  | .conditional _ condition consequence alternative, h => by
      have hno : ¬ (consequence.returns = true ∨ alternativeReturns alternative = true) :=
        fun hr => Bool.noConfusion (h.1 hr)
      simp only [not_or, Bool.not_eq_true] at hno
      simp only [Expr.returns, condition.returns_eq_false h.2.1, hno.1, hno.2, Bool.or_false]
  | .call _ callee arguments, h => by
      simp only [Expr.returns, callee.returns_eq_false h.1, anyExprReturns_eq_false arguments h.2,
        Bool.or_false]

theorem anyExprReturns_eq_false :
    (exprs : List Expr) → AllExprsStructured exprs → anyExprReturns exprs = false
  | [], _ => rfl
  | expr :: exprs, h => by
      simp only [anyExprReturns, expr.returns_eq_false h.1, anyExprReturns_eq_false exprs h.2,
        Bool.or_false]

end

namespace EarlyExit

variable {α : Type} {S : ScopeId → Prop} {s : Run.State} {scope : ScopeId}
  {enter : Block → ScopeId → Run Object}

/-! ## Operators -/

/-- An operation looks at nothing but its operands, and its result is clean. -/
def Operation (run : Run Object) : Prop :=
  ∀ store, ∃ outcome store', Operates run store outcome store' ∧
    store'.scopes = store.scopes ∧ ∀ S value, outcome = .normal value → value.Clean S

theorem Operation.of {run : Run Object} (h : Run.IsOperation run) : Operation run := by
  intro store
  cases h with
  | boolean value =>
      exact ⟨_, store, .normal fun _ => rfl, rfl, fun _ _ heq => by cases heq; trivial⟩
  | integer value =>
      exact ⟨.normal (.integer store.newId.1 value), store.newId.2, .normal fun _ => rfl, rfl,
        fun _ _ heq => by cases heq; trivial⟩
  | raise error => exact ⟨_, store, .failed fun _ => rfl, rfl, fun _ _ heq => by cases heq⟩

/-! ## Outcomes of runs -/

namespace Outcome

/-- The outcome that an object stands for. -/
def ofObject : Object → Outcome Object
  | .returned _ inner => .exit (.returned inner)
  | value => .normal value

/-- The outcome that the value of a statement stands for. -/
def ofValue : Option Object → Outcome (Option Object)
  | some (.returned _ inner) => .exit (.returned inner)
  | value => .normal value

theorem ofObject_clean {value : Object} (h : value.Clean S) : ofObject value = .normal value := by
  cases value with
  | returned _ _ => exact h.elim
  | _ => rfl

theorem ofBody_eq_normal {inner : Outcome (Option Object)} {value : Object}
    (h : inner.map (·.getD .sharedNull) = ofObject value) :
    inner.ofBody = .normal value.unwrapped := by
  cases inner with
  | normal v =>
      cases value <;> simp_all [map, ofObject, ofBody, Object.unwrapped]
  | exit x =>
      cases value with
      | returned _ _ => cases h; rfl
      | _ => cases h

theorem ofBody_eq_failed {inner : Outcome (Option Object)} {error : EvalError}
    (h : inner.map (·.getD .sharedNull) = .exit (.failed error)) :
    inner.ofBody = .exit (.failed error) := by
  cases inner with
  | normal v => cases h
  | exit x => cases h; rfl

theorem ofValue_some (value : Object) : ofValue (some value) = (ofObject value).map some := by
  cases value <;> rfl

end Outcome

/-- Where a run stops with an error, `D` derives the failure. -/
def Fails (S : ScopeId → Prop) (D : Outcome α → Store → Prop) (stop : Run.Stop) (s : Run.State) :
    Prop :=
  Run.Sane S s ∧ ∀ error, stop = .raised error → D (.exit (.failed error)) s.store

/-- A run comes to an object that stands for an outcome `D` derives. It is clean if no `return`
is in the way. -/
def Follows (S : ScopeId → Prop) (returns : Bool) (D : Outcome Object → Store → Prop) :
    EStateM.Result Run.Stop Run.State Object → Prop :=
  Run.Outcome (fun value s => Run.Sane S s ∧ value.unwrapped.Clean S ∧
    (returns = false → value.Clean S) ∧ D (.ofObject value) s.store) (Fails S D)

/-- The same for a statement, which may have no value. -/
def FollowsValue (S : ScopeId → Prop) (returns : Bool)
    (D : Outcome (Option Object) → Store → Prop) :
    EStateM.Result Run.Stop Run.State (Option Object) → Prop :=
  Run.Outcome (fun value s => Run.Sane S s ∧ (∀ v ∈ value, v.unwrapped.Clean S) ∧
    (returns = false → ∀ v ∈ value, v.Clean S) ∧ D (.ofValue value) s.store) (Fails S D)

/-- The outcome of a block as an expression. -/
def OfBlock (stmts : Block) (scope : ScopeId) (store : Store) (outcome : Outcome Object)
    (store' : Store) : Prop :=
  ∃ inner, Sequence stmts.statements none scope store inner store' ∧
    inner.map (·.getD .sharedNull) = outcome

theorem follows_clean {D : Outcome Object → Store → Prop} {returns : Bool} {value : Object}
    (hs : Run.Sane S s) (hv : value.Clean S) (hd : D (.normal value) s.store) :
    Follows S returns D (.ok value s) := by
  refine .ok ⟨hs, ?_, fun _ => hv, ?_⟩
  · rwa [hv.unwrapped]
  · rwa [Outcome.ofObject_clean hv]

theorem follows_operand {expr : Expr} {store : Store} {run : Run Object} {f : Object → Run α}
    {Q : α → Run.State → Prop} {β : Type} {D : Outcome β → Store → Prop}
    (h : Follows S expr.returns (Expression expr scope store) (run s))
    (hr : expr.returns = false)
    (hexit : ∀ x store', Expression expr scope store (.exit x) store' → D (.exit x) store')
    (hf : ∀ value s', Run.Sane S s' → value.Clean S →
      Expression expr scope store (.normal value) s'.store →
        Run.Outcome Q (Fails S D) (f value s')) :
    Run.Outcome Q (Fails S D) ((run >>= f) s) := by
  have hweak := h.mono (fun _ _ hq => hq)
    fun stop s' he => (⟨he.1, fun e hstop => hexit _ _ (he.2 e hstop)⟩ : Fails S D stop s')
  apply hweak.bind
  intro value s' hq
  have hv := hq.2.2.1 hr
  have hd := hq.2.2.2
  rw [Outcome.ofObject_clean hv] at hd
  exact hf value s' hq.1 hv hd

theorem follows_operation {D : Outcome Object → Store → Prop} {returns : Bool} {run : Run Object}
    (hop : Operation run) (hs : Run.Sane S s)
    (hd : ∀ outcome store', Operates run s.store outcome store' → D outcome store') :
    Follows S returns D (run s) := by
  obtain ⟨outcome, store', ho, hscopes, hclean⟩ := hop s.store
  have hstore : store'.Clean S := by
    obtain ⟨scopes, made⟩ := store'
    cases hscopes
    exact ⟨hs.store.fresh, hs.store.outer, hs.store.bound⟩
  cases ho with
  | @normal value store' hrun =>
      rw [show run s = .ok value ⟨store', s.journal⟩ from hrun s.journal]
      exact follows_clean (hs.of_store hstore) (hclean S value rfl) (hd _ _ (.normal hrun))
  | @failed error hrun =>
      rw [show run s = .error (.raised error) s from hrun s.journal]
      exact .error ⟨hs, fun e heq => by cases heq; exact hd _ _ (.failed hrun)⟩

/-! ## Calls -/

/-- A way to evaluate the bodies of functions that follows the semantics. -/
def FollowsBodies (S : ScopeId → Prop) (enter : Block → ScopeId → Run Object) : Prop :=
  ∀ (stmts : Block) (scope : ScopeId) (s : Run.State), stmts.Structured → S scope →
    Run.Sane S s → Follows S stmts.returns (OfBlock stmts scope s.store) (enter stmts scope s)

theorem bindParameters_eq : (parameters : List Identifier) → (arguments : List Object) →
    (s : Run.State) → Run.Sane S s → (∀ v ∈ arguments, v.Clean S) →
    ∃ s', Run.bindParameters scope parameters arguments s = .ok () s' ∧ Run.Sane S s' ∧
      s'.store = bindAll s.store scope parameters arguments
  | [], [], s, hs, _ | [], _ :: _, s, hs, _ | _ :: _, [], s, hs, _ => ⟨s, rfl, hs, rfl⟩
  | parameter :: parameters, argument :: arguments, s, hs, hv => by
      have hv₁ := hv argument (List.mem_cons_self ..)
      have hs₁ : Run.Sane S ⟨s.store.set scope parameter.name argument, _⟩ :=
        (hs.use .bound hv₁).of_store (hs.store.set hv₁)
      exact bindParameters_eq parameters arguments _ hs₁ fun v hm =>
        hv v (List.mem_cons_of_mem _ hm)

/-- A call with the right number of arguments is a run of the body in the state that the semantics
enters it with. -/
theorem call_eq {id : ObjectId} {closure : Closure} {arguments : List Object} (hs : Run.Sane S s)
    (hf : S closure.scope) (hv : ∀ v ∈ arguments, v.Clean S)
    (heq : closure.parameters.length = arguments.length) :
    ∃ s', Run.Sane S s' ∧ s'.store = entered closure arguments s.store ∧
      ∀ enter, Run.call enter (.function id closure) arguments s =
        (do
          let result ← enter closure.body s.store.scopes.size
          return result.unwrapped : Run Object) s' := by
  have hs₁ : Run.Sane S { s with journal := .application arguments.length :: s.journal } :=
    hs.note (by simp)
  have hs₁ := hs₁.of_store (hs.store.newScope hf)
  obtain ⟨s', hbind, hs', hstore⟩ :=
    @bindParameters_eq S s.store.scopes.size closure.parameters arguments _ hs₁ hv
  refine ⟨s', hs', hstore, fun enter => ?_⟩
  rw [Run.call, if_neg (not_not_intro heq)]
  exact Run.bind_eq hbind

/-- A call of a clean function is clean again: a `return` in the body goes no further. -/
theorem follows_call (henter : FollowsBodies S enter) {callee : Object} {arguments : List Object}
    (hs : Run.Sane S s) (hf : callee.Clean S) (hv : ∀ v ∈ arguments, v.Clean S) :
    Follows S false (Call callee arguments s.store) (Run.call enter callee arguments s) := by
  cases callee with
  | function id closure =>
      by_cases heq : closure.parameters.length = arguments.length
      · obtain ⟨s', hs', hstore, hcall⟩ := @call_eq S s id closure arguments hs hf.1 hv heq
        have hbody := henter closure.body s.store.scopes.size s' hf.2
          (hs.store.fresh _ (Nat.le_refl _)) hs'
        rw [hstore] at hbody
        rw [hcall]
        apply Run.Outcome.bind (hbody.mono (fun _ _ hq => hq) ?_)
        · rintro value s₃ ⟨hs₃, hclean, _, inner, hseq, hinner⟩
          exact follows_clean hs₃ hclean (Outcome.ofBody_eq_normal hinner ▸ .function heq hseq)
        · rintro stop s₃ ⟨hs₃, hfail⟩
          refine ⟨hs₃, fun e hstop => ?_⟩
          obtain ⟨inner, hseq, hinner⟩ := hfail e hstop
          exact Outcome.ofBody_eq_failed hinner ▸ .function heq hseq
      · rw [Run.call, if_pos heq]
        exact .error ⟨hs, fun e he => by cases he; exact .wrongCount heq⟩
  | returned _ _ => exact hf.elim
  | integer _ _ | boolean _ _ | null _ | error _ _ =>
      exact .error ⟨hs, fun e heq => by cases heq; exact .notAFunction (by simp [Object.type])⟩

/-! ## Expressions and statements -/

theorem follows_branch {D D' : Outcome Object → Store → Prop} {returns returns' : Bool}
    {r : EStateM.Result Run.Stop Run.State Object} (h : Follows S returns D r)
    (hr : returns' = false → returns = false) (hd : ∀ outcome store, D outcome store →
      D' outcome store) : Follows S returns' D' r :=
  h.mono (fun _ _ hq => ⟨hq.1, hq.2.1, fun h => hq.2.2.1 (hr h), hd _ _ hq.2.2.2⟩)
    fun _ _ he => ⟨he.1, fun e hstop => hd _ _ (he.2 e hstop)⟩

theorem follows_lookup (hscope : S scope) (name : Identifier) (hs : Run.Sane S s) :
    Follows S false (Expression (.identifier name) scope s.store)
      (Run.lookup scope name.name s) := by
  rw [Run.lookup_eq]
  cases hv : s.store.get? scope name.name with
  | some value => exact follows_clean hs (hs.store.get? hscope hv) (.found hv)
  | none => exact .error ⟨hs, fun e heq => by cases heq; exact .missing hv⟩

mutual

theorem follows_expression (henter : FollowsBodies S enter) (hscope : S scope) {whole : Bool} :
    (expr : Expr) → expr.Structured whole → (s : Run.State) → Run.Sane S s →
      Follows S expr.returns (Expression expr scope s.store) (Run.expression enter expr scope s)
  | .identifier name, _, s, hs => follows_lookup hscope name hs
  | .integer _ value, _, s, hs => follows_clean (hs.of_store hs.store.newId) trivial .integer
  | .boolean _ value, _, s, hs => follows_clean hs trivial .boolean
  | .prefixed _ op right, h, s, hs => by
      rw [Run.expression]
      apply follows_operand (follows_expression henter hscope right h s hs)
        (right.returns_eq_false h) fun _ _ => .prefixedExit
      intro r s₁ hs₁ hr hd
      apply Run.Outcome.use_bind
      exact follows_operation (.of (Run.isOperation_applyPrefix op r)) (hs₁.use .operand hr)
        fun _ _ => .prefixed hd
  | .infixed _ left op right, h, s, hs => by
      rw [Run.expression]
      apply follows_operand (follows_expression henter hscope left h.1 s hs)
        (left.returns_eq_false h.1) fun _ _ => .leftExit
      intro l s₁ hs₁ hl hd
      apply Run.Outcome.use_bind
      apply follows_operand (follows_expression henter hscope right h.2 _ (hs₁.use .operand hl))
        (right.returns_eq_false h.2) fun _ _ => .rightExit hd
      intro r s₂ hs₂ hr hd'
      apply Run.Outcome.use_bind
      exact follows_operation (.of (Run.isOperation_applyInfix op l r)) (hs₂.use .operand hr)
        fun _ _ => .infixed hd hd'
  | .conditional _ condition consequence alternative, h, s, hs => by
      rw [Run.expression]
      apply follows_operand (follows_expression henter hscope condition h.2.1 s hs)
        (condition.returns_eq_false h.2.1) fun _ _ => .conditionExit
      intro c s₁ hs₁ hc hd
      apply Run.Outcome.use_bind
      have hs₂ := hs₁.use .condition hc
      cases ht : c.isTruthy with
      | true =>
          apply follows_branch (follows_block henter hscope consequence h.2.2.1 _ hs₂)
          · intro hr
            simp only [Expr.returns, Bool.or_eq_false_iff] at hr
            exact hr.1.2
          · rintro _ _ ⟨inner, hseq, rfl⟩
            exact .consequence hd ht hseq
      | false =>
          cases alternative with
          | none => exact follows_clean hs₂ trivial (.noAlternative hd ht)
          | some alternative =>
              apply follows_branch (follows_block henter hscope alternative h.2.2.2 _ hs₂)
              · intro hr
                simp only [Expr.returns, Bool.or_eq_false_iff] at hr
                exact hr.2
              · rintro _ _ ⟨inner, hseq, rfl⟩
                exact .alternative hd ht hseq
  | .function _ parameters body, h, s, hs =>
      follows_clean (hs.of_store hs.store.newId) ⟨hscope, h⟩ .function
  | .call _ callee arguments, h, s, hs => by
      rw [Run.expression]
      apply follows_operand (follows_expression henter hscope callee h.1 s hs)
        (callee.returns_eq_false h.1) fun _ _ => .calleeExit
      intro f s₁ hs₁ hf hd
      apply Run.Outcome.use_bind
      have hargs := follows_expressions henter hscope arguments h.2 _ (hs₁.use .callee hf)
      apply Run.Outcome.bind (hargs.mono (fun _ _ hq => hq)
        fun _ _ he => ⟨he.1, fun e hstop => .argumentExit hd (he.2 e hstop)⟩)
      rintro values s₂ ⟨hs₂, hv, hd'⟩
      exact follows_branch (follows_call henter hs₂ hf hv) (fun _ => rfl) fun _ _ => .call hd hd'

theorem follows_expressions (henter : FollowsBodies S enter) (hscope : S scope) :
    (exprs : List Expr) → AllExprsStructured exprs → (s : Run.State) → Run.Sane S s →
      Run.Outcome (fun values s' => Run.Sane S s' ∧ (∀ v ∈ values, v.Clean S) ∧
          Arguments exprs scope s.store (.normal values) s'.store)
        (Fails S (Arguments exprs scope s.store)) (Run.expressions enter exprs scope s)
  | [], _, s, hs => .ok ⟨hs, by simp, .nil⟩
  | expr :: exprs, h, s, hs => by
      rw [Run.expressions]
      apply follows_operand (follows_expression henter hscope expr h.1 s hs)
        (expr.returns_eq_false h.1) fun _ _ => .exit
      intro value s₁ hs₁ hv hd
      apply Run.Outcome.use_bind
      have hrest := follows_expressions henter hscope exprs h.2 _ (hs₁.use .argument hv)
      apply Run.Outcome.bind (hrest.mono (fun _ _ hq => hq)
        fun _ _ he => ⟨he.1, fun e hstop => .cons hd (he.2 e hstop)⟩)
      rintro values s₂ ⟨hs₂, hvs, hd'⟩
      exact .pure ⟨hs₂, List.forall_mem_cons.mpr ⟨hv, hvs⟩, .cons hd hd'⟩

theorem follows_statement (henter : FollowsBodies S enter) (hscope : S scope) :
    (stmt : Stmt) → stmt.Structured → (s : Run.State) → Run.Sane S s →
      FollowsValue S stmt.returns (Statement stmt scope s.store) (Run.statement enter stmt scope s)
  | .letStmt token name value, h, s, hs => by
      rw [Run.statement]
      apply Run.Outcome.note_bind
      apply follows_operand (follows_expression henter hscope value h _ (hs.statement _))
        (value.returns_eq_false h) fun _ _ => .letExit
      intro v s₁ hs₁ hv hd
      exact .ok ⟨(hs₁.use .bound hv).of_store (hs₁.store.set hv), by simp, by simp, .letStmt hd⟩
  | .returnStmt token value, h, s, hs => by
      rw [Run.statement]
      apply Run.Outcome.note_bind
      apply follows_operand (follows_expression henter hscope value h _ (hs.statement _))
        (value.returns_eq_false h) fun _ _ => .returnExit
      intro v s₁ hs₁ hv hd
      have hs₂ := (hs₁.use .returned hv).of_store hs₁.store.newId
      exact .ok ⟨hs₂, fun _ hm => (by cases hm; exact hv), fun hr => (by cases hr), .returnStmt hd⟩
  | .exprStmt token expr, h, s, hs => by
      rw [Run.statement]
      apply Run.Outcome.note_bind
      apply Run.Outcome.bind ((follows_expression henter hscope expr h _ (hs.statement _)).mono
        (fun _ _ hq => hq) fun _ _ he => ⟨he.1, fun e hstop => .exprStmt (he.2 e hstop)⟩)
      rintro v s₁ ⟨hs₁, hu, hv, hd⟩
      apply Run.Outcome.pure
      rw [Outcome.ofValue_some]
      exact ⟨hs₁, fun _ hm => (by cases hm; exact hu), fun hr _ hm => (by cases hm; exact hv hr),
        .exprStmt hd⟩

theorem follows_sequence (henter : FollowsBodies S enter) (hscope : S scope) :
    (stmts : List Stmt) → AllStructured stmts → (last : Option Object) →
      (∀ v ∈ last, v.Clean S) → (s : Run.State) → Run.Sane S s →
        FollowsValue S (anyReturns stmts) (Sequence stmts last scope s.store)
          (Run.sequence enter stmts last scope s)
  | [], _, last, hlast, s, hs => by
      refine .ok ⟨hs, fun v hm => ?_, fun _ => hlast, ?_⟩
      · rw [(hlast v hm).unwrapped]; exact hlast v hm
      · cases last with
        | none => exact .nil
        | some v => rw [Outcome.ofValue_some, Outcome.ofObject_clean (hlast v rfl)]; exact .nil
  | stmt :: stmts, h, last, _, s, hs => by
      rw [Run.sequence]
      apply Run.Outcome.bind ((follows_statement henter hscope stmt h.1 s hs).mono
        (fun _ _ hq => hq) fun _ _ he => ⟨he.1, fun e hstop => .exit (he.2 e hstop)⟩)
      rintro value s₁ ⟨hs₁, hu, hv, hd⟩
      split
      · next id inner =>
        refine .pure ⟨hs₁, hu, fun hr => ?_, .exit hd⟩
        simp only [anyReturns, Bool.or_eq_false_iff] at hr
        exact hv hr.1
      · next hne =>
        have hclean : ∀ v ∈ value, v.Clean S := by
          intro v hm
          cases hm
          have hu := hu v rfl
          cases v with
          | returned id inner => exact absurd rfl (hne id inner)
          | _ => exact hu
        have hnormal : Outcome.ofValue value = .normal value := by
          cases value with
          | none => rfl
          | some v => rw [Outcome.ofValue_some, Outcome.ofObject_clean (hclean v rfl)]; rfl
        rw [hnormal] at hd
        apply (follows_sequence henter hscope stmts h.2 value hclean s₁ hs₁).mono
        · rintro value' s₂ ⟨hs₂, hu', hv', hd'⟩
          refine ⟨hs₂, hu', fun hr => ?_, .cons hd hd'⟩
          simp only [anyReturns, Bool.or_eq_false_iff] at hr
          exact hv' hr.2
        · exact fun _ _ he => ⟨he.1, fun e hstop => .cons hd (he.2 e hstop)⟩

theorem follows_block (henter : FollowsBodies S enter) (hscope : S scope) :
    (stmts : Block) → stmts.Structured → (s : Run.State) → Run.Sane S s →
      Follows S stmts.returns (OfBlock stmts scope s.store) (Run.block enter stmts scope s)
  | ⟨_, stmts⟩, h, s, hs => by
      rw [Run.block]
      apply Run.Outcome.bind ((follows_sequence henter hscope stmts h none (by simp) s hs).mono
        (fun _ _ hq => hq) fun _ _ he => ⟨he.1, fun e hstop => ⟨_, he.2 e hstop, rfl⟩⟩)
      rintro value s₁ ⟨hs₁, hu, hv, hd⟩
      cases value with
      | none => exact follows_clean hs₁ trivial ⟨_, hd, rfl⟩
      | some v =>
          refine .pure ⟨hs₁, hu v rfl, fun hr => hv hr v rfl, _, hd, ?_⟩
          rw [Outcome.ofValue_some]
          cases Outcome.ofObject v <;> rfl

end

theorem follows_body : (depth : Nat) → FollowsBodies S (Run.body depth)
  | 0 => fun _ _ _ _ _ hs => .error ⟨hs, fun _ heq => by cases heq⟩
  | depth + 1 => fun stmts _ s h hscope hs =>
      follows_block (follows_body depth) hscope stmts h s hs

end EarlyExit

end ClosureLang
