import ClosureLang.Proofs.Mentioning.Lemmas.Without
import ClosureLang.Proofs.Running.Lemmas.Invariant

/-!
# Running in a store without a name

A tree that does not mention a name is evaluated alike with and without its bindings, as long as no
function that it comes to mentions the name either. What it makes is again of this kind.
-/

namespace ClosureLang

/-- The functions in an object do not mention the name and have captured scopes of `S`. -/
def Object.Omits (name : String) (S : ScopeId → Prop) : Object → Prop
  | .function _ closure => closure.mentions name = false ∧ S closure.scope
  | .returned _ inner => inner.Omits name S
  | _ => True

theorem Object.Omits.unwrapped {name : String} {S : ScopeId → Prop} {value : Object}
    (h : value.Omits name S) : value.unwrapped.Omits name S := by
  cases value with
  | returned _ _ => exact h
  | _ => exact h

namespace Run

def State.without (s : State) (name : String) : State :=
  { s with store := s.store.without name }

variable {α β : Type} {name : String} {S : ScopeId → Prop} {Q : α → Prop} {R : β → Prop}
  {enter : Block → ScopeId → Run Object} {scope : ScopeId}

/-- Without the name a run ends in the same way. What the scopes of `S` bind under other names still
omits the name, and `Q` holds of a result. -/
inductive EndsWithout (name : String) (S : ScopeId → Prop) (Q : α → Prop) :
    EStateM.Result Stop State α → EStateM.Result Stop State α → Prop
  | ok {a s} : (s.store.without name).Within S (Object.Omits name S) → Q a →
      EndsWithout name S Q (.ok a s) (.ok a (s.without name))
  | error {stop s} : (s.store.without name).Within S (Object.Omits name S) →
      EndsWithout name S Q (.error stop s) (.error stop (s.without name))

theorem EndsWithout.of_eq {a : α} {s t : State} (ht : s.without name = t)
    (hs : t.store.Within S (Object.Omits name S)) (hq : Q a) :
    EndsWithout name S Q (.ok a s) (.ok a t) := by
  subst ht
  exact .ok hs hq

def Overlooks (name : String) (S : ScopeId → Prop) (Q : α → Prop) (run : Run α) : Prop :=
  ∀ s : State, (s.store.without name).Within S (Object.Omits name S) →
    EndsWithout name S Q (run s) (run (s.without name))

/-- The run overlooks the name on its way to an object that omits it. -/
abbrev OverlooksObject (name : String) (S : ScopeId → Prop) (run : Run Object) : Prop :=
  Overlooks name S (Object.Omits name S) run

namespace Overlooks

theorem pure {a : α} (h : Q a) : Overlooks name S Q (Pure.pure a : Run α) :=
  fun _ hs => .ok hs h

theorem bind {p : Run α} {f : α → Run β} (hp : Overlooks name S Q p)
    (hf : ∀ a, Q a → Overlooks name S R (f a)) : Overlooks name S R (p >>= f) := by
  intro s hs
  have h := hp s hs
  simp only [Bind.bind, EStateM.bind]
  generalize p s = result at h ⊢
  generalize p (s.without name) = result' at h ⊢
  cases h with
  | ok hs hq => exact hf _ hq _ hs
  | error hs => exact .error hs

theorem map {p : Run α} (f : α → β) (hp : Overlooks name S Q p) :
    Overlooks name S (fun _ => True) (f <$> p) := by
  rw [map_eq_pure_bind]
  exact hp.bind fun _ _ => pure trivial

theorem forget {p : Run α} (hp : Overlooks name S Q p) : Overlooks name S (fun _ => True) p := by
  simpa using hp.map id

theorem raise (error : EvalError) : Overlooks name S Q (Run.raise error : Run α) :=
  fun _ hs => .error hs

theorem note (event : Event) : Overlooks name S (fun _ => True) (Run.note event) :=
  fun _ hs => .ok hs trivial

theorem use (how : Use) {value : Object} (h : value.Omits name S) :
    OverlooksObject name S (Run.use how value) :=
  fun _ hs => .ok hs h

theorem newId : Overlooks name S (fun _ => True) Run.newId :=
  fun _ hs => .ok hs.newId trivial

theorem newScope {outer : ScopeId} (h : S outer) :
    Overlooks name S S (Run.newScope (some outer)) := by
  intro s hs
  have hin : S (s.store.without name).scopes.size := hs.fresh _ (Nat.le_refl _)
  have hend : EndsWithout name S S
      (.ok (s.store.without name).scopes.size
        { s with store := (s.store.newScope (some outer)).2 })
      (Run.newScope (some outer) (s.without name)) :=
    .of_eq (congrArg (State.mk · s.journal) (Store.without_newScope ..)) (hs.newScope h) hin
  rw [Store.size_without] at hend
  exact hend

theorem binding {other : String} (hother : other ≠ name) {value : Object}
    (h : value.Omits name S) :
    Overlooks name S (fun _ => True) (Run.bind scope other value) :=
  fun s hs => .of_eq (congrArg (State.mk · (.use .bound value :: s.journal))
    (Store.without_set hother s.store scope value)) (hs.set h) trivial

theorem lookup (hscope : S scope) {other : String} (hother : other ≠ name) :
    OverlooksObject name S (Run.lookup scope other) := by
  intro s hs
  rw [lookup_eq, lookup_eq, State.without, Store.get?_without hother]
  cases hvalue : s.store.get? scope other with
  | some value => exact .ok hs (hs.get? hscope ((Store.get?_without hother scope).trans hvalue))
  | none => exact .error hs

theorem newInteger (value : Int64) : OverlooksObject name S (Run.newInteger value) :=
  newId.bind fun _ _ => pure trivial

theorem newFunction {closure : Closure} (hbody : closure.mentions name = false)
    (hscope : S closure.scope) : OverlooksObject name S (Run.newFunction closure) :=
  newId.bind fun _ _ => pure ⟨hbody, hscope⟩

theorem newReturned {inner : Object} (h : inner.Omits name S) :
    OverlooksObject name S (Run.newReturned inner) :=
  newId.bind fun _ _ => pure h

theorem operation {run : Run Object} (h : IsOperation run) : OverlooksObject name S run := by
  cases h with
  | boolean value => exact pure trivial
  | integer value => exact newInteger value
  | raise error => exact raise error

theorem bindParameters : (parameters : List Identifier) → (arguments : List Object) →
    parameters.any (·.name == name) = false →
    (∀ argument ∈ arguments, argument.Omits name S) →
    Overlooks name S (fun _ => True) (Run.bindParameters scope parameters arguments)
  | [], [], _, _ | [], _ :: _, _, _ | _ :: _, [], _, _ => pure trivial
  | parameter :: parameters, _ :: arguments, hnames, h => by
      simp only [List.any_cons, Bool.or_eq_false_iff, beq_eq_false_iff_ne] at hnames
      refine (binding hnames.1 (h _ List.mem_cons_self)).bind fun _ _ => ?_
      exact bindParameters parameters arguments hnames.2 fun a ha => h a (List.mem_cons_of_mem _ ha)

end Overlooks

/-- Bodies that do not mention the name are entered alike without it. -/
def OverlooksBodies (name : String) (S : ScopeId → Prop) (enter : Block → ScopeId → Run Object) :
    Prop :=
  ∀ body : Block, body.mentions name = false → ∀ scope, S scope →
    OverlooksObject name S (enter body scope)

theorem overlooks_call (henter : OverlooksBodies name S enter) {callee : Object}
    {arguments : List Object} (hcallee : callee.Omits name S)
    (harguments : ∀ argument ∈ arguments, argument.Omits name S) :
    OverlooksObject name S (call enter callee arguments) := by
  cases callee with
  | function id closure =>
      obtain ⟨hparameters, hbody⟩ := Bool.or_eq_false_iff.mp hcallee.1
      simp only [call]
      split
      · exact .raise _
      · refine (Overlooks.note _).bind fun _ _ => ?_
        refine (Overlooks.newScope hcallee.2).bind fun scope hscope => ?_
        refine (Overlooks.bindParameters _ _ hparameters harguments).bind fun _ _ => ?_
        exact (henter _ hbody scope hscope).bind fun result hresult => .pure hresult.unwrapped
  | _ => exact .raise _

/-- Evaluation in a scope of `S`. -/
structure Overlooking (name : String) (S : ScopeId → Prop)
    (enter : Block → ScopeId → Run Object) (scope : ScopeId) : Prop where
  enters : OverlooksBodies name S enter
  scope : S scope

mutual

theorem overlooks_expression (h : Overlooking name S enter scope) :
    (expr : Expr) → expr.mentions name = false →
    OverlooksObject name S (expression enter expr scope)
  | .identifier read, hn => .lookup h.scope (beq_eq_false_iff_ne.mp hn)
  | .integer _ value, _ => .newInteger value
  | .boolean _ value, _ => .pure trivial
  | .prefixed _ op right, hn =>
      (overlooks_expression h right hn).bind fun _ hright =>
        (Overlooks.use _ hright).bind fun _ _ => .operation (isOperation_applyPrefix op _)
  | .infixed _ left op right, hn => by
      simp only [Expr.mentions, Bool.or_eq_false_iff] at hn
      refine (overlooks_expression h left hn.1).bind fun _ hleft => ?_
      refine (Overlooks.use _ hleft).bind fun _ _ => ?_
      refine (overlooks_expression h right hn.2).bind fun _ hright => ?_
      exact (Overlooks.use _ hright).bind fun _ _ => .operation (isOperation_applyInfix op _ _)
  | .conditional _ condition consequence alternative, hn => by
      simp only [Expr.mentions, Bool.or_eq_false_iff] at hn
      refine (overlooks_expression h condition hn.1.1).bind fun _ hcondition => ?_
      refine (Overlooks.use _ hcondition).bind fun condition _ => ?_
      cases condition.isTruthy with
      | true => exact overlooks_block h consequence hn.1.2
      | false => exact overlooks_otherwise h alternative hn.2
  | .function _ parameters body, hn => .newFunction hn h.scope
  | .call _ callee arguments, hn => by
      simp only [Expr.mentions, Bool.or_eq_false_iff] at hn
      refine (overlooks_expression h callee hn.1).bind fun _ hcallee => ?_
      refine (Overlooks.use _ hcallee).bind fun _ hcallee => ?_
      refine (overlooks_expressions h arguments hn.2).bind fun _ harguments => ?_
      exact overlooks_call h.enters hcallee harguments

theorem overlooks_expressions (h : Overlooking name S enter scope) :
    (exprs : List Expr) → anyExprMentions name exprs = false →
    Overlooks name S (fun values => ∀ value ∈ values, value.Omits name S)
      (expressions enter exprs scope)
  | [], _ => .pure (by simp)
  | expr :: exprs, hn => by
      simp only [anyExprMentions, Bool.or_eq_false_iff] at hn
      refine (overlooks_expression h expr hn.1).bind fun _ hvalue => ?_
      refine (Overlooks.use _ hvalue).bind fun _ hvalue => ?_
      refine (overlooks_expressions h exprs hn.2).bind fun _ hvalues => .pure ?_
      exact List.forall_mem_cons.mpr ⟨hvalue, hvalues⟩

theorem overlooks_otherwise (h : Overlooking name S enter scope) :
    (alternative : Option Block) → alternativeMentions name alternative = false →
    OverlooksObject name S (otherwise enter alternative scope)
  | none, _ => .pure trivial
  | some alternative, hn => overlooks_block h alternative hn

theorem overlooks_statement (h : Overlooking name S enter scope) :
    (stmt : Stmt) → stmt.mentions name = false →
    Overlooks name S (fun value => ∀ object ∈ value, object.Omits name S)
      (statement enter stmt scope)
  | .letStmt _ bound value, hn => by
      simp only [Stmt.mentions, Bool.or_eq_false_iff, beq_eq_false_iff_ne] at hn
      refine (Overlooks.note _).bind fun _ _ => ?_
      refine (overlooks_expression h value hn.2).bind fun _ hvalue => ?_
      exact (Overlooks.binding hn.1 hvalue).bind fun _ _ => .pure (by simp)
  | .returnStmt _ value, hn => by
      refine (Overlooks.note _).bind fun _ _ => ?_
      refine (overlooks_expression h value hn).bind fun _ hvalue => ?_
      refine (Overlooks.use _ hvalue).bind fun _ hvalue => ?_
      exact (Overlooks.newReturned hvalue).bind fun _ hreturned => .pure (by simpa using hreturned)
  | .exprStmt _ expr, hn => by
      refine (Overlooks.note _).bind fun _ _ => ?_
      exact (overlooks_expression h expr hn).bind fun _ hvalue => .pure (by simpa using hvalue)

theorem overlooks_sequence (h : Overlooking name S enter scope) :
    (stmts : List Stmt) → anyMentions name stmts = false →
    (last : Option Object) → (∀ object ∈ last, object.Omits name S) →
    Overlooks name S (fun value => ∀ object ∈ value, object.Omits name S)
      (sequence enter stmts last scope)
  | [], _, _, hlast => .pure hlast
  | stmt :: stmts, hn, _, _ => by
      simp only [anyMentions, Bool.or_eq_false_iff] at hn
      refine (overlooks_statement h stmt hn.1).bind fun value hvalue => ?_
      split
      · exact .pure hvalue
      · exact overlooks_sequence h stmts hn.2 _ hvalue

theorem overlooks_block (h : Overlooking name S enter scope) :
    (stmts : Block) → stmts.mentions name = false →
    OverlooksObject name S (block enter stmts scope)
  | ⟨_, stmts⟩, hn => (overlooks_sequence h stmts hn none (by simp)).bind fun value hvalue => by
      cases value with
      | some value => exact .pure (hvalue value rfl)
      | none => exact .pure trivial

end

theorem overlooks_body : (depth : Nat) → OverlooksBodies name S (body depth)
  | 0, _, _, _, _ => fun _ hs => .error hs
  | depth + 1, stmts, hn, _, hscope => overlooks_block ⟨overlooks_body depth, hscope⟩ stmts hn

theorem overlooks_program (h : Overlooking name S enter scope) {whole : Program}
    (hn : anyMentions name whole.statements = false) :
    Overlooks name S (fun _ => True) (program enter whole scope) :=
  (overlooks_sequence h whole.statements hn none (by simp)).map (Option.map Object.unwrapped)

/-- The answer to an error is the next object in both stores. -/
theorem Overlooks.settle {run : Run (Option Object)}
    (h : Overlooks name S (fun _ => True) run) :
    Overlooks name S (fun _ => True) (Run.settle run) := by
  intro s hs
  have hrun := h s hs
  rw [settle_eq, settle_eq]
  generalize run s = result at hrun ⊢
  generalize run (s.without name) = result' at hrun ⊢
  cases hrun with
  | ok hs hq => exact .ok hs hq
  | @error stop s' hs =>
      cases stop with
      | raised error => exact .ok hs.newId trivial
      | tooDeep => exact .error hs

end Run

/-- Any node that does not mention the name is evaluated alike without it. -/
theorem Node.overlooks_run {name : String} {S : ScopeId → Prop} {scope : ScopeId} (hscope : S scope)
    (depth : Nat) {node : Node} (hn : node.mentions name = false) :
    Run.Overlooks name S (fun _ => True) (node.run depth scope) := by
  have h : Run.Overlooking name S (Run.body depth) scope := ⟨Run.overlooks_body depth, hscope⟩
  apply Run.Overlooks.settle
  cases node with
  | program whole => exact Run.overlooks_program h hn
  | statement stmt => exact (Run.overlooks_statement h stmt hn).forget
  | block stmts => exact (Run.overlooks_block h stmts hn).map some
  | expression expr => exact (Run.overlooks_expression h expr hn).map some

end ClosureLang
