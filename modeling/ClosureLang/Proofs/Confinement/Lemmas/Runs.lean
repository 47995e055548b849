import ClosureLang.Eval.Node
import ClosureLang.Proofs.Confinement.Confined
import ClosureLang.Proofs.Running.Lemmas.Operators
import ClosureLang.Proofs.Running.Lemmas.Outcomes
import ClosureLang.Proofs.Running.Lemmas.Store

/-!
# Runs that bind nothing returned

The invariant of a program that confines what it returns: nothing returned is bound, and nothing
returned has been bound. It holds at every event of a run, and so also where a run stops halfway.
-/

namespace ClosureLang

variable {store : Store} {value : Object}

/-- What an evaluation may come to: something wrapped only if `wrapped` allows it, and at most one
layer deep. -/
def Object.Yields (wrapped : Bool) (value : Object) : Prop :=
  value.unwrapped.Confined ∧ (value.IsReturned → wrapped = true)

namespace Object

theorem Confined.yields (h : value.Confined) (wrapped : Bool) : value.Yields wrapped := by
  refine ⟨?_, fun hr => absurd hr h.not_returned⟩
  cases value with
  | returned _ _ => exact h.elim
  | _ => exact h

theorem Yields.confined (h : value.Yields false) : value.Confined := by
  cases value with
  | returned id inner => exact absurd (h.2 rfl) Bool.false_ne_true
  | _ => exact h.1

theorem Yields.mono {wrapped wrapped' : Bool} (h : value.Yields wrapped)
    (hle : wrapped = true → wrapped' = true) : value.Yields wrapped' :=
  ⟨h.1, fun hr => hle (h.2 hr)⟩

theorem Yields.confined_of_not {wrapped : Bool} (h : value.Yields wrapped)
    (hr : ¬ value.IsReturned) : value.Confined := by
  cases value with
  | returned _ _ => exact absurd rfl hr
  | _ => exact h.1

/-- What an expression that hands nothing on comes to. -/
theorem Yields.of_not {wrapped : Bool} (h : value.Yields wrapped) (hw : (!wrapped) = true) :
    value.Confined := by
  rw [Bool.not_eq_true'] at hw
  subst hw
  exact h.confined

end Object

namespace Store.Confined

theorem get? {scope : ScopeId} {name : String} (h : store.Confined)
    (hv : store.get? scope name = some value) : value.Confined := by
  obtain ⟨i, _, hlocal⟩ := exists_getLocal? (P := fun _ => True) (fun _ _ _ _ => trivial) trivial hv
  exact h i name value hlocal

theorem set (h : store.Confined) (hv : value.Confined) (scope : ScopeId) (name : String) :
    (store.set scope name value).Confined := by
  intro i other value' hl
  rw [getLocal?_set] at hl
  split at hl
  · cases hl
    exact hv
  · exact h i other value' hl

theorem newScope (h : store.Confined) (outer : Option ScopeId) :
    (store.newScope outer).2.Confined := by
  intro i name value hl
  rw [getLocal?_newScope] at hl
  exact h i name value hl

theorem newId (h : store.Confined) : store.newId.2.Confined :=
  h

end Store.Confined

namespace Run

variable {α β : Type} {enter : Block → ScopeId → Run Object} {scope : ScopeId} {s : State}
  {past : List Event}

/-- Nothing returned is bound, and none has been since the journal was `past`. -/
structure Confined (past : List Event) (s : State) : Prop where
  store : s.store.Confined
  bound : ∀ value, Event.use .bound value ∈ s.journal →
    Event.use .bound value ∈ past ∨ ¬ value.IsReturned

theorem Confined.start (h : s.store.Confined) : Confined s.journal s :=
  ⟨h, fun _ => .inl⟩

theorem Confined.note (h : Confined past s) {event : Event}
    (he : ∀ value, event = .use .bound value → ¬ value.IsReturned) :
    Confined past { s with journal := event :: s.journal } := by
  refine ⟨h.store, fun value hmem => ?_⟩
  cases List.mem_cons.mp hmem with
  | inl heq => exact .inr (he value heq.symm)
  | inr hmem => exact h.bound value hmem

theorem Confined.of_store {store : Store} (h : Confined past s) (hs : store.Confined) :
    Confined past { s with store } :=
  ⟨hs, h.bound⟩

/-- A run keeps the invariant however it ends, and `Q` holds of its result. -/
def Confines (Q : α → Prop) (run : Run α) : Prop :=
  ∀ past s, Confined past s →
    Outcome (fun a s' => Confined past s' ∧ Q a) (fun _ s' => Confined past s') (run s)

variable {Q : α → Prop} {R : β → Prop}

namespace Confines

theorem pure {a : α} (h : Q a) : Confines Q (Pure.pure a : Run α) :=
  fun _ _ hs => .pure ⟨hs, h⟩

theorem bind {p : Run α} {f : α → Run β} (hp : Confines Q p) (hf : ∀ a, Q a → Confines R (f a)) :
    Confines R (p >>= f) :=
  fun past s hs => (hp past s hs).bind fun a s' h => hf a h.2 past s' h.1

theorem imp {Q' : α → Prop} {run : Run α} (h : Confines Q run) (hQ : ∀ a, Q a → Q' a) :
    Confines Q' run :=
  fun past s hs => (h past s hs).mono (fun a _ h => ⟨h.1, hQ a h.2⟩) fun _ _ h => h

theorem yields {run : Run Object} (h : Confines Object.Confined run) {wrapped : Bool} :
    Confines (Object.Yields wrapped) run :=
  h.imp fun _ hv => hv.yields wrapped

theorem mono {wrapped wrapped' : Bool} {run : Run Object} (h : Confines (Object.Yields wrapped) run)
    (hle : wrapped = true → wrapped' = true) : Confines (Object.Yields wrapped') run :=
  h.imp fun _ hv => hv.mono hle

theorem raise (error : EvalError) : Confines Q (Run.raise error : Run α) :=
  fun _ _ hs => .error hs

theorem note {event : Event} (he : ∀ how value, event ≠ .use how value) :
    Confines (fun _ => True) (Run.note event) :=
  fun _ _ hs => .ok ⟨hs.note fun value h => absurd h (he .bound value), trivial⟩

/-- What is used but not bound may be anything. -/
theorem use {Q : Object → Prop} {how : Use} {value : Object} (hhow : how ≠ .bound) (hv : Q value) :
    Confines Q (Run.use how value) := by
  intro _ s hs
  refine .ok ⟨hs.note fun value' h => ?_, hv⟩
  cases h
  exact absurd rfl hhow

theorem newId : Confines (fun _ => True) Run.newId :=
  fun _ _ hs => .ok ⟨hs.of_store hs.store.newId, trivial⟩

theorem newInteger (value : Int64) : Confines Object.Confined (Run.newInteger value) :=
  newId.bind fun _ _ => pure trivial

theorem newFunction (closure : Closure) (h : closure.body.confined = true) :
    Confines Object.Confined (Run.newFunction closure) :=
  newId.bind fun _ _ => pure h

theorem newReturned {inner : Object} (h : inner.Confined) :
    Confines (Object.Yields true) (Run.newReturned inner) :=
  newId.bind fun _ _ => pure ⟨h, fun _ => rfl⟩

theorem newScope (outer : Option ScopeId) : Confines (fun _ => True) (Run.newScope outer) :=
  fun _ _ hs => .ok ⟨hs.of_store (hs.store.newScope outer), trivial⟩

theorem binding (name : String) {value : Object} (hv : value.Confined) :
    Confines (fun _ => True) (Run.bind scope name value) := by
  intro past s hs
  have hnote : Confined past { s with journal := .use .bound value :: s.journal } := by
    refine hs.note fun value' h => ?_
    cases h
    exact hv.not_returned
  exact .ok ⟨hnote.of_store (hs.store.set hv scope name), trivial⟩

theorem lookup (name : String) : Confines Object.Confined (Run.lookup scope name) := by
  intro _ s hs
  rw [lookup_eq]
  cases hv : s.store.get? scope name with
  | some value => exact .ok ⟨hs, hs.store.get? hv⟩
  | none => exact .error hs

theorem operation {run : Run Object} (h : IsOperation run) : Confines Object.Confined run := by
  cases h with
  | boolean value => exact pure (Object.confined_ofBool value)
  | integer value => exact newInteger value
  | raise error => exact raise error

theorem bindParameters : (parameters : List Identifier) → (arguments : List Object) →
    (∀ argument ∈ arguments, argument.Confined) →
    Confines (fun _ => True) (Run.bindParameters scope parameters arguments)
  | [], [], _ | [], _ :: _, _ | _ :: _, [], _ => pure trivial
  | _ :: parameters, _ :: arguments, h =>
      (binding _ (h _ List.mem_cons_self)).bind fun _ _ =>
        bindParameters parameters arguments fun a ha => h a (List.mem_cons_of_mem _ ha)

end Confines

/-- Whoever enters the body of a function may come to one layer of wrapping. -/
def ConfinesBodies (enter : Block → ScopeId → Run Object) : Prop :=
  ∀ body : Block, body.confined = true → ∀ scope, Confines (Object.Yields true) (enter body scope)

/-- A call unwraps the one layer that there may be. -/
theorem confines_call (henter : ConfinesBodies enter) {callee : Object} {arguments : List Object}
    (hc : callee.unwrapped.Confined) (ha : ∀ argument ∈ arguments, argument.Confined) :
    Confines Object.Confined (call enter callee arguments) := by
  cases callee with
  | function id closure =>
      unfold call
      dsimp only
      split
      · exact .raise _
      · refine (Confines.note (by simp)).bind fun _ _ => ?_
        refine (Confines.newScope _).bind fun scope _ => ?_
        refine (Confines.bindParameters _ _ ha).bind fun _ _ => ?_
        exact (henter closure.body hc scope).bind fun result hresult => .pure hresult.1
  | _ => exact .raise _

mutual

theorem confines_expression (henter : ConfinesBodies enter) :
    (expr : Expr) → expr.confined = true →
    Confines (Object.Yields expr.handsOn) (expression enter expr scope)
  | .identifier name, _ => (Confines.lookup name.name).yields
  | .integer _ value, _ => (Confines.newInteger value).yields
  | .boolean _ value, _ => .pure ((Object.confined_ofBool value).yields _)
  | .prefixed _ op right, h =>
      (confines_expression henter right h).bind fun _ hright =>
        (Confines.use (by decide) hright).bind fun _ _ =>
          (Confines.operation (isOperation_applyPrefix op _)).yields
  | .infixed _ left op right, h => by
      simp only [Expr.confined, Bool.and_eq_true] at h
      refine (confines_expression henter left h.1).bind fun _ hleft => ?_
      refine (Confines.use (by decide) hleft).bind fun _ _ => ?_
      refine (confines_expression henter right h.2).bind fun _ hright => ?_
      refine (Confines.use (by decide) hright).bind fun _ _ => ?_
      exact (Confines.operation (isOperation_applyInfix op _ _)).yields
  | .conditional _ condition consequence alternative, h => by
      simp only [Expr.confined, Bool.and_eq_true] at h
      refine (confines_expression henter condition h.1.1).bind fun _ hcondition => ?_
      refine (Confines.use (by decide) hcondition).bind fun condition _ => ?_
      cases condition.isTruthy with
      | true =>
          exact (confines_block henter consequence h.1.2).mono fun hw => by simp [Expr.handsOn, hw]
      | false =>
          exact (confines_otherwise henter alternative h.2).mono
            fun hw => by simp [Expr.handsOn, hw]
  | .function _ parameters body, h => (Confines.newFunction ⟨parameters, body, scope⟩ h).yields
  | .call _ callee arguments, h => by
      simp only [Expr.confined, Bool.and_eq_true] at h
      refine (confines_expression henter callee h.1).bind fun callee hcallee => ?_
      refine (Confines.use (by decide) hcallee).bind fun callee hcallee => ?_
      refine (confines_expressions henter arguments h.2).bind fun arguments harguments => ?_
      exact (confines_call henter hcallee.1 harguments).yields

theorem confines_expressions (henter : ConfinesBodies enter) :
    (exprs : List Expr) → argumentsConfined exprs = true →
    Confines (fun values => ∀ value ∈ values, value.Confined) (expressions enter exprs scope)
  | [], _ => .pure (by simp)
  | expr :: exprs, h => by
      simp only [argumentsConfined, Bool.and_eq_true] at h
      refine (confines_expression henter expr h.1.2).bind fun value hvalue => ?_
      refine (Confines.use (by decide) (hvalue.of_not h.1.1)).bind fun value hvalue => ?_
      refine (confines_expressions henter exprs h.2).bind fun values hvalues => .pure ?_
      exact List.forall_mem_cons.mpr ⟨hvalue, hvalues⟩

theorem confines_otherwise (henter : ConfinesBodies enter) :
    (alternative : Option Block) → alternativeConfined alternative = true →
    Confines (Object.Yields (alternativeHandsOn alternative)) (otherwise enter alternative scope)
  | none, _ => .pure (Object.confined_sharedNull.yields _)
  | some alternative, h => confines_block henter alternative h

theorem confines_statement (henter : ConfinesBodies enter) :
    (stmt : Stmt) → stmt.confined = true →
    Confines (fun value? => ∀ value ∈ value?, value.Yields stmt.handsOn)
      (statement enter stmt scope)
  | .letStmt _ name value, h => by
      simp only [Stmt.confined, Bool.and_eq_true] at h
      refine (Confines.note (by simp)).bind fun _ _ => ?_
      refine (confines_expression henter value h.2).bind fun v hv => ?_
      exact (Confines.binding _ (hv.of_not h.1)).bind fun _ _ => .pure (by simp)
  | .returnStmt _ value, h => by
      simp only [Stmt.confined, Bool.and_eq_true] at h
      refine (Confines.note (by simp)).bind fun _ _ => ?_
      refine (confines_expression henter value h.2).bind fun v hv => ?_
      refine (Confines.use (by decide) (hv.of_not h.1)).bind fun v hv => ?_
      refine (Confines.newReturned hv).bind fun returned hreturned => .pure ?_
      simpa [Stmt.handsOn] using hreturned
  | .exprStmt _ expr, h => by
      refine (Confines.note (by simp)).bind fun _ _ => ?_
      refine (confines_expression henter expr h).bind fun value hvalue => .pure ?_
      simpa [Stmt.handsOn] using hvalue

theorem confines_sequence (henter : ConfinesBodies enter) :
    (stmts : List Stmt) → allConfined stmts = true →
    (last : Option Object) → (∀ value ∈ last, value.Confined) →
    Confines (fun value? => ∀ value ∈ value?, value.Yields (anyHandsOn stmts))
      (sequence enter stmts last scope)
  | [], _, last, hlast => .pure fun value hvalue => (hlast value hvalue).yields _
  | stmt :: stmts, h, last, _ => by
      simp only [allConfined, Bool.and_eq_true] at h
      refine (confines_statement henter stmt h.1).bind fun value? hvalue => ?_
      split
      · refine .pure fun value hmem => (hvalue value hmem).mono ?_
        simp +contextual [anyHandsOn]
      · next hne =>
        -- What has not returned is the value so far, and is not wrapped.
        have hlast : ∀ value ∈ value?, value.Confined := by
          intro value hmem
          refine (hvalue value hmem).confined_of_not fun hr => ?_
          cases value with
          | returned id inner => exact hne id inner (Option.mem_def.mp hmem)
          | _ => cases hr
        exact (confines_sequence henter stmts h.2 value? hlast).imp fun _ hq value hmem =>
          (hq value hmem).mono (by simp +contextual [anyHandsOn])

theorem confines_block (henter : ConfinesBodies enter) :
    (stmts : Block) → stmts.confined = true →
    Confines (Object.Yields stmts.handsOn) (block enter stmts scope)
  | ⟨_, stmts⟩, h => by
      refine (confines_sequence henter stmts h none (by simp)).bind fun value? hvalue => ?_
      cases value? with
      | some value => exact .pure (hvalue value rfl)
      | none => exact .pure (Object.confined_sharedNull.yields _)

end

/-- The answer of a program is not wrapped. -/
theorem confines_program (henter : ConfinesBodies enter) {whole : Program}
    (h : whole.confined = true) :
    Confines (fun value? => ∀ value ∈ value?, value.Confined) (program enter whole scope) := by
  refine (confines_sequence henter whole.statements h none (by simp)).bind fun value? hvalue => ?_
  refine .pure fun value hmem => ?_
  obtain ⟨value', hmem', rfl⟩ := Option.map_eq_some_iff.mp (Option.mem_def.mp hmem)
  exact (hvalue value' hmem').1

/-- The bound on the depth of calls does not matter. -/
theorem confines_body : (depth : Nat) → ConfinesBodies (body depth)
  | 0, _, _, _ => fun _ _ hs => .error hs
  | depth + 1, stmts, h, _ => (confines_block (confines_body depth) stmts h).mono fun _ => rfl

theorem Confines.settle {run : Run (Option Object)}
    (h : Confines (fun value? => ∀ value ∈ value?, value.Confined) run) :
    Confines (fun value? => ∀ value ∈ value?, value.Confined) (Run.settle run) := by
  intro past s hs
  have hrun := h past s hs
  rw [settle_eq]
  generalize run s = r at hrun ⊢
  cases hrun with
  | ok hq => exact .ok hq
  | @error stop s' hs' =>
      cases stop with
      | raised error => exact .ok ⟨hs'.of_store hs'.store.newId, by simp [Object.Confined]⟩
      | tooDeep => exact .error hs'

end Run

theorem Node.confines_program {whole : Program} (h : whole.confined = true) (depth : Nat)
    (scope : ScopeId) :
    Run.Confines (fun value? => ∀ value ∈ value?, value.Confined)
      ((Node.program whole).run depth scope) :=
  (Run.confines_program (Run.confines_body depth) h).settle

end ClosureLang
