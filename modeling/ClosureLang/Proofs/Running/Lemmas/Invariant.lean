import ClosureLang.Proofs.Running.Lemmas.Operators
import ClosureLang.Proofs.Running.Lemmas.Outcomes
import ClosureLang.Proofs.Running.Lemmas.Store

/-!
# Properties of every object in a run

A run makes integers, functions in its scope and wrappings of what it has, besides null and the
truth values. A property that all of these have is one of everything that a run binds or uses. It
holds at every event of a run, and so also where a run stops halfway.
-/

namespace ClosureLang

/-- Everything has the property that can be made from what has it, in the scopes of `S`. -/
structure Object.Hereditary (S : ScopeId → Prop) (P : Object → Prop) : Prop where
  integer : ∀ id value, P (.integer id value)
  ofBool : ∀ value, P (.ofBool value)
  sharedNull : P .sharedNull
  function : ∀ id closure, P (.function id closure) ↔ S closure.scope
  returned : ∀ id inner, P (.returned id inner) ↔ P inner

theorem Object.Hereditary.unwrapped {S : ScopeId → Prop} {P : Object → Prop} {value : Object}
    (hP : Hereditary S P) (h : P value) : P value.unwrapped := by
  cases value with
  | returned id inner => exact (hP.returned id inner).mp h
  | _ => exact h

/-- What the scopes of `S` bind has the property, and none of them leads out of `S`. Scopes that are
still to come are in `S`. -/
structure Store.Within (S : ScopeId → Prop) (P : Object → Prop) (store : Store) : Prop where
  fresh : ∀ i, store.scopes.size ≤ i → S i
  outer : ∀ i outer, S i → store.outer? i = some outer → S outer
  bound : ∀ i name value, S i → store.getLocal? i name = some value → P value

variable {S : ScopeId → Prop} {P : Object → Prop} {scope : ScopeId}

namespace Store.Within

variable {store : Store} {name : String} {value : Object}

theorem get? (h : store.Within S P) (hscope : S scope) (hv : store.get? scope name = some value) :
    P value := by
  obtain ⟨i, hi, hlocal⟩ := exists_getLocal? h.outer hscope hv
  exact h.bound i name value hi hlocal

theorem set (h : store.Within S P) (hv : P value) : (store.set scope name value).Within S P where
  fresh i hi := h.fresh i (by simpa using hi)
  outer i outer hi ho := h.outer i outer hi (by simpa using ho)
  bound i other value' hi hl := by
    rw [getLocal?_set] at hl
    split at hl
    · cases hl
      exact hv
    · exact h.bound i other value' hi hl

theorem newScope {outer : ScopeId} (h : store.Within S P) (ho : S outer) :
    (store.newScope (some outer)).2.Within S P where
  fresh i hi := by
    rw [size_newScope] at hi
    exact h.fresh i (Nat.le_of_succ_le hi)
  outer i outer' hi ho' := by
    rw [outer?_newScope] at ho'
    split at ho'
    · cases ho'
      exact ho
    · exact h.outer i outer' hi ho'
  bound i name value hi hl := by
    rw [getLocal?_newScope] at hl
    exact h.bound i name value hi hl

theorem newId (h : store.Within S P) : store.newId.2.Within S P :=
  ⟨h.fresh, h.outer, h.bound⟩

end Store.Within

namespace Run

variable {α β : Type} {Q : α → Prop} {R : β → Prop} {enter : Block → ScopeId → Run Object}

/-- What can be come to in the store has the property, and so has all that has been used. -/
structure Within (S : ScopeId → Prop) (P : Object → Prop) (s : State) : Prop where
  store : s.store.Within S P
  journal : ∀ how value, Event.use how value ∈ s.journal → P value

namespace Within

variable {s : State}

theorem note (h : Within S P s) {event : Event}
    (he : ∀ how value, event = .use how value → P value) :
    Within S P { s with journal := event :: s.journal } where
  store := h.store
  journal how value hmem := by
    rcases List.mem_cons.mp hmem with heq | hmem
    · exact he how value heq.symm
    · exact h.journal how value hmem

theorem of_store {store : Store} (h : Within S P s) (hs : store.Within S P) :
    Within S P { s with store } :=
  ⟨hs, h.journal⟩

end Within

/-- A run keeps the property however it ends, and `Q` holds of its result. -/
def Preserves (S : ScopeId → Prop) (P : Object → Prop) (Q : α → Prop) (run : Run α) : Prop :=
  ∀ s, Within S P s → Outcome (fun a s' => Within S P s' ∧ Q a) (fun _ s' => Within S P s') (run s)

namespace Preserves

theorem pure {a : α} (h : Q a) : Preserves S P Q (Pure.pure a : Run α) :=
  fun _ hs => .pure ⟨hs, h⟩

theorem bind {p : Run α} {f : α → Run β} (hp : Preserves S P Q p)
    (hf : ∀ a, Q a → Preserves S P R (f a)) : Preserves S P R (p >>= f) :=
  fun s hs => (hp s hs).bind fun a s' h => hf a h.2 s' h.1

theorem map {p : Run α} {f : α → β} (hp : Preserves S P Q p) (hf : ∀ a, Q a → R (f a)) :
    Preserves S P R (f <$> p) :=
  fun s hs => (hp s hs).map fun a _ h => ⟨h.1, hf a h.2⟩

theorem raise (error : EvalError) : Preserves S P Q (Run.raise error : Run α) :=
  fun _ hs => .error hs

theorem note {event : Event} (he : ∀ how value, event ≠ .use how value) :
    Preserves S P (fun _ => True) (Run.note event) :=
  fun _ hs => .ok ⟨hs.note fun how value h => absurd h (he how value), trivial⟩

theorem use {how : Use} {value : Object} (hv : P value) : Preserves S P P (Run.use how value) := by
  intro s hs
  refine .ok ⟨hs.note fun how' value' h => ?_, hv⟩
  cases h
  exact hv

theorem newId : Preserves S P (fun _ => True) Run.newId :=
  fun _ hs => .ok ⟨hs.of_store hs.store.newId, trivial⟩

theorem newScope {outer : ScopeId} (h : S outer) : Preserves S P S (Run.newScope (some outer)) :=
  fun _ hs => .ok ⟨hs.of_store (hs.store.newScope h), hs.store.fresh _ (Nat.le_refl _)⟩

theorem binding (name : String) {value : Object} (hv : P value) :
    Preserves S P (fun _ => True) (Run.bind scope name value) := by
  intro s hs
  have hnote : Within S P { s with journal := .use .bound value :: s.journal } := by
    refine hs.note fun how value' h => ?_
    cases h
    exact hv
  exact .ok ⟨hnote.of_store (hs.store.set hv), trivial⟩

theorem lookup (hscope : S scope) (name : String) : Preserves S P P (Run.lookup scope name) := by
  intro s hs
  rw [lookup_eq]
  cases hv : s.store.get? scope name with
  | some value => exact .ok ⟨hs, hs.store.get? hscope hv⟩
  | none => exact .error hs

theorem bindParameters : (parameters : List Identifier) → (arguments : List Object) →
    (∀ argument ∈ arguments, P argument) →
    Preserves S P (fun _ => True) (Run.bindParameters scope parameters arguments)
  | [], [], _ | [], _ :: _, _ | _ :: _, [], _ => pure trivial
  | _ :: parameters, _ :: arguments, h =>
      (binding _ (h _ List.mem_cons_self)).bind fun _ _ =>
        bindParameters parameters arguments fun a ha => h a (List.mem_cons_of_mem _ ha)

variable (hP : Object.Hereditary S P)

include hP

theorem newInteger (value : Int64) : Preserves S P P (Run.newInteger value) :=
  newId.bind fun _ _ => pure (hP.integer _ value)

theorem newFunction {closure : Closure} (h : S closure.scope) :
    Preserves S P P (Run.newFunction closure) :=
  newId.bind fun _ _ => pure ((hP.function _ closure).mpr h)

theorem newReturned {inner : Object} (h : P inner) : Preserves S P P (Run.newReturned inner) :=
  newId.bind fun _ _ => pure ((hP.returned _ inner).mpr h)

theorem operation {run : Run Object} (h : IsOperation run) : Preserves S P P run := by
  cases h with
  | boolean value => exact pure (hP.ofBool value)
  | integer value => exact newInteger hP value
  | raise error => exact raise error

end Preserves

/-- Whoever enters the body of a function keeps the property. -/
def Enters (S : ScopeId → Prop) (P : Object → Prop) (enter : Block → ScopeId → Run Object) : Prop :=
  ∀ body scope, S scope → Preserves S P P (enter body scope)

theorem preserves_call (hP : Object.Hereditary S P) (henter : Enters S P enter) {callee : Object}
    {arguments : List Object} (hcallee : P callee)
    (harguments : ∀ argument ∈ arguments, P argument) :
    Preserves S P P (call enter callee arguments) := by
  cases callee with
  | function id closure =>
      simp only [call]
      split
      · exact .raise _
      · have hcaptured : S closure.scope := (hP.function id closure).mp hcallee
        refine (Preserves.note (by simp)).bind fun _ _ => ?_
        refine (Preserves.newScope hcaptured).bind fun scope hscope => ?_
        refine (Preserves.bindParameters _ _ harguments).bind fun _ _ => ?_
        exact (henter _ scope hscope).bind fun result hresult => .pure (hP.unwrapped hresult)
  | _ => exact .raise _

/-- Evaluation in a scope of `S`, of a property that it keeps. -/
structure Lawful (S : ScopeId → Prop) (P : Object → Prop) (enter : Block → ScopeId → Run Object)
    (scope : ScopeId) : Prop where
  hereditary : Object.Hereditary S P
  enters : Enters S P enter
  scope : S scope

mutual

theorem preserves_expression (h : Lawful S P enter scope) : (expr : Expr) →
    Preserves S P P (expression enter expr scope)
  | .identifier name => .lookup h.scope name.name
  | .integer _ value => .newInteger h.hereditary value
  | .boolean _ value => .pure (h.hereditary.ofBool value)
  | .prefixed _ op right =>
      (preserves_expression h right).bind fun _ hr => (Preserves.use hr).bind fun _ _ =>
        .operation h.hereditary (isOperation_applyPrefix op _)
  | .infixed _ left op right =>
      (preserves_expression h left).bind fun _ hl => (Preserves.use hl).bind fun _ _ =>
        (preserves_expression h right).bind fun _ hr => (Preserves.use hr).bind fun _ _ =>
          .operation h.hereditary (isOperation_applyInfix op _ _)
  | .conditional _ condition consequence alternative =>
      (preserves_expression h condition).bind fun _ hc => (Preserves.use hc).bind fun condition _ =>
        by
          cases condition.isTruthy with
          | true => exact preserves_block h consequence
          | false => exact preserves_otherwise h alternative
  | .function _ parameters body => .newFunction h.hereditary h.scope
  | .call _ callee arguments =>
      (preserves_expression h callee).bind fun _ hf => (Preserves.use hf).bind fun _ hf =>
        (preserves_expressions h arguments).bind fun _ hvalues =>
          preserves_call h.hereditary h.enters hf hvalues

theorem preserves_expressions (h : Lawful S P enter scope) : (exprs : List Expr) →
    Preserves S P (fun values => ∀ value ∈ values, P value) (expressions enter exprs scope)
  | [] => .pure (by simp)
  | expr :: exprs =>
      (preserves_expression h expr).bind fun _ hv => (Preserves.use hv).bind fun _ hv =>
        (preserves_expressions h exprs).bind fun _ hvalues =>
          .pure (List.forall_mem_cons.mpr ⟨hv, hvalues⟩)

theorem preserves_otherwise (h : Lawful S P enter scope) : (alternative : Option Block) →
    Preserves S P P (otherwise enter alternative scope)
  | none => .pure h.hereditary.sharedNull
  | some alternative => preserves_block h alternative

theorem preserves_statement (h : Lawful S P enter scope) : (stmt : Stmt) →
    Preserves S P (fun value => ∀ object ∈ value, P object) (statement enter stmt scope)
  | .letStmt _ _ value =>
      (Preserves.note (by simp)).bind fun _ _ => (preserves_expression h value).bind fun _ hv =>
        (Preserves.binding _ hv).bind fun _ _ => .pure (by simp)
  | .returnStmt _ value =>
      (Preserves.note (by simp)).bind fun _ _ => (preserves_expression h value).bind fun _ hv =>
        (Preserves.use hv).bind fun _ hv => (Preserves.newReturned h.hereditary hv).bind fun _ hr =>
          .pure (by simpa using hr)
  | .exprStmt _ expr =>
      (Preserves.note (by simp)).bind fun _ _ => (preserves_expression h expr).bind fun _ hv =>
        .pure (by simpa using hv)

theorem preserves_sequence (h : Lawful S P enter scope) : (stmts : List Stmt) →
    (last : Option Object) → (∀ object ∈ last, P object) →
    Preserves S P (fun value => ∀ object ∈ value, P object) (sequence enter stmts last scope)
  | [], _, hlast => .pure hlast
  | stmt :: stmts, _, _ => (preserves_statement h stmt).bind fun value hv => by
      split
      · exact .pure hv
      · exact preserves_sequence h stmts _ hv

theorem preserves_block (h : Lawful S P enter scope) : (stmts : Block) →
    Preserves S P P (block enter stmts scope)
  | ⟨_, stmts⟩ => (preserves_sequence h stmts none (by simp)).bind fun value hv => by
      cases value with
      | some value => exact .pure (hv value rfl)
      | none => exact .pure h.hereditary.sharedNull

end

theorem preserves_program (h : Lawful S P enter scope) (whole : Program) :
    Preserves S P (fun value => ∀ object ∈ value, P object) (program enter whole scope) := by
  refine (preserves_sequence h whole.statements none (by simp)).bind fun value hv => .pure ?_
  cases value with
  | some value => simpa using h.hereditary.unwrapped (hv value rfl)
  | none => simp

theorem enters_body (hP : Object.Hereditary S P) : (depth : Nat) → Enters S P (body depth)
  | 0 => fun _ _ _ _ hs => .error hs
  | depth + 1 => fun stmts _ hscope => preserves_block ⟨hP, enters_body hP depth, hscope⟩ stmts

end Run

end ClosureLang
