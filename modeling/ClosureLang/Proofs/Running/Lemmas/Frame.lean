import ClosureLang.Proofs.Running.Lemmas.Operators
import ClosureLang.Proofs.Running.Lemmas.Outcomes
import ClosureLang.Proofs.Running.Lemmas.Store

/-!
# What a run leaves as it is

A run in a scope writes that scope and the scopes it makes. The invariant compares the store with
the one at the start, and so it also holds where a run stops halfway.
-/

namespace ClosureLang

/-- Of the scopes in `before`, at most `scope` has other bindings in `after`, and it has lost none
of its names. -/
structure Store.Keeps (scope : ScopeId) (before after : Store) : Prop where
  size_le : before.scopes.size ≤ after.scopes.size
  bindings : ∀ i < before.scopes.size, i ≠ scope → after.scopes[i]? = before.scopes[i]?
  outer : ∀ i < before.scopes.size, after.outer? i = before.outer? i
  names : ∀ name, (before.getLocal? scope name).isSome → (after.getLocal? scope name).isSome

namespace Store.Keeps

variable {scope : ScopeId} {s₁ s₂ s₃ : Store}

theorem refl (scope : ScopeId) (s : Store) : Keeps scope s s :=
  ⟨Nat.le_refl _, fun _ _ _ => rfl, fun _ _ => rfl, fun _ h => h⟩

theorem trans (h : Keeps scope s₁ s₂) (h' : Keeps scope s₂ s₃) : Keeps scope s₁ s₃ where
  size_le := Nat.le_trans h.size_le h'.size_le
  bindings := fun i hi hne =>
    (h'.bindings i (Nat.lt_of_lt_of_le hi h.size_le) hne).trans (h.bindings i hi hne)
  outer := fun i hi =>
    (h'.outer i (Nat.lt_of_lt_of_le hi h.size_le)).trans (h.outer i hi)
  names := fun name hn => h'.names name (h.names name hn)

theorem of_scopes_eq (h : s₂.scopes = s₁.scopes) : Keeps scope s₁ s₂ := by
  obtain ⟨scopes, made⟩ := s₂
  subst h
  exact ⟨Nat.le_refl _, fun _ _ _ => rfl, fun _ _ => rfl, fun _ h => h⟩

theorem newId (scope : ScopeId) (s : Store) : Keeps scope s s.newId.2 :=
  of_scopes_eq rfl

theorem newScope (scope : ScopeId) (outer : Option ScopeId) (s : Store) :
    Keeps scope s (s.newScope outer).2 where
  size_le := by simp
  bindings i hi _ := by rw [getElem?_newScope, if_neg (Nat.ne_of_lt hi)]
  outer i hi := by rw [outer?_newScope, if_neg (Nat.ne_of_lt hi)]
  names name hn := by rwa [getLocal?_newScope]

theorem set (s : Store) (scope : ScopeId) (name : String) (value : Object) :
    Keeps scope s (s.set scope name value) where
  size_le := by simp
  bindings i _ hne := by rw [getElem?_set, if_neg (Ne.symm hne)]
  outer i _ := outer?_set s scope i name value
  names other hn := by
    rw [getLocal?_set]
    split
    · rfl
    · exact hn

/-- What a run in a scope that did not exist yet has done changes nothing for those that did. -/
theorem of_new (h : Keeps s₁.scopes.size s₁ s₂) : Keeps scope s₁ s₂ where
  size_le := h.size_le
  bindings := fun i hi _ => h.bindings i hi (Nat.ne_of_lt hi)
  outer := h.outer
  names := by
    intro name hn
    cases Nat.lt_or_ge scope s₁.scopes.size with
    | inl hi => simpa only [getLocal?, h.bindings scope hi (Nat.ne_of_lt hi)] using hn
    | inr hi =>
        rw [getLocal?_of_size_le hi] at hn
        cases hn

end Store.Keeps

namespace Run

variable {α β : Type} {enter : Block → ScopeId → Run Object} {scope : ScopeId}

/-- However the run ends, it has written to `scope` and to new scopes only. -/
def Writes (scope : ScopeId) (run : Run α) : Prop :=
  ∀ s, Outcome (fun _ s' => s.store.Keeps scope s'.store) (fun _ s' => s.store.Keeps scope s'.store)
    (run s)

namespace Writes

theorem pure (a : α) : Writes scope (Pure.pure a : Run α) :=
  fun s => .pure (.refl scope s.store)

theorem bind {p : Run α} {f : α → Run β} (hp : Writes scope p) (hf : ∀ a, Writes scope (f a)) :
    Writes scope (p >>= f) := by
  intro s
  apply (hp s).bind
  intro a s' hk
  exact (hf a s').mono (fun _ _ => hk.trans) (fun _ _ => hk.trans)

theorem map {p : Run α} (f : α → β) (hp : Writes scope p) : Writes scope (f <$> p) :=
  fun s => (hp s).map fun _ _ hk => hk

theorem raise (error : EvalError) : Writes scope (Run.raise error : Run α) :=
  fun s => .error (.refl scope s.store)

theorem note (event : Event) : Writes scope (Run.note event) :=
  fun s => .ok (.refl scope s.store)

theorem use (how : Use) (value : Object) : Writes scope (Run.use how value) :=
  fun s => .ok (.refl scope s.store)

theorem newId : Writes scope Run.newId :=
  fun s => .ok (.newId scope s.store)

theorem newInteger (value : Int64) : Writes scope (Run.newInteger value) :=
  newId.bind fun _ => pure _

theorem newFunction (closure : Closure) : Writes scope (Run.newFunction closure) :=
  newId.bind fun _ => pure _

theorem newReturned (inner : Object) : Writes scope (Run.newReturned inner) :=
  newId.bind fun _ => pure _

theorem binding (name : String) (value : Object) : Writes scope (Run.bind scope name value) :=
  fun s => .ok (.set s.store scope name value)

theorem lookup (name : String) : Writes scope (Run.lookup scope name) := by
  intro s
  rw [lookup_eq]
  cases s.store.get? scope name with
  | some value => exact pure value s
  | none => exact raise _ s

theorem operation {run : Run Object} (h : IsOperation run) : Writes scope run := by
  cases h with
  | boolean value => exact pure _
  | integer value => exact newInteger value
  | raise error => exact raise error

theorem bindParameters : (parameters : List Identifier) → (arguments : List Object) →
    Writes scope (Run.bindParameters scope parameters arguments)
  | [], [] | [], _ :: _ | _ :: _, [] => pure _
  | _ :: parameters, _ :: arguments =>
      (binding _ _).bind fun _ => bindParameters parameters arguments

end Writes

/-- A call writes none of the scopes there are. -/
theorem writes_call (henter : ∀ body scope, Writes scope (enter body scope)) (callee : Object)
    (arguments : List Object) : Writes scope (call enter callee arguments) := by
  cases callee with
  | function id closure =>
      unfold call
      dsimp only
      split
      · exact .raise _
      · intro s
        apply Outcome.note_bind
        -- The scope of the call is new: to run in it is to write none of those there are.
        have hbody : Writes s.store.scopes.size (do
            bindParameters s.store.scopes.size closure.parameters arguments
            let result ← enter closure.body s.store.scopes.size
            return result.unwrapped) :=
          (Writes.bindParameters _ _).bind fun _ => (henter _ _).bind fun _ => .pure _
        have hnew := Store.Keeps.newScope s.store.scopes.size (some closure.scope) s.store
        exact (hbody _).mono (fun _ _ h => (hnew.trans h).of_new)
          (fun _ _ h => (hnew.trans h).of_new)
  | _ => exact .raise _

mutual

theorem writes_expression (henter : ∀ body scope, Writes scope (enter body scope)) :
    (expr : Expr) → Writes scope (expression enter expr scope)
  | .identifier name => .lookup name.name
  | .integer _ value => .newInteger value
  | .boolean _ value => .pure _
  | .prefixed _ op right =>
      (writes_expression henter right).bind fun _ => (Writes.use _ _).bind fun _ =>
        .operation (isOperation_applyPrefix op _)
  | .infixed _ left op right =>
      (writes_expression henter left).bind fun _ => (Writes.use _ _).bind fun _ =>
        (writes_expression henter right).bind fun _ => (Writes.use _ _).bind fun _ =>
          .operation (isOperation_applyInfix op _ _)
  | .conditional _ condition consequence alternative =>
      (writes_expression henter condition).bind fun _ => (Writes.use _ _).bind fun condition => by
        cases condition.isTruthy with
        | true => exact writes_block henter consequence
        | false => exact writes_otherwise henter alternative
  | .function _ parameters body => .newFunction _
  | .call _ callee arguments =>
      (writes_expression henter callee).bind fun _ => (Writes.use _ _).bind fun _ =>
        (writes_expressions henter arguments).bind fun _ => writes_call henter _ _

theorem writes_expressions (henter : ∀ body scope, Writes scope (enter body scope)) :
    (exprs : List Expr) → Writes scope (expressions enter exprs scope)
  | [] => .pure _
  | expr :: exprs =>
      (writes_expression henter expr).bind fun _ => (Writes.use _ _).bind fun _ =>
        (writes_expressions henter exprs).bind fun _ => .pure _

theorem writes_otherwise (henter : ∀ body scope, Writes scope (enter body scope)) :
    (alternative : Option Block) → Writes scope (otherwise enter alternative scope)
  | none => .pure _
  | some alternative => writes_block henter alternative

theorem writes_statement (henter : ∀ body scope, Writes scope (enter body scope)) :
    (stmt : Stmt) → Writes scope (statement enter stmt scope)
  | .letStmt _ _ value =>
      (Writes.note _).bind fun _ => (writes_expression henter value).bind fun _ =>
        (Writes.binding _ _).bind fun _ => .pure _
  | .returnStmt _ value =>
      (Writes.note _).bind fun _ => (writes_expression henter value).bind fun _ =>
        (Writes.use _ _).bind fun _ => (Writes.newReturned _).bind fun _ => .pure _
  | .exprStmt _ expr =>
      (Writes.note _).bind fun _ => (writes_expression henter expr).bind fun _ => .pure _

theorem writes_sequence (henter : ∀ body scope, Writes scope (enter body scope)) :
    (stmts : List Stmt) → (last : Option Object) →
      Writes scope (sequence enter stmts last scope)
  | [], _ => .pure _
  | stmt :: stmts, _ => (writes_statement henter stmt).bind fun value => by
      split
      · exact .pure _
      · exact writes_sequence henter stmts _

theorem writes_block (henter : ∀ body scope, Writes scope (enter body scope)) :
    (stmts : Block) → Writes scope (block enter stmts scope)
  | ⟨_, stmts⟩ => (writes_sequence henter stmts none).bind fun value => by
      cases value with
      | some value => exact .pure _
      | none => exact .pure _

end

theorem writes_program (henter : ∀ body scope, Writes scope (enter body scope))
    (whole : Program) : Writes scope (program enter whole scope) :=
  (writes_sequence henter whole.statements none).bind fun _ => .pure _

theorem writes_body : (depth : Nat) → ∀ stmts scope, Writes scope (body depth stmts scope)
  | 0 => fun _ scope s => .error (.refl scope s.store)
  | depth + 1 => fun stmts _ => writes_block (writes_body depth) stmts

theorem Writes.settle {run : Run (Option Object)} (h : Writes scope run) :
    Writes scope (settle run) := by
  intro s
  have hs := h s
  rw [settle_eq]
  generalize run s = r at hs ⊢
  cases hs with
  | ok hk => exact .ok hk
  | @error stop s' hk =>
      cases stop with
      | raised error => exact .ok (hk.trans (.newId scope s'.store))
      | tooDeep => exact .error hk

end Run

theorem Node.writes_run (depth : Nat) (node : Node) (scope : ScopeId) :
    Run.Writes scope (node.run depth scope) := by
  apply Run.Writes.settle
  cases node with
  | program whole => exact Run.writes_program (Run.writes_body depth) whole
  | statement stmt => exact Run.writes_statement (Run.writes_body depth) stmt
  | block stmts => exact (Run.writes_block (Run.writes_body depth) stmts).map some
  | expression expr => exact (Run.writes_expression (Run.writes_body depth) expr).map some

end ClosureLang
