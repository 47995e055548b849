import ClosureLang.Eval.Node
import ClosureLang.Proofs.Placing.Lemmas.Lockstep
import ClosureLang.Proofs.Placing.Placed
import ClosureLang.Proofs.Running.Lemmas.Operators
import ClosureLang.Proofs.Running.Lemmas.Outcomes

/-!
# Running trees with their tokens in other places

Evaluation never looks at a token. Where the tokens of a program and of the functions in the store
are placed elsewhere it does the same, and what it makes is placed elsewhere as well.
-/

namespace ClosureLang

variable {place : Token → Span}

/-! ## Objects and stores -/

namespace Object

@[simp] theorem type_placed (object : Object) : (object.placed place).type = object.type := by
  cases object <;> rfl

@[simp] theorem id_placed (object : Object) : (object.placed place).id = object.id := by
  cases object <;> rfl

@[simp] theorem isTruthy_placed (object : Object) :
    (object.placed place).isTruthy = object.isTruthy := by
  cases object <;> rfl

@[simp] theorem unwrapped_placed (object : Object) :
    (object.placed place).unwrapped = object.unwrapped.placed place := by
  cases object <;> rfl

@[simp] theorem placed_ofBool (value : Bool) : (ofBool value).placed place = ofBool value := rfl

@[simp] theorem placed_sharedNull : sharedNull.placed place = sharedNull := rfl

end Object

namespace Store

theorem find?_placed (name : String) (bindings : List (String × Object)) :
    Scope.find? name (placedBindings place bindings) =
      (Scope.find? name bindings).map (Object.placed place) := by
  induction bindings with
  | nil => rfl
  | cons entry rest ih =>
      simp only [placedBindings, List.map_cons, Scope.find?]
      split
      · rfl
      · exact ih

theorem insert_placed (name : String) (value : Object) (bindings : List (String × Object)) :
    Scope.insert name (value.placed place) (placedBindings place bindings) =
      placedBindings place (Scope.insert name value bindings) := by
  induction bindings with
  | nil => rfl
  | cons entry rest ih =>
      simp only [placedBindings, List.map_cons, Scope.insert] at ih ⊢
      split
      · rfl
      · rw [ih, List.map_cons]

theorem getElem?_placed (store : Store) (i : ScopeId) :
    (store.placed place).scopes[i]? = store.scopes[i]?.map (Scope.placed place) := by
  rw [Store.placed, Array.getElem?_map]

theorem getLocal?_placed (store : Store) (scope : ScopeId) (name : String) :
    (store.placed place).getLocal? scope name =
      (store.getLocal? scope name).map (Object.placed place) := by
  rw [getLocal?, getLocal?, getElem?_placed]
  cases store.scopes[scope]? with
  | none => rfl
  | some found => exact find?_placed name found.bindings

theorem outer?_placed (store : Store) (scope : ScopeId) :
    (store.placed place).outer? scope = store.outer? scope := by
  rw [outer?, outer?, getElem?_placed]
  cases store.scopes[scope]? <;> rfl

theorem get?_placed (store : Store) (scope : ScopeId) (name : String) :
    (store.placed place).get? scope name = (store.get? scope name).map (Object.placed place) := by
  rw [get?, get?, getLocal?_placed, outer?_placed]
  cases store.getLocal? scope name with
  | some value => rfl
  | none =>
      cases store.outer? scope with
      | none => rfl
      | some outer =>
          dsimp only [Option.map_none]
          split
          · exact get?_placed store outer name
          · rfl
termination_by scope

theorem set_placed (store : Store) (scope : ScopeId) (name : String) (value : Object) :
    (store.placed place).set scope name (value.placed place) =
      (store.set scope name value).placed place := by
  simp only [set, placed, Store.mk.injEq, and_true]
  refine Array.ext_getElem? fun i => ?_
  simp only [Array.getElem?_modify, Array.getElem?_map]
  split
  · cases store.scopes[i]? with
    | none => rfl
    | some found =>
        exact congrArg (fun bindings => some (Scope.mk bindings found.outer))
          (insert_placed name value found.bindings)
  · rfl

theorem newScope_placed (store : Store) (outer : Option ScopeId) :
    (store.placed place).newScope outer =
      ((store.newScope outer).1, (store.newScope outer).2.placed place) := by
  simp only [newScope, placed, Array.size_map, Array.map_push]
  rfl

end Store

namespace Run

variable {α α' : Type} {move : α → α'} {enter enter' : Block → ScopeId → Run Object}
  {scope : ScopeId}

/-- The runs do the same on stores with their tokens in other places. The journals may be any. -/
abbrev Moves (place : Token → Span) (move : α → α') (p : Run α) (q : Run α') : Prop :=
  InStep (fun s t : State => t.store = s.store.placed place) move p q

namespace Moves

theorem raise (error : EvalError) :
    Moves place move (Run.raise error : Run α) (Run.raise error) :=
  fun _ _ hs => .error hs

theorem note (event event' : Event) : Moves place id (Run.note event) (Run.note event') :=
  fun _ _ hs => .ok hs

theorem use (how : Use) (value : Object) :
    Moves place (Object.placed place) (Run.use how value) (Run.use how (value.placed place)) :=
  fun _ _ hs => .ok hs

theorem newId : Moves place id Run.newId Run.newId := by
  intro s t hs
  have ht : Run.newId t = .ok s.store.newId.1 { t with store := s.store.newId.2.placed place } := by
    obtain ⟨store, journal⟩ := t
    obtain rfl : store = s.store.placed place := hs
    rfl
  rw [ht]
  exact .ok rfl

theorem newScope (outer : Option ScopeId) :
    Moves place id (Run.newScope outer) (Run.newScope outer) := by
  intro s t hs
  have ht : Run.newScope outer t =
      .ok (s.store.newScope outer).1
        { t with store := (s.store.newScope outer).2.placed place } := by
    obtain ⟨store, journal⟩ := t
    obtain rfl : store = s.store.placed place := hs
    have hnew : (s.store.placed place).newScope outer = _ := Store.newScope_placed s.store outer
    exact congrArg (fun r => EStateM.Result.ok r.1 (State.mk r.2 journal)) hnew
  rw [ht]
  exact .ok rfl

theorem newInteger (value : Int64) :
    Moves place (Object.placed place) (Run.newInteger value) (Run.newInteger value) :=
  newId.bind fun _ => .pure rfl

theorem newFunction (closure : Closure) :
    Moves place (Object.placed place) (Run.newFunction closure)
      (Run.newFunction (closure.placed place)) :=
  newId.bind fun _ => .pure rfl

theorem newReturned (inner : Object) :
    Moves place (Object.placed place) (Run.newReturned inner)
      (Run.newReturned (inner.placed place)) :=
  newId.bind fun _ => .pure rfl

theorem binding (name : String) (value : Object) :
    Moves place id (Run.bind scope name value) (Run.bind scope name (value.placed place)) := by
  intro s t hs
  have hset : t.store.set scope name (value.placed place) =
      (s.store.set scope name value).placed place := by
    rw [show t.store = s.store.placed place from hs, Store.set_placed]
  exact .ok hset

theorem lookup (name : String) :
    Moves place (Object.placed place) (Run.lookup scope name) (Run.lookup scope name) := by
  intro s t hs
  have hget : t.store.get? scope name = (s.store.get? scope name).map (Object.placed place) := by
    rw [show t.store = s.store.placed place from hs, Store.get?_placed]
  rw [lookup_eq, lookup_eq, hget]
  cases s.store.get? scope name with
  | some value => exact .ok hs
  | none => exact .error hs

/-- What an operator makes has no tokens in it. -/
theorem operation {run : Run Object} (h : IsOperation run) :
    Moves place (Object.placed place) run run := by
  cases h with
  | boolean value => exact .pure (Object.placed_ofBool value)
  | integer value => exact newInteger value
  | raise error => exact raise error

theorem bindParameters : (parameters : List Identifier) → (arguments : List Object) →
    Moves place id (Run.bindParameters scope parameters arguments)
      (Run.bindParameters scope (parameters.map (Identifier.placed place))
        (arguments.map (Object.placed place)))
  | [], [] | [], _ :: _ | _ :: _, [] => .pure rfl
  | _ :: parameters, _ :: arguments =>
      (binding _ _).bind fun _ => bindParameters parameters arguments

end Moves

theorem applyPrefix_placed (op : PrefixOp) (right : Object) :
    applyPrefix op (right.placed place) = applyPrefix op right := by
  cases op <;> cases right <;> rfl

theorem applyInfix_placed (op : InfixOp) (left right : Object) :
    applyInfix op (left.placed place) (right.placed place) = applyInfix op left right := by
  cases left <;> cases right <;> rfl

/-- Bodies are entered alike. -/
def MovesBodies (place : Token → Span) (enter : Block → ScopeId → Run Object) : Prop :=
  ∀ body scope, Moves place (Object.placed place) (enter body scope)
    (enter (body.placed place) scope)

theorem moves_call (henter : MovesBodies place enter) (callee : Object) (arguments : List Object) :
    Moves place (Object.placed place) (call enter callee arguments)
      (call enter (callee.placed place) (arguments.map (Object.placed place))) := by
  cases callee with
  | function id closure =>
      simp only [call, Object.placed, Closure.placed, List.length_map]
      split
      · exact Moves.raise _
      · refine (Moves.note _ _).bind fun _ => (Moves.newScope _).bind fun scope => ?_
        refine (Moves.bindParameters _ _).bind fun _ => (henter _ _).bind fun result => ?_
        exact .pure (Object.unwrapped_placed result).symm
  | _ => exact Moves.raise _

mutual

theorem moves_expression (henter : MovesBodies place enter) : (expr : Expr) →
    Moves place (Object.placed place) (expression enter expr scope)
      (expression enter (expr.placed place) scope)
  | .identifier name => Moves.lookup name.name
  | .integer _ value => Moves.newInteger value
  | .boolean _ value => .pure (Object.placed_ofBool value)
  | .prefixed _ op right =>
      (moves_expression henter right).bind fun _ => (Moves.use _ _).bind fun right => by
        rw [applyPrefix_placed]
        exact Moves.operation (isOperation_applyPrefix op right)
  | .infixed _ left op right =>
      (moves_expression henter left).bind fun _ => (Moves.use _ _).bind fun left =>
        (moves_expression henter right).bind fun _ => (Moves.use _ _).bind fun right => by
          rw [applyInfix_placed]
          exact Moves.operation (isOperation_applyInfix op left right)
  | .conditional _ condition consequence alternative =>
      (moves_expression henter condition).bind fun _ => (Moves.use _ _).bind fun condition => by
        rw [Object.isTruthy_placed]
        split
        · exact moves_block henter consequence
        · exact moves_otherwise henter alternative
  | .function _ parameters body => Moves.newFunction ⟨parameters, body, scope⟩
  | .call _ callee arguments =>
      (moves_expression henter callee).bind fun _ => (Moves.use _ _).bind fun _ =>
        (moves_expressions henter arguments).bind fun _ => moves_call henter _ _

theorem moves_expressions (henter : MovesBodies place enter) : (exprs : List Expr) →
    Moves place (List.map (Object.placed place)) (expressions enter exprs scope)
      (expressions enter (placedAll place exprs) scope)
  | [] => .pure rfl
  | expr :: exprs =>
      (moves_expression henter expr).bind fun _ => (Moves.use _ _).bind fun _ =>
        (moves_expressions henter exprs).bind fun _ => .pure rfl

theorem moves_otherwise (henter : MovesBodies place enter) : (alternative : Option Block) →
    Moves place (Object.placed place) (otherwise enter alternative scope)
      (otherwise enter (placedAlternative place alternative) scope)
  | none => .pure Object.placed_sharedNull
  | some alternative => moves_block henter alternative

theorem moves_statement (henter : MovesBodies place enter) : (stmt : Stmt) →
    Moves place (Option.map (Object.placed place)) (statement enter stmt scope)
      (statement enter (stmt.placed place) scope)
  | .letStmt _ _ value =>
      (Moves.note _ _).bind fun _ => (moves_expression henter value).bind fun _ =>
        (Moves.binding _ _).bind fun _ => .pure rfl
  | .returnStmt _ value =>
      (Moves.note _ _).bind fun _ => (moves_expression henter value).bind fun _ =>
        (Moves.use _ _).bind fun _ => (Moves.newReturned _).bind fun _ => .pure rfl
  | .exprStmt _ expr =>
      (Moves.note _ _).bind fun _ => (moves_expression henter expr).bind fun _ => .pure rfl

theorem moves_sequence (henter : MovesBodies place enter) :
    (stmts : List Stmt) → (last : Option Object) →
    Moves place (Option.map (Object.placed place)) (sequence enter stmts last scope)
      (sequence enter (placedStatements place stmts) (last.map (Object.placed place)) scope)
  | [], _ => .pure rfl
  | stmt :: stmts, _ => (moves_statement henter stmt).bind fun value => by
      match value with
      | some (.returned id inner) => exact .pure rfl
      | none => exact moves_sequence henter stmts none
      | some (.integer _ _) | some (.boolean _ _) | some (.null _) | some (.function _ _)
      | some (.error _ _) => exact moves_sequence henter stmts (some _)

theorem moves_block (henter : MovesBodies place enter) : (stmts : Block) →
    Moves place (Object.placed place) (block enter stmts scope)
      (block enter (stmts.placed place) scope)
  | ⟨_, stmts⟩ => (moves_sequence henter stmts none).bind fun value => by
      cases value with
      | some value => exact .pure rfl
      | none => exact .pure Object.placed_sharedNull

end

theorem moves_program (henter : MovesBodies place enter) (whole : Program) (scope : ScopeId) :
    Moves place (Option.map (Object.placed place)) (program enter whole scope)
      (program enter (whole.placed place) scope) :=
  (moves_sequence henter whole.statements none).bind fun value => .pure (by cases value <;> simp)

theorem moves_body : (depth : Nat) → MovesBodies place (body depth)
  | 0 => fun _ _ => .throw Stop.tooDeep
  | depth + 1 => fun stmts _ => moves_block (moves_body depth) stmts

theorem Moves.settle {p q : Run (Option Object)}
    (h : Moves place (Option.map (Object.placed place)) p q) :
    Moves place (Option.map (Object.placed place)) (Run.settle p) (Run.settle q) := by
  intro s t hs
  have hrun := h s t hs
  rw [settle_eq, settle_eq]
  generalize p s = r at hrun ⊢
  generalize q t = r' at hrun ⊢
  cases hrun with
  | ok hs => exact .ok hs
  | @error stop s t hs =>
      cases stop with
      | tooDeep => exact .error hs
      | raised error =>
          obtain ⟨store, journal⟩ := t
          obtain rfl : store = s.store.placed place := hs
          exact .ok rfl

end Run

end ClosureLang
