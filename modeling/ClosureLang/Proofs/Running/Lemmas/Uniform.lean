import ClosureLang.Eval.Tree
import ClosureLang.Proofs.Running.Lemmas.Operators

/-!
# Properties of all runs

Evaluation is put together from a few operations on the state. A property that each of them has, and
that a run has with its parts, is one of all evaluation.
-/

namespace ClosureLang.Run

structure Uniform (T : ∀ {α : Type}, Run α → Prop) : Prop where
  pure : ∀ {α : Type} (a : α), T (Pure.pure a : Run α)
  bind : ∀ {α β : Type} {p : Run α} {f : α → Run β}, T p → (∀ a, T (f a)) → T (p >>= f)
  stop : ∀ {α : Type} (stop : Stop), T (throw stop : Run α)
  note : ∀ event, T (note event)
  newId : T newId
  newScope : ∀ outer, T (newScope outer)
  binding : ∀ scope name value, T (Run.bind scope name value)
  lookup : ∀ scope name, T (lookup scope name)

variable {T : ∀ {α : Type}, Run α → Prop} {enter : Block → ScopeId → Run Object} {scope : ScopeId}

namespace Uniform

variable (hT : Uniform T)
include hT

theorem use (how : Use) (value : Object) : T (Run.use how value) :=
  hT.bind (hT.note _) fun _ => hT.pure _

theorem operation {run : Run Object} (h : IsOperation run) : T run := by
  cases h with
  | boolean value => exact hT.pure _
  | integer value => exact hT.bind hT.newId fun _ => hT.pure _
  | raise error => exact hT.stop _

theorem bindParameters : (parameters : List Identifier) → (arguments : List Object) →
    T (Run.bindParameters scope parameters arguments)
  | [], [] | [], _ :: _ | _ :: _, [] => hT.pure _
  | _ :: parameters, _ :: arguments =>
      hT.bind (hT.binding _ _ _) fun _ => bindParameters parameters arguments

theorem call (henter : ∀ body scope, T (enter body scope)) (callee : Object)
    (arguments : List Object) : T (Run.call enter callee arguments) := by
  cases callee with
  | function id closure =>
      simp only [Run.call]
      split
      · exact hT.stop _
      · refine hT.bind (hT.note _) fun _ => hT.bind (hT.newScope _) fun scope => ?_
        refine hT.bind (hT.bindParameters _ _) fun _ => hT.bind (henter _ _) fun _ => hT.pure _
  | _ => exact hT.stop _

end Uniform

mutual

theorem uniform_expression (hT : Uniform T) (henter : ∀ body scope, T (enter body scope)) :
    (expr : Expr) → T (expression enter expr scope)
  | .identifier name => hT.lookup scope name.name
  | .integer _ _ | .function _ _ _ => hT.bind hT.newId fun _ => hT.pure _
  | .boolean _ value => hT.pure _
  | .prefixed _ op right =>
      hT.bind (uniform_expression hT henter right) fun _ => hT.bind (hT.use _ _) fun _ =>
        hT.operation (isOperation_applyPrefix op _)
  | .infixed _ left op right =>
      hT.bind (uniform_expression hT henter left) fun _ => hT.bind (hT.use _ _) fun _ =>
        hT.bind (uniform_expression hT henter right) fun _ => hT.bind (hT.use _ _) fun _ =>
          hT.operation (isOperation_applyInfix op _ _)
  | .conditional _ condition consequence alternative =>
      hT.bind (uniform_expression hT henter condition) fun _ =>
        hT.bind (hT.use _ _) fun condition => by
          cases condition.isTruthy with
          | true => exact uniform_block hT henter consequence
          | false => exact uniform_otherwise hT henter alternative
  | .call _ callee arguments =>
      hT.bind (uniform_expression hT henter callee) fun _ => hT.bind (hT.use _ _) fun _ =>
        hT.bind (uniform_expressions hT henter arguments) fun _ => hT.call henter _ _

theorem uniform_expressions (hT : Uniform T) (henter : ∀ body scope, T (enter body scope)) :
    (exprs : List Expr) → T (expressions enter exprs scope)
  | [] => hT.pure _
  | expr :: exprs =>
      hT.bind (uniform_expression hT henter expr) fun _ => hT.bind (hT.use _ _) fun _ =>
        hT.bind (uniform_expressions hT henter exprs) fun _ => hT.pure _

theorem uniform_otherwise (hT : Uniform T) (henter : ∀ body scope, T (enter body scope)) :
    (alternative : Option Block) → T (otherwise enter alternative scope)
  | none => hT.pure _
  | some alternative => uniform_block hT henter alternative

theorem uniform_statement (hT : Uniform T) (henter : ∀ body scope, T (enter body scope)) :
    (stmt : Stmt) → T (statement enter stmt scope)
  | .letStmt _ _ value =>
      hT.bind (hT.note _) fun _ => hT.bind (uniform_expression hT henter value) fun _ =>
        hT.bind (hT.binding _ _ _) fun _ => hT.pure _
  | .returnStmt _ value =>
      hT.bind (hT.note _) fun _ => hT.bind (uniform_expression hT henter value) fun _ =>
        hT.bind (hT.use _ _) fun _ => hT.bind (hT.bind hT.newId fun _ => hT.pure _) fun _ =>
          hT.pure _
  | .exprStmt _ expr =>
      hT.bind (hT.note _) fun _ => hT.bind (uniform_expression hT henter expr) fun _ => hT.pure _

theorem uniform_sequence (hT : Uniform T) (henter : ∀ body scope, T (enter body scope)) :
    (stmts : List Stmt) → (last : Option Object) → T (sequence enter stmts last scope)
  | [], _ => hT.pure _
  | stmt :: stmts, _ => hT.bind (uniform_statement hT henter stmt) fun value => by
      split
      · exact hT.pure _
      · exact uniform_sequence hT henter stmts _

theorem uniform_block (hT : Uniform T) (henter : ∀ body scope, T (enter body scope)) :
    (stmts : Block) → T (block enter stmts scope)
  | ⟨_, stmts⟩ => hT.bind (uniform_sequence hT henter stmts none) fun value => by
      cases value with
      | some value => exact hT.pure _
      | none => exact hT.pure _

end

theorem uniform_body (hT : Uniform T) : (depth : Nat) → ∀ stmts scope, T (body depth stmts scope)
  | 0 => fun _ _ => hT.stop _
  | depth + 1 => fun stmts _ => uniform_block hT (uniform_body hT depth) stmts

end ClosureLang.Run
