import ClosureLang.Proofs.Tracing.Lemmas.Parentheses
import ClosureLang.Proofs.Tracing.Lemmas.Prices

/-!
# Counting by prices

Prices that count the entries of one rule, and prices that count the expressions that are read.
-/

namespace ClosureLang

theorem sum_map_eq_countP {α : Type} {f : α → Int} {p : α → Bool}
    (h : ∀ a, f a = if p a then 1 else 0) (as : List α) : (as.map f).sum = as.countP p := by
  induction as with
  | nil => rfl
  | cons a as ih =>
      rw [List.map_cons, List.sum_cons, ih, h, List.countP_cons]
      push_cast
      exact Int.add_comm ..

namespace Prices

/-- One for each entry of a rule that makes nodes. -/
def only (activity : Activity) (h : ∀ limit first, .expression limit first ≠ activity) :
    Prices where
  rule other := if other = activity then 1 else 0
  expression := 0
  rule_expression limit first := if_neg (h limit first)

/-- One for each expression that is read. -/
def expressions : Prices where
  rule
    | .expression _ _ => 1
    | _ => 0
  expression := 1
  rule_expression _ _ := rfl

section

variable {activity : Activity} (h : ∀ limit first, .expression limit first ≠ activity)

theorem sum_only (trace : List TraceEvent) :
    (trace.map (only activity h).event).sum = trace.count (.enter activity) := by
  refine sum_map_eq_countP (fun event => ?_) trace
  cases event <;> simp [event, only]

theorem total_only (nodes : List Node) : (only activity h).total nodes =
    nodes.countP fun node => node.activity? = some activity := by
  refine sum_map_eq_countP (fun node => ?_) nodes
  rcases node with _ | ⟨_ | _ | _⟩ | _ | ⟨_ | _ | _ | _ | _ | _ | _ | _⟩ <;>
    simp [Prices.node, Node.activity?, only]

end

theorem sum_expressions (trace : List TraceEvent) :
    (trace.map expressions.event).sum = trace.countP TraceEvent.entersExpression := by
  refine sum_map_eq_countP (fun event => ?_) trace
  rcases event with ⟨_ | _ | _ | _ | _ | _ | _ | _ | _ | _ | _⟩ | _ <;> rfl

/-- What a node costs if expressions are counted. -/
theorem node_expressions (node : Node) :
    expressions.node node + (if node.isAttached then 1 else 0 : Nat) =
      (if node.isStatement then 1 else 0 : Nat) +
        (if decide (node.activity? = some .prefixed) then 1 else 0 : Nat) +
        (if decide (node.activity? = some .infixed) then 1 else 0 : Nat) +
        (if decide (node.activity? = some .conditional) then 1 else 0 : Nat) +
        node.argumentCount := by
  rcases node with _ | ⟨_ | _ | _⟩ | _ | ⟨_ | _ | _ | _ | _ | _ | _ | _⟩ <;>
    simp [Prices.node, expressions, Node.isAttached, Node.isStatement, Node.activity?,
      Node.argumentCount]

/-- What the nodes cost if expressions are counted, and one for each parenthesis of their own. -/
theorem total_expressions (nodes : List Node) :
    expressions.total nodes + nodes.countP Node.isAttached =
      nodes.countP Node.isStatement +
        (nodes.countP fun node => node.activity? = some .prefixed) +
        (nodes.countP fun node => node.activity? = some .infixed) +
        (nodes.countP fun node => node.activity? = some .conditional) +
        (nodes.map Node.argumentCount).sum := by
  induction nodes with
  | nil => rfl
  | cons node nodes ih =>
      have hnode := node_expressions node
      simp only [total_cons, List.countP_cons, List.map_cons, List.sum_cons]
      push_cast at hnode ih ⊢
      omega

end Prices

end ClosureLang
