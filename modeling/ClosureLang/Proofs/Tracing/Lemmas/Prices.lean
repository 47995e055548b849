import ClosureLang.Proofs.Grammar.Lemmas.Outcomes
import ClosureLang.Proofs.Tracing.Tallies
import Mathlib.Tactic.Ring

/-!
# Prices of rules and nodes

Entering a rule has a price, and so has a node that the rule makes. Reading an expression has one as
well, which is paid by the node around it, or with a parenthesis that is there for grouping.
-/

namespace ClosureLang

/-- The price of entering each rule. Whatever the limit and the first token, that for an expression
is the same. -/
structure Prices where
  rule : Activity → Int
  expression : Int
  rule_expression : ∀ limit first, rule (.expression limit first) = expression

namespace Prices

variable (prices : Prices)

def event : TraceEvent → Int
  | .enter activity => prices.rule activity
  | .leave _ => 0

/-- The price of the rule that makes the node, and of the expressions that this rule reads. A
parenthesis that is attached to the node is not there for grouping, and so it takes one off. -/
def node : Node → Int
  | .program _ => prices.rule .program
  | .statement (.letStmt _ _ _) => prices.rule .letStatement + prices.expression
  | .statement (.returnStmt _ _) => prices.rule .returnStatement + prices.expression
  | .statement (.exprStmt _ _) => prices.rule .expressionStatement + prices.expression
  | .block _ => prices.rule .block
  | .expression (.prefixed _ _ _) => prices.rule .prefixed + prices.expression
  | .expression (.infixed _ _ _ _) => prices.rule .infixed + prices.expression
  | .expression (.conditional _ _ _ _) => prices.rule .conditional
  | .expression (.function _ _ _) => prices.rule .function - prices.expression
  | .expression (.call _ _ arguments) =>
    prices.rule .call + prices.expression * arguments.length - prices.expression
  | .expression _ => 0

def total (nodes : List Node) : Int :=
  (nodes.map prices.node).sum

@[simp] theorem total_nil : prices.total [] = 0 := rfl

@[simp] theorem total_cons (node : Node) (nodes : List Node) :
    prices.total (node :: nodes) = prices.node node + prices.total nodes := rfl

@[simp] theorem total_append (front behind : List Node) :
    prices.total (front ++ behind) = prices.total front + prices.total behind := by
  rw [total, List.map_append, List.sum_append]
  rfl

theorem total_statements (stmts : List Stmt) : prices.total (nodesOfStatements stmts) =
    (stmts.map fun stmt => prices.total stmt.nodes).sum := by
  induction stmts with
  | nil => rfl
  | cons stmt stmts ih => rw [nodesOfStatements, total_append, ih, List.map_cons, List.sum_cons]

/-- Each argument is an expression that is read. -/
theorem total_arguments (exprs : List Expr) :
    (exprs.map fun expr => prices.total expr.nodes + prices.expression).sum =
      prices.total (nodesOfAll exprs) + prices.expression * exprs.length := by
  induction exprs with
  | nil => simp [nodesOfAll]
  | cons expr exprs ih =>
      rw [List.map_cons, List.sum_cons, ih, nodesOfAll, total_append, List.length_cons]
      push_cast
      ring

end Prices

/-! ## Balances -/

namespace Parser.State

/-- What has been paid, and what the parentheses ahead are worth. -/
def balance (prices : Prices) (s : State) : Int :=
  (s.trace.map prices.event).sum + prices.expression * (kindsOf s.tokens).count .leftParen

/-- Unless there are errors, the balance goes up by what is due. -/
def Earns (prices : Prices) (s : State) (due : Int) (s' : State) : Prop :=
  s'.errors = [] → s.errors = [] ∧ s'.balance prices = s.balance prices + due

namespace Earns

variable {prices : Prices} {s s' s'' : State} {due due' : Int} {activity : Activity}

theorem refl : s.Earns prices 0 s :=
  fun he => ⟨he, (Int.add_zero _).symm⟩

theorem trans (h : s.Earns prices due s') (h' : s'.Earns prices due' s'') :
    s.Earns prices (due + due') s'' := by
  intro he
  obtain ⟨he', hbalance'⟩ := h' he
  obtain ⟨he, hbalance⟩ := h he'
  exact ⟨he, by rw [hbalance', hbalance, Int.add_assoc]⟩

theorem of_eq (h : s.Earns prices due s') (hdue : due = due') : s.Earns prices due' s' :=
  hdue ▸ h

/-- Past a token that is no parenthesis. -/
theorem token (h : s.current.kind ≠ .leftParen) : s.Earns prices 0 s.advance := by
  refine fun he => ⟨he, ?_⟩
  rw [balance, balance, advance, Int.add_zero]
  cases htokens : s.tokens with
  | nil => rfl
  | cons token tokens =>
      have hne : token.kind ≠ .leftParen := by simpa [current, htokens] using h
      rw [List.tail_cons, kindsOf_cons, List.count_cons_of_ne hne]

/-- Past a parenthesis. -/
theorem paren (hs : s.Ends) (h : s.current.kind = .leftParen) :
    s.Earns prices (-prices.expression) s.advance := by
  refine fun he => ⟨he, ?_⟩
  rw [balance, balance, advance, hs.tokens_eq_cons (h ▸ by decide), List.tail_cons, kindsOf_cons, h,
    List.count_cons_self]
  push_cast
  ring

/-- The price of a rule is paid when it is entered. -/
theorem within (h : (s.note (.enter activity)).Earns prices due s') :
    s.Earns prices (prices.rule activity + due) (s'.note (.leave activity)) := by
  intro he
  obtain ⟨he, hbalance⟩ := h he
  refine ⟨he, ?_⟩
  have henter : (s.note (.enter activity)).balance prices =
      prices.rule activity + s.balance prices := by
    simp only [balance, note, List.map_cons, List.sum_cons, Prices.event]
    ring
  have hleave : (s'.note (.leave activity)).balance prices = s'.balance prices := by
    simp only [balance, note, List.map_cons, List.sum_cons, Prices.event]
    ring
  rw [hleave, hbalance, henter]
  ring

end Earns

end Parser.State

end ClosureLang
