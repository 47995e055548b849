import ClosureLang.Proofs.Advancing.Theorems
import ClosureLang.Proofs.Sessions.Lemmas.Joining
import ClosureLang.Proofs.Tracing.Lemmas.Counting
import ClosureLang.Proofs.Tracing.Lemmas.Earning
import ClosureLang.Proofs.Tracing.Lemmas.Nesting
import ClosureLang.Proofs.Tracing.Lemmas.Parentheses

/-!
# Traces mirror the parse

The trace of a source is a tree, whether there are errors or not. Without errors, it has as many
entries for each rule as the program has nodes that the rule makes.
-/

namespace ClosureLang

open ClosureLang.Parser

/-! ## The tree -/

theorem isTree_trace (source : String) : IsTree .program (parse source).trace := by
  obtain ⟨whole, s, hrun, -, -⟩ := exists_program (State.below_ofString source)
  rw [parse_eq hrun]
  refine Tidy.isTree ?_ rfl hrun
  exact (tidy_statements (tidy_expression _) _).bind fun stmts => .pure (Program.mk stmts)

/-! ## The balance -/

/-- Without errors, what is paid on the trace is what the nodes and the parentheses are worth. -/
theorem sum_trace (prices : Prices) {source : String} (h : (parse source).errors = []) :
    ((parse source).trace.map prices.event).sum = prices.total (parse source).program.nodes +
      prices.expression * (kindsOf (scan source)).count .leftParen := by
  have hbelow := State.below_ofString source
  obtain ⟨whole, s, hrun, htokens, -⟩ := exists_program hbelow
  have hout := earns_program prices hbelow
  rw [hrun] at hout
  rw [parse_eq hrun] at h ⊢
  cases hout with
  | ok _ hearned =>
      obtain ⟨-, hbalance⟩ := hearned (List.reverse_eq_nil_iff.mp h)
      have hstart : (State.ofString source).balance prices =
          prices.expression * (kindsOf (scan source)).count .leftParen := Int.zero_add _
      have hend : s.advance.balance prices = (s.trace.map prices.event).sum := by
        simp [State.balance, State.advance, htokens]
      rw [hend, hstart] at hbalance
      rw [List.map_reverse, List.sum_reverse, hbalance, Int.add_comm]

/-! ## Traces and programs -/

/-- The trace of a source is one tree, in which everything happens inside the rule for programs. If
there are no errors, it has as many entries for each rule as the program has nodes of its kind. And
an expression is read for each statement, prefix and infix operation, condition, argument and pair
of grouping parentheses. -/
theorem trace_mirrors_parse (source : String) :
    IsTree .program (parse source).trace ∧
    ((parse source).errors = [] →
      (∀ activity, (∀ limit first, .expression limit first ≠ activity) →
        (parse source).trace.count (.enter activity) = (parse source).program.count activity) ∧
      (parse source).trace.countP TraceEvent.entersExpression =
        (parse source).program.statementCount + (parse source).program.count .prefixed +
          (parse source).program.count .infixed + (parse source).program.count .conditional +
          (parse source).program.argumentCount + groupings false (kindsOf (scan source))) := by
  refine ⟨isTree_trace source, fun h => ⟨fun activity hactivity => ?_, ?_⟩⟩
  · have hsum := sum_trace (Prices.only activity hactivity) h
    rw [Prices.sum_only, Prices.total_only] at hsum
    simp only [Prices.only, Int.zero_mul, Int.add_zero] at hsum
    exact Int.ofNat.inj hsum
  · have hsum := sum_trace Prices.expressions h
    have htotal := Prices.total_expressions (parse source).program.nodes
    have hparens := count_leftParen false (kindsOf (scan source))
    have hattached : attached false (kindsOf (scan source)) =
        (parse source).program.nodes.countP Node.isAttached :=
      attached_statements (derives_of_errors_eq_nil h)
    have hprice : Prices.expressions.expression = 1 := rfl
    rw [Prices.sum_expressions, hprice] at hsum
    simp only [Program.statementCount, Program.count, Program.argumentCount]
    omega

/-- An expression is read for each of three statements, the sign, the sum, the argument and the
parentheses around the sum. -/
theorem negated_sum_is_mirrored :
    (parse "let f = fn(x) \x7b -(x + 1); \x7d; f(2);").errors = [] ∧
    IsTree .program (parse "let f = fn(x) \x7b -(x + 1); \x7d; f(2);").trace ∧
    (parse "let f = fn(x) \x7b -(x + 1); \x7d; f(2);").trace.count (.enter .call) = 1 ∧
    (parse "let f = fn(x) \x7b -(x + 1); \x7d; f(2);").trace.countP
      TraceEvent.entersExpression = 7 := by
  have herrors : (parse "let f = fn(x) \x7b -(x + 1); \x7d; f(2);").errors = [] := by
    decide +kernel
  obtain ⟨htree, hcounts⟩ := trace_mirrors_parse "let f = fn(x) \x7b -(x + 1); \x7d; f(2);"
  obtain ⟨hnodes, hexpressions⟩ := hcounts herrors
  refine ⟨herrors, htree, (hnodes .call nofun).trans ?_, hexpressions.trans ?_⟩
  · decide +kernel
  · decide +kernel

end ClosureLang
