import ClosureLang.Proofs.Grammar.Derivation
import ClosureLang.Proofs.Tracing.Tallies

/-!
# Counting parentheses

An opening parenthesis is there for grouping, or it belongs to a call, a condition or a function.
-/

namespace ClosureLang

open Grammar

/-- The opening parentheses that are not there for grouping. -/
def attached : Bool → List Kind → Nat
  | _, [] => 0
  | behind, kind :: kinds =>
    (if kind = .leftParen ∧ behind = true then 1 else 0) + attached kind.isEnd kinds

theorem count_leftParen (behind : Bool) (kinds : List Kind) :
    kinds.count .leftParen = groupings behind kinds + attached behind kinds := by
  induction kinds generalizing behind with
  | nil => rfl
  | cons kind kinds ih =>
      rw [List.count_cons, ih kind.isEnd, groupings, attached]
      by_cases hk : kind = .leftParen <;> cases behind <;> simp [hk] <;> omega

theorem attached_append (behind : Bool) (front back : List Kind) :
    attached behind (front ++ back) =
      attached behind front + attached (isEnded behind front) back := by
  induction front generalizing behind with
  | nil => simp [attached, isEnded]
  | cons kind front ih => simp only [List.cons_append, attached, isEnded, ih, Nat.add_assoc]

theorem attached_of_afresh {tokens : List Token}
    (h : ∀ next ∈ tokens.head?, runsOn next.kind = false) (behind : Bool) :
    attached behind (kindsOf tokens) = attached false (kindsOf tokens) := by
  cases tokens with
  | nil => rfl
  | cons next tokens =>
      have hne : next.kind ≠ .leftParen := fun hk => by simpa [hk, runsOn] using h next rfl
      simp [attached, hne]

/-! ## Counting trees -/

/-- Whether a parenthesis belongs to the node, behind its callee or its first word. -/
def Node.isAttached : Node → Bool
  | .expression (.conditional _ _ _ _) => true
  | .expression (.function _ _ _) => true
  | .expression (.call _ _ _) => true
  | _ => false

/-! ## Counting derivations -/

theorem operator_ne_leftParen {level : Level} {kind : Kind} {op : InfixOp}
    (h : level.operator? kind = some op) : kind ≠ .leftParen ∧ kind.isEnd = false := by
  cases level <;> cases kind <;>
    simp only [Level.operator?, reduceCtorEq] at h <;> exact ⟨by decide, rfl⟩

theorem attached_moreParameters {tokens : List Token} {names : List Identifier}
    (h : MoreParameters tokens names) (behind : Bool) : attached behind (kindsOf tokens) = 0 := by
  induction h generalizing behind with
  | nil => rfl
  | cons hcomma hname _ ih => simp [attached, hcomma, hname, ih]

theorem attached_parameters {tokens : List Token} {names : List Identifier}
    (h : Parameters tokens names) (behind : Bool) : attached behind (kindsOf tokens) = 0 := by
  cases h with
  | nil => rfl
  | cons hname hmore => simp [attached, hname, attached_moreParameters hmore]

mutual

theorem attached_expression {level : Level} {tokens : List Token} {expr : Expr}
    (h : Expression level tokens expr) :
    attached false (kindsOf tokens) = expr.nodes.countP Node.isAttached := by
  match h with
  | .tighter _ h => exact attached_expression h
  | .infixed hop _ hl hr =>
      obtain ⟨hne, hend⟩ := operator_ne_leftParen hop
      simp [attached, attached_append, isEnded_expression hl, hne, hend, attached_expression hl,
        attached_expression hr, Expr.nodes, Node.isAttached]
  | .not hk h | .negate hk h =>
      simp [attached, hk, Kind.isEnd, attached_expression h, Expr.nodes, Node.isAttached]
  | .identifier hk | .integer hk _ | .true hk | .false hk =>
      simp [attached, Expr.nodes, Node.isAttached]
  | .call hc ho ha hk =>
      simp [attached, attached_append, isEnded_expression hc, ho, hk, Kind.isEnd,
        attached_expression hc, attached_arguments ha, Expr.nodes, Node.isAttached,
        List.countP_cons]
      omega
  | .grouped ho h hc =>
      simp [attached, attached_append, ho, hc, Kind.isEnd, attached_expression h]
  | .conditional hw ho hc hk hb =>
      simp [attached, attached_append, hw, ho, hk, Kind.isEnd, attached_expression hc,
        attached_body hb, Expr.nodes, nodesOfAlternative, Node.isAttached,
        List.countP_cons]
      omega
  | .alternative hw ho hc hk hb he ha =>
      simp [attached, attached_append, hw, ho, hk, he, Kind.isEnd, attached_expression hc,
        attached_body hb, attached_body ha, Expr.nodes, nodesOfAlternative, Node.isAttached,
        List.countP_cons]
      omega
  | .function hw ho hp hk hb =>
      simp [attached, attached_append, hw, ho, hk, Kind.isEnd, attached_parameters hp,
        attached_body hb, Expr.nodes, Node.isAttached,
        List.countP_cons]
      omega

theorem attached_arguments {tokens : List Token} {args : List Expr} (h : Arguments tokens args) :
    attached false (kindsOf tokens) = (nodesOfAll args).countP Node.isAttached := by
  match h with
  | .nil => rfl
  | .cons ha hm =>
      rw [kindsOf_append, attached_append, attached_expression ha, attached_moreArguments hm,
        nodesOfAll, List.countP_append]

theorem attached_moreArguments {tokens : List Token} {args : List Expr}
    (h : MoreArguments tokens args) (behind : Bool) :
    attached behind (kindsOf tokens) = (nodesOfAll args).countP Node.isAttached := by
  match h with
  | .nil => rfl
  | .cons hk ha hm =>
      simp [attached, attached_append, hk, Kind.isEnd, attached_expression ha,
        attached_moreArguments hm, nodesOfAll]

theorem attached_body {tokens : List Token} {block : Block} (h : Body tokens block)
    (behind : Bool) :
    attached behind (kindsOf tokens) = block.nodes.countP Node.isAttached := by
  match h with
  | .braces ho hb hc =>
      simp [attached, attached_append, ho, hc, Kind.isEnd, attached_statements hb, Block.nodes,
        Node.isAttached]

theorem attached_statement {tokens : List Token} {stmt : Stmt} (h : Statement tokens stmt) :
    attached false (kindsOf tokens) = stmt.nodes.countP Node.isAttached := by
  match h with
  | .letStmt hk hn hs hv =>
      simp [attached, hk, hn, hs, Kind.isEnd, attached_expression hv, Stmt.nodes, Node.isAttached]
  | .returnStmt hk hv =>
      simp [attached, hk, Kind.isEnd, attached_expression hv, Stmt.nodes, Node.isAttached]
  | .exprStmt hv => simpa [Stmt.nodes, Node.isAttached] using attached_expression hv

theorem attached_statements {tokens : List Token} {stmts : List Stmt}
    (h : Statements tokens stmts) :
    attached false (kindsOf tokens) = (nodesOfStatements stmts).countP Node.isAttached := by
  match h with
  | .nil => rfl
  | .ended hstmt hk hrest =>
      simp [attached, attached_append, hk, Kind.isEnd, attached_statement hstmt,
        attached_statements hrest, nodesOfStatements]
  | .unended hstmt hnext hrest =>
      rw [kindsOf_append, attached_append, attached_of_afresh hnext, attached_statement hstmt,
        attached_statements hrest, nodesOfStatements, List.countP_append]

end

end ClosureLang
