import ClosureLang.Proofs.Placing.Placed
import ClosureLang.Proofs.Rendering.Lemmas.Counting

/-!
# Counting joints

A joint is a token that continues something in front of it. Every binary operation, call, condition
and function has one, and so a tree can be counted from the tokens it is derived from. Where the
tokens stand makes no difference.
-/

namespace ClosureLang

open Grammar

/-! ## Counting tokens -/

/-- The kinds that continue an expression in front of them. -/
def Kind.joins (kind : Kind) : Bool :=
  runsOn kind && kind ≠ .semicolon

/-- The tokens that continue something, `behind` being whether something ends in front of them. -/
def joints : Bool → List Kind → Nat
  | _, [] => 0
  | behind, kind :: kinds => (if behind && kind.joins then 1 else 0) + joints kind.isEnd kinds

theorem joints_append (behind : Bool) (a b : List Kind) :
    joints behind (a ++ b) = joints behind a + joints (isEnded behind a) b := by
  induction a generalizing behind with
  | nil => simp [joints, isEnded]
  | cons kind a ih => simp only [List.cons_append, joints, isEnded, ih, Nat.add_assoc]

theorem joints_eq_of_afresh {tokens : List Token}
    (h : ∀ next ∈ tokens.head?, runsOn next.kind = false) (behind : Bool) :
    joints behind (kindsOf tokens) = joints false (kindsOf tokens) := by
  cases tokens with
  | nil => rfl
  | cons next tokens => simp [joints, Kind.joins, h next rfl]

/-! ## Counting trees -/

mutual

def Stmt.joints : Stmt → Nat
  | .letStmt _ _ value => value.joints
  | .returnStmt _ value => value.joints
  | .exprStmt _ expr => expr.joints

def jointsInStatements : List Stmt → Nat
  | [] => 0
  | stmt :: stmts => stmt.joints + jointsInStatements stmts

def Block.joints : Block → Nat
  | ⟨_, statements⟩ => jointsInStatements statements

/-- The joints of the tokens that a tree is derived from. -/
def Expr.joints : Expr → Nat
  | .identifier _ => 0
  | .integer _ _ => 0
  | .boolean _ _ => 0
  | .prefixed _ _ right => right.joints
  | .infixed _ left _ right => left.joints + right.joints + 1
  | .conditional _ condition consequence alternative =>
    condition.joints + consequence.joints + jointsInAlternative alternative + 1
  | .function _ _ body => body.joints + 1
  | .call _ callee arguments => callee.joints + jointsInAll arguments + 1

def jointsInAlternative : Option Block → Nat
  | none => 0
  | some block => block.joints

def jointsInAll : List Expr → Nat
  | [] => 0
  | expr :: exprs => expr.joints + jointsInAll exprs

end

section

variable (place : Token → Span)

mutual

theorem Stmt.joints_placed (stmt : Stmt) : (stmt.placed place).joints = stmt.joints := by
  match stmt with
  | .letStmt _ _ value | .returnStmt _ value | .exprStmt _ value =>
      simp only [Stmt.placed, Stmt.joints, value.joints_placed]

theorem jointsInStatements_placed (stmts : List Stmt) :
    jointsInStatements (placedStatements place stmts) = jointsInStatements stmts := by
  match stmts with
  | [] => rfl
  | stmt :: stmts =>
      simp only [placedStatements, jointsInStatements, stmt.joints_placed,
        jointsInStatements_placed stmts]

theorem Block.joints_placed (block : Block) : (block.placed place).joints = block.joints := by
  match block with
  | ⟨_, stmts⟩ => simp only [Block.placed, Block.joints, jointsInStatements_placed stmts]

theorem Expr.joints_placed (expr : Expr) : (expr.placed place).joints = expr.joints := by
  match expr with
  | .identifier _ | .integer _ _ | .boolean _ _ => rfl
  | .prefixed _ _ right => simp only [Expr.placed, Expr.joints, right.joints_placed]
  | .infixed _ left _ right =>
      simp only [Expr.placed, Expr.joints, left.joints_placed, right.joints_placed]
  | .conditional _ condition consequence alternative =>
      simp only [Expr.placed, Expr.joints, condition.joints_placed, consequence.joints_placed,
        jointsInAlternative_placed alternative]
  | .function _ _ body => simp only [Expr.placed, Expr.joints, body.joints_placed]
  | .call _ callee arguments =>
      simp only [Expr.placed, Expr.joints, callee.joints_placed, jointsInAll_placed arguments]

theorem jointsInAlternative_placed (alternative : Option Block) :
    jointsInAlternative (placedAlternative place alternative) =
      jointsInAlternative alternative := by
  match alternative with
  | none => rfl
  | some block => simp only [placedAlternative, jointsInAlternative, block.joints_placed]

theorem jointsInAll_placed (exprs : List Expr) :
    jointsInAll (placedAll place exprs) = jointsInAll exprs := by
  match exprs with
  | [] => rfl
  | expr :: exprs =>
      simp only [placedAll, jointsInAll, expr.joints_placed, jointsInAll_placed exprs]

end

end

/-! ## Counting derivations -/

theorem operator_joins {level : Level} {kind : Kind} {op : InfixOp}
    (h : level.operator? kind = some op) : kind.joins = true ∧ kind.isEnd = false := by
  cases level <;> cases kind <;>
    simp only [Level.operator?, reduceCtorEq] at h <;> exact ⟨rfl, rfl⟩

theorem joints_moreParameters {tokens : List Token} {names : List Identifier}
    (h : MoreParameters tokens names) (behind : Bool) : joints behind (kindsOf tokens) = 0 := by
  induction h generalizing behind with
  | nil => rfl
  | cons hcomma hname _ ih =>
      simp [joints, hcomma, hname, Kind.joins, runsOn, ih]

theorem joints_parameters {tokens : List Token} {names : List Identifier}
    (h : Parameters tokens names) (behind : Bool) : joints behind (kindsOf tokens) = 0 := by
  cases h with
  | nil => rfl
  | cons hname hmore =>
      simp [joints, hname, Kind.joins, runsOn, joints_moreParameters hmore]

mutual

theorem joints_expression {level : Level} {tokens : List Token} {expr : Expr}
    (h : Expression level tokens expr) : joints false (kindsOf tokens) = expr.joints := by
  match h with
  | .tighter _ h => exact joints_expression h
  | .infixed hop _ hl hr =>
      obtain ⟨hjoins, hend⟩ := operator_joins hop
      simp [joints, joints_append, isEnded_expression hl, hjoins, hend, joints_expression hl,
        joints_expression hr, Expr.joints]
      omega
  | .not hk h | .negate hk h =>
      simp [joints, hk, Kind.isEnd, joints_expression h, Expr.joints]
  | .identifier hk | .integer hk _ | .true hk | .false hk => simp [joints, Expr.joints]
  | .call hc ho ha hk =>
      simp [joints, joints_append, isEnded_expression hc, ho, hk, Kind.joins, runsOn, Kind.isEnd,
        joints_expression hc, joints_arguments ha, Expr.joints]
      omega
  | .grouped ho h hc =>
      simp [joints, joints_append, ho, hc, Kind.joins, runsOn, Kind.isEnd, joints_expression h]
  | .conditional hw ho hc hk hb =>
      simp [joints, joints_append, hw, ho, hk, Kind.joins, runsOn, Kind.isEnd, joints_expression hc,
        joints_body hb, Expr.joints, jointsInAlternative]
      omega
  | .alternative hw ho hc hk hb he ha =>
      simp [joints, joints_append, hw, ho, hk, he, Kind.joins, runsOn, Kind.isEnd,
        joints_expression hc, joints_body hb, joints_body ha, Expr.joints, jointsInAlternative]
      omega
  | .function hw ho hp hk hb =>
      simp [joints, joints_append, hw, ho, hk, Kind.joins, runsOn, Kind.isEnd, joints_parameters hp,
        joints_body hb, Expr.joints]
      omega

theorem joints_arguments {tokens : List Token} {args : List Expr} (h : Arguments tokens args) :
    joints false (kindsOf tokens) = jointsInAll args := by
  match h with
  | .nil => rfl
  | .cons ha hm =>
      rw [kindsOf_append, joints_append, joints_expression ha, joints_moreArguments hm, jointsInAll]

theorem joints_moreArguments {tokens : List Token} {args : List Expr}
    (h : MoreArguments tokens args) (behind : Bool) :
    joints behind (kindsOf tokens) = jointsInAll args := by
  match h with
  | .nil => rfl
  | .cons hk ha hm =>
      simp [joints, joints_append, hk, Kind.joins, runsOn, Kind.isEnd, joints_expression ha,
        joints_moreArguments hm, jointsInAll]

theorem joints_body {tokens : List Token} {block : Block} (h : Body tokens block) (behind : Bool) :
    joints behind (kindsOf tokens) = block.joints := by
  match h with
  | .braces ho hb hc =>
      simp [joints, joints_append, ho, hc, Kind.joins, runsOn, Kind.isEnd, joints_statements hb,
        Block.joints]

theorem joints_statement {tokens : List Token} {stmt : Stmt} (h : Statement tokens stmt) :
    joints false (kindsOf tokens) = stmt.joints := by
  match h with
  | .letStmt hk hn hs hv =>
      simp [joints, hk, hn, hs, Kind.joins, runsOn, Kind.isEnd, joints_expression hv, Stmt.joints]
  | .returnStmt hk hv => simp [joints, hk, Kind.isEnd, joints_expression hv, Stmt.joints]
  | .exprStmt hv => exact joints_expression hv

theorem joints_statements {tokens : List Token} {stmts : List Stmt} (h : Statements tokens stmts) :
    joints false (kindsOf tokens) = jointsInStatements stmts := by
  match h with
  | .nil => rfl
  | .ended hstmt hk hrest =>
      simp [joints, joints_append, hk, Kind.joins, Kind.isEnd, joints_statement hstmt,
        joints_statements hrest, jointsInStatements]
  | .unended hstmt hnext hrest =>
      rw [kindsOf_append, joints_append, joints_eq_of_afresh hnext, joints_statement hstmt,
        joints_statements hrest, jointsInStatements]

end

end ClosureLang
