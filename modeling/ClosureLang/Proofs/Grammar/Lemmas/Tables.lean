import ClosureLang.Parser.Rules
import ClosureLang.Proofs.Grammar.Derivation

/-!
# The grammar and the tables

The levels of the grammar, and the tokens with which expressions begin, against the tables from
which parsers choose their rules.
-/

namespace ClosureLang.Grammar

theorem Level.rank_inj {level level' : Level} (h : level.rank = level'.rank) : level = level' := by
  cases level <;> cases level' <;> first | rfl | simp [Level.rank] at h

/-- An expression of a level is one of every level that is not tighter. -/
theorem Expression.weaken {level inner : Level} {tokens : List Token} {expr : Expr}
    (h : Expression inner tokens expr) (hr : level.rank ≤ inner.rank) :
    Expression level tokens expr := by
  rcases Nat.lt_or_eq_of_le hr with hlt | heq
  · exact .tighter hlt h
  · rw [Level.rank_inj heq]; exact h

theorem Expression.loosest {level : Level} {tokens : List Token} {expr : Expr}
    (h : Expression level tokens expr) : Expression .equality tokens expr :=
  h.weaken (by cases level <;> decide)

/-- Each operator that a parser knows stands on the level of its precedence. -/
theorem exists_level {kind : Kind} {op : InfixOp} (h : InfixOp.ofKind? kind = some op) :
    ∃ level : Level, level.operator? kind = some op ∧
      level.rank = (Precedence.ofKind kind).rank ∧ level.rank < Level.prefixed.rank := by
  cases kind <;> simp only [InfixOp.ofKind?, Option.some.injEq, reduceCtorEq] at h <;> subst h
  case equal | notEqual => exact ⟨.equality, rfl, rfl, by decide⟩
  case less | greater | lessEqual | greaterEqual => exact ⟨.relation, rfl, rfl, by decide⟩
  case plus | minus => exact ⟨.sum, rfl, rfl, by decide⟩
  case asterisk | slash => exact ⟨.product, rfl, rfl, by decide⟩

theorem Level.ofKind?_of_operator? {level : Level} {kind : Kind} {op : InfixOp}
    (h : level.operator? kind = some op) :
    InfixOp.ofKind? kind = some op ∧ (Precedence.ofKind kind).rank = level.rank ∧
      Parser.Continuation.ofKind? kind = some .infixed ∧ level.rank < Level.prefixed.rank := by
  cases level <;> cases kind <;>
    simp only [Level.operator?, Option.some.injEq, reduceCtorEq] at h <;> subst h <;>
    exact ⟨rfl, rfl, rfl, by decide⟩

theorem exists_continuation {kind : Kind} (h : 0 < (Precedence.ofKind kind).rank) :
    (Parser.Continuation.ofKind? kind = some .infixed ∧ ∃ op, InfixOp.ofKind? kind = some op) ∨
      (Parser.Continuation.ofKind? kind = some .call ∧ kind = .leftParen) := by
  cases kind <;> first
    | exact absurd h (by decide)
    | exact Or.inl ⟨rfl, _, rfl⟩
    | exact Or.inr ⟨rfl, rfl⟩

/-- A statement runs on over its semicolon and over what binds. -/
theorem runsOn_eq_false_iff {kind : Kind} :
    runsOn kind = false ↔ (Precedence.ofKind kind).rank = 0 ∧ kind ≠ .semicolon := by
  cases kind <;> decide

theorem Expression.exists_opening {level : Level} {tokens : List Token} {expr : Expr}
    (h : Expression level tokens expr) : ∃ first rest opening,
      tokens = first :: rest ∧ Parser.Opening.ofKind? first.kind = some opening := by
  match h with
  | .tighter _ h => exact Expression.exists_opening h
  | .infixed _ _ hl _ | .call hl _ _ _ =>
      obtain ⟨first, rest, opening, rfl, ho⟩ := Expression.exists_opening hl
      exact ⟨first, _, opening, rfl, ho⟩
  | .not hk _ | .negate hk _ => exact ⟨_, _, .prefixed, rfl, by rw [hk]; rfl⟩
  | .identifier hk => exact ⟨_, _, .identifier, rfl, by rw [hk]; rfl⟩
  | .integer hk _ => exact ⟨_, _, .integer, rfl, by rw [hk]; rfl⟩
  | .true hk | .false hk => exact ⟨_, _, .boolean, rfl, by rw [hk]; rfl⟩
  | .grouped hk _ _ => exact ⟨_, _, .grouped, rfl, by rw [hk]; rfl⟩
  | .conditional hk _ _ _ _ | .alternative hk _ _ _ _ _ _ =>
      exact ⟨_, _, .conditional, rfl, by rw [hk]; rfl⟩
  | .function hk _ _ _ _ => exact ⟨_, _, .function, rfl, by rw [hk]; rfl⟩

theorem Expression.ne_nil {level : Level} {tokens : List Token} {expr : Expr}
    (h : Expression level tokens expr) : tokens ≠ [] := by
  obtain ⟨first, rest, _, rfl, _⟩ := h.exists_opening
  simp

theorem Statement.ne_nil {tokens : List Token} {stmt : Stmt} (h : Statement tokens stmt) :
    tokens ≠ [] := by
  cases h <;> simp

/-- A statement begins neither with what stops a list of statements nor with an alternative. -/
theorem Statement.exists_head {tokens : List Token} {stmt : Stmt} (h : Statement tokens stmt) :
    ∃ first rest, tokens = first :: rest ∧
      first.kind ≠ .rightBrace ∧ first.kind ≠ .eof ∧ first.kind ≠ .elseWord := by
  cases h with
  | letStmt hk _ _ _ | returnStmt hk _ => exact ⟨_, _, rfl, by simp [hk]⟩
  | exprStmt hv =>
      obtain ⟨first, rest, opening, heq, hk⟩ := hv.exists_opening
      refine ⟨first, rest, heq, ?_, ?_, ?_⟩ <;> · intro h; simp [h, Parser.Opening.ofKind?] at hk

theorem Statements.head_ne_else {tokens : List Token} {stmts : List Stmt}
    (h : Statements tokens stmts) : ∀ next ∈ tokens.head?, next.kind ≠ .elseWord := by
  cases h with
  | nil => simp
  | ended hstmt _ _ | unended hstmt _ _ =>
      obtain ⟨first, rest, rfl, _, _, hk⟩ := hstmt.exists_head
      simpa using hk

end ClosureLang.Grammar
