import ClosureLang.Proofs.Grammar.Lemmas.Tables
import ClosureLang.Proofs.Scanning.Lemmas.Words
import ClosureLang.Syntax.Render

/-!
# How trees are spelled

The words and numbers in a tree that was made from the tokens of a source are words and numbers.
-/

namespace ClosureLang

open Grammar

mutual

/-- Whether all that is rendered of a tree's tokens would be scanned as the tokens they were. -/
def Stmt.Spelled : Stmt → Prop
  | .letStmt token name value =>
    Spells .letWord token.literal ∧ Spells .identifier name.name ∧ value.Spelled
  | .returnStmt token value => Spells .returnWord token.literal ∧ value.Spelled
  | .exprStmt _ expr => expr.Spelled

def SpelledStatements : List Stmt → Prop
  | [] => True
  | stmt :: stmts => stmt.Spelled ∧ SpelledStatements stmts

def Block.Spelled : Block → Prop
  | ⟨_, statements⟩ => SpelledStatements statements

def Expr.Spelled : Expr → Prop
  | .identifier name => Spells .identifier name.name
  | .integer token value =>
    Spells .integer token.literal ∧ value.toInt = Nat.ofDigitChars 10 token.literal.toList 0
  | .boolean token value => Spells (if value then .trueWord else .falseWord) token.literal
  | .prefixed _ _ right => right.Spelled
  | .infixed _ left _ right => left.Spelled ∧ right.Spelled
  | .conditional _ condition consequence alternative =>
    condition.Spelled ∧ consequence.Spelled ∧ SpelledAlternative alternative
  | .function token parameters body =>
    Spells .fnWord token.literal ∧ (∀ name ∈ parameters, Spells .identifier name.name) ∧
      body.Spelled
  | .call _ callee arguments => callee.Spelled ∧ SpelledAll arguments

def SpelledAlternative : Option Block → Prop
  | none => True
  | some block => block.Spelled

def SpelledAll : List Expr → Prop
  | [] => True
  | expr :: exprs => expr.Spelled ∧ SpelledAll exprs

end

/-! ## Trees that are derived -/

/-- Tokens that a scanner gives. -/
def SpelledTokens (tokens : List Token) : Prop :=
  ∀ t ∈ tokens, Spells t.kind t.literal

theorem SpelledTokens.left {ts us : List Token} (h : SpelledTokens (ts ++ us)) : SpelledTokens ts :=
  fun t ht => h t (List.mem_append_left us ht)

theorem SpelledTokens.right {ts us : List Token} (h : SpelledTokens (ts ++ us)) :
    SpelledTokens us :=
  fun t ht => h t (List.mem_append_right ts ht)

theorem SpelledTokens.head {t : Token} {ts : List Token} {kind : Kind}
    (h : SpelledTokens (t :: ts)) (hk : t.kind = kind) : Spells kind t.literal :=
  hk ▸ h t List.mem_cons_self

theorem SpelledTokens.tail {t : Token} {ts : List Token} (h : SpelledTokens (t :: ts)) :
    SpelledTokens ts :=
  fun u hu => h u (List.mem_cons_of_mem t hu)

namespace Grammar

theorem MoreParameters.spelled {tokens : List Token} {names : List Identifier}
    (h : MoreParameters tokens names) (hs : SpelledTokens tokens) :
    ∀ name ∈ names, Spells .identifier name.name := by
  induction h with
  | nil => simp
  | cons _ hk _ ih =>
      intro name hname
      cases List.mem_cons.mp hname with
      | inl heq =>
          subst heq
          exact hs.tail.head hk
      | inr hmem => exact ih hs.tail.tail name hmem

theorem Parameters.spelled {tokens : List Token} {names : List Identifier}
    (h : Parameters tokens names) (hs : SpelledTokens tokens) :
    ∀ name ∈ names, Spells .identifier name.name := by
  cases h with
  | nil => simp
  | cons hk hmore =>
      intro name hname
      cases List.mem_cons.mp hname with
      | inl heq =>
          subst heq
          exact hs.head hk
      | inr hmem => exact hmore.spelled hs.tail name hmem

mutual

theorem Expression.spelled {level : Level} {tokens : List Token} {expr : Expr}
    (h : Expression level tokens expr) (hs : SpelledTokens tokens) : expr.Spelled := by
  match h with
  | .tighter _ h => exact Expression.spelled h hs
  | .infixed _ _ hl hr => exact ⟨hl.spelled hs.left, hr.spelled hs.right.tail⟩
  | .not _ h | .negate _ h => exact h.spelled hs.tail
  | .call hc _ ha _ => exact ⟨hc.spelled hs.left, ha.spelled hs.right.tail.left⟩
  | .identifier hk => exact hs.head hk
  | .integer hk hv => exact ⟨hs.head hk, hv⟩
  | .true hk | .false hk => exact hs.head hk
  | .grouped _ h _ => exact h.spelled hs.tail.left
  | .conditional _ _ hc _ hb =>
      exact ⟨hc.spelled hs.tail.tail.left, hb.spelled hs.tail.tail.right.tail, trivial⟩
  | .alternative _ _ hc _ hb _ ha =>
      exact ⟨hc.spelled hs.tail.tail.left, hb.spelled hs.tail.tail.right.tail.left,
        ha.spelled hs.tail.tail.right.tail.right.tail⟩
  | .function hk _ hp _ hb =>
      exact ⟨hs.head hk, hp.spelled hs.tail.tail.left, hb.spelled hs.tail.tail.right.tail⟩

theorem Arguments.spelled {tokens : List Token} {args : List Expr} (h : Arguments tokens args)
    (hs : SpelledTokens tokens) : SpelledAll args := by
  match h with
  | .nil => trivial
  | .cons ha hm => exact ⟨ha.spelled hs.left, hm.spelled hs.right⟩

theorem MoreArguments.spelled {tokens : List Token} {args : List Expr}
    (h : MoreArguments tokens args) (hs : SpelledTokens tokens) : SpelledAll args := by
  match h with
  | .nil => trivial
  | .cons _ ha hm => exact ⟨ha.spelled hs.tail.left, hm.spelled hs.tail.right⟩

theorem Body.spelled {tokens : List Token} {block : Block} (h : Body tokens block)
    (hs : SpelledTokens tokens) : block.Spelled := by
  match h with
  | .braces _ hb _ => exact hb.spelled hs.tail.left

theorem Statement.spelled {tokens : List Token} {stmt : Stmt} (h : Statement tokens stmt)
    (hs : SpelledTokens tokens) : stmt.Spelled := by
  match h with
  | .letStmt hk hn _ hv => exact ⟨hs.head hk, hs.tail.head hn, hv.spelled hs.tail.tail.tail⟩
  | .returnStmt hk hv => exact ⟨hs.head hk, hv.spelled hs.tail⟩
  | .exprStmt hv => exact hv.spelled hs

theorem Statements.spelled {tokens : List Token} {stmts : List Stmt} (h : Statements tokens stmts)
    (hs : SpelledTokens tokens) : SpelledStatements stmts := by
  match h with
  | .nil => trivial
  | .ended hstmt _ hrest => exact ⟨hstmt.spelled hs.left, hrest.spelled hs.right.tail⟩
  | .unended hstmt _ hrest => exact ⟨hstmt.spelled hs.left, hrest.spelled hs.right⟩

end

theorem Derives.spelled {source : String} {program : Program} (h : Derives (scan source) program) :
    SpelledStatements program.statements :=
  Statements.spelled h Scanner.spells_of_mem

end Grammar

end ClosureLang
