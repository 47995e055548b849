import ClosureLang.Proofs.Provenance.Lemmas.Rules
import ClosureLang.Proofs.Rendering.Lemmas.Rereading

/-!
# Texts from which the tree comes back

Where an expression statement has no other statement behind it, the text of a tree is read as the
tree that it is the text of.
-/

namespace ClosureLang

open Grammar

mutual

/-- Whether an expression statement stands last wherever there is one in a tree. -/
def Stmt.openLast : Stmt → Bool
  | .letStmt _ _ value => value.openLast
  | .returnStmt _ value => value.openLast
  | .exprStmt _ expr => expr.openLast

def openLastStatements : List Stmt → Bool
  | [] => true
  | stmt :: stmts => stmt.openLast && (!stmt.isOpen || stmts.isEmpty) && openLastStatements stmts

def Block.openLast : Block → Bool
  | ⟨_, statements⟩ => openLastStatements statements

def Expr.openLast : Expr → Bool
  | .identifier _ => true
  | .integer _ _ => true
  | .boolean _ _ => true
  | .prefixed _ _ right => right.openLast
  | .infixed _ left _ right => left.openLast && right.openLast
  | .conditional _ condition consequence alternative =>
    condition.openLast && consequence.openLast && openLastAlternative alternative
  | .function _ _ body => body.openLast
  | .call _ callee arguments => callee.openLast && openLastAll arguments

def openLastAlternative : Option Block → Bool
  | none => true
  | some block => block.openLast

def openLastAll : List Expr → Bool
  | [] => true
  | expr :: exprs => expr.openLast && openLastAll exprs

end

def Program.openLast (program : Program) : Bool :=
  openLastStatements program.statements

/-! ## A statement with nothing behind it runs into nothing -/

theorem runsInto_empty (text : String) : runsInto text "" = false := by
  rw [runsInto]
  cases text.toList.getLast? <;> rfl

mutual

theorem Stmt.separated_of_openLast (stmt : Stmt) (h : stmt.openLast = true) :
    stmt.separated = true := by
  match stmt with
  | .letStmt _ _ value => exact value.separated_of_openLast h
  | .returnStmt _ value => exact value.separated_of_openLast h
  | .exprStmt _ expr => exact expr.separated_of_openLast h

theorem separatedStatements_of_openLast (stmts : List Stmt) (h : openLastStatements stmts = true) :
    separatedStatements stmts = true := by
  match stmts with
  | [] => rfl
  | stmt :: stmts =>
      simp only [openLastStatements, Bool.and_eq_true, Bool.or_eq_true, Bool.not_eq_true'] at h
      have hapart : (stmt.isOpen && runsInto stmt.render (renderStatements stmts)) = false := by
        rcases h.1.2 with hclosed | hlast
        · rw [hclosed, Bool.false_and]
        · rw [List.isEmpty_iff.mp hlast, renderStatements, runsInto_empty, Bool.and_false]
      simp [separatedStatements, stmt.separated_of_openLast h.1.1, hapart,
        separatedStatements_of_openLast stmts h.2]

theorem Block.separated_of_openLast (block : Block) (h : block.openLast = true) :
    block.separated = true := by
  match block with
  | ⟨_, stmts⟩ => exact separatedStatements_of_openLast stmts h

theorem Expr.separated_of_openLast (expr : Expr) (h : expr.openLast = true) :
    expr.separated = true := by
  match expr with
  | .identifier _ | .integer _ _ | .boolean _ _ => rfl
  | .prefixed _ _ right => exact right.separated_of_openLast h
  | .infixed _ left _ right =>
      simp only [Expr.openLast, Bool.and_eq_true] at h
      simp [Expr.separated, left.separated_of_openLast h.1, right.separated_of_openLast h.2]
  | .conditional _ condition consequence alternative =>
      simp only [Expr.openLast, Bool.and_eq_true] at h
      simp [Expr.separated, condition.separated_of_openLast h.1.1,
        consequence.separated_of_openLast h.1.2, separatedAlternative_of_openLast alternative h.2]
  | .function _ _ body => exact body.separated_of_openLast h
  | .call _ callee arguments =>
      simp only [Expr.openLast, Bool.and_eq_true] at h
      simp [Expr.separated, callee.separated_of_openLast h.1,
        separatedAll_of_openLast arguments h.2]

theorem separatedAlternative_of_openLast (alternative : Option Block)
    (h : openLastAlternative alternative = true) : separatedAlternative alternative = true := by
  match alternative with
  | none => rfl
  | some block => exact block.separated_of_openLast h

theorem separatedAll_of_openLast (exprs : List Expr) (h : openLastAll exprs = true) :
    separatedAll exprs = true := by
  match exprs with
  | [] => rfl
  | expr :: exprs =>
      simp only [openLastAll, Bool.and_eq_true] at h
      simp [separatedAll, expr.separated_of_openLast h.1, separatedAll_of_openLast exprs h.2]

end

/-! ## Reading the text of a program -/

/-- The text of a program, be it only what errors have left of one, is parsed without errors and to
the same program but for its tokens. -/
theorem rendering_loses_nothing (source : String) (h : (parse source).program.openLast = true) :
    (parse (parse source).program.render).errors = [] ∧
      (parse (parse source).program.render).program.bare = (parse source).program.bare := by
  have hspelled := (parse_within_source source).1
  have hseparated := separatedStatements_of_openLast _ h
  obtain ⟨again, hagain, hbare⟩ := reread_statements _ hspelled hseparated rfl
  have hderives : Derives (scan (parse source).program.render) ⟨again⟩ := hagain
  obtain ⟨herrors, hprogram⟩ := parse_eq_of_derives hderives
  exact ⟨herrors, hprogram ▸ congrArg Program.mk hbare⟩

/-- The `let` in the function and the one behind it lack their names and values. -/
def damagedSource : String :=
  "let f = fn(x, y) \x7b let = ; if (!x) \x7b return -007; \x7d else \x7b \x7d \x7d; let 5"

theorem damaged_source_comes_back :
    (parse damagedSource).errors ≠ [] ∧ (parse damagedSource).program.openLast = true ∧
      (parse damagedSource).program.render =
        "let f = fn(x, y) \x7b if ((!x)) \x7b return (-007); \x7d else \x7b  \x7d \x7d;5" ∧
      (parse (parse damagedSource).program.render).errors = [] ∧
        (parse (parse damagedSource).program.render).program.bare =
          (parse damagedSource).program.bare :=
  ⟨by decide +kernel, by decide +kernel, by decide +kernel,
    rendering_loses_nothing damagedSource (by decide +kernel)⟩

end ClosureLang
