import ClosureLang.Proofs.Rendering.Lemmas.Spelling
import ClosureLang.Proofs.Rendering.Separated

/-!
# The words of the text of a tree
-/

namespace ClosureLang

/-! ## The first character -/

/-- The characters with which the text of a statement begins. -/
def isOpening (c : Char) : Bool :=
  c.isAlpha || c.isDigit || c == '('

theorem not_blank_of_opening {c : Char} (h : isOpening c = true) : isBlank c = false :=
  not_blank_of (by decide) h

theorem merges_opening {d : Char} (hd : isOpening d = true) (c : Char) :
    merges c d = (c.isAlpha && d.isAlpha || c.isDigit && d.isDigit) := by
  have hsign : d ≠ '=' := by rintro rfl; exact absurd hd (by decide)
  simp [merges, hsign]

theorem head?_append {a : String} {c : Char} (h : a.toList.head? = some c) (b : String) :
    (a ++ b).toList.head? = some c := by
  rw [String.toList_append, List.head?_append, h]
  rfl

theorem Spells.exists_head {kind : Kind} {text : String} (h : Spells kind text)
    (hk : kind.isRun = true) : ∃ c, text.toList.head? = some c ∧ isOpening c = true := by
  obtain ⟨c, tail, htext, _, hl⟩ := h
  have hrun := isRun_lexeme c tail
  rw [hl, hk] at hrun
  exact ⟨c, by rw [htext]; rfl, by rw [isOpening, ← hrun, Bool.true_or]⟩

theorem runsOn_of_isRun {kind : Kind} (h : kind.isRun = true) : Grammar.runsOn kind = false := by
  cases kind <;> first | rfl | exact absurd h (by decide)

theorem runsOn_lexeme {c : Char} (ho : isOpening c = true) (hc : c ≠ '(') (rest : List Char) :
    Grammar.runsOn (lexeme c rest).1 = false := by
  apply runsOn_of_isRun
  rw [isRun_lexeme]
  simpa [isOpening, hc] using ho

theorem Expr.exists_head (expr : Expr) (h : expr.Spelled) :
    ∃ c, expr.render.toList.head? = some c ∧ isOpening c = true := by
  match expr with
  | .identifier _ => exact Spells.exists_head h rfl
  | .integer _ _ => exact h.1.exists_head rfl
  | .boolean _ true | .boolean _ false => exact Spells.exists_head h rfl
  | .prefixed _ op right =>
      refine ⟨'(', ?_, by decide⟩
      simp only [Expr.render, String.append_assoc]
      exact head?_append rfl _
  | .infixed _ left op right =>
      refine ⟨'(', ?_, by decide⟩
      simp only [Expr.render, String.append_assoc]
      exact head?_append rfl _
  | .conditional _ condition consequence alternative =>
      refine ⟨'i', ?_, by decide⟩
      simp only [Expr.render, String.append_assoc]
      exact head?_append rfl _
  | .function token parameters body =>
      obtain ⟨c, hc, ho⟩ := h.1.exists_head rfl
      refine ⟨c, ?_, ho⟩
      simp only [Expr.render, String.append_assoc]
      exact head?_append hc _
  | .call _ callee arguments =>
      obtain ⟨c, hc, ho⟩ := callee.exists_head h.1
      refine ⟨c, ?_, ho⟩
      simp only [Expr.render, String.append_assoc]
      exact head?_append hc _

theorem Stmt.exists_head {stmt : Stmt} (h : stmt.Spelled) :
    ∃ c, stmt.render.toList.head? = some c ∧ isOpening c = true := by
  cases stmt with
  | letStmt token name value =>
      obtain ⟨c, hc, ho⟩ := h.1.exists_head rfl
      refine ⟨c, ?_, ho⟩
      simp only [Stmt.render, String.append_assoc]
      exact head?_append hc _
  | returnStmt token value =>
      obtain ⟨c, hc, ho⟩ := h.1.exists_head rfl
      refine ⟨c, ?_, ho⟩
      simp only [Stmt.render, String.append_assoc]
      exact head?_append hc _
  | exprStmt _ expr => exact expr.exists_head h

/-! ## Operators -/

def PrefixOp.kind : PrefixOp → Kind
  | not => .bang
  | negate => .minus

def InfixOp.kind : InfixOp → Kind
  | add => .plus
  | subtract => .minus
  | multiply => .asterisk
  | divide => .slash
  | less => .less
  | greater => .greater
  | lessEqual => .lessEqual
  | greaterEqual => .greaterEqual
  | equal => .equal
  | notEqual => .notEqual

theorem InfixOp.words_symbol (op : InfixOp) : words op.symbol = [(op.kind, op.symbol)] := by
  cases op <;> decide +kernel

theorem PrefixOp.words_symbol_append (op : PrefixOp) {text : String} {c : Char}
    (hc : text.toList.head? = some c) (ho : isOpening c = true) :
    words (op.symbol ++ text) = (op.kind, op.symbol) :: words text := by
  have hsymbol : words op.symbol = [(op.kind, op.symbol)] := by cases op <;> decide +kernel
  have happart : Apart op.symbol.toList text.toList := by
    intro x hx y hy
    rw [hc] at hy
    cases hy
    rw [merges_opening ho]
    cases op <;> cases hx <;> rfl
  rw [words_append happart, hsymbol]
  rfl

/-! ## The words of the separators -/

theorem words_separators :
    words " " = [] ∧ words "(" = [(.leftParen, "(")] ∧ words ")" = [(.rightParen, ")")] ∧
      words ";" = [(.semicolon, ";")] ∧ words " = " = [(.assign, "=")] ∧
      words ", " = [(.comma, ",")] ∧ words "if (" = [(.ifWord, "if"), (.leftParen, "(")] ∧
      words ") \x7b " = [(.rightParen, ")"), (.leftBrace, "\x7b")] ∧
      words " else \x7b " = [(.elseWord, "else"), (.leftBrace, "\x7b")] ∧
      words " \x7d" = [(.rightBrace, "\x7d")] := by
  decide +kernel

theorem words_gap : words " " = [] :=
  words_separators.1

theorem words_opening : words "(" = [(.leftParen, "(")] :=
  words_separators.2.1

theorem words_closing : words ")" = [(.rightParen, ")")] :=
  words_separators.2.2.1

theorem words_semicolon : words ";" = [(.semicolon, ";")] :=
  words_separators.2.2.2.1

theorem words_sign : words " = " = [(.assign, "=")] :=
  words_separators.2.2.2.2.1

theorem words_comma : words ", " = [(.comma, ",")] :=
  words_separators.2.2.2.2.2.1

theorem words_if : words "if (" = [(.ifWord, "if"), (.leftParen, "(")] :=
  words_separators.2.2.2.2.2.2.1

theorem words_then : words ") \x7b " = [(.rightParen, ")"), (.leftBrace, "\x7b")] :=
  words_separators.2.2.2.2.2.2.2.1

theorem words_else : words " else \x7b " = [(.elseWord, "else"), (.leftBrace, "\x7b")] :=
  words_separators.2.2.2.2.2.2.2.2.1

theorem words_end : words " \x7d" = [(.rightBrace, "\x7d")] :=
  words_separators.2.2.2.2.2.2.2.2.2

/-! ## Expressions -/

theorem words_prefixed (token : Token) (op : PrefixOp) {right : Expr} (h : right.Spelled) :
    words (Expr.prefixed token op right).render =
      (.leftParen, "(") :: (op.kind, op.symbol) ::
        (words right.render ++ [(.rightParen, ")")]) := by
  obtain ⟨c, hc, ho⟩ := right.exists_head h
  simp only [Expr.render, String.append_assoc]
  rw [words_append_of_last (by decide), op.words_symbol_append (head?_append hc _) ho,
    words_append_of_head (by decide), words_opening, words_closing]
  rfl

theorem words_infixed (token : Token) (left : Expr) (op : InfixOp) (right : Expr) :
    words (Expr.infixed token left op right).render =
      (.leftParen, "(") :: (words left.render ++
        (op.kind, op.symbol) :: (words right.render ++ [(.rightParen, ")")])) := by
  simp only [Expr.render, String.append_assoc]
  rw [words_append_of_last (by decide), words_append_separator (by decide),
    words_append_separator (by decide), words_append_of_head (by decide), op.words_symbol,
    words_opening, words_closing, words_gap]
  rfl

theorem words_alternative (block : Block) :
    words (renderAlternative (some block)) =
      (.elseWord, "else") :: (.leftBrace, "\x7b") ::
        (words block.render ++ [(.rightBrace, "\x7d")]) := by
  simp only [renderAlternative, String.append_assoc]
  rw [words_append_of_last (by decide), words_append_of_head (by decide), words_else, words_end]
  rfl

theorem words_conditional (token : Token) (condition : Expr) (consequence : Block)
    (alternative : Option Block) :
    words (Expr.conditional token condition consequence alternative).render =
      (.ifWord, "if") :: (.leftParen, "(") :: (words condition.render ++
        (.rightParen, ")") :: (.leftBrace, "\x7b") :: (words consequence.render ++
          (.rightBrace, "\x7d") :: words (renderAlternative alternative))) := by
  simp only [Expr.render, String.append_assoc]
  rw [words_append_of_last (by decide), words_append_separator (by decide),
    words_append_separator (by decide), words_if, words_then, words_end]
  rfl

theorem words_function {token : Token} (ht : Spells .fnWord token.literal)
    (parameters : List Identifier) (body : Block) :
    words (Expr.function token parameters body).render =
      (.fnWord, token.literal) :: (.leftParen, "(") ::
        (words (commaSeparated (parameters.map Identifier.name)) ++
          (.rightParen, ")") :: (.leftBrace, "\x7b") ::
            (words body.render ++ [(.rightBrace, "\x7d")])) := by
  simp only [Expr.render, String.append_assoc]
  rw [words_append_separator (by decide), words_append_separator (by decide),
    words_append_of_head (by decide), words_of_spells ht, words_opening, words_then, words_end]
  rfl

theorem words_call (token : Token) (callee : Expr) (arguments : List Expr) :
    words (Expr.call token callee arguments).render =
      words callee.render ++ (.leftParen, "(") ::
        (words (commaSeparated (renderAll arguments)) ++ [(.rightParen, ")")]) := by
  simp only [Expr.render, String.append_assoc]
  rw [words_append_separator (by decide), words_append_of_head (by decide), words_opening,
    words_closing]
  rfl

theorem words_commaSeparated (item : String) (items : List String) :
    words (commaSeparated (item :: items)) =
      words item ++ items.flatMap fun other => (.comma, ",") :: words other := by
  induction items generalizing item with
  | nil => simp [commaSeparated]
  | cons other items ih =>
      have hcons : commaSeparated (item :: other :: items) =
          item ++ (", " ++ commaSeparated (other :: items)) := by
        rw [commaSeparated, String.intercalate_cons_cons, String.append_assoc]
        rfl
      rw [hcons, words_append_separator (by decide), ih, words_comma]
      rfl

/-! ## Statements -/

theorem words_letStmt {token : Token} {name : Identifier} (ht : Spells .letWord token.literal)
    (hn : Spells .identifier name.name) (value : Expr) :
    words (Stmt.letStmt token name value).render =
      (.letWord, token.literal) :: (.identifier, name.name) :: (.assign, "=") ::
        (words value.render ++ [(.semicolon, ";")]) := by
  simp only [Stmt.render, String.append_assoc]
  rw [words_append_separator (by decide), words_append_separator (by decide),
    words_append_of_head (by decide), words_of_spells ht, words_of_spells hn, words_gap,
    words_sign, words_semicolon]
  rfl

theorem words_returnStmt {token : Token} (ht : Spells .returnWord token.literal) (value : Expr) :
    words (Stmt.returnStmt token value).render =
      (.returnWord, token.literal) :: (words value.render ++ [(.semicolon, ";")]) := by
  simp only [Stmt.render, String.append_assoc]
  rw [words_append_separator (by decide), words_append_of_head (by decide), words_of_spells ht,
    words_gap, words_semicolon]
  rfl

theorem exists_head_statements {stmt : Stmt} {stmts : List Stmt}
    (h : SpelledStatements (stmt :: stmts)) : ∃ c,
      (renderStatements (stmt :: stmts)).toList.head? = some c ∧ isOpening c = true := by
  obtain ⟨c, hc, ho⟩ := Stmt.exists_head h.1
  exact ⟨c, head?_append hc _, ho⟩

theorem words_append_statements {text : String} {stmts : List Stmt} (h : SpelledStatements stmts)
    (hj : runsInto text (renderStatements stmts) = false) :
    words (text ++ renderStatements stmts) = words text ++ words (renderStatements stmts) := by
  cases stmts with
  | nil => rw [renderStatements, words_empty, String.append_empty, List.append_nil]
  | cons stmt stmts =>
      obtain ⟨d, hd, ho⟩ := exists_head_statements h
      apply words_append
      intro c hc d' hd'
      rw [hd] at hd'
      cases hd'
      rw [runsInto, Option.mem_def.mp hc, hd] at hj
      simp only [joins, Bool.or_eq_false_iff] at hj
      rw [merges_opening ho, hj.1.2, hj.2]
      rfl

theorem words_statements {stmt : Stmt} {stmts : List Stmt} (h : SpelledStatements stmts)
    (hj : (stmt.isOpen && runsInto stmt.render (renderStatements stmts)) = false) :
    words (renderStatements (stmt :: stmts)) =
      words stmt.render ++ words (renderStatements stmts) := by
  rw [renderStatements]
  cases stmt with
  | exprStmt _ expr => exact words_append_statements h hj
  | letStmt _ _ _ | returnStmt _ _ =>
      apply words_append_of_last
      rw [Stmt.render, String.toList_append, List.getLast?_append]
      rfl

end ClosureLang
