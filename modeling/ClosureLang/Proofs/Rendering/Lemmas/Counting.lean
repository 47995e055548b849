import ClosureLang.Proofs.Rendering.Lemmas.Words

/-!
# Counting words and calls

A tree can be counted from the tokens it is derived from: two for each word and number, less one for
each parenthesis that is not there for grouping. Where the text of a statement runs into the text
behind it, the tokens of the text count less than the tree.
-/

namespace ClosureLang

open Grammar

/-! ## Counting tokens -/

/-- The kinds behind which a parenthesis is not there for grouping. -/
def Kind.isEnd : Kind → Bool
  | identifier | integer | trueWord | falseWord | rightParen | rightBrace | ifWord | fnWord => true
  | _ => false

/-- What one token counts, `behind` being whether the token in front of it is such a one. -/
def points (behind : Bool) (kind : Kind) : Int :=
  (if kind.isRun then 2 else 0) - if behind && kind = .leftParen then 1 else 0

def score : Bool → List Kind → Int
  | _, [] => 0
  | behind, kind :: kinds => points behind kind + score kind.isEnd kinds

/-- Whether the last token is one behind which a parenthesis is not there for grouping. -/
def isEnded : Bool → List Kind → Bool
  | behind, [] => behind
  | _, kind :: kinds => isEnded kind.isEnd kinds

theorem score_append (behind : Bool) (a b : List Kind) :
    score behind (a ++ b) = score behind a + score (isEnded behind a) b := by
  induction a generalizing behind with
  | nil => simp [score, isEnded]
  | cons kind a ih => simp only [List.cons_append, score, isEnded, ih, Int.add_assoc]

theorem isEnded_append (behind : Bool) (a b : List Kind) :
    isEnded behind (a ++ b) = isEnded (isEnded behind a) b := by
  induction a generalizing behind with
  | nil => rfl
  | cons kind a ih => simp only [List.cons_append, isEnded, ih]

theorem points_of_isRun {kind : Kind} (h : kind.isRun = true) (behind : Bool) :
    points behind kind = 2 := by
  cases kind <;> first | exact absurd h (by decide) | (cases behind <;> rfl)

theorem score_eq_of_head {kinds : List Kind} (h : kinds.head? ≠ some .leftParen) (behind : Bool) :
    score behind kinds = score false kinds := by
  cases kinds with
  | nil => rfl
  | cons kind kinds =>
      have hk : kind ≠ .leftParen := by simpa using h
      simp [score, points, hk]

theorem score_paren (kinds : List Kind) :
    score true (.leftParen :: kinds) = score false (.leftParen :: kinds) - 1 := by
  simp [score, points, Kind.isRun]
  omega

theorem score_le_add_one (a b : Bool) (kinds : List Kind) : score a kinds ≤ score b kinds + 1 := by
  cases kinds with
  | nil => simp [score]
  | cons kind kinds =>
      have h : points a kind ≤ points b kind + 1 := by
        cases a <;> cases b <;> cases kind <;> decide
      simp only [score]
      omega

/-! ## Counting trees -/

mutual

def Stmt.score : Stmt → Int
  | .letStmt _ _ value => 4 + value.score
  | .returnStmt _ value => 2 + value.score
  | .exprStmt _ expr => expr.score

def scoreStatements : List Stmt → Int
  | [] => 0
  | stmt :: stmts => stmt.score + scoreStatements stmts

def Block.score : Block → Int
  | ⟨_, statements⟩ => scoreStatements statements

/-- What the tokens count that a tree is derived from. -/
def Expr.score : Expr → Int
  | .identifier _ => 2
  | .integer _ _ => 2
  | .boolean _ _ => 2
  | .prefixed _ _ right => right.score
  | .infixed _ left _ right => left.score + right.score
  | .conditional _ condition consequence alternative =>
    1 + condition.score + consequence.score + scoreAlternative alternative
  | .function _ parameters body => 1 + 2 * parameters.length + body.score
  | .call _ callee arguments => callee.score - 1 + scoreAll arguments

def scoreAlternative : Option Block → Int
  | none => 0
  | some block => 2 + block.score

def scoreAll : List Expr → Int
  | [] => 0
  | expr :: exprs => expr.score + scoreAll exprs

end

/-! ## Counting derivations -/

def kindsOf (tokens : List Token) : List Kind :=
  tokens.map Token.kind

@[simp] theorem kindsOf_nil : kindsOf [] = [] := rfl

@[simp] theorem kindsOf_cons (t : Token) (ts : List Token) :
    kindsOf (t :: ts) = t.kind :: kindsOf ts := rfl

@[simp] theorem kindsOf_append (ts us : List Token) :
    kindsOf (ts ++ us) = kindsOf ts ++ kindsOf us :=
  List.map_append

theorem operator_not_counted {level : Level} {kind : Kind} {op : InfixOp}
    (h : level.operator? kind = some op) (behind : Bool) :
    points behind kind = 0 ∧ kind.isEnd = false := by
  cases level <;> cases kind <;>
    simp only [Level.operator?, reduceCtorEq] at h <;> cases behind <;> exact ⟨rfl, rfl⟩

theorem isEnded_body {tokens : List Token} {block : Block} (h : Body tokens block) (behind : Bool) :
    isEnded behind (kindsOf tokens) = true := by
  cases h with
  | braces _ _ hc => simp [isEnded, isEnded_append, hc, Kind.isEnd]

theorem isEnded_expression {level : Level} {tokens : List Token} {expr : Expr}
    (h : Expression level tokens expr) (behind : Bool) :
    isEnded behind (kindsOf tokens) = true := by
  match h with
  | .tighter _ h => exact isEnded_expression h behind
  | .infixed _ _ _ h =>
      rw [kindsOf_append, isEnded_append]
      exact isEnded_expression h _
  | .not _ h | .negate _ h => exact isEnded_expression h _
  | .identifier hk | .integer hk _ | .true hk | .false hk => simp [isEnded, hk, Kind.isEnd]
  | .call _ _ _ hk | .grouped _ _ hk => simp [isEnded, isEnded_append, hk, Kind.isEnd]
  | .conditional _ _ _ _ hb | .function _ _ _ _ hb | .alternative _ _ _ _ _ _ hb =>
      simp [isEnded, isEnded_append, isEnded_body hb]

theorem score_moreParameters {tokens : List Token} {names : List Identifier}
    (h : MoreParameters tokens names) (behind : Bool) :
    score behind (kindsOf tokens) = 2 * names.length := by
  induction h generalizing behind with
  | nil => rfl
  | cons hcomma hname _ ih =>
      simp [score, points, hcomma, hname, Kind.isRun, ih]
      omega

theorem score_parameters {tokens : List Token} {names : List Identifier}
    (h : Parameters tokens names) (behind : Bool) :
    score behind (kindsOf tokens) = 2 * names.length := by
  cases h with
  | nil => rfl
  | cons hname hmore =>
      simp [score, points, hname, Kind.isRun, score_moreParameters hmore]
      omega

mutual

theorem score_expression {level : Level} {tokens : List Token} {expr : Expr}
    (h : Expression level tokens expr) : score false (kindsOf tokens) = expr.score := by
  match h with
  | .tighter _ h => exact score_expression h
  | @Expression.infixed _ _ sign _ _ _ _ _ hop _ hl hr =>
      have hsign := operator_not_counted hop
      rw [kindsOf_append, kindsOf_cons, score_append, score, (hsign _).1, (hsign true).2,
        score_expression hl, score_expression hr, Expr.score]
      omega
  | .not hk h | .negate hk h =>
      simp [score, points, hk, Kind.isRun, Kind.isEnd, score_expression h, Expr.score]
  | .identifier hk | .integer hk _ | .true hk | .false hk =>
      simp [score, points, hk, Kind.isRun, Expr.score]
  | .call hc ho ha hk =>
      simp [score, score_append, isEnded_expression hc, points, ho, hk, Kind.isRun, Kind.isEnd,
        score_expression hc, score_arguments ha, Expr.score]
      omega
  | .grouped ho h hc =>
      simp [score, score_append, points, ho, hc, Kind.isRun, Kind.isEnd, score_expression h]
  | .conditional hw ho hc hk hb =>
      simp [score, score_append, points, hw, ho, hk, Kind.isRun, Kind.isEnd, score_expression hc,
        score_body hb, Expr.score, scoreAlternative]
      omega
  | .alternative hw ho hc hk hb he ha =>
      simp [score, score_append, points, hw, ho, hk, he, Kind.isRun, Kind.isEnd,
        score_expression hc, score_body hb, score_body ha, Expr.score, scoreAlternative]
      omega
  | .function hw ho hp hk hb =>
      simp [score, score_append, points, hw, ho, hk, Kind.isRun, Kind.isEnd, score_parameters hp,
        score_body hb, Expr.score]
      omega

theorem score_arguments {tokens : List Token} {args : List Expr} (h : Arguments tokens args) :
    score false (kindsOf tokens) = scoreAll args := by
  match h with
  | .nil => rfl
  | .cons ha hm =>
      rw [kindsOf_append, score_append, score_expression ha, score_moreArguments hm, scoreAll]

theorem score_moreArguments {tokens : List Token} {args : List Expr}
    (h : MoreArguments tokens args) (behind : Bool) :
    score behind (kindsOf tokens) = scoreAll args := by
  match h with
  | .nil => rfl
  | .cons hk ha hm =>
      simp [score, score_append, points, hk, Kind.isRun, Kind.isEnd, score_expression ha,
        score_moreArguments hm, scoreAll]

theorem score_body {tokens : List Token} {block : Block} (h : Body tokens block) (behind : Bool) :
    score behind (kindsOf tokens) = block.score := by
  match h with
  | .braces ho hb hc =>
      simp [score, score_append, points, ho, hc, Kind.isRun, Kind.isEnd, score_statements hb,
        Block.score]

theorem score_statement {tokens : List Token} {stmt : Stmt} (h : Statement tokens stmt) :
    score false (kindsOf tokens) = stmt.score := by
  match h with
  | .letStmt hk hn hs hv =>
      simp [score, points, hk, hn, hs, Kind.isRun, Kind.isEnd, score_expression hv, Stmt.score]
      omega
  | .returnStmt hk hv =>
      simp [score, points, hk, Kind.isRun, Kind.isEnd, score_expression hv, Stmt.score]
  | .exprStmt hv => exact score_expression hv

theorem score_statements {tokens : List Token} {stmts : List Stmt} (h : Statements tokens stmts) :
    score false (kindsOf tokens) = scoreStatements stmts := by
  match h with
  | .nil => rfl
  | .ended hstmt hk hrest =>
      simp [score, score_append, points, hk, Kind.isRun, Kind.isEnd, score_statement hstmt,
        score_statements hrest, scoreStatements]
  | @Statements.unended _ _ rest _ hstmt hnext hrest =>
      have hhead : (kindsOf rest).head? ≠ some .leftParen := by
        cases rest with
        | nil => simp
        | cons next rest =>
            have hk := hnext next rfl
            simp only [kindsOf_cons, List.head?_cons, ne_eq, Option.some.injEq]
            intro hparen
            rw [hparen] at hk
            cases hk
      rw [kindsOf_append, score_append, score_eq_of_head hhead, score_statement hstmt,
        score_statements hrest, scoreStatements]

end

/-! ## Counting texts -/

/-- The kinds of the tokens of a text. -/
def kindsIn (text : String) : List Kind :=
  (words text).map Prod.fst

theorem kindsIn_eq (text : String) : kindsIn text = kindsOf (scan text) := by
  rw [kindsIn, words, List.map_map]
  rfl

/-- The number is not above the bound, and below it unless `p`. -/
def AtMost (n bound : Int) (p : Prop) : Prop :=
  n ≤ bound ∧ (n = bound → p)

theorem AtMost.of_eq {n bound : Int} {p : Prop} (h : n = bound) (hp : p) : AtMost n bound p :=
  ⟨Int.le_of_eq h, fun _ => hp⟩

theorem AtMost.add {n m a b : Int} {p q : Prop} (h : AtMost n a p) (h' : AtMost m b q) :
    AtMost (n + m) (a + b) (p ∧ q) := by
  obtain ⟨hn, hp⟩ := h
  obtain ⟨hm, hq⟩ := h'
  exact ⟨by omega, fun heq => ⟨hp (by omega), hq (by omega)⟩⟩

theorem AtMost.add_left {n a : Int} {p : Prop} (k : Int) (h : AtMost n a p) :
    AtMost (k + n) (k + a) p :=
  ⟨by have := h.1; omega, fun heq => h.2 (by omega)⟩

theorem AtMost.trans {n m bound : Int} {p q : Prop} (h : AtMost n m p) (h' : AtMost m bound q) :
    AtMost n bound (p ∧ q) := by
  obtain ⟨hn, hp⟩ := h
  obtain ⟨hm, hq⟩ := h'
  exact ⟨by omega, fun heq => ⟨hp (by omega), hq (by omega)⟩⟩

theorem score_merged {p : Char → Bool} {kindOf : List Char → Kind} (hp : RunOf p kindOf)
    {a b : String} {c d : Char} (ha : a.toList.getLast? = some c) (hc : p c = true)
    (hb : b.toList.head? = some d) (hd : p d = true) :
    score false (kindsIn (a ++ b)) < score false (kindsIn a) + score false (kindsIn b) := by
  obtain ⟨front, behind, v, w, hv, hw, hvw⟩ := hp.words_merged ha hc hb hd
  simp only [kindsIn, hv, hw, hvw, List.map_append, List.map_cons, List.map_nil, score_append,
    score, points_of_isRun (hp.isRun _)]
  -- A word is lost, which a parenthesis behind it can make up for in part only.
  have hle := score_le_add_one (kindOf (v ++ w)).isEnd (kindOf w).isEnd (behind.map Prod.fst)
  omega

theorem score_merges {text rest : String} {c d : Char} (hc : text.toList.getLast? = some c)
    (hd : rest.toList.head? = some d) (ho : isOpening d = true) (hm : merges c d = true) :
    score false (kindsIn (text ++ rest)) <
      score false (kindsIn text) + score false (kindsIn rest) := by
  rw [merges_opening ho, Bool.or_eq_true, Bool.and_eq_true, Bool.and_eq_true] at hm
  cases hm with
  | inl h => exact score_merged runOf_letters hc h.1 hd h.2
  | inr h => exact score_merged runOf_digits hc h.1 hd h.2

theorem score_apart {text rest : String} (h : Apart text.toList rest.toList)
    (hend : isEnded false (kindsIn text) = true) :
    score false (kindsIn (text ++ rest)) =
      score false (kindsIn text) + score true (kindsIn rest) := by
  simp only [kindsIn] at hend ⊢
  rw [words_append h, List.map_append, score_append, hend]

theorem kindsIn_opening {text : String} {d : Char} {tail : List Char} (h : text.toList = d :: tail)
    (ho : isOpening d = true) :
    kindsIn text = (lexeme d tail).1 ::
      kindsIn (String.ofList (tail.drop (lexeme d tail).2.length)) := by
  rw [kindsIn, ← String.ofList_toList (s := text), h, words_cons (not_blank_of_opening ho)]
  rfl

/-- Behind an expression a text counts one less if it begins with a parenthesis. -/
theorem score_opening {text : String} {d : Char} (hd : text.toList.head? = some d)
    (ho : isOpening d = true) :
    score true (kindsIn text) = score false (kindsIn text) - if d = '(' then 1 else 0 := by
  obtain ⟨tail, htail⟩ := List.head?_eq_some_iff.mp hd
  have hkinds := kindsIn_opening htail ho
  by_cases hparen : d = '('
  · subst hparen
    have hlexeme : lexeme '(' tail = (.leftParen, []) := by
      simp [lexeme, withEqualSign?, symbolKind]
    simp only [hlexeme] at hkinds
    rw [hkinds, score_paren, if_pos rfl]
  · have hhead : (kindsIn text).head? ≠ some .leftParen := by
      have hruns := runsOn_lexeme ho hparen tail
      rw [hkinds, List.head?_cons, ne_eq, Option.some.injEq]
      intro hk
      rw [hk] at hruns
      cases hruns
    rw [score_eq_of_head hhead, if_neg hparen, Int.sub_zero]

/-- Where a text ends with an expression, the statements behind it count less if it runs into them.
-/
theorem score_seam {text : String} {stmts : List Stmt} (hs : SpelledStatements stmts)
    (hend : isEnded false (kindsIn text) = true) :
    AtMost (score false (kindsIn (text ++ renderStatements stmts)))
      (score false (kindsIn text) + score false (kindsIn (renderStatements stmts)))
      (runsInto text (renderStatements stmts) = false) := by
  cases stmts with
  | nil =>
      apply AtMost.of_eq
      · rw [renderStatements, String.append_empty, kindsIn, kindsIn, words_empty]
        exact (Int.add_zero _).symm
      · cases h : text.toList.getLast? <;> simp [runsInto, renderStatements, h]
  | cons stmt stmts =>
      obtain ⟨d, hd, ho⟩ := exists_head_statements hs
      generalize renderStatements (stmt :: stmts) = rest at hd ⊢
      have hne : text.toList ≠ [] := by
        intro hnil
        rw [String.toList_eq_nil_iff.mp hnil, kindsIn, words_empty] at hend
        cases hend
      obtain ⟨c, hc⟩ : ∃ c, text.toList.getLast? = some c :=
        ⟨_, List.getLast?_eq_some_getLast hne⟩
      -- The two texts are read as one word, as a call, or as they stand.
      cases hm : merges c d with
      | true =>
          have hlt := score_merges hc hd ho hm
          exact ⟨Int.le_of_lt hlt, fun heq => absurd heq (Int.ne_of_lt hlt)⟩
      | false =>
          have happart : Apart text.toList rest.toList := by
            intro x hx y hy
            rw [hc] at hx
            rw [hd] at hy
            cases hx
            cases hy
            exact hm
          rw [score_apart happart hend, score_opening hd ho]
          by_cases hparen : d = '('
          · rw [if_pos hparen]
            exact ⟨by omega, fun heq => absurd heq (by omega)⟩
          · rw [if_neg hparen, Int.sub_zero]
            refine AtMost.of_eq rfl ?_
            rw [merges_opening ho, Bool.or_eq_false_iff] at hm
            simp [runsInto, hc, hd, joins, hparen, hm.1, hm.2]

theorem isEnded_closed {stmt : Stmt} (hs : stmt.Spelled) (h : stmt.isOpen = false) (behind : Bool) :
    isEnded behind (kindsIn stmt.render) = false := by
  cases stmt with
  | letStmt _ _ _ => simp [kindsIn, words_letStmt hs.1 hs.2.1, isEnded, isEnded_append, Kind.isEnd]
  | returnStmt _ _ => simp [kindsIn, words_returnStmt hs.1, isEnded, isEnded_append, Kind.isEnd]
  | exprStmt _ _ => cases h

theorem isEnded_render (expr : Expr) (hs : expr.Spelled) (behind : Bool) :
    isEnded behind (kindsIn expr.render) = true := by
  match expr with
  | .identifier _ => simp [kindsIn, Expr.render, words_of_spells hs, isEnded, Kind.isEnd]
  | .integer _ _ => simp [kindsIn, Expr.render, words_of_spells hs.1, isEnded, Kind.isEnd]
  | .boolean _ true | .boolean _ false =>
      simp [kindsIn, Expr.render, words_of_spells hs, isEnded, Kind.isEnd]
  | .prefixed _ op right =>
      have hright : right.Spelled := hs
      simp [kindsIn, words_prefixed _ op hright, isEnded, isEnded_append, Kind.isEnd]
  | .infixed _ left op right => simp [kindsIn, words_infixed, isEnded, isEnded_append, Kind.isEnd]
  | .conditional _ condition consequence none =>
      simp [kindsIn, words_conditional, renderAlternative, words_empty, isEnded, isEnded_append,
        Kind.isEnd]
  | .conditional _ condition consequence (some alternative) =>
      simp [kindsIn, words_conditional, words_alternative, isEnded, isEnded_append, Kind.isEnd]
  | .function token parameters body =>
      simp [kindsIn, words_function hs.1, isEnded, isEnded_append, Kind.isEnd]
  | .call _ callee arguments => simp [kindsIn, words_call, isEnded, isEnded_append, Kind.isEnd]

theorem score_before {stmt : Stmt} {stmts : List Stmt} (hs : SpelledStatements (stmt :: stmts)) :
    AtMost (score false (kindsIn (renderStatements (stmt :: stmts))))
      (score false (kindsIn stmt.render) + score false (kindsIn (renderStatements stmts)))
      ((stmt.isOpen && runsInto stmt.render (renderStatements stmts)) = false) := by
  cases hopen : stmt.isOpen with
  | true =>
      cases stmt with
      | exprStmt _ expr => exact score_seam hs.2 (isEnded_render expr hs.1 false)
      | letStmt _ _ _ | returnStmt _ _ => cases hopen
  | false =>
      have hjoin : (stmt.isOpen && runsInto stmt.render (renderStatements stmts)) = false := by
        rw [hopen, Bool.false_and]
      refine AtMost.of_eq ?_ (Bool.false_and _)
      have hend := isEnded_closed hs.1 hopen false
      simp only [kindsIn] at hend ⊢
      rw [words_statements hs.2 hjoin, List.map_append, score_append, hend]

theorem score_moreNames {names : List String} (hs : ∀ name ∈ names, Spells .identifier name)
    (behind : Bool) :
    score behind ((names.flatMap fun other => (.comma, ",") :: words other).map Prod.fst) =
      2 * names.length := by
  induction names generalizing behind with
  | nil => rfl
  | cons name names ih =>
      have hrest := ih fun n hn => hs n (List.mem_cons_of_mem name hn)
      simp [words_of_spells (hs name List.mem_cons_self), score, points, Kind.isRun]
      rw [hrest]
      omega

theorem score_names {names : List String} (hs : ∀ name ∈ names, Spells .identifier name)
    (behind : Bool) :
    score behind (kindsIn (commaSeparated names)) = 2 * names.length := by
  cases names with
  | nil => rw [kindsIn, commaSeparated, String.intercalate_nil, words_empty]; rfl
  | cons name names =>
      have hrest := score_moreNames fun n hn => hs n (List.mem_cons_of_mem name hn)
      rw [kindsIn, words_commaSeparated, words_of_spells (hs name List.mem_cons_self)]
      simp [score, points, Kind.isRun]
      rw [hrest]
      omega

mutual

theorem score_render (expr : Expr) (hs : expr.Spelled) :
    AtMost (score false (kindsIn expr.render)) expr.score (expr.separated = true) := by
  match expr with
  | .identifier _ =>
      apply AtMost.of_eq _ rfl
      simp [kindsIn, Expr.render, words_of_spells hs, score, points, Kind.isRun, Expr.score]
  | .integer _ _ =>
      apply AtMost.of_eq _ rfl
      simp [kindsIn, Expr.render, words_of_spells hs.1, score, points, Kind.isRun, Expr.score]
  | .boolean _ true | .boolean _ false =>
      apply AtMost.of_eq _ rfl
      simp [kindsIn, Expr.render, words_of_spells hs, score, points, Kind.isRun, Expr.score]
  | .prefixed token op right =>
      have hright : right.Spelled := hs
      have hscore : score false (kindsIn (Expr.prefixed token op right).render) =
          score false (kindsIn right.render) := by
        cases op <;> simp [kindsIn, words_prefixed _ _ hright, score, score_append, points,
          Kind.isRun, Kind.isEnd, PrefixOp.kind]
      rw [hscore]
      exact score_render right hright
  | .infixed token left op right =>
      have hscore : score false (kindsIn (Expr.infixed token left op right).render) =
          score false (kindsIn left.render) + score false (kindsIn right.render) := by
        cases op <;> simp [kindsIn, words_infixed, score, score_append, points, Kind.isRun,
          Kind.isEnd, InfixOp.kind]
      rw [hscore, Expr.score, Expr.separated, Bool.and_eq_true]
      exact (score_render left hs.1).add (score_render right hs.2)
  | .conditional token condition consequence alternative =>
      have hscore : score false
          (kindsIn (Expr.conditional token condition consequence alternative).render) =
            1 + score false (kindsIn condition.render) + score false (kindsIn consequence.render) +
              score true (kindsIn (renderAlternative alternative)) := by
        simp [kindsIn, words_conditional, score, score_append, points, Kind.isRun, Kind.isEnd]
        omega
      rw [hscore, Expr.score, Expr.separated, Bool.and_eq_true, Bool.and_eq_true]
      have hcondition := (score_render condition hs.1).add_left 1
      exact (hcondition.add (score_renderBlock consequence hs.2.1)).add
        (score_renderAlternative alternative hs.2.2 true)
  | .function token parameters body =>
      have hnames : ∀ name ∈ parameters.map Identifier.name, Spells .identifier name := by
        intro name hname
        obtain ⟨parameter, hmem, rfl⟩ := List.mem_map.mp hname
        exact hs.2.1 parameter hmem
      have hscore : score false (kindsIn (Expr.function token parameters body).render) =
          1 + 2 * parameters.length + score false (kindsIn body.render) := by
        have hparameters := score_names hnames false
        simp only [kindsIn, List.length_map] at hparameters
        simp [kindsIn, words_function hs.1, score, score_append, points, Kind.isRun, Kind.isEnd,
          hparameters]
        omega
      rw [hscore, Expr.score, Expr.separated]
      exact (score_renderBlock body hs.2.2).add_left _
  | .call token callee arguments =>
      have hscore : score false (kindsIn (Expr.call token callee arguments).render) =
          score false (kindsIn callee.render) +
            (-1 + score false (kindsIn (commaSeparated (renderAll arguments)))) := by
        have hend := isEnded_render callee hs.1 false
        simp only [kindsIn] at hend
        simp [kindsIn, words_call, score, score_append, hend, points, Kind.isRun, Kind.isEnd]
      have hbound : (Expr.call token callee arguments).score =
          callee.score + (-1 + scoreAll arguments) := by
        rw [Expr.score]
        omega
      rw [hscore, hbound, Expr.separated, Bool.and_eq_true]
      exact (score_render callee hs.1).add ((score_renderAll arguments hs.2).add_left (-1))

theorem score_renderAlternative (alternative : Option Block) (hs : SpelledAlternative alternative)
    (behind : Bool) :
    AtMost (score behind (kindsIn (renderAlternative alternative))) (scoreAlternative alternative)
      (separatedAlternative alternative = true) := by
  match alternative with
  | none =>
      apply AtMost.of_eq _ rfl
      rw [kindsIn, renderAlternative, words_empty]
      rfl
  | some block =>
      have hscore : score behind (kindsIn (renderAlternative (some block))) =
          2 + score false (kindsIn block.render) := by
        simp [kindsIn, words_alternative, score, score_append, points, Kind.isRun, Kind.isEnd]
      rw [hscore]
      exact (score_renderBlock block hs).add_left 2

theorem score_renderAll (exprs : List Expr) (hs : SpelledAll exprs) :
    AtMost (score false (kindsIn (commaSeparated (renderAll exprs)))) (scoreAll exprs)
      (separatedAll exprs = true) := by
  match exprs with
  | [] =>
      apply AtMost.of_eq _ rfl
      rw [renderAll, kindsIn, commaSeparated, String.intercalate_nil, words_empty]
      rfl
  | expr :: exprs =>
      rw [renderAll, kindsIn, words_commaSeparated, List.map_append, score_append, scoreAll,
        separatedAll, Bool.and_eq_true]
      exact (score_render expr hs.1).add (score_renderMore exprs hs.2 _)

theorem score_renderMore (exprs : List Expr) (hs : SpelledAll exprs) (behind : Bool) :
    AtMost (score behind (((renderAll exprs).flatMap fun other =>
        (.comma, ",") :: words other).map Prod.fst)) (scoreAll exprs)
      (separatedAll exprs = true) := by
  match exprs with
  | [] => exact AtMost.of_eq rfl rfl
  | expr :: exprs =>
      have hcomma : points behind .comma = 0 := by cases behind <;> rfl
      rw [renderAll, List.flatMap_cons, List.cons_append, List.map_cons, List.map_append, score,
        hcomma, Int.zero_add, score_append, scoreAll, separatedAll, Bool.and_eq_true]
      exact (score_render expr hs.1).add (score_renderMore exprs hs.2 _)

theorem score_renderBlock (block : Block) (hs : block.Spelled) :
    AtMost (score false (kindsIn block.render)) block.score (block.separated = true) := by
  match block with
  | ⟨_, stmts⟩ => exact score_renderStatements stmts hs

theorem score_renderStmt (stmt : Stmt) (hs : stmt.Spelled) :
    AtMost (score false (kindsIn stmt.render)) stmt.score (stmt.separated = true) := by
  match stmt with
  | .letStmt token name value =>
      have hscore : score false (kindsIn (Stmt.letStmt token name value).render) =
          4 + score false (kindsIn value.render) := by
        simp [kindsIn, words_letStmt hs.1 hs.2.1, score, score_append, points, Kind.isRun,
          Kind.isEnd]
        omega
      rw [hscore]
      exact (score_render value hs.2.2).add_left 4
  | .returnStmt token value =>
      have hscore : score false (kindsIn (Stmt.returnStmt token value).render) =
          2 + score false (kindsIn value.render) := by
        simp [kindsIn, words_returnStmt hs.1, score, score_append, points, Kind.isRun, Kind.isEnd]
      rw [hscore]
      exact (score_render value hs.2).add_left 2
  | .exprStmt _ expr => exact score_render expr hs

theorem score_renderStatements (stmts : List Stmt) (hs : SpelledStatements stmts) :
    AtMost (score false (kindsIn (renderStatements stmts))) (scoreStatements stmts)
      (separatedStatements stmts = true) := by
  match stmts with
  | [] =>
      apply AtMost.of_eq _ rfl
      rw [renderStatements, kindsIn, words_empty]
      rfl
  | stmt :: stmts =>
      have hstmt := score_renderStmt stmt hs.1
      have hrest := score_renderStatements stmts hs.2
      simp only [scoreStatements, separatedStatements, Bool.and_eq_true, Bool.not_eq_true']
      have h := (score_before hs).trans (hstmt.add hrest)
      exact ⟨h.1, fun heq => ⟨⟨(h.2 heq).2.1, (h.2 heq).1⟩, (h.2 heq).2.2⟩⟩

end

end ClosureLang
