import ClosureLang.Proofs.Grammar.Theorems
import ClosureLang.Proofs.Rendering.Bare
import ClosureLang.Proofs.Rendering.Lemmas.Words

/-!
# Reading a rendered tree again

Whatever tokens the words of a tree's text belong to, the grammar derives from them a tree that
differs from the first one in its tokens alone.
-/

namespace ClosureLang

open Grammar

/-! ## Taking tokens apart by their words -/

theorem exists_token {tokens : List Token} {kind : Kind} {literal : String}
    {behind : List (Kind × String)} (h : tokens.map Token.word = (kind, literal) :: behind) :
    ∃ t rest, tokens = t :: rest ∧ t.kind = kind ∧ t.literal = literal ∧
      rest.map Token.word = behind := by
  obtain ⟨t, rest, htokens, hword, hrest⟩ := List.map_eq_cons_iff.mp h
  exact ⟨t, rest, htokens, congrArg Prod.fst hword, congrArg Prod.snd hword, hrest⟩

theorem exists_last_token {tokens : List Token} {kind : Kind} {literal : String}
    (h : tokens.map Token.word = [(kind, literal)]) :
    ∃ t, tokens = [t] ∧ t.kind = kind ∧ t.literal = literal := by
  obtain ⟨t, rest, htokens, hk, hl, hrest⟩ := exists_token h
  rw [List.map_eq_nil_iff.mp hrest] at htokens
  exact ⟨t, htokens, hk, hl⟩

/-! ## The grammar -/

theorem Grammar.Expression.parenthesized {level : Level} {opening closing : Token}
    {tokens : List Token} {expr : Expr} (ho : opening.kind = .leftParen)
    (h : Expression level tokens expr) (hc : closing.kind = .rightParen) :
    Expression .call (opening :: (tokens ++ [closing])) expr :=
  .tighter (by decide) (.grouped ho h.loosest hc)

theorem InfixOp.exists_level (op : InfixOp) :
    ∃ level : Level, level.operator? op.kind = some op ∧ level.rank < Level.call.rank := by
  have hop : InfixOp.ofKind? op.kind = some op := by cases op <;> rfl
  obtain ⟨level, hlevel, _, hrank⟩ := Grammar.exists_level hop
  exact ⟨level, hlevel, Nat.lt_trans hrank (by decide)⟩

/-- The word behind a text that does not run into it does not continue an expression. -/
theorem next_not_runsOn {text : String} {c : Char} (hc : text.toList.head? = some c)
    {stmts : List Stmt} (hs : SpelledStatements stmts)
    (hj : runsInto text (renderStatements stmts) = false) {tokens : List Token}
    (ht : tokens.map Token.word = words (renderStatements stmts)) :
    ∀ next ∈ tokens.head?, runsOn next.kind = false := by
  cases stmts with
  | nil =>
      rw [List.map_eq_nil_iff.mp (ht.trans words_empty)]
      simp
  | cons stmt stmts =>
      obtain ⟨d, hd, ho⟩ := exists_head_statements hs
      obtain ⟨rest, hrest⟩ := List.head?_eq_some_iff.mp hd
      have hlast : text.toList ≠ [] := by
        intro hnil
        rw [hnil] at hc
        cases hc
      rw [runsInto, List.getLast?_eq_some_getLast hlast, hd] at hj
      simp only [joins, Bool.or_eq_false_iff, beq_eq_false_iff_ne] at hj
      have hnext := runsOn_lexeme ho hj.1.1 rest
      rw [← String.ofList_toList (s := renderStatements _), hrest, words_cons] at ht
      · obtain ⟨next, others, rfl, hk, _⟩ := exists_token ht
        intro t hmem
        cases hmem
        rwa [hk]
      · exact not_blank_of_opening ho

theorem exists_block {tokens : List Token} {block ws : List (Kind × String)}
    (ht : tokens.map Token.word =
      (.leftBrace, "\x7b") :: (block ++ (.rightBrace, "\x7d") :: ws)) :
    ∃ bs as, tokens = bs ++ as ∧
      bs.map Token.word = (.leftBrace, "\x7b") :: (block ++ [(.rightBrace, "\x7d")]) ∧
      as.map Token.word = ws := by
  apply List.map_eq_append_iff.mp
  rw [ht]
  simp

/-! ## Parameters -/

theorem reread_moreParameters {names : List Identifier}
    (hs : ∀ name ∈ names, Spells .identifier name.name) {tokens : List Token}
    (ht : tokens.map Token.word =
      (names.map Identifier.name).flatMap fun other => (.comma, ",") :: words other) :
    ∃ again, MoreParameters tokens again ∧
      again.map Identifier.bare = names.map Identifier.bare := by
  induction names generalizing tokens with
  | nil => exact ⟨[], List.map_eq_nil_iff.mp ht ▸ .nil, rfl⟩
  | cons name names ih =>
      rw [List.map_cons, List.flatMap_cons, words_of_spells (hs name List.mem_cons_self)] at ht
      obtain ⟨comma, _, rfl, hcomma, _, ht⟩ := exists_token ht
      obtain ⟨first, rest, rfl, hfirst, hliteral, ht⟩ := exists_token ht
      obtain ⟨again, hmore, hbare⟩ := ih (fun n hn => hs n (List.mem_cons_of_mem name hn)) ht
      refine ⟨⟨first, first.literal⟩ :: again, .cons hcomma hfirst hmore, ?_⟩
      rw [List.map_cons, List.map_cons, hbare]
      simp [Identifier.bare, hliteral]

theorem reread_parameters {names : List Identifier}
    (hs : ∀ name ∈ names, Spells .identifier name.name) {tokens : List Token}
    (ht : tokens.map Token.word = words (commaSeparated (names.map Identifier.name))) :
    ∃ again, Parameters tokens again ∧ again.map Identifier.bare = names.map Identifier.bare := by
  cases names with
  | nil => exact ⟨[], List.map_eq_nil_iff.mp (ht.trans words_empty) ▸ .nil, rfl⟩
  | cons name names =>
      rw [List.map_cons, words_commaSeparated, words_of_spells (hs name List.mem_cons_self)] at ht
      obtain ⟨first, rest, rfl, hfirst, hliteral, ht⟩ := exists_token ht
      obtain ⟨again, hmore, hbare⟩ :=
        reread_moreParameters (fun n hn => hs n (List.mem_cons_of_mem name hn)) ht
      refine ⟨⟨first, first.literal⟩ :: again, .cons hfirst hmore, ?_⟩
      rw [List.map_cons, List.map_cons, hbare]
      simp [Identifier.bare, hliteral]

/-! ## Trees -/

mutual

theorem Expr.reread (expr : Expr) (hs : expr.Spelled) (hj : expr.separated = true)
    {tokens : List Token} (ht : tokens.map Token.word = words expr.render) :
    ∃ again, Expression .call tokens again ∧ again.bare = expr.bare := by
  match expr with
  | .identifier name =>
      rw [Expr.render, words_of_spells hs] at ht
      obtain ⟨t, rfl, hk, hl⟩ := exists_last_token ht
      refine ⟨_, .tighter (by decide) (.identifier hk), ?_⟩
      simp [Expr.bare, Identifier.bare, hl]
  | .integer token value =>
      rw [Expr.render, words_of_spells hs.1] at ht
      obtain ⟨t, rfl, hk, hl⟩ := exists_last_token ht
      refine ⟨_, .tighter (by decide) (.integer hk (hl ▸ hs.2)), ?_⟩
      simp [Expr.bare, Token.bare, hl]
  | .boolean token true =>
      rw [Expr.render, words_of_spells hs] at ht
      obtain ⟨t, rfl, hk, hl⟩ := exists_last_token ht
      refine ⟨_, .tighter (by decide) (.true hk), ?_⟩
      simp [Expr.bare, Token.bare, hl]
  | .boolean token false =>
      rw [Expr.render, words_of_spells hs] at ht
      obtain ⟨t, rfl, hk, hl⟩ := exists_last_token ht
      refine ⟨_, .tighter (by decide) (.false hk), ?_⟩
      simp [Expr.bare, Token.bare, hl]
  | .prefixed _ op right =>
      have hright : right.Spelled := hs
      rw [words_prefixed _ op hright] at ht
      obtain ⟨opening, _, rfl, hopening, _, ht⟩ := exists_token ht
      obtain ⟨sign, _, rfl, hsign, _, ht⟩ := exists_token ht
      obtain ⟨rs, _, rfl, hr, ht⟩ := List.map_eq_append_iff.mp ht
      obtain ⟨closing, rfl, hclosing, _⟩ := exists_last_token ht
      obtain ⟨again, hagain, hbare⟩ := right.reread hright hj hr
      have hprefixed : Expression .prefixed (sign :: rs) (.prefixed sign op again) := by
        cases op with
        | not => exact .not hsign (.tighter (by decide) hagain)
        | negate => exact .negate hsign (.tighter (by decide) hagain)
      exact ⟨_, hprefixed.parenthesized hopening hclosing, by simp [Expr.bare, hbare]⟩
  | .infixed _ left op right =>
      rw [words_infixed] at ht
      simp only [Expr.separated, Bool.and_eq_true] at hj
      obtain ⟨opening, _, rfl, hopening, _, ht⟩ := exists_token ht
      obtain ⟨ls, _, rfl, hl, ht⟩ := List.map_eq_append_iff.mp ht
      obtain ⟨sign, _, rfl, hsign, _, ht⟩ := exists_token ht
      obtain ⟨rs, _, rfl, hr, ht⟩ := List.map_eq_append_iff.mp ht
      obtain ⟨closing, rfl, hclosing, _⟩ := exists_last_token ht
      obtain ⟨l, hl', hlbare⟩ := left.reread hs.1 hj.1 hl
      obtain ⟨r, hr', hrbare⟩ := right.reread hs.2 hj.2 hr
      obtain ⟨level, hop, hlevel⟩ := op.exists_level
      refine ⟨.infixed sign l op r, ?_, by simp [Expr.bare, hlbare, hrbare]⟩
      -- Both operands are on the level of calls, and so tight enough for every operator.
      have hinfixed : Expression level (ls ++ sign :: rs) (.infixed sign l op r) :=
        .infixed (hsign ▸ hop) hlevel (.tighter hlevel hl') hr'
      have hgrouped := hinfixed.parenthesized hopening hclosing
      rwa [List.append_assoc, List.cons_append] at hgrouped
  | .conditional _ condition consequence alternative =>
      rw [words_conditional] at ht
      simp only [Expr.separated, Bool.and_eq_true] at hj
      obtain ⟨word, _, rfl, hword, _, ht⟩ := exists_token ht
      obtain ⟨opening, _, rfl, hopening, _, ht⟩ := exists_token ht
      obtain ⟨cs, _, rfl, hc, ht⟩ := List.map_eq_append_iff.mp ht
      obtain ⟨closing, _, rfl, hclosing, _, ht⟩ := exists_token ht
      obtain ⟨condition', hc', hcbare⟩ := condition.reread hs.1 hj.1.1 hc
      obtain ⟨bs, as, rfl, hb, ha⟩ := exists_block ht
      obtain ⟨consequence', hb', hbbare⟩ := consequence.reread hs.2.1 hj.1.2 hb
      match alternative with
      | none =>
          rw [List.map_eq_nil_iff.mp (ha.trans words_empty), List.append_nil]
          exact ⟨_, .tighter (by decide) (.conditional hword hopening hc'.loosest hclosing hb'),
            by simp [Expr.bare, bareAlternative, hcbare, hbbare]⟩
      | some alternative =>
          rw [words_alternative] at ha
          obtain ⟨other, as, rfl, hother, _, ha⟩ := exists_token ha
          obtain ⟨alternative', ha', habare⟩ := alternative.reread hs.2.2 hj.2 ha
          exact ⟨_, .tighter (by decide)
              (.alternative hword hopening hc'.loosest hclosing hb' hother ha'),
            by simp [Expr.bare, bareAlternative, hcbare, hbbare, habare]⟩
  | .function token parameters body =>
      rw [words_function hs.1] at ht
      obtain ⟨word, _, rfl, hword, hliteral, ht⟩ := exists_token ht
      obtain ⟨opening, _, rfl, hopening, _, ht⟩ := exists_token ht
      obtain ⟨ps, _, rfl, hp, ht⟩ := List.map_eq_append_iff.mp ht
      obtain ⟨closing, bs, rfl, hclosing, _, hb⟩ := exists_token ht
      obtain ⟨names, hp', hpbare⟩ := reread_parameters hs.2.1 hp
      obtain ⟨body', hb', hbbare⟩ := body.reread hs.2.2 hj hb
      exact ⟨_, .tighter (by decide) (.function hword hopening hp' hclosing hb'),
        by simp [Expr.bare, Token.bare, hliteral, hpbare, hbbare]⟩
  | .call _ callee arguments =>
      rw [words_call] at ht
      simp only [Expr.separated, Bool.and_eq_true] at hj
      obtain ⟨cs, _, rfl, hc, ht⟩ := List.map_eq_append_iff.mp ht
      obtain ⟨opening, _, rfl, hopening, _, ht⟩ := exists_token ht
      obtain ⟨as, _, rfl, ha, ht⟩ := List.map_eq_append_iff.mp ht
      obtain ⟨closing, rfl, hclosing, _⟩ := exists_last_token ht
      obtain ⟨again, hagain, hbare⟩ := callee.reread hs.1 hj.1 hc
      obtain ⟨args, hargs, hargsbare⟩ := reread_arguments arguments hs.2 hj.2 ha
      exact ⟨.call opening again args, .call hagain hopening hargs hclosing,
        by simp [Expr.bare, hbare, hargsbare]⟩

theorem reread_arguments (args : List Expr) (hs : SpelledAll args) (hj : separatedAll args = true)
    {tokens : List Token} (ht : tokens.map Token.word = words (commaSeparated (renderAll args))) :
    ∃ again, Arguments tokens again ∧ bareAll again = bareAll args := by
  match args with
  | [] => exact ⟨[], List.map_eq_nil_iff.mp (ht.trans words_empty) ▸ .nil, rfl⟩
  | arg :: args =>
      rw [renderAll, words_commaSeparated] at ht
      simp only [separatedAll, Bool.and_eq_true] at hj
      obtain ⟨ts, us, rfl, ha, hm⟩ := List.map_eq_append_iff.mp ht
      obtain ⟨again, hagain, hbare⟩ := arg.reread hs.1 hj.1 ha
      obtain ⟨others, hothers, hothersbare⟩ := reread_moreArguments args hs.2 hj.2 hm
      exact ⟨again :: others, .cons hagain.loosest hothers, by simp [bareAll, hbare, hothersbare]⟩

theorem reread_moreArguments (args : List Expr) (hs : SpelledAll args)
    (hj : separatedAll args = true) {tokens : List Token}
    (ht : tokens.map Token.word =
      (renderAll args).flatMap fun other => (.comma, ",") :: words other) :
    ∃ again, MoreArguments tokens again ∧ bareAll again = bareAll args := by
  match args with
  | [] => exact ⟨[], List.map_eq_nil_iff.mp ht ▸ .nil, rfl⟩
  | arg :: args =>
      rw [renderAll, List.flatMap_cons] at ht
      simp only [separatedAll, Bool.and_eq_true] at hj
      obtain ⟨comma, _, rfl, hcomma, _, ht⟩ := exists_token ht
      obtain ⟨ts, us, rfl, ha, hm⟩ := List.map_eq_append_iff.mp ht
      obtain ⟨again, hagain, hbare⟩ := arg.reread hs.1 hj.1 ha
      obtain ⟨others, hothers, hothersbare⟩ := reread_moreArguments args hs.2 hj.2 hm
      exact ⟨again :: others, .cons hcomma hagain.loosest hothers,
        by simp [bareAll, hbare, hothersbare]⟩

theorem Block.reread (block : Block) (hs : block.Spelled) (hj : block.separated = true)
    {tokens : List Token} (ht : tokens.map Token.word = (.leftBrace, "\x7b") ::
      (words block.render ++ [(.rightBrace, "\x7d")])) :
    ∃ again, Body tokens again ∧ again.bare = block.bare := by
  match block with
  | ⟨_, stmts⟩ =>
      obtain ⟨opening, _, rfl, hopening, _, ht⟩ := exists_token ht
      obtain ⟨ts, _, rfl, hstmts, ht⟩ := List.map_eq_append_iff.mp ht
      obtain ⟨closing, rfl, hclosing, _⟩ := exists_last_token ht
      obtain ⟨again, hagain, hbare⟩ := reread_statements stmts hs hj hstmts
      exact ⟨_, .braces hopening hagain hclosing, by simp [Block.bare, hbare]⟩

/-- A statement is read up to the semicolon that it has if it is not an expression. -/
theorem Stmt.reread (stmt : Stmt) (hs : stmt.Spelled) (hj : stmt.separated = true)
    {tokens : List Token} (ht : tokens.map Token.word = words stmt.render) :
    ∃ ts ending again, tokens = ts ++ ending ∧ Statement ts again ∧ again.bare = stmt.bare ∧
      (stmt.isOpen = true ∧ ending = [] ∨ ∃ s, ending = [s] ∧ s.kind = .semicolon) := by
  match stmt with
  | .letStmt token name value =>
      rw [words_letStmt hs.1 hs.2.1] at ht
      obtain ⟨word, _, rfl, hword, hliteral, ht⟩ := exists_token ht
      obtain ⟨first, _, rfl, hfirst, hname, ht⟩ := exists_token ht
      obtain ⟨sign, _, rfl, hsign, _, ht⟩ := exists_token ht
      obtain ⟨vs, _, rfl, hv, ht⟩ := List.map_eq_append_iff.mp ht
      obtain ⟨semicolon, rfl, hsemicolon, _⟩ := exists_last_token ht
      obtain ⟨again, hagain, hbare⟩ := value.reread hs.2.2 hj hv
      refine ⟨_, [semicolon], _, rfl, .letStmt hword hfirst hsign hagain.loosest, ?_,
        .inr ⟨semicolon, rfl, hsemicolon⟩⟩
      simp [Stmt.bare, Token.bare, Identifier.bare, hliteral, hname, hbare]
  | .returnStmt token value =>
      rw [words_returnStmt hs.1] at ht
      obtain ⟨word, _, rfl, hword, hliteral, ht⟩ := exists_token ht
      obtain ⟨vs, _, rfl, hv, ht⟩ := List.map_eq_append_iff.mp ht
      obtain ⟨semicolon, rfl, hsemicolon, _⟩ := exists_last_token ht
      obtain ⟨again, hagain, hbare⟩ := value.reread hs.2 hj hv
      refine ⟨_, [semicolon], _, rfl, .returnStmt hword hagain.loosest, ?_,
        .inr ⟨semicolon, rfl, hsemicolon⟩⟩
      simp [Stmt.bare, Token.bare, hliteral, hbare]
  | .exprStmt _ expr =>
      obtain ⟨again, hagain, hbare⟩ := expr.reread hs hj ht
      obtain ⟨first, rest, rfl⟩ := List.exists_cons_of_ne_nil hagain.ne_nil
      exact ⟨_, [], _, (List.append_nil _).symm, .exprStmt hagain.loosest,
        by simp [Stmt.bare, hbare], .inl ⟨rfl, rfl⟩⟩

theorem reread_statements (stmts : List Stmt) (hs : SpelledStatements stmts)
    (hj : separatedStatements stmts = true) {tokens : List Token}
    (ht : tokens.map Token.word = words (renderStatements stmts)) :
    ∃ again, Statements tokens again ∧ bareStatements again = bareStatements stmts := by
  match stmts with
  | [] => exact ⟨[], List.map_eq_nil_iff.mp (ht.trans words_empty) ▸ .nil, rfl⟩
  | stmt :: stmts =>
      simp only [separatedStatements, Bool.and_eq_true, Bool.not_eq_true'] at hj
      rw [words_statements hs.2 hj.1.2] at ht
      obtain ⟨front, rest, rfl, hfront, hrest⟩ := List.map_eq_append_iff.mp ht
      obtain ⟨ts, ending, again, rfl, hstmt, hbare, hending⟩ := stmt.reread hs.1 hj.1.1 hfront
      obtain ⟨others, hothers, hothersbare⟩ := reread_statements stmts hs.2 hj.2 hrest
      refine ⟨again :: others, ?_, by simp [bareStatements, hbare, hothersbare]⟩
      rcases hending with ⟨hopen, rfl⟩ | ⟨s, rfl, hsemicolon⟩
      · rw [List.append_nil]
        -- Without a semicolon the statement must not run on into the next one.
        refine .unended hstmt ?_ hothers
        rw [hopen, Bool.true_and] at hj
        obtain ⟨c, hc, _⟩ := Stmt.exists_head hs.1
        exact next_not_runsOn hc hs.2 hj.1.2 hrest
      · rw [List.append_assoc]
        exact .ended hstmt hsemicolon hothers

end

end ClosureLang
