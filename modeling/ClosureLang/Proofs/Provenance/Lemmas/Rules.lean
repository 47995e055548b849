import ClosureLang.Proofs.Provenance.Lemmas.Steps

/-!
# What the rules make of the tokens of a source

One lemma for each rule: the tree that it makes is spelled with words and numbers of the source,
even where errors are recorded on the way. The rules are taken with any way to read the expressions
inside them for which the same is true.
-/

namespace ClosureLang

theorem spelledStatements_iff {stmts : List Stmt} :
    SpelledStatements stmts ↔ ∀ stmt ∈ stmts, stmt.Spelled := by
  induction stmts with
  | nil => simp [SpelledStatements]
  | cons stmt stmts ih => simp [SpelledStatements, ih]

theorem spelledAll_iff {exprs : List Expr} : SpelledAll exprs ↔ ∀ expr ∈ exprs, expr.Spelled := by
  induction exprs with
  | nil => simp [SpelledAll]
  | cons expr exprs ih => simp [SpelledAll, ih]

namespace Parser

variable {α : Type} {source : String} {s : State} {descend : Precedence → Parser Expr}
  {Q : α → Prop}

/-- Whatever the limit, the expressions that are read are spelled so. -/
def Descends (source : String) (descend : Precedence → Parser Expr) : Prop :=
  ∀ limit, Makes source Expr.Spelled (descend limit)

/-! ## Statements -/

theorem makes_ending {value : Parser Expr} (hv : Makes source Expr.Spelled value) {f : Expr → Stmt}
    (hf : ∀ expr, expr.Spelled → (f expr).Spelled) :
    Makes source Stmt.Spelled (do let expr ← value; optionalSemicolon; return f expr) := by
  refine hv.bind fun expr hexpr => ?_
  have hsemicolon : Makes source (fun _ => True) optionalSemicolon := by
    refine Makes.upcoming.bind fun token _ => ?_
    split
    · exact .advance
    · exact .pure trivial
  exact hsemicolon.bind fun _ _ => .pure (hf expr hexpr)

theorem stays_letStatement (hd : Descends source descend)
    (hs : s.Within source) (hk : s.current.kind = .letWord) :
    Stays source Stmt.Spelled (letStatement descend s) := by
  refine Stays.within ?_
  rw [current_bind]
  have hword : Spells .letWord s.current.literal := hs.current.spells hk (by decide)
  refine Makes.bind (.expect _ _) (fun name hname => ?_) _ (hs.note _)
  refine (Makes.expect _ _).bind fun _ _ => Makes.advance.bind fun _ _ => ?_
  exact makes_ending (hd _) fun expr hexpr =>
    ⟨hword, hname.1.spells hname.2 (by decide), hexpr⟩

theorem stays_returnStatement (hd : Descends source descend)
    (hs : s.Within source) (hk : s.current.kind = .returnWord) :
    Stays source Stmt.Spelled (returnStatement descend s) := by
  refine Stays.within ?_
  rw [current_bind]
  have hword : Spells .returnWord s.current.literal := hs.current.spells hk (by decide)
  refine Makes.bind .advance (fun _ _ => ?_) _ (hs.note _)
  exact makes_ending (hd _) fun expr hexpr => ⟨hword, hexpr⟩

theorem makes_statement (hd : Descends source descend) :
    Makes source Stmt.Spelled (statement descend) := by
  intro s hs
  have hexpression : Makes source Stmt.Spelled (expressionStatement descend) :=
    .within _ (Makes.current.bind fun _ _ => makes_ending (hd _) fun _ hexpr => hexpr)
  rw [statement, current_bind]
  cases hk : s.current.kind
  case letWord => exact stays_letStatement hd hs hk
  case returnWord => exact stays_returnStatement hd hs hk
  all_goals exact hexpression s hs

theorem makes_statements (hd : Descends source descend)
    (stops : Kind → Bool) : Makes source SpelledStatements (statements descend stops) := by
  have hadd : ∀ read : List Stmt, (∀ stmt ∈ read, stmt.Spelled) →
      Makes source (fun read => ∀ stmt ∈ read, stmt.Spelled) (addStatement descend read) := by
    intro read hread
    refine (makes_statement hd).attempt.bind fun stmt? hstmt => Makes.advance.bind fun _ _ => ?_
    refine .pure fun stmt hmem => ?_
    cases List.mem_append.mp hmem with
    | inl hmem => exact hstmt stmt (Option.mem_toList.mp hmem)
    | inr hmem => exact hread stmt hmem
  refine (Makes.loop (fun _ => hadd) (by simp)).bind fun read hread => .pure ?_
  exact spelledStatements_iff.mpr fun stmt hmem => hread stmt (List.mem_reverse.mp hmem)

theorem makes_block (hd : Descends source descend) :
    Makes source Block.Spelled (block descend) := by
  refine .within _ (Makes.current.bind fun opening _ => Makes.advance.bind fun _ _ => ?_)
  refine (makes_statements hd _).bind fun stmts hstmts => Makes.current.bind fun last hlast => ?_
  split
  · exact .reject hlast
  · exact .pure hstmts

/-! ## Lists of items -/

theorem makes_items {item : Parser α} (hitem : Makes source Q item) {first : α} (hfirst : Q first) :
    Makes source (fun read => ∀ a ∈ read, Q a) (items item first) := by
  have hadd : ∀ read : List α, (∀ a ∈ read, Q a) →
      Makes source (fun read => ∀ a ∈ read, Q a) (addItem item read) := by
    intro read hread
    refine Makes.advance.bind fun _ _ => hitem.bind fun a ha => .pure ?_
    exact List.forall_mem_cons.mpr ⟨ha, hread⟩
  refine (Makes.loop (fun _ => hadd) (by simpa using hfirst)).bind fun read hread => .pure ?_
  exact fun a hmem => hread a (List.mem_reverse.mp hmem)

theorem makes_parameters :
    Makes source (fun names => ∀ name ∈ names, Spells .identifier name.name) parameters := by
  have hparameter : Makes source (fun name => Spells .identifier name.name)
      (Identifier.ofToken <$> expect .identifier none) :=
    (Makes.expect _ _).map fun token ht => ht.1.spells ht.2 (by decide)
  refine Makes.upcoming.bind fun token _ => ?_
  split
  · exact Makes.advance.bind fun _ _ => .pure (by simp)
  · refine hparameter.bind fun first hfirst => ?_
    refine (makes_items hparameter hfirst).bind fun names hnames => ?_
    exact (Makes.expect _ _).bind fun _ _ => .pure hnames

theorem makes_arguments (hd : Descends source descend) :
    Makes source SpelledAll (arguments descend) := by
  have hargument : Makes source Expr.Spelled (do advance; descend .lowest) :=
    Makes.advance.bind fun _ _ => hd _
  refine Makes.upcoming.bind fun token _ => ?_
  split
  · exact Makes.advance.bind fun _ _ => .pure trivial
  · refine hargument.bind fun first hfirst => ?_
    refine (makes_items hargument hfirst).bind fun exprs hexprs => ?_
    exact (Makes.expect _ _).bind fun _ _ => .pure (spelledAll_iff.mpr hexprs)

/-! ## The beginning of an expression -/

theorem stays_integer (hs : s.Within source) (hk : s.current.kind = .integer) :
    Stays source Expr.Spelled (integer s) := by
  rw [integer, current_bind]
  cases hv : Integer.ofDigits? s.current.literal with
  | none => exact Makes.reject hs.current s hs
  | some value =>
      have hdigits : Spells .integer s.current.literal := hs.current.spells hk (by decide)
      exact .ok hs ⟨hdigits, Integer.ofInt?_eq_some_iff.mp hv⟩

theorem stays_boolean (hs : s.Within source)
    (hk : s.current.kind = .trueWord ∨ s.current.kind = .falseWord) :
    Stays source Expr.Spelled (boolean s) := by
  rw [boolean, current_bind]
  refine .ok hs ?_
  cases hk with
  | inl hk => simpa [Expr.Spelled, hk] using hs.current.spells hk (by decide)
  | inr hk => simpa [Expr.Spelled, hk] using hs.current.spells hk (by decide)

theorem makes_prefixed (hd : Descends source descend) :
    Makes source Expr.Spelled (prefixed descend) := by
  refine .within _ (Makes.current.bind fun token _ => ?_)
  split
  · exact .throw _
  · exact Makes.advance.bind fun _ _ => (hd _).bind fun right hright => .pure hright

theorem makes_grouped (hd : Descends source descend) :
    Makes source Expr.Spelled (grouped descend) := by
  refine Makes.advance.bind fun _ _ => (hd _).bind fun expr hexpr => ?_
  exact (Makes.expect _ _).bind fun _ _ => .pure hexpr

theorem makes_conditional (hd : Descends source descend) :
    Makes source Expr.Spelled (conditional descend) := by
  refine .within _ (Makes.current.bind fun token _ => (Makes.expect _ _).bind fun _ _ => ?_)
  refine Makes.advance.bind fun _ _ => (hd _).bind fun condition hcondition => ?_
  refine (Makes.expect _ _).bind fun _ _ => (Makes.expect _ _).bind fun _ _ => ?_
  refine (makes_block hd).bind fun consequence hconsequence => Makes.upcoming.bind fun other _ => ?_
  split
  · refine Makes.advance.bind fun _ _ => (Makes.expect _ _).bind fun _ _ => ?_
    exact (makes_block hd).bind fun alternative halternative =>
      .pure ⟨hcondition, hconsequence, halternative⟩
  · exact .pure ⟨hcondition, hconsequence, trivial⟩

theorem stays_function (hd : Descends source descend)
    (hs : s.Within source) (hk : s.current.kind = .fnWord) :
    Stays source Expr.Spelled (function descend s) := by
  refine Stays.within ?_
  rw [current_bind]
  have hword : Spells .fnWord s.current.literal := hs.current.spells hk (by decide)
  refine Makes.bind (.expect _ _) (fun _ _ => ?_) _ (hs.note _)
  refine makes_parameters.bind fun names hnames => (Makes.expect _ _).bind fun _ _ => ?_
  exact (makes_block hd).bind fun body hbody => .pure ⟨hword, hnames, hbody⟩

theorem stays_opening (hd : Descends source descend)
    (hs : s.Within source) {opening : Opening}
    (hk : Opening.ofKind? s.current.kind = some opening) :
    Stays source Expr.Spelled (opening.rule descend s) := by
  cases hkind : s.current.kind <;>
    simp only [hkind, Opening.ofKind?, Option.some.injEq, reduceCtorEq] at hk <;> subst hk <;>
    rw [Opening.rule]
  case identifier => exact .ok hs (hs.current.spells hkind (by decide))
  case integer => exact stays_integer hs hkind
  case trueWord => exact stays_boolean hs (.inl hkind)
  case falseWord => exact stays_boolean hs (.inr hkind)
  case bang => exact makes_prefixed hd s hs
  case minus => exact makes_prefixed hd s hs
  case leftParen => exact makes_grouped hd s hs
  case ifWord => exact makes_conditional hd s hs
  case fnWord => exact stays_function hd hs hkind

/-! ## Whole expressions and programs -/

theorem makes_extend (hd : Descends source descend)
    (continuation : Continuation) {left : Expr} (hleft : left.Spelled) :
    Makes source Expr.Spelled (extend descend continuation left) := by
  refine Makes.advance.bind fun _ _ => ?_
  cases continuation with
  | infixed =>
      refine .within _ (Makes.current.bind fun token _ => ?_)
      split
      · exact .throw _
      · exact Makes.advance.bind fun _ _ => (hd _).bind fun right hright => .pure ⟨hleft, hright⟩
  | call =>
      refine .within _ (Makes.current.bind fun token _ => ?_)
      exact (makes_arguments hd).bind fun args hargs => .pure ⟨hleft, hargs⟩

theorem descends_expressionStep (hd : Descends source descend) :
    Descends source (expressionStep descend) := by
  intro limit s hs
  rw [expressionStep, current_bind]
  refine Stays.within ?_
  cases hk : Opening.ofKind? s.current.kind with
  | none => exact Makes.reject hs.current _ (hs.note _)
  | some opening =>
      refine (stays_opening hd (hs.note _) hk).bind fun left hleft => ?_
      exact .loop (fun continuation _ h => makes_extend hd continuation h) hleft

/-- The bound on the depth does not matter. -/
theorem descends_expression : (depth : Nat) → Descends source (expression depth)
  | 0, _ => .throw _
  | depth + 1, limit => descends_expressionStep (descends_expression depth) limit

theorem makes_program (depth : Nat) :
    Makes source (fun whole => SpelledStatements whole.statements) (program depth) :=
  .within _ ((makes_statements (descends_expression depth) _).bind fun _ hstmts => .pure hstmts)

end Parser

/-- Whether or not there are errors, the program is spelled with words and numbers, and every error
blames a token of the source. -/
theorem parse_within_source (source : String) :
    SpelledStatements (parse source).program.statements ∧
      ∀ error ∈ (parse source).errors, error.blamed.IsOf source := by
  have hparsed := Parser.makes_program ((Parser.State.ofString source).tokens.length + 1)
    (Parser.State.ofString source) (.ofString source)
  simp only [parse]
  generalize Parser.program _ (Parser.State.ofString source) = r at hparsed ⊢
  cases hparsed with
  | ok hs hstmts => exact ⟨hstmts, fun error he => hs.errors error (List.mem_reverse.mp he)⟩
  | error hs => exact ⟨trivial, fun error he => hs.errors error (List.mem_reverse.mp he)⟩

end ClosureLang
